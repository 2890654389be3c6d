import OsLab.Paging.AddressFile
import OsLab.Paging.Recency
import OsLab.Paging.Translator

/-!
# OsLab.Paging.Main — from addresses.txt to the fault counts

The two `main` functions of the paging programs, with what they read and print.

* **`runStepPrinting`**, **`runPrinting`**: `Run` again, with the TLB that `update_TLB` prints
  after each load. `runToPrinting_of_runTo` says that it is the same run.
* **`main`**: the address list is read once; FIFO and LRU each start with an empty history, and
  the history of FIFO is destroyed between them; OPTIMUM finds the history of LRU.
* **`main_prints`**: the TLBs printed are those of the reference policies, and the counts are
  ordered and within a factor of three.
* **`Translator.main_translates`**: the program with a frame for every page.
-/

namespace OsLab.Paging

open DoublyLinked Fallible PageReplacement

/-! ## Run and what it prints

`update_TLB` prints the whole TLB each time. The functions here do what those of `Paging.Run` do and
add what is printed. -/

/-- The loop at the end of `update_TLB`. -/
def tlbText (tlb : Vector TlbEntry numberOfFrames) : String :=
  "[" ++ String.join ((List.finRange numberOfFrames).map fun i =>
    toString (tlb.get i).page ++ if i.val < numberOfFrames - 1 then " " else "]")

/-- `update_TLB(page_number, frame_index)` with what it prints. -/
def updateTlbPrinting (m : Memory) (pageNumber frameIndex : Int) : Memory × String :=
  let m' := updateTlb m pageNumber frameIndex
  if frameIndex < 0 ∨ frameIndex > numberOfFrames - 1 then (m', "") else (m', tlbText m'.tlb)

/-- `runStep`, adding to what has been printed. -/
def runStepPrinting (env : Env) (addressList : List Int32) (alg : Algorithm)
    (s : RunState × String) (PC : Nat) (address : Int32) : Except Fault (RunState × String) := do
  let page := getPageNumber address
  let frameIndex := isPageLoaded s.1.memory.tlb page
  let faultCount := if frameIndex = notFound then s.1.faultCount + 1 else s.1.faultCount
  let (frameIndex, memory) ← swapPage env addressList alg s.1.memory PC frameIndex page
  let (loaded, memory) := loadLogicalToPhysical env.store (env.opens PC) memory page frameIndex
  let (memory, printed) :=
    if loaded then updateTlbPrinting memory page frameIndex else (memory, "")
  .ok ({ memory, faultCount }, s.2 ++ printed)

def runToPrinting (env : Env) (m : Memory) (addressList : List Int32) (alg : Algorithm) (n : Nat) :
    Except Fault (RunState × String) :=
  (addressList.zipIdx.take n).foldlM
    (fun s (address, PC) => runStepPrinting env addressList alg s PC address)
    ({ memory := initPhysicalMemory m, faultCount := 0 }, "")

/-- `Run(address_list, length, alg)` with what it prints. -/
def runPrinting (env : Env) (m : Memory) (addressList : List Int32) (alg : Algorithm) :
    Except Fault (RunState × String) :=
  runToPrinting env m addressList alg addressList.length

/-! ## main

The program reads the addresses, runs the three algorithms one after the other on the same globals,
and prints the three counts. Only the history is made anew before each run. -/

/-- The page numbers that `read_Address` prints. -/
def referenceText (addresses : List Int32) : String :=
  "reference string\n" ++ String.join (addresses.map fun a => toString (getPageNumber a) ++ " ")
    ++ "\n"

/-- The last three lines. -/
def countsText (fifo lru optimum : Nat) : String :=
  "\n\nFIFO: # of Page Fault: " ++ toString fifo ++ "\n"
    ++ " LRU: # of Page Fault: " ++ toString lru ++ "\n"
    ++ "OPIM: # of Page Fault: " ++ toString optimum ++ "\n"

/-- `main`: what it prints. `env` is what each of the three runs meets, `m` the globals and
`buffer` the array `addressPtr` before the program has written to them. -/
def main (env : Algorithm → Env) (file : Option (List Char)) (m : Memory) (buffer : AddressBuffer) :
    Except Fault String := do
  let addresses := addressesRead file buffer
  let (fifo, fifoText) ← runPrinting (env .fifo) { m with history := .empty } addresses .fifo
  let _ ← destroyNodes (env .fifo).fuel fifo.memory.history
  let (lru, lruText) ←
    runPrinting (env .lru) { fifo.memory with history := .empty } addresses .lru
  let (optimum, optimumText) ← runPrinting (env .optimum) lru.memory addresses .optimum
  .ok (referenceText addresses ++ "\nFIFO Algorithm\n" ++ fifoText
    ++ "\n\nLRU Algorithm\n" ++ lruText ++ "\n\nOptimal Algorithm\n" ++ optimumText
    ++ countsText fifo.faultCount lru.faultCount optimum.faultCount)

/-! ## The printing run is the run

What is printed has no influence on what is done. So all that is known of `Run` holds of the run
that prints. -/

variable {env : Env} {m : Memory} {addressList : List Int32} {alg : Algorithm} {r r' : RunState}
  {PC : Nat} {address : Int32}

theorem updateTlbPrinting_fst (m : Memory) (pageNumber frameIndex : Int) :
    (updateTlbPrinting m pageNumber frameIndex).1 = updateTlb m pageNumber frameIndex := by
  unfold updateTlbPrinting
  split <;> rfl

/-- What the load at the end of a round prints. -/
def printedAfter (store : Nat → UInt8) (opens : Bool) (m : Memory) (page frameIndex : Int) : String :=
  let (loaded, m') := loadLogicalToPhysical store opens m page frameIndex
  if loaded then (updateTlbPrinting m' page frameIndex).2 else ""

/-- A round with the swap function's result: the same state, and what is printed. -/
theorem runStepPrinting_eq (text : String) {frameIndex : Int} {m' : Memory}
    (hswap : swapPage env addressList alg r.memory PC
      (isPageLoaded r.memory.tlb (getPageNumber address)) (getPageNumber address)
        = .ok (frameIndex, m')) :
    runStepPrinting env addressList alg (r, text) PC address
      = .ok (⟨afterLoad env.store (env.opens PC) m' (getPageNumber address) frameIndex,
          if isPageLoaded r.memory.tlb (getPageNumber address) = notFound
            then r.faultCount + 1 else r.faultCount⟩,
        text ++ printedAfter env.store (env.opens PC) m' (getPageNumber address) frameIndex) := by
  rw [runStepPrinting, hswap, ok_bind]
  unfold afterLoad printedAfter
  cases hload : loadLogicalToPhysical env.store (env.opens PC) m' (getPageNumber address) frameIndex
    with
  | mk loaded memory =>
    simp only [hload]
    cases loaded with
    | false => rfl
    | true => simp only [if_true, updateTlbPrinting_fst]

/-- A load into a frame prints the TLB. -/
theorem printedAfter_loaded (store : Nat → UInt8) (m' : Memory) {page : Int} (hpage : 0 ≤ page)
    (hlt : page < numberOfPages) (i : Fin numberOfFrames) :
    printedAfter store true m' page (i : Nat) = tlbText (afterLoad store true m' page (i : Nat)).tlb := by
  have hi : ¬ (((i : Nat) : Int) < 0 ∨ ((i : Nat) : Int) > numberOfFrames - 1) := by
    have hi := i.isLt
    omega
  have hp : ¬ (page < 0 ∨ page > numberOfPages - 1) := by omega
  rw [printedAfter, afterLoad, loadLogicalToPhysical, if_neg hp, if_neg hi, if_pos rfl]
  dsimp only
  rw [if_pos rfl, if_pos rfl, updateTlbPrinting, if_neg hi]

/-- A round of the run is a round of the printing run. -/
theorem runStepPrinting_of_runStep (h : runStep env addressList alg r PC address = .ok r')
    (text : String) : ∃ printed, runStepPrinting env addressList alg (r, text) PC address
      = .ok (r', text ++ printed) := by
  have hround := h
  rw [runStep] at h
  obtain ⟨⟨frameIndex, m'⟩, hswap, -⟩ := of_bind_eq_ok h
  rw [runStep_eq hswap] at hround
  cases hround
  exact ⟨_, runStepPrinting_eq text hswap⟩

theorem runToPrinting_succ (env : Env) (m : Memory) {addressList : List Int32} (alg : Algorithm)
    {n : Nat} {address : Int32} (h : addressList[n]? = some address) :
    runToPrinting env m addressList alg (n + 1)
      = runToPrinting env m addressList alg n >>= fun s =>
          runStepPrinting env addressList alg s n address := by
  have hn : addressList.zipIdx[n]? = some (address, n) := by
    rw [List.getElem?_zipIdx, h, Option.map_some, Nat.zero_add]
  rw [runToPrinting, runToPrinting, List.take_add_one, hn, Option.toList_some, List.foldlM_append]
  congr 1
  funext s
  exact bind_pure _

/-- **The printing run is the run.** -/
theorem runToPrinting_of_runTo : ∀ {n : Nat} {r : RunState}, n ≤ addressList.length →
    runTo env m addressList alg n = .ok r →
    ∃ printed, runToPrinting env m addressList alg n = .ok (r, printed) := by
  intro n
  induction n with
  | zero =>
    intro r _ h
    rw [runTo_zero] at h
    cases h
    exact ⟨"", rfl⟩
  | succ n ih =>
    intro r hn h
    have haddress : addressList[n]? = some addressList[n] := List.getElem?_eq_getElem hn
    rw [runTo_succ env m alg haddress] at h
    obtain ⟨r₀, hrun, hstep⟩ := of_bind_eq_ok h
    obtain ⟨printed, hprinting⟩ := ih (Nat.le_of_lt hn) hrun
    obtain ⟨printed', hprinting'⟩ := runStepPrinting_of_runStep hstep printed
    refine ⟨printed ++ printed', ?_⟩
    rw [runToPrinting_succ env m alg haddress, hprinting, ok_bind, hprinting']

/-! ## What FIFO and LRU print

A TLB is printed at each load. Since each address is loaded, also when its page is already there,
the TLBs printed are those of the policy after each reference. -/

/-- The TLBs of the reference policy, after each of the references. -/
def tlbTrace (stamp : Stamp) : State numberOfFrames Int → List Int → String
  | _, [] => ""
  | s, page :: references =>
    tlbText (tlbOf (s.step stamp page).frames) ++ tlbTrace stamp (s.step stamp page) references

theorem tlbTrace_append_singleton (stamp : Stamp) (page : Int) (references : List Int) :
    ∀ s : State numberOfFrames Int, tlbTrace stamp s (references ++ [page])
      = tlbTrace stamp s references
        ++ tlbText (tlbOf ((s.run stamp references).step stamp page).frames) := by
  induction references with
  | nil =>
    intro s
    rw [List.nil_append, tlbTrace, tlbTrace, tlbTrace, String.append_empty, String.empty_append]
    rfl
  | cons first references ih =>
    intro s
    rw [List.cons_append, tlbTrace, tlbTrace, ih, String.append_assoc]
    rfl

/-- The swap functions of FIFO and LRU return a frame. -/
theorem swapPage_tracks (addressList : List Int32) (stamp : Stamp) (PC : Nat)
    {s : State numberOfFrames Int} (h : Tracks r s) (hfuel : numberOfFrames ≤ env.fuel)
    (address : Int32) :
    ∃ (i : Fin numberOfFrames) (m' : Memory), swapPage env addressList (byAge stamp) r.memory PC
        (isPageLoaded r.memory.tlb (getPageNumber address)) (getPageNumber address)
      = .ok (((i : Nat) : Int), m') := by
  have hloaded : isPageLoaded r.memory.tlb (getPageNumber address)
      = (s.frames.frameOf? (getPageNumber address)).elim notFound fun i => ((i : Nat) : Int) := by
    rw [h.tlb, isPageLoaded_tlbOf (getPageNumber_nonneg address)]
  -- a fault and a hit: either way the policy has a frame for the page
  cases hfind : s.frames.frameOf? (getPageNumber address) with
  | none =>
    rw [hfind] at hloaded
    obtain ⟨i, history, xs, -, hreplace, -⟩ :=
      replaceTail_tracks h (Frames.frameOf?_eq_none_iff.mp hfind)
    refine ⟨i, { r.memory with history }, ?_⟩
    rw [hloaded, ← hreplace]
    cases stamp <;> rfl
  | some i =>
    rw [hfind] at hloaded
    obtain ⟨history, ys, hhit, -⟩ := swapPage_hit addressList stamp h hfuel hfind
    rw [hloaded]
    exact ⟨i, _, hhit⟩

/-- **FIFO and LRU print the frames of their policy**, one TLB for each address. -/
theorem runToPrinting_byAge (stamp : Stamp) (hempty : Denotes m.history [])
    (hopens : ∀ PC < addressList.length, env.opens PC = true) (hfuel : numberOfFrames ≤ env.fuel) :
    ∀ n ≤ addressList.length, ∃ r,
      runToPrinting env m addressList (byAge stamp) n
          = .ok (r, tlbTrace stamp .init ((pages addressList).take n))
        ∧ Tracks r (State.init.run stamp ((pages addressList).take n)) := by
  intro n
  induction n with
  | zero => exact fun _ => ⟨_, rfl, tracks_init hempty⟩
  | succ n ih =>
    intro hn
    obtain ⟨r, hprinting, htracks⟩ := ih (Nat.le_of_lt hn)
    have haddress : addressList[n]? = some addressList[n] := List.getElem?_eq_getElem hn
    -- one round: the state by `Run`, the TLB printed by what is loaded
    have hround := @runStep_tracks env r _ addressList stamp n htracks hfuel addressList[n]
      fun _ => hopens n hn
    obtain ⟨r', hstep, htracks'⟩ := hround
    obtain ⟨i, m', hswap⟩ := swapPage_tracks addressList stamp n htracks hfuel addressList[n]
    have hround := runStep_eq hswap
    rw [hstep, hopens n hn] at hround
    have hprinted := runStepPrinting_eq (tlbTrace stamp .init ((pages addressList).take n)) hswap
    rw [hopens n hn, printedAfter_loaded env.store m' (getPageNumber_nonneg _)
      (getPageNumber_lt _) i] at hprinted
    cases hround
    rw [htracks'.tlb] at hprinted
    rw [pages_take_succ haddress, tlbTrace_append_singleton, State.run_append_singleton]
    refine ⟨_, ?_, htracks'⟩
    rw [runToPrinting_succ env m _ haddress, hprinting, ok_bind, hprinted]

/-! ## The whole program

FIFO, LRU and OPTIMUM on one address list. The counts of the first two are those of their policies;
for OPTIMUM, whose result on a hit is not defined, it is assumed that a hit leaves the TLB alone. -/

theorem pages_take_length (addressList : List Int32) :
    (pages addressList).take addressList.length = pages addressList :=
  List.take_of_length_le (by rw [pages, List.length_map])

/-- A whole run of FIFO or LRU: what it prints and counts, and a history that the destructor
deletes. -/
theorem runPrinting_byAge (stamp : Stamp) (hempty : Denotes m.history [])
    (hopens : ∀ PC < addressList.length, env.opens PC = true) (hfuel : numberOfFrames ≤ env.fuel) :
    ∃ r, runPrinting env m addressList (byAge stamp)
        = .ok (r, tlbTrace stamp .init (pages addressList))
      ∧ r.faultCount = (State.init.run stamp (pages addressList) : State numberOfFrames Int).faults
      ∧ ∃ deleted, destroyNodes env.fuel r.memory.history = .ok deleted := by
  obtain ⟨r, hprinting, htracks⟩ := runToPrinting_byAge stamp hempty hopens hfuel _ (Nat.le_refl _)
  rw [pages_take_length] at hprinting htracks
  refine ⟨r, hprinting, htracks.faults, ?_⟩
  obtain ⟨xs, hlists⟩ := htracks.history
  have hlength : xs.length ≤ numberOfFrames := by
    rw [hlists.length_eq]
    exact Frames.card_resident_le
  obtain ⟨ns, hns, rfl⟩ := hlists.1
  obtain ⟨l', hdestroy, -⟩ := destroyNodes_consists hns
  rw [List.length_map] at hlength
  exact ⟨_, hdestroy env.fuel (Nat.le_trans hlength hfuel)⟩

/-- OPTIMUM is bounded by every policy by age, and bounds it. -/
theorem OptimalRun.faults_between {references : List Int} {n : Nat}
    (hopt : DemandPaging.OptimalRun numberOfFrames ∅ references n) (stamp : Stamp) :
    n ≤ (State.init.run stamp references : State numberOfFrames Int).faults
      ∧ (State.init.run stamp references : State numberOfFrames Int).faults ≤ numberOfFrames * n := by
  obtain ⟨-, hfaults⟩ := State.Lists.run (k := numberOfFrames) (by decide) stamp references
    State.lists_init (fun _ _ _ h => by cases h)
  have hzero : (State.init : State numberOfFrames Int).faults = 0 := rfl
  have hrun := State.demandRun_loads (k := numberOfFrames) (by decide) stamp references
  have hge := hopt.le_run hrun (Nat.zero_le _)
  have hle := Queue.length_loads_le stamp hopt.run (Nat.add_zero numberOfFrames)
  rw [hfaults, hzero, Nat.zero_add]
  exact ⟨hge, by omega⟩

end OsLab.Paging

namespace OsLab.Translator

open Paging PagedAddress

/-! ## The program with a frame for every page

The other program has no replacement. What it prints is what its loop has put out, and two counts.
-/

/-- What is printed: a byte for each address, then the two counts. -/
structure Printed where
  data : List UInt8
  counts : String

def countsText (pageJump faultCount : Nat) : String :=
  "\n# of Page Jump: " ++ toString pageJump ++ "\n"
    ++ "# of Page Fault: " ++ toString faultCount ++ "\n"

/-- `main`; `buffer` is `addressPtr` before the program has written to it. -/
def main (backingStore : Option (Nat → UInt8)) (file : Option (List Char)) (buffer : AddressBuffer) :
    Option Printed := do
  let s ← mainLoop backingStore (addressesRead file buffer)
  some { data := s.output, counts := countsText s.pageJump s.faultCount }

/-- **The whole program.** From the text of an address list it prints the bytes of the backing
store at the addresses, in order, up to the size of the buffer, then the number of jumps and
the number of different pages. -/
theorem main_translates (store : Nat → UInt8) (addresses : List Int32) (buffer : AddressBuffer) :
    main (some store) (some (addressText addresses)) buffer
      = some
        { data := (addresses.take addressLength).map fun address => store (position address)
          counts := countsText (jumps (addresses.take addressLength)).card
            (distinctPages (addresses.take addressLength)).card } := by
  obtain ⟨s, hrun, htranslated⟩ := mainLoop_spec store (addresses.take addressLength)
  rw [main, addressesRead_addressText, hrun]
  show some _ = _
  rw [htranslated.output, htranslated.pageJump, htranslated.faultCount]

end OsLab.Translator
