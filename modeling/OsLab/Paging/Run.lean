import OsLab.Lib.PagedAddress
import OsLab.Lib.PageReplacement
import OsLab.Paging.LinkedList

/-!
# OsLab.Paging.Run — the page-replacement program

`MemoryManagementPart2.cpp`: the TLB, the physical memory and the page history, the three
`swapPage_*` functions and `Run`, which drives one of them along an address list.

* **`Memory`**: the global arrays and the history list.
* **`Env`**: what `Run` meets and does not control: the backing store, whether it opens at
  each load, and what a call that runs off the end of `swapPage_Optimal` yields.
* **`runTo`**: the state after the first `n` addresses; `run` is all of them.
* **`tlbOf`**: the TLB that shows given frames. `isPageLoaded_tlbOf`, `findEmptyFrame_tlbOf`
  and `updateTlb_tlbOf` say that the TLB functions are the operations on frames.
-/

namespace OsLab.Paging

open DoublyLinked Fallible PageReplacement

/-! ## Globals

The variables of the program that the functions share, and what they take from outside: the backing
store, whether it opens, and the value that a function without a `return` yields. -/

def notFound : Int := -1

/-- `EMPTY`. -/
def emptyMark : Int := -1

abbrev numberOfFrames : Nat := 3
abbrev frameSize : Nat := 256
abbrev numberOfPages : Nat := 256
abbrev pageSize : Nat := 256

/-- `TLB[i]`: `PAGE_NUMBER_INDEX` and `FRAME_NUMBER_INDEX`. -/
structure TlbEntry where
  page : Int
  frame : Int
  deriving DecidableEq, Repr

/-- `physical_memory` (a null frame is `none`), `TLB` and `*history`. -/
structure Memory where
  physicalMemory : Vector (Option (Vector UInt8 frameSize)) numberOfFrames
  tlb : Vector TlbEntry numberOfFrames
  history : LinkedList

/-- `BACKING_STORE.bin` as bytes by position; whether it opens at the load of iteration `PC`;
the value of a call of `swapPage_Optimal` that ends without a `return` in iteration `PC`; and
the rounds the loop of `Remove` is run for. -/
structure Env where
  store : Nat → UInt8
  opens : Nat → Bool
  indeterminate : Nat → Int
  fuel : Nat

inductive Algorithm where
  | fifo
  | lru
  | optimum
  deriving DecidableEq, Repr

/-! ## Addresses

A union of an integer and four bytes. The page number and the offset are two of the bytes, so they
do not depend on the sign. -/

/-- `Address_Type`: byte `i` of the integer, the least significant one first. -/
def strNum (iNum : Int32) (i : Fin 4) : UInt8 :=
  (iNum.toUInt32 >>> UInt32.ofNat (8 * i)).toUInt8

theorem pageByte_lt : 1 < 4 := by decide

/-- Byte `1` of the address. -/
def getPageNumber (address : Int32) : Int := (strNum address ⟨1, pageByte_lt⟩).toNat

theorem getPageNumber_nonneg (address : Int32) : 0 ≤ getPageNumber address :=
  Int.natCast_nonneg _

theorem getPageNumber_lt (address : Int32) : getPageNumber address < numberOfPages :=
  Int.ofNat_lt.mpr (UInt8.toNat_lt _)

theorem offsetByte_lt : 0 < 4 := by decide

/-- Byte `0` of the address. -/
def getPageOffset (address : Int32) : Int := (strNum address ⟨0, offsetByte_lt⟩).toNat

theorem getPageNumber_eq (address : Int32) : getPageNumber address = PagedAddress.page address :=
  congrArg Int.ofNat (PagedAddress.toNat_pageByte address)

theorem getPageOffset_eq (address : Int32) :
    getPageOffset address = PagedAddress.offset address := by
  rw [← PagedAddress.toNat_offsetByte]
  show (((address.toUInt32 >>> 0).toUInt8.toNat : Nat) : Int) = _
  simp

/-! ## The TLB and the frames

The TLB has one entry for each frame, and both tables are searched from the front. -/

def initPhysicalMemory (m : Memory) : Memory :=
  { m with
    physicalMemory := Vector.replicate numberOfFrames none
    tlb := Vector.replicate numberOfFrames { page := emptyMark, frame := emptyMark } }

/-- The first index at which the TLB has the page number. -/
def firstIndex (tlb : Vector TlbEntry numberOfFrames) (page : Int) : Option (Fin numberOfFrames) :=
  (List.finRange numberOfFrames).find? fun i => tlb[i].page == page

/-- `is_PageLoaded(page_number)`. -/
def isPageLoaded (tlb : Vector TlbEntry numberOfFrames) (pageNumber : Int) : Int :=
  match firstIndex tlb pageNumber with
  | some i => tlb[i].frame
  | none => notFound

/-- `findEmptyFrame()`. -/
def findEmptyFrame (tlb : Vector TlbEntry numberOfFrames) : Int :=
  match firstIndex tlb notFound with
  | some i => (i : Nat)
  | none => notFound

/-- `load_LogicalToPhysical(page_number, frame_index)`; `opens` tells whether the backing
store could be opened. Both range checks return `NULL`, that is `false`. -/
def loadLogicalToPhysical (store : Nat → UInt8) (opens : Bool) (m : Memory)
    (pageNumber frameIndex : Int) : Bool × Memory :=
  if pageNumber < 0 ∨ pageNumber > numberOfPages - 1 then (false, m)
  else if frameIndex < 0 ∨ frameIndex > numberOfFrames - 1 then (false, m)
  else if opens then
    let page := Vector.ofFn fun offset : Fin pageSize => store (pageNumber.toNat * pageSize + offset)
    (true, { m with
      physicalMemory := m.physicalMemory.setIfInBounds frameIndex.toNat (some page) })
  else (false, m)

/-- `update_TLB(page_number, frame_index)`, without what it prints. -/
def updateTlb (m : Memory) (pageNumber frameIndex : Int) : Memory :=
  if frameIndex < 0 ∨ frameIndex > numberOfFrames - 1 then m
  else { m with
    tlb := m.tlb.setIfInBounds frameIndex.toNat { page := pageNumber, frame := frameIndex } }

/-- `fetchData(frame_index, offset)`; `none` for an index outside the arrays and for a frame
that is null. -/
def fetchData (m : Memory) (frameIndex offset : Int) : Option UInt8 :=
  if frameIndex < 0 ∨ offset < 0 then none
  else (m.physicalMemory[frameIndex.toNat]?).join.bind fun frame => frame[offset.toNat]?

/-! ## Replacement

FIFO and LRU differ in what they do on a hit. OPTIMUM looks ahead in the address list. -/

/-- The statements `swapPage_FIFO` and `swapPage_LRU` share, for a page that is not loaded. -/
def replaceTail (m : Memory) (page : Int) : Except Fault (Int × Memory) := do
  let frameIndex := findEmptyFrame m.tlb
  if frameIndex = notFound then
    let (swapPage, history) ← m.history.removeTail
    let frameIndex := isPageLoaded m.tlb swapPage
    let history ← history.addToHead page
    .ok (frameIndex, { m with history })
  else
    let history ← m.history.addToHead page
    .ok (frameIndex, { m with history })

/-- `swapPage_FIFO(frame_index_param, page)`. -/
def swapPageFifo (m : Memory) (frameIndexParam page : Int) : Except Fault (Int × Memory) :=
  if frameIndexParam = notFound then replaceTail m page else .ok (frameIndexParam, m)

/-- `swapPage_LRU(frame_index_param, page)`. -/
def swapPageLru (fuel : Nat) (m : Memory) (frameIndexParam page : Int) :
    Except Fault (Int × Memory) :=
  if frameIndexParam = notFound then replaceTail m page
  else do
    let history ← m.history.moveToHead fuel page
    .ok (frameIndexParam, { m with history })

/-- The body of the inner loop of `swapPage_Optimal`, at the address of index `j`. A later
match takes the branch that does nothing. -/
def lookAheadStep (tlbPage : Int) (addressIndex : Nat) : Int32 × Nat → Nat
  | (address, j) =>
    if tlbPage = getPageNumber address then
      if j > addressIndex ∧ addressIndex ≠ 0 then addressIndex else j
    else addressIndex

/-- The inner loop of `swapPage_Optimal`, over the addresses from index `PC + 1` on. -/
def lookAhead (tlbPage : Int) (addressList : List Int32) (current : Nat) : Nat :=
  ((addressList.drop (current + 1)).zipIdx (current + 1)).foldl (lookAheadStep tlbPage) 0

/-- The look-ahead for the page in a frame. -/
def nextUse (tlb : Vector TlbEntry numberOfFrames) (addressList : List Int32) (current : Nat)
    (i : Fin numberOfFrames) : Nat :=
  lookAhead tlb[i].page addressList current

/-- The outer loop over the frames still to look at, with its `break`. -/
def victimLoop (tlb : Vector TlbEntry numberOfFrames) (addressList : List Int32) (current : Nat) :
    List (Fin numberOfFrames) → Nat → Int → Int
  | [], _, frameIndex => frameIndex
  | i :: rest, location, frameIndex =>
    let addressIndex := lookAhead tlb[i].page addressList current
    let (location, frameIndex) :=
      if location < addressIndex then (addressIndex, ((i : Nat) : Int)) else (location, frameIndex)
    if addressIndex = 0 then (i : Nat)
    else victimLoop tlb addressList current rest location frameIndex

/-- `swapPage_Optimal(frame_index_param, addressList, current, addressLength)`; `none` where
control reaches the end of the function without a `return`. -/
def swapPageOptimal (tlb : Vector TlbEntry numberOfFrames) (frameIndexParam : Int)
    (addressList : List Int32) (current : Nat) : Option Int :=
  if frameIndexParam = notFound then
    let frameIndex := findEmptyFrame tlb
    if frameIndex = notFound then
      some (victimLoop tlb addressList current (List.finRange numberOfFrames) 0 frameIndex)
    else some frameIndex
  else none

/-! ## The driver

`Run` goes through the addresses: look the page up, choose a frame, load the page there. -/

structure RunState where
  memory : Memory
  faultCount : Nat

/-- The `switch` of `Run` in iteration `PC`. -/
def swapPage (env : Env) (addressList : List Int32) (alg : Algorithm) (m : Memory) (PC : Nat)
    (frameIndex page : Int) : Except Fault (Int × Memory) :=
  match alg with
  | .fifo => swapPageFifo m frameIndex page
  | .optimum =>
    .ok ((swapPageOptimal m.tlb frameIndex addressList PC).getD (env.indeterminate PC), m)
  | .lru => swapPageLru env.fuel m frameIndex page

/-- One round of the loop of `Run`: the address at index `PC`. -/
def runStep (env : Env) (addressList : List Int32) (alg : Algorithm) (s : RunState) (PC : Nat)
    (address : Int32) : Except Fault RunState := do
  let page := getPageNumber address
  let frameIndex := isPageLoaded s.memory.tlb page
  let faultCount := if frameIndex = notFound then s.faultCount + 1 else s.faultCount
  let (frameIndex, memory) ← swapPage env addressList alg s.memory PC frameIndex page
  let (loaded, memory) := loadLogicalToPhysical env.store (env.opens PC) memory page frameIndex
  let memory := if loaded then updateTlb memory page frameIndex else memory
  .ok { memory, faultCount }

/-- The state of `Run` after the addresses at indices below `n`. -/
def runTo (env : Env) (m : Memory) (addressList : List Int32) (alg : Algorithm) (n : Nat) :
    Except Fault RunState :=
  (addressList.zipIdx.take n).foldlM
    (fun s (address, PC) => runStep env addressList alg s PC address)
    { memory := initPhysicalMemory m, faultCount := 0 }

/-- `Run(address_list, length, alg)`: the fault count it returns, with the memory it leaves. -/
def run (env : Env) (m : Memory) (addressList : List Int32) (alg : Algorithm) :
    Except Fault RunState :=
  runTo env m addressList alg addressList.length

theorem runTo_zero (env : Env) (m : Memory) (addressList : List Int32) (alg : Algorithm) :
    runTo env m addressList alg 0 = .ok { memory := initPhysicalMemory m, faultCount := 0 } := rfl

theorem runTo_succ (env : Env) (m : Memory) {addressList : List Int32} (alg : Algorithm) {n : Nat}
    {address : Int32} (h : addressList[n]? = some address) :
    runTo env m addressList alg (n + 1)
      = runTo env m addressList alg n >>= fun s => runStep env addressList alg s n address := by
  have hn : addressList.zipIdx[n]? = some (address, n) := by
    rw [List.getElem?_zipIdx, h, Option.map_some, Nat.zero_add]
  rw [runTo, runTo, List.take_add_one, hn, Option.toList_some, List.foldlM_append]
  congr 1
  funext s
  exact bind_pure _

/-! ## The TLB shows the frames

The TLB is written at the index of the frame that is loaded, so its entries are those of the frames
in order. What the program finds by searching the TLB is then what the policy finds in its frames.
-/

def entryOf (i : Fin numberOfFrames) : Option Int → TlbEntry
  | none => { page := emptyMark, frame := emptyMark }
  | some page => { page, frame := (i : Nat) }

/-- The TLB in which entry `i` is for frame `i`. -/
def tlbOf (frames : Frames numberOfFrames Int) : Vector TlbEntry numberOfFrames :=
  Vector.ofFn fun i => entryOf i (frames i)

/-- Page numbers are not negative, so none is mistaken for `EMPTY`. -/
def PagesNonneg (frames : Frames numberOfFrames Int) : Prop :=
  ∀ ⦃i p⦄, frames i = some p → 0 ≤ p

theorem PagesNonneg.load {frames : Frames numberOfFrames Int} (h : PagesNonneg frames) {r : Int}
    (hr : 0 ≤ r) (i : Fin numberOfFrames) : PagesNonneg (frames.load i r) := by
  intro j p hj
  by_cases hji : j = i
  · subst hji
    rw [Frames.load_self] at hj
    exact Option.some.inj hj ▸ hr
  · rw [Frames.load_of_ne hji] at hj
    exact h hj

variable {frames : Frames numberOfFrames Int}

@[simp] theorem getElem_tlbOf (i : Fin numberOfFrames) : (tlbOf frames)[i] = entryOf i (frames i) := by
  rw [tlbOf, Fin.getElem_fin, Vector.getElem_ofFn]

@[simp] theorem get_tlbOf (i : Fin numberOfFrames) : (tlbOf frames).get i = entryOf i (frames i) :=
  getElem_tlbOf i

/-- At the start all entries are `EMPTY`. -/
theorem tlbOf_init (m : Memory) : (initPhysicalMemory m).tlb = tlbOf fun _ => none := rfl

/-- The index found is the frame with the page. -/
theorem firstIndex_tlbOf {page : Int} (hpage : 0 ≤ page) :
    firstIndex (tlbOf frames) page = frames.frameOf? page := by
  unfold firstIndex Frames.frameOf?
  congr 1
  funext i
  rw [getElem_tlbOf]
  cases frames i with
  | none =>
    have hne : emptyMark ≠ page := by unfold emptyMark; omega
    simp [entryOf, hne]
  | some q => simp [entryOf, Bool.beq_eq_decide_eq]

/-- `is_PageLoaded` returns that frame, or `-1`. -/
theorem isPageLoaded_tlbOf {page : Int} (hpage : 0 ≤ page) :
    isPageLoaded (tlbOf frames) page
      = (frames.frameOf? page).elim notFound fun i => ((i : Nat) : Int) := by
  rw [isPageLoaded, firstIndex_tlbOf hpage]
  cases hfind : frames.frameOf? page with
  | none => rfl
  | some i =>
    show (tlbOf frames)[i].frame = _
    rw [getElem_tlbOf, Frames.frameOf?_some hfind]
    rfl

/-- `findEmptyFrame` returns the first empty frame, or `-1`. -/
theorem findEmptyFrame_tlbOf (h : PagesNonneg frames) :
    findEmptyFrame (tlbOf frames)
      = frames.empty?.elim notFound fun i => ((i : Nat) : Int) := by
  have hfirst : firstIndex (tlbOf frames) notFound = frames.empty? := by
    unfold firstIndex Frames.empty?
    congr 1
    funext i
    rw [getElem_tlbOf]
    cases hi : frames i with
    | none => rfl
    | some q =>
      have hne : q ≠ notFound := by
        have hq := h hi
        unfold notFound
        omega
      simp [entryOf, hne]
  rw [findEmptyFrame, hfirst]
  cases frames.empty? <;> rfl

theorem index_ne_notFound (i : Fin numberOfFrames) : ((i : Nat) : Int) ≠ notFound := by
  unfold notFound
  omega

/-- `-1` means that no frame has the page. -/
theorem isPageLoaded_eq_notFound_iff {page : Int} (hpage : 0 ≤ page) :
    isPageLoaded (tlbOf frames) page = notFound ↔ frames.frameOf? page = none := by
  rw [isPageLoaded_tlbOf hpage]
  cases frames.frameOf? page with
  | none => exact iff_of_true rfl rfl
  | some i => exact iff_of_false (index_ne_notFound i) (Option.some_ne_none i)

/-! ## One round

A round ends with the load and, if it succeeded, the TLB update: `afterLoad`. -/

/-- The bytes of the backing store that a page holds. -/
def pageOf (store : Nat → UInt8) (page : Int) : Vector UInt8 pageSize :=
  Vector.ofFn fun offset => store (page.toNat * pageSize + offset)

def afterLoad (store : Nat → UInt8) (opens : Bool) (m : Memory) (page frameIndex : Int) : Memory :=
  let (loaded, m') := loadLogicalToPhysical store opens m page frameIndex
  if loaded then updateTlb m' page frameIndex else m'

/-- A load that returns `NULL` changes nothing. -/
theorem afterLoad_of_not_loaded {store : Nat → UInt8} {opens : Bool} {m : Memory}
    {page frameIndex : Int}
    (hload : loadLogicalToPhysical store opens m page frameIndex = (false, m)) :
    afterLoad store opens m page frameIndex = m := by
  rw [afterLoad, hload]
  rfl

theorem afterLoad_failed (store : Nat → UInt8) (m : Memory) (page frameIndex : Int) :
    afterLoad store false m page frameIndex = m := by
  apply afterLoad_of_not_loaded
  unfold loadLogicalToPhysical
  split
  · rfl
  · split
    · rfl
    · exact if_neg Bool.false_ne_true

/-- The range check of the load also turns away the frame index `-1`. -/
theorem afterLoad_notFound (store : Nat → UInt8) (opens : Bool) (m : Memory) (page : Int) :
    afterLoad store opens m page notFound = m := by
  apply afterLoad_of_not_loaded
  unfold loadLogicalToPhysical
  split
  · rfl
  · exact if_pos (Or.inl (by decide))

/-- A load that opens the backing store, and the TLB update after it. -/
theorem afterLoad_loaded {m : Memory} (hm : m.tlb = tlbOf frames) (store : Nat → UInt8)
    {page : Int} (hpage : 0 ≤ page) (hlt : page < numberOfPages) (i : Fin numberOfFrames) :
    (afterLoad store true m page (i : Nat)).tlb = tlbOf (frames.load i page)
      ∧ (afterLoad store true m page (i : Nat)).physicalMemory
          = m.physicalMemory.setIfInBounds i (some (pageOf store page))
      ∧ (afterLoad store true m page (i : Nat)).history = m.history := by
  have hi : ¬ (((i : Nat) : Int) < 0 ∨ ((i : Nat) : Int) > numberOfFrames - 1) := by
    have hi := i.isLt
    omega
  have hp : ¬ (page < 0 ∨ page > numberOfPages - 1) := by omega
  rw [afterLoad, loadLogicalToPhysical, if_neg hp, if_neg hi, if_pos rfl]
  dsimp only
  rw [if_pos rfl, updateTlb, if_neg hi]
  refine ⟨?_, rfl, rfl⟩
  show m.tlb.setIfInBounds _ _ = _
  rw [hm]
  -- entry by entry
  refine Vector.ext fun j hj => ?_
  have hnew : (tlbOf (frames.load i page))[j] = entryOf ⟨j, hj⟩ (frames.load i page ⟨j, hj⟩) :=
    getElem_tlbOf ⟨j, hj⟩
  have hold : (tlbOf frames)[j] = entryOf ⟨j, hj⟩ (frames ⟨j, hj⟩) := getElem_tlbOf ⟨j, hj⟩
  rw [Vector.getElem_setIfInBounds, hnew, hold, Int.toNat_natCast]
  split
  · next heq =>
    subst heq
    rw [Frames.load_self]
    rfl
  · next hne =>
    rw [Frames.load_of_ne (fun heq => hne (congrArg Fin.val heq).symm)]

/-- A page that is loaded stays where it is, whether the load succeeds or not. -/
theorem afterLoad_hit {m : Memory} (hm : m.tlb = tlbOf frames) (store : Nat → UInt8) (opens : Bool)
    {page : Int} (hpage : 0 ≤ page) (hlt : page < numberOfPages) {i : Fin numberOfFrames}
    (hi : frames i = some page) :
    (afterLoad store opens m page (i : Nat)).tlb = tlbOf frames
      ∧ (afterLoad store opens m page (i : Nat)).history = m.history := by
  cases opens with
  | false =>
    rw [afterLoad_failed]
    exact ⟨hm, rfl⟩
  | true =>
    obtain ⟨htlb, -, hhistory⟩ := afterLoad_loaded hm store hpage hlt i
    rw [Frames.load_eq_self hi] at htlb
    exact ⟨htlb, hhistory⟩

variable {env : Env} {addressList : List Int32} {alg : Algorithm} {r : RunState} {PC : Nat}
  {address : Int32} {m : Memory}

/-- A round is the swap function followed by `afterLoad`. -/
theorem runStep_eq {frameIndex : Int}
    (hswap : swapPage env addressList alg r.memory PC
      (isPageLoaded r.memory.tlb (getPageNumber address)) (getPageNumber address)
        = .ok (frameIndex, m)) :
    runStep env addressList alg r PC address
      = .ok ⟨afterLoad env.store (env.opens PC) m (getPageNumber address) frameIndex,
          if isPageLoaded r.memory.tlb (getPageNumber address) = notFound
            then r.faultCount + 1 else r.faultCount⟩ := by
  rw [runStep, hswap, ok_bind]
  rfl

/-- A round that has come through has a swap and a load. -/
theorem of_runStep {r' : RunState} (h : runStep env addressList alg r PC address = .ok r') :
    ∃ frameIndex m,
      swapPage env addressList alg r.memory PC (isPageLoaded r.memory.tlb (getPageNumber address))
          (getPageNumber address) = .ok (frameIndex, m)
        ∧ r'.memory = afterLoad env.store (env.opens PC) m (getPageNumber address) frameIndex := by
  have hround := h
  rw [runStep] at h
  obtain ⟨⟨frameIndex, m⟩, hswap, -⟩ := of_bind_eq_ok h
  rw [runStep_eq hswap] at hround
  cases hround
  exact ⟨frameIndex, m, hswap, rfl⟩

/-- A round whose page ends up in frame `i`. -/
theorem runStep_loaded {i : Fin numberOfFrames} (hopens : env.opens PC = true)
    (hswap : swapPage env addressList alg r.memory PC
      (isPageLoaded r.memory.tlb (getPageNumber address)) (getPageNumber address)
        = .ok (((i : Nat) : Int), m))
    (hm : m.tlb = tlbOf frames) :
    ∃ m', runStep env addressList alg r PC address
        = .ok ⟨m', if isPageLoaded r.memory.tlb (getPageNumber address) = notFound
            then r.faultCount + 1 else r.faultCount⟩
      ∧ m'.tlb = tlbOf (frames.load i (getPageNumber address)) ∧ m'.history = m.history := by
  obtain ⟨htlb, -, hhistory⟩ := afterLoad_loaded hm env.store (getPageNumber_nonneg address)
    (getPageNumber_lt address) i
  refine ⟨_, ?_, htlb, hhistory⟩
  rw [runStep_eq hswap, hopens]

/-- The page numbers of an address list, the reference string. -/
def pages (addressList : List Int32) : List Int := addressList.map getPageNumber

end OsLab.Paging
