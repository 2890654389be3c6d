import OsLab.Paging.Run

/-!
# OsLab.Paging.History — FIFO and LRU

`Run` with `FIFO` and with `LRU` against replacement by age. The two differ only on a hit:
FIFO leaves the history alone, LRU moves the page to its head.

* **`Tracks r s`**: the simulation relation. The TLB shows the frames of the reference state
  `s`, the fault counts agree, and the history, head to tail, lists the resident pages from
  the newest stamp to the oldest.
* **`replaceTail_tracks`**: the page popped off the tail is the oldest one, and its TLB entry
  is the frame the reference policy picks.
* **`runStep_tracks`**: one address; **`runTo_tracks`**: any number of them.
* **`run_lru`**, **`run_fifo`**: the headlines.
-/

namespace OsLab.Paging

open DoublyLinked Fallible PageReplacement

/-- `swapPage_FIFO` stamps on load, `swapPage_LRU` at every reference. -/
def byAge : Stamp → Algorithm
  | .onLoad => .fifo
  | .onReference => .lru

/-- The history lists the resident pages, newest stamp first. -/
def ListsResident (history : LinkedList) (s : State numberOfFrames Int) (xs : List Int) : Prop :=
  Denotes history xs ∧ (∀ p, p ∈ xs ↔ p ∈ s.frames.resident) ∧ State.Ages s.log xs

/-- The state of `Run` agrees with the reference state. -/
structure Tracks (r : RunState) (s : State numberOfFrames Int) : Prop where
  tlb : r.memory.tlb = tlbOf s.frames
  faults : r.faultCount = s.faults
  history : ∃ xs, ListsResident r.memory.history s xs
  injective : s.frames.Injective
  nonneg : PagesNonneg s.frames

variable {env : Env} {addressList : List Int32} {r : RunState} {s : State numberOfFrames Int}

theorem tracks_init {m : Memory} (h : Denotes m.history []) :
    Tracks { memory := initPhysicalMemory m, faultCount := 0 } .init where
  tlb := tlbOf_init m
  faults := rfl
  history := ⟨[], h, fun p => by simp [Frames.mem_resident, State.init], State.ages_nil⟩
  injective := fun _ _ _ h => by cases h
  nonneg := fun _ _ h => by cases h

/-- As many pages in the history as in the frames. -/
theorem ListsResident.length_eq {history : LinkedList} {xs : List Int}
    (h : ListsResident history s xs) : xs.length = s.frames.resident.card := by
  rw [← List.toFinset_card_of_nodup h.2.2.nodup]
  congr 1
  ext p
  rw [List.mem_toFinset]
  exact h.2.1 p

/-! ## A page that is not loaded

`RemoveTail` gives the page at the end of the history, which is the one with the oldest stamp, and
its frame is used again. Before all frames are in use, the TLB has an entry that is `EMPTY`. -/

/-- The miss branch of both swap functions loads where the reference policy loads. -/
theorem replaceTail_tracks {page : Int} (h : Tracks r s) (hpage : page ∉ s.frames.resident) :
    ∃ i history xs, s.target? = some i
      ∧ replaceTail r.memory page = .ok (((i : Nat) : Int), { r.memory with history })
      ∧ ListsResident history
          { frames := s.frames.load i page, log := page :: s.log, faults := s.faults + 1 } xs := by
  obtain ⟨xs, hlists⟩ := h.history
  have hcard := hlists.length_eq
  obtain ⟨hden, hmem, hages⟩ := hlists
  have hempty : findEmptyFrame r.memory.tlb
      = s.frames.empty?.elim notFound fun i => ((i : Nat) : Int) := by
    rw [h.tlb, findEmptyFrame_tlbOf h.nonneg]
  cases hfree : s.frames.empty? with
  | some i =>
    -- an empty frame: the history only grows
    rw [hfree] at hempty
    obtain ⟨history, hadd, hden'⟩ := LinkedList.addToHead_denotes hden page
    refine ⟨i, history, page :: xs, by rw [State.target?, hfree]; rfl, ?_, hden', fun p => ?_,
      hages.push (List.Sublist.refl xs) (fun hp => hpage ((hmem page).mp hp))⟩
    · rw [replaceTail, hempty]
      show (if ((i : Nat) : Int) = notFound then _ else _) = _
      rw [if_neg (index_ne_notFound i), hadd]
      rfl
    · show _ ↔ p ∈ (s.frames.load i page).resident
      rw [Frames.resident_load_of_empty (Frames.empty?_some hfree), List.mem_cons,
        Finset.mem_insert, hmem]
  | none =>
    -- no empty frame: all three pages are in the history, the last one is the victim
    rw [hfree] at hempty
    have hlength : xs.length = numberOfFrames := by
      rw [hcard, h.injective.card_resident hfree]
    obtain ⟨ys, w, rfl⟩ : ∃ ys w, xs = ys ++ [w] := by
      have hne : xs ≠ [] := fun heq => by rw [heq] at hlength; cases hlength
      exact ⟨xs.dropLast, xs.getLast hne, (List.dropLast_append_getLast hne).symm⟩
    have hys : ys ≠ [] := fun heq => by rw [heq] at hlength; cases hlength
    obtain ⟨l₁, hremove, hden₁⟩ := LinkedList.removeTail_denotes hys hden
    obtain ⟨l₂, hadd, hden₂⟩ := LinkedList.addToHead_denotes hden₁ page
    have hw : w ∈ s.frames.resident := (hmem w).mp (by simp)
    obtain ⟨i, hi⟩ := Frames.mem_resident.mp hw
    have htarget : s.target? = some i := by
      rw [State.target?, hfree]
      exact State.oldest?_of_ages h.injective hages hmem hfree hi
    have hframe : isPageLoaded r.memory.tlb w = (i : Nat) := by
      rw [h.tlb, isPageLoaded_tlbOf (h.nonneg hi), h.injective.frameOf?_eq hi]
      rfl
    have hwys : w ∉ ys := fun hmem' =>
      (List.nodup_append.mp hages.nodup).2.2 w hmem' w (List.mem_singleton_self w) rfl
    refine ⟨i, l₂, page :: ys, htarget, ?_, hden₂, fun p => ?_,
      hages.push (List.sublist_append_left ys [w])
        (fun hp => hpage ((hmem page).mp (List.mem_append_left _ hp)))⟩
    · rw [replaceTail, hempty]
      show (if notFound = notFound then _ else _) = _
      rw [if_pos rfl, hremove, ok_bind]
      show (l₁.addToHead page >>= _) = _
      rw [hadd, ok_bind, hframe]
    · show _ ↔ p ∈ (s.frames.load i page).resident
      rw [h.injective.resident_load hi hpage, List.mem_cons, Finset.mem_insert, Finset.mem_erase,
        ← hmem, List.mem_append, List.mem_singleton]
      refine or_congr_right ⟨fun hp => ⟨fun heq => hwys (heq ▸ hp), Or.inl hp⟩, ?_⟩
      rintro ⟨hne, hp | heq⟩
      · exact hp
      · exact absurd heq hne

/-- On a hit the frame stays, and LRU moves the page to the head of the history. -/
theorem swapPage_hit (addressList : List Int32) (stamp : Stamp) {PC : Nat} (h : Tracks r s)
    (hfuel : numberOfFrames ≤ env.fuel) {page : Int} {i : Fin numberOfFrames}
    (hfind : s.frames.frameOf? page = some i) :
    ∃ history ys, swapPage env addressList (byAge stamp) r.memory PC ((i : Nat) : Int) page
        = .ok (((i : Nat) : Int), { r.memory with history })
      ∧ ListsResident history (s.step stamp page) ys := by
  have hi := Frames.frameOf?_some hfind
  have hne : ((i : Nat) : Int) ≠ notFound := index_ne_notFound i
  obtain ⟨xs, hlists⟩ := h.history
  obtain ⟨hden, hmem, hages⟩ := hlists
  rw [State.step_hit hfind]
  cases stamp with
  | onLoad =>
    -- FIFO leaves the history alone
    refine ⟨r.memory.history, xs, ?_, hden, hmem, hages⟩
    show swapPageFifo r.memory (i : Nat) page = _
    rw [swapPageFifo, if_neg hne]
  | onReference =>
    -- LRU moves the page, which is in the history because it is resident
    have hpxs : page ∈ xs := (hmem page).mpr (Frames.mem_resident.mpr ⟨i, hi⟩)
    have hlength : xs.length ≤ env.fuel := by
      have hcard := ListsResident.length_eq ⟨hden, hmem, hages⟩
      have hle := s.frames.card_resident_le
      omega
    obtain ⟨history, hmove, hden'⟩ := LinkedList.moveToHead_denotes hden hpxs hlength
    refine ⟨history, page :: xs.erase page, ?_, hden', fun p => ?_,
      hages.push List.erase_sublist hages.nodup.not_mem_erase⟩
    · show swapPageLru env.fuel r.memory (i : Nat) page = _
      rw [swapPageLru, if_neg hne, hmove]
      rfl
    · rw [← (List.perm_cons_erase hpxs).mem_iff]
      exact hmem p

/-! ## One address

The swap function chooses the frame, and the load puts the page there: together they are one step of
the policy. -/

/-- **One address** of `Run` is one reference of the policy, as long as a page fault finds the
backing store. -/
theorem runStep_tracks (addressList : List Int32) (stamp : Stamp) {PC : Nat} (h : Tracks r s)
    (hfuel : numberOfFrames ≤ env.fuel) {address : Int32}
    (hopens : getPageNumber address ∉ s.frames.resident → env.opens PC = true) :
    ∃ r', runStep env addressList (byAge stamp) r PC address = .ok r'
      ∧ Tracks r' (s.step stamp (getPageNumber address)) := by
  have hpage := getPageNumber_nonneg address
  have hlt := getPageNumber_lt address
  have hloaded : isPageLoaded r.memory.tlb (getPageNumber address)
      = (s.frames.frameOf? (getPageNumber address)).elim notFound fun i => ((i : Nat) : Int) := by
    rw [h.tlb, isPageLoaded_tlbOf hpage]
  cases hfind : s.frames.frameOf? (getPageNumber address) with
  | none =>
    -- a fault
    rw [hfind] at hloaded
    have hmiss : getPageNumber address ∉ s.frames.resident := Frames.frameOf?_eq_none_iff.mp hfind
    obtain ⟨i, history, xs, htarget, hreplace, hlists⟩ := replaceTail_tracks h hmiss
    have hswap : swapPage env addressList (byAge stamp) r.memory PC
        (isPageLoaded r.memory.tlb (getPageNumber address)) (getPageNumber address)
          = .ok (((i : Nat) : Int), { r.memory with history }) := by
      rw [hloaded, ← hreplace]
      cases stamp <;> rfl
    obtain ⟨m', hstep, htlb, hhistory⟩ := runStep_loaded (hopens hmiss) hswap h.tlb
    rw [hloaded] at hstep
    refine ⟨_, hstep, ?_⟩
    rw [State.step_miss hfind htarget]
    exact ⟨htlb, congrArg (· + 1) h.faults, ⟨xs, hhistory ▸ hlists⟩, h.injective.load hmiss i,
      h.nonneg.load hpage i⟩
  | some i =>
    rw [hfind] at hloaded
    have hfound : isPageLoaded r.memory.tlb (getPageNumber address) = (i : Nat) := hloaded
    obtain ⟨history, ys, hhit, hlists⟩ := swapPage_hit addressList stamp h hfuel hfind
    rw [← hfound] at hhit
    have hstep := runStep_eq hhit
    -- a hit keeps the page in its frame, whether the load succeeds or not
    rw [hfound, if_neg (index_ne_notFound i)] at hstep
    obtain ⟨htlb, hhistory⟩ := afterLoad_hit (m := { r.memory with history }) h.tlb env.store
      (env.opens PC) hpage hlt (Frames.frameOf?_some hfind)
    refine ⟨_, hstep, ?_⟩
    rw [State.step_hit hfind] at hlists ⊢
    exact ⟨htlb, h.faults, ⟨ys, hhistory ▸ hlists⟩, h.injective, h.nonneg⟩

/-! ## Whole runs

A run follows the policy as long as each page fault finds its page in the backing store. What
happens at hits does not matter, since nothing is stored then that was not there. -/

/-- The pages resident under the policy when `Run` comes to index `PC`. -/
def residentAt (stamp : Stamp) (addressList : List Int32) (PC : Nat) : Finset Int :=
  (State.init.run stamp ((pages addressList).take PC) : State numberOfFrames Int).frames.resident

/-- The first `n` references find the backing store whenever they are page faults of the
policy. -/
def FaultsLoad (env : Env) (addressList : List Int32) (stamp : Stamp) (n : Nat) : Prop :=
  ∀ PC < n, ∀ address, addressList[PC]? = some address →
    getPageNumber address ∉ residentAt stamp addressList PC → env.opens PC = true

theorem pages_take_succ {n : Nat} {address : Int32} (h : addressList[n]? = some address) :
    (pages addressList).take (n + 1) = (pages addressList).take n ++ [getPageNumber address] := by
  rw [List.take_add_one, pages, List.getElem?_map, h]
  rfl

/-- **Any number of addresses.** Induction on the number of rounds. -/
theorem runTo_tracks (stamp : Stamp) {m : Memory} (hempty : Denotes m.history [])
    (hfuel : numberOfFrames ≤ env.fuel) {n : Nat} (hn : n ≤ addressList.length)
    (hload : FaultsLoad env addressList stamp n) :
    ∃ r, runTo env m addressList (byAge stamp) n = .ok r
      ∧ Tracks r (State.init.run stamp ((pages addressList).take n)) := by
  induction n with
  | zero => exact ⟨_, runTo_zero env m addressList _, tracks_init hempty⟩
  | succ n ih =>
    obtain ⟨r, hrun, htracks⟩ := ih (by omega) fun PC hPC => hload PC (by omega)
    have haddress : addressList[n]? = some addressList[n] := List.getElem?_eq_getElem hn
    obtain ⟨r', hstep, htracks'⟩ := runStep_tracks addressList stamp htracks hfuel
      (hload n (Nat.lt_succ_self n) _ haddress)
    refine ⟨r', ?_, ?_⟩
    · rw [runTo_succ env m _ haddress, hrun, ok_bind, hstep]
    · rw [pages_take_succ haddress, State.run_append_singleton]
      exact htracks'

/-- What `Run` returns, and its state after every address. -/
theorem run_tracks (stamp : Stamp) {m : Memory} (hempty : Denotes m.history [])
    (hopens : ∀ PC < addressList.length, env.opens PC = true) (hfuel : numberOfFrames ≤ env.fuel) :
    (∃ r, run env m addressList (byAge stamp) = .ok r
        ∧ r.faultCount = (State.init.run stamp (pages addressList) : State numberOfFrames Int).faults)
      ∧ ∀ n ≤ addressList.length, ∃ r, runTo env m addressList (byAge stamp) n = .ok r
        ∧ Tracks r (State.init.run stamp ((pages addressList).take n)) := by
  have hsteps {n : Nat} (hn : n ≤ addressList.length) := runTo_tracks stamp hempty hfuel hn
    fun PC hPC _ _ _ => hopens PC (by omega)
  refine ⟨?_, fun n hn => hsteps hn⟩
  obtain ⟨r, hrun, htracks⟩ := hsteps (Nat.le_refl _)
  have hall : (pages addressList).take addressList.length = pages addressList := by
    rw [List.take_of_length_le (by rw [pages, List.length_map])]
  rw [hall] at htracks
  exact ⟨r, hrun, htracks.faults⟩

/-- **FIFO.** `Run(list, length, FIFO)` counts the faults of replacement by load age, and
agrees with it after every address. -/
theorem run_fifo (env : Env) (m : Memory) (addressList : List Int32)
    (hempty : Denotes m.history [])
    (hopens : ∀ PC < addressList.length, env.opens PC = true) (hfuel : numberOfFrames ≤ env.fuel) :
    (∃ r, run env m addressList .fifo = .ok r
        ∧ r.faultCount = (State.init.run .onLoad (pages addressList) : State numberOfFrames Int).faults)
      ∧ ∀ n ≤ addressList.length, ∃ r, runTo env m addressList .fifo n = .ok r
        ∧ Tracks r (State.init.run .onLoad ((pages addressList).take n)) :=
  run_tracks .onLoad hempty hopens hfuel

/-- The memory of the program as it starts. -/
def Memory.fresh : Memory :=
  { physicalMemory := Vector.replicate numberOfFrames none
    tlb := Vector.replicate numberOfFrames { page := 0, frame := 0 }
    history := .empty }

/-- A backing store of zeros that opens at every load. -/
def zeroEnv : Env :=
  { store := fun _ => 0, opens := fun _ => true, indeterminate := fun _ => notFound,
    fuel := numberOfFrames }

/-- Pages 1, 2, 3, 1, 4, 1: page 1 is the oldest load when page 4 comes. -/
theorem run_fifo_six :
    ∃ r, run zeroEnv .fresh [0x100, 0x200, 0x300, 0x1ff, 0x400, 0x100] .fifo = .ok r
      ∧ r.faultCount = 5 := by
  obtain ⟨⟨r, hrun, hfaults⟩, -⟩ :=
    run_fifo zeroEnv .fresh [0x100, 0x200, 0x300, 0x1ff, 0x400, 0x100] denotes_empty
      (fun _ _ => rfl) (Nat.le_refl _)
  exact ⟨r, hrun, hfaults.trans (by decide)⟩

/-- **LRU.** `Run(list, length, LRU)` counts the faults of replacement by reference age, and
agrees with it after every address; the stamps are the references themselves. -/
theorem run_lru (env : Env) (m : Memory) (addressList : List Int32)
    (hempty : Denotes m.history [])
    (hopens : ∀ PC < addressList.length, env.opens PC = true) (hfuel : numberOfFrames ≤ env.fuel) :
    (∃ r, run env m addressList .lru = .ok r
        ∧ r.faultCount
          = (State.init.run .onReference (pages addressList) : State numberOfFrames Int).faults)
      ∧ ∀ n ≤ addressList.length,
        let s := (State.init.run .onReference ((pages addressList).take n) : State numberOfFrames Int)
        (∃ r, runTo env m addressList .lru n = .ok r ∧ Tracks r s)
          ∧ s.log = ((pages addressList).take n).reverse := by
  obtain ⟨hreturns, hsteps⟩ := run_tracks .onReference hempty hopens hfuel
  refine ⟨hreturns, fun n hn => ⟨hsteps n hn, ?_⟩⟩
  rw [State.log_run_onReference (by decide)]
  exact List.append_nil _

/-- Pages 1, 2, 3, 1, 4, 1: page 2 is the oldest reference when page 4 comes. -/
theorem run_lru_six :
    ∃ r, run zeroEnv .fresh [0x100, 0x200, 0x300, 0x1ff, 0x400, 0x100] .lru = .ok r
      ∧ r.faultCount = 4 := by
  obtain ⟨⟨r, hrun, hfaults⟩, -⟩ :=
    run_lru zeroEnv .fresh [0x100, 0x200, 0x300, 0x1ff, 0x400, 0x100] denotes_empty
      (fun _ _ => rfl) (Nat.le_refl _)
  exact ⟨r, hrun, hfaults.trans (by decide)⟩

end OsLab.Paging
