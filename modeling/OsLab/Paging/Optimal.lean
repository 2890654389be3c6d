import OsLab.Paging.History

/-!
# OsLab.Paging.Optimal — the Optimal algorithm is optimal

`Run` with `OPTIMUM` is a run of farthest-next-use eviction, so it faults no more often than
any demand-paging policy.

* **`lookAhead_eq`**: the inner loop finds the first use after the current index, `0` standing
  for none. Indices after the current one are not `0`, which is why `0` can say so.
* **`victimLoop_spec`**: the outer loop stops at a page not used again, or ends on the page
  whose first use is last.
* **`victimLoop_farthest`**: the frame it returns holds a page of farthest next use.
* **`runTo_optimal`**: from any round on, `Run` is an `OptimalRun`; **`run_optimum_le`** is the
  headline.
-/

namespace OsLab.Paging

open DoublyLinked Fallible PageReplacement DemandPaging

variable {frames : Frames numberOfFrames Int}

/-! ## The victim

For each frame `swapPage_Optimal` looks ahead to the next use of its page. It takes the first frame
whose page is not used again, or else the frame with the latest use; this is a page of farthest next
use. -/

/-- Once a use has been found, later ones do not change it. -/
theorem foldl_lookAheadStep_of_pos (tlbPage : Int) {addressIndex : Nat} (hpos : 0 < addressIndex)
    (rest : List Int32) :
    ∀ k, addressIndex < k →
      (rest.zipIdx k).foldl (lookAheadStep tlbPage) addressIndex = addressIndex := by
  induction rest with
  | nil => exact fun _ _ => rfl
  | cons address rest ih =>
    intro k hk
    have hstep : lookAheadStep tlbPage addressIndex (address, k) = addressIndex := by
      rw [lookAheadStep]
      split
      · rw [if_pos ⟨hk, by omega⟩]
      · rfl
    rw [List.zipIdx_cons, List.foldl_cons, hstep]
    exact ih (k + 1) (by omega)

/-- As long as no use has been found, the position of the next one is taken. -/
theorem foldl_lookAheadStep_zero (tlbPage : Int) (rest : List Int32) :
    ∀ k, 0 < k → (rest.zipIdx k).foldl (lookAheadStep tlbPage) 0
      = if tlbPage ∈ pages rest then k + (pages rest).idxOf tlbPage else 0 := by
  induction rest with
  | nil => exact fun _ _ => rfl
  | cons address rest ih =>
    intro k hk
    rw [List.zipIdx_cons, List.foldl_cons, lookAheadStep]
    have hpages : pages (address :: rest) = getPageNumber address :: pages rest := rfl
    by_cases heq : tlbPage = getPageNumber address
    · rw [if_pos heq, if_neg (by simp), foldl_lookAheadStep_of_pos tlbPage hk rest _ (by omega),
        hpages, heq, if_pos List.mem_cons_self, List.idxOf_cons_self, Nat.add_zero]
    · rw [if_neg heq, ih _ (by omega), hpages, List.idxOf_cons_ne _ (Ne.symm heq)]
      by_cases hmem : tlbPage ∈ pages rest
      · rw [if_pos hmem, if_pos (List.mem_cons_of_mem _ hmem)]
        omega
      · rw [if_neg hmem, if_neg (fun h => (List.mem_cons.mp h).elim heq hmem)]

/-- The first use after the current index, `0` if there is none. -/
theorem lookAhead_eq (tlbPage : Int) (addressList : List Int32) (current : Nat) :
    lookAhead tlbPage addressList current
      = if tlbPage ∈ (pages addressList).drop (current + 1)
        then current + 1 + ((pages addressList).drop (current + 1)).idxOf tlbPage else 0 := by
  rw [lookAhead, foldl_lookAheadStep_zero _ _ _ (Nat.succ_pos _), pages, pages, List.map_drop]

/-- The next use of the page in a frame, as a position in the list. -/
theorem nextUse_tlbOf {i : Fin numberOfFrames} {p : Int} (hi : frames i = some p)
    (addressList : List Int32) (current : Nat) :
    nextUse (tlbOf frames) addressList current i
      = if p ∈ (pages addressList).drop (current + 1)
        then current + 1 + ((pages addressList).drop (current + 1)).idxOf p else 0 := by
  have hpage : (tlbOf frames)[i].page = p := by
    rw [getElem_tlbOf, hi]
    rfl
  rw [nextUse, hpage, lookAhead_eq]

/-- One round of the outer loop. -/
theorem victimLoop_cons (tlb : Vector TlbEntry numberOfFrames) (addressList : List Int32)
    (current : Nat) (i : Fin numberOfFrames) (rest : List (Fin numberOfFrames)) (location : Nat)
    (frameIndex : Int) :
    victimLoop tlb addressList current (i :: rest) location frameIndex
      = if nextUse tlb addressList current i = 0 then ((i : Nat) : Int)
        else if location < nextUse tlb addressList current i then
          victimLoop tlb addressList current rest (nextUse tlb addressList current i) (i : Nat)
        else victimLoop tlb addressList current rest location frameIndex := by
  show (if nextUse tlb addressList current i = 0 then ((i : Nat) : Int)
    else victimLoop tlb addressList current rest
      (if location < nextUse tlb addressList current i
        then (nextUse tlb addressList current i, ((i : Nat) : Int)) else (location, frameIndex)).1
      (if location < nextUse tlb addressList current i
        then (nextUse tlb addressList current i, ((i : Nat) : Int)) else (location, frameIndex)).2) = _
  split
  · rfl
  · split <;> rfl

/-- The outer loop, from `location` and `frameIndex` on: it breaks at the first page that is not
used again, or takes the latest first use if that is after `location`. -/
theorem victimLoop_spec (tlb : Vector TlbEntry numberOfFrames) (addressList : List Int32)
    (current : Nat) (fs : List (Fin numberOfFrames)) :
    ∀ (location : Nat) (frameIndex : Int),
      (∃ i, fs.find? (fun i => nextUse tlb addressList current i = 0) = some i
          ∧ victimLoop tlb addressList current fs location frameIndex = (i : Nat))
        ∨ (∀ i ∈ fs, nextUse tlb addressList current i ≠ 0)
          ∧ ((victimLoop tlb addressList current fs location frameIndex = frameIndex
                ∧ ∀ i ∈ fs, nextUse tlb addressList current i ≤ location)
            ∨ ∃ i ∈ fs, victimLoop tlb addressList current fs location frameIndex = (i : Nat)
                ∧ location < nextUse tlb addressList current i
                ∧ ∀ j ∈ fs, nextUse tlb addressList current j
                    ≤ nextUse tlb addressList current i) := by
  induction fs with
  | nil => exact fun _ _ => Or.inr ⟨by simp, Or.inl ⟨rfl, by simp⟩⟩
  | cons i rest ih =>
    intro location frameIndex
    simp only [List.forall_mem_cons]
    rw [victimLoop_cons]
    by_cases hzero : nextUse tlb addressList current i = 0
    · -- the `break`
      rw [if_pos hzero]
      exact Or.inl ⟨i, List.find?_cons_of_pos (decide_eq_true hzero), rfl⟩
    · have hfind := List.find?_cons_of_neg (l := rest)
        (p := fun i => decide (nextUse tlb addressList current i = 0)) (a := i)
        (by simpa using hzero)
      rw [if_neg hzero, hfind]
      by_cases hlt : location < nextUse tlb addressList current i
      · -- `i` is the latest so far
        rw [if_pos hlt]
        rcases ih (nextUse tlb addressList current i) (i : Nat) with
          hbreak | ⟨hall, ⟨hres, hle⟩ | ⟨j, hj, hres, hgt, hle⟩⟩
        · exact Or.inl hbreak
        · exact Or.inr ⟨⟨hzero, hall⟩, Or.inr ⟨i, List.mem_cons_self, hres, hlt, Nat.le_refl _, hle⟩⟩
        · exact Or.inr ⟨⟨hzero, hall⟩,
            Or.inr ⟨j, List.mem_cons_of_mem _ hj, hres, by omega, by omega, hle⟩⟩
      · rw [if_neg hlt]
        rcases ih location frameIndex with
          hbreak | ⟨hall, ⟨hres, hle⟩ | ⟨j, hj, hres, hgt, hle⟩⟩
        · exact Or.inl hbreak
        · exact Or.inr ⟨⟨hzero, hall⟩, Or.inl ⟨hres, by omega, hle⟩⟩
        · exact Or.inr ⟨⟨hzero, hall⟩,
            Or.inr ⟨j, List.mem_cons_of_mem _ hj, hres, hgt, by omega, hle⟩⟩

/-- The loop over all three frames, as `swapPage_Optimal` runs it: the first frame whose page is
not used again, or one whose page is used last. -/
theorem victimLoop_all (tlb : Vector TlbEntry numberOfFrames) (addressList : List Int32)
    (current : Nat) :
    ∃ i : Fin numberOfFrames,
      victimLoop tlb addressList current (List.finRange numberOfFrames) 0 notFound = (i : Nat)
        ∧ ((nextUse tlb addressList current i = 0
            ∧ ∀ j < i, nextUse tlb addressList current j ≠ 0)
          ∨ ∀ j : Fin numberOfFrames, nextUse tlb addressList current j ≠ 0
            ∧ nextUse tlb addressList current j ≤ nextUse tlb addressList current i) := by
  rcases victimLoop_spec tlb addressList current (List.finRange numberOfFrames) 0 notFound with
    ⟨i, hfind, hres⟩ | ⟨hall, ⟨-, hle⟩ | ⟨i, -, hres, -, hle⟩⟩
  · -- the loop was left at the first page that is not used again
    rw [← Fin.find?_eq_find?_finRange] at hfind
    obtain ⟨hzero, hbefore⟩ := Fin.find?_eq_some_iff.mp hfind
    exact ⟨i, hres, Or.inl ⟨of_decide_eq_true hzero,
      fun j hj => of_decide_eq_false (hbefore j hj)⟩⟩
  · -- `location` starts at `0`, below every use found
    have h0 := hall 0 (List.mem_finRange 0)
    have hle0 := hle 0 (List.mem_finRange 0)
    omega
  · exact ⟨i, hres, Or.inr fun j =>
      ⟨hall j (List.mem_finRange j), hle j (List.mem_finRange j)⟩⟩

/-- **The victim.** With all frames in use, the loop returns a frame whose page has the
farthest next use. -/
theorem victimLoop_farthest (hfull : frames.empty? = none) (addressList : List Int32)
    (current : Nat) :
    ∃ (i : Fin numberOfFrames) (w : Int),
      victimLoop (tlbOf frames) addressList current (List.finRange numberOfFrames) 0 notFound
        = (i : Nat)
      ∧ frames i = some w
      ∧ FarthestUse ((pages addressList).drop (current + 1)) frames.resident w := by
  obtain ⟨i, hres, hbest⟩ := victimLoop_all (tlbOf frames) addressList current
  obtain ⟨w, hw⟩ := Frames.exists_page_of_empty?_eq_none hfull i
  refine ⟨i, w, hres, hw, Frames.mem_resident.mpr ⟨i, hw⟩, fun p hp x hx => ?_⟩
  have hwmem := List.mem_of_mem_take hx
  rcases hbest with ⟨hzero, -⟩ | hbest
  · -- `w` is not used again
    rw [nextUse_tlbOf hw, if_pos hwmem] at hzero
    omega
  · -- every page is used again, so first uses compare as positions in what is left
    obtain ⟨j, hj⟩ := Frames.mem_resident.mp hp
    obtain ⟨hne, hle⟩ := hbest j
    rw [nextUse_tlbOf hj, nextUse_tlbOf hw, if_pos hwmem] at hle
    rw [nextUse_tlbOf hj] at hne
    have hpmem : p ∈ (pages addressList).drop (current + 1) := by
      by_contra hnot
      exact hne (if_neg hnot)
    rw [if_pos hpmem] at hle
    rw [List.mem_take_iff_idxOf_lt hwmem] at hx
    rw [List.mem_take_iff_idxOf_lt hpmem]
    omega

/-! ## The run

A run of OPTIMUM is compared with the optimal run of `DemandPaging`, over the references still to
come. A hit ends the function without a `return`, and the theorem about the count assumes that the
value then used does no harm. -/

variable {env : Env} {m : Memory} {addressList : List Int32} {r : RunState}

/-- A round whose page is resident leaves the TLB as it was, whatever the call that ends
without a `return` yields. -/
def HitsKeepTlb (env : Env) (m : Memory) (addressList : List Int32) : Prop :=
  ∀ (n : Nat) (address : Int32) (r r' : RunState), addressList[n]? = some address →
    runTo env m addressList .optimum n = .ok r →
    isPageLoaded r.memory.tlb (getPageNumber address) ≠ notFound →
    runTo env m addressList .optimum (n + 1) = .ok r' → r'.memory.tlb = r.memory.tlb

/-- A fault: an empty frame is filled, or the page of farthest next use makes room. -/
theorem runStep_optimal_miss (addressList : List Int32) (htlb : r.memory.tlb = tlbOf frames)
    (hinj : frames.Injective)
    (hnonneg : PagesNonneg frames) {PC : Nat} {address : Int32} (hopens : env.opens PC = true)
    (hmiss : getPageNumber address ∉ frames.resident) :
    ∃ (i : Fin numberOfFrames) (m' : Memory),
      runStep env addressList .optimum r PC address = .ok ⟨m', r.faultCount + 1⟩
      ∧ m'.tlb = tlbOf (frames.load i (getPageNumber address))
      ∧ ∀ n, OptimalRun numberOfFrames (frames.load i (getPageNumber address)).resident
            ((pages addressList).drop (PC + 1)) n →
          OptimalRun numberOfFrames frames.resident
            (getPageNumber address :: (pages addressList).drop (PC + 1)) (n + 1) := by
  have hloaded : isPageLoaded r.memory.tlb (getPageNumber address) = notFound := by
    rw [htlb, isPageLoaded_eq_notFound_iff (getPageNumber_nonneg address)]
    exact Frames.frameOf?_eq_none_iff.mpr hmiss
  -- the frame chosen, with what it means for the optimal run
  obtain ⟨i, hswap, hopt⟩ : ∃ i : Fin numberOfFrames,
      swapPageOptimal r.memory.tlb notFound addressList PC = some ((i : Nat) : Int)
      ∧ ∀ n, OptimalRun numberOfFrames (frames.load i (getPageNumber address)).resident
            ((pages addressList).drop (PC + 1)) n →
          OptimalRun numberOfFrames frames.resident
            (getPageNumber address :: (pages addressList).drop (PC + 1)) (n + 1) := by
    rw [swapPageOptimal, if_pos rfl, htlb, findEmptyFrame_tlbOf hnonneg]
    cases hfree : frames.empty? with
    | some i =>
      have hi := Frames.empty?_some hfree
      refine ⟨i, if_neg (index_ne_notFound i), fun n h => ?_⟩
      rw [Frames.resident_load_of_empty hi] at h
      exact .load hmiss (Frames.card_resident_lt hi) h
    | none =>
      obtain ⟨i, w, hvictim, hi, hfarthest⟩ := victimLoop_farthest hfree addressList PC
      refine ⟨i, ?_, fun n h => ?_⟩
      · rw [← hvictim]
        exact if_pos rfl
      · rw [hinj.resident_load hi hmiss] at h
        exact .evict hmiss (hinj.card_resident hfree) hfarthest h
  have hswap' : swapPage env addressList .optimum r.memory PC
      (isPageLoaded r.memory.tlb (getPageNumber address)) (getPageNumber address)
        = .ok (((i : Nat) : Int), r.memory) := by
    rw [hloaded, swapPage, hswap]
    rfl
  obtain ⟨m', hstep, htlb', -⟩ := runStep_loaded hopens hswap' htlb
  rw [if_pos hloaded] at hstep
  exact ⟨i, m', hstep, htlb', hopt⟩

/-- A hit is not counted. -/
theorem runStep_optimal_hit (env : Env) (addressList : List Int32) (PC : Nat) {address : Int32}
    (hhit : isPageLoaded r.memory.tlb (getPageNumber address) ≠ notFound) :
    ∃ m', runStep env addressList .optimum r PC address = .ok ⟨m', r.faultCount⟩ := by
  rw [runStep, if_neg hhit]
  exact ⟨_, rfl⟩

/-- **The rest of the run** is an optimal run over the references still to come. Induction on
their number. -/
theorem runTo_optimal (hhits : HitsKeepTlb env m addressList)
    (hopens : ∀ PC < addressList.length, env.opens PC = true) (d : Nat) :
    ∀ {n : Nat} {r : RunState} {frames : Frames numberOfFrames Int}, n + d = addressList.length →
      runTo env m addressList .optimum n = .ok r → r.memory.tlb = tlbOf frames →
      frames.Injective → PagesNonneg frames →
      ∃ r' c, run env m addressList .optimum = .ok r' ∧ r'.faultCount = r.faultCount + c
        ∧ OptimalRun numberOfFrames frames.resident ((pages addressList).drop n) c := by
  induction d with
  | zero =>
    intro n r frames hn hrun _ _ _
    rw [Nat.add_zero] at hn
    subst hn
    refine ⟨r, 0, hrun, rfl, ?_⟩
    rw [List.drop_of_length_le (by rw [pages, List.length_map])]
    exact .nil _
  | succ d ih =>
    intro n r frames hn hrun htlb hinj hnonneg
    have hlt : n < addressList.length := by omega
    have haddress : addressList[n]? = some addressList[n] := List.getElem?_eq_getElem hlt
    have hsucc := runTo_succ env m .optimum haddress
    rw [hrun, ok_bind] at hsucc
    -- the reference at `n` and those behind it
    have hdrop : (pages addressList).drop n
        = getPageNumber addressList[n] :: (pages addressList).drop (n + 1) := by
      have hlen : n < (pages addressList).length := by rw [pages, List.length_map]; exact hlt
      rw [List.drop_eq_getElem_cons hlen]
      congr 1
      exact List.getElem_map _
    rw [hdrop]
    by_cases hmem : getPageNumber addressList[n] ∈ frames.resident
    · have hhit : isPageLoaded r.memory.tlb (getPageNumber addressList[n]) ≠ notFound := by
        rw [htlb, Ne, isPageLoaded_eq_notFound_iff (getPageNumber_nonneg _),
          Frames.frameOf?_eq_none_iff]
        exact not_not_intro hmem
      -- a hit: the frames are the same, by assumption
      obtain ⟨m', hstep⟩ := runStep_optimal_hit env addressList n hhit
      rw [hstep] at hsucc
      have hkeep := hhits n _ r _ haddress hrun hhit hsucc
      obtain ⟨r', c, hrun', hcount, hopt⟩ := ih (by omega) hsucc (hkeep.trans htlb) hinj hnonneg
      exact ⟨r', c, hrun', hcount, .hit hmem hopt⟩
    · obtain ⟨i, m', hstep, htlb', hopt⟩ :=
        runStep_optimal_miss addressList htlb hinj hnonneg (hopens n hlt) hmem
      rw [hstep] at hsucc
      obtain ⟨r', c, hrun', hcount, hrest⟩ := ih (by omega) hsucc htlb' (hinj.load hmem i)
        (hnonneg.load (getPageNumber_nonneg _) i)
      refine ⟨r', c + 1, hrun', ?_, hopt c hrest⟩
      rw [hcount, Nat.add_assoc, Nat.add_comm 1 c]

/-- **Optimality.** `Run(list, length, OPTIMUM)` faults no more often than any demand-paging
policy on three frames that start empty, and so no more often than `FIFO` and `LRU`. -/
theorem run_optimum_le (env : Env) (m : Memory) (addressList : List Int32)
    (hempty : Denotes m.history [])
    (hopens : ∀ PC < addressList.length, env.opens PC = true) (hfuel : numberOfFrames ≤ env.fuel)
    (hhits : HitsKeepTlb env m addressList) :
    ∃ r, run env m addressList .optimum = .ok r
      ∧ (∀ n, Run numberOfFrames ∅ (pages addressList) n → r.faultCount ≤ n)
      ∧ (∃ r', run env m addressList .fifo = .ok r' ∧ r.faultCount ≤ r'.faultCount)
      ∧ ∃ r', run env m addressList .lru = .ok r' ∧ r.faultCount ≤ r'.faultCount := by
  obtain ⟨r, c, hrun, hcount, hopt⟩ := runTo_optimal hhits hopens addressList.length
    (Nat.zero_add _) (runTo_zero env m addressList .optimum) (tlbOf_init m)
    (fun _ _ _ h => by cases h) (fun _ _ h => by cases h)
  have hstart : (Frames.resident fun _ : Fin numberOfFrames => (none : Option Int)) = ∅ := by
    decide
  rw [hstart, List.drop_zero] at hopt
  have hle : ∀ n, Run numberOfFrames ∅ (pages addressList) n → r.faultCount ≤ n := by
    intro n hn
    have hcn := hopt.le_run hn (by decide)
    have hzero : r.faultCount = 0 + c := hcount
    omega
  -- FIFO and LRU are demand-paging policies, too
  have hage : ∀ stamp, ∃ r', run env m addressList (byAge stamp) = .ok r'
      ∧ r.faultCount ≤ r'.faultCount := by
    intro stamp
    obtain ⟨⟨r', hrun', hfaults⟩, -⟩ := run_tracks stamp hempty hopens hfuel
    obtain ⟨n, hn, hfaults'⟩ := State.demandRun (k := numberOfFrames) (by decide) stamp
      (pages addressList) State.init
    have hinit : (State.init : State numberOfFrames Int).frames.resident = ∅ := hstart
    rw [hinit] at hn
    have hzero : (State.init : State numberOfFrames Int).faults = 0 := rfl
    have hrn := hle n hn
    exact ⟨r', hrun', by omega⟩
  exact ⟨r, hrun, hle, hage .onLoad, hage .onReference⟩

/-- An indeterminate value that is not a frame index is such a case: the load is refused. -/
theorem hitsKeepTlb_of_neg (hneg : ∀ PC, env.indeterminate PC < 0) :
    HitsKeepTlb env m addressList := by
  intro n address r r' haddress hrun hhit hsucc
  have hload : ∀ page, loadLogicalToPhysical env.store (env.opens n) r.memory page
      (env.indeterminate n) = (false, r.memory) := by
    intro page
    rw [loadLogicalToPhysical]
    split
    · rfl
    · rw [if_pos (Or.inl (hneg n))]
  have hstep : runStep env addressList .optimum r n address = .ok ⟨r.memory, r.faultCount⟩ := by
    rw [runStep, if_neg hhit, swapPage, swapPageOptimal, if_neg hhit, ok_bind]
    simp only [Option.getD_none, hload, Bool.false_eq_true, if_false]
  rw [runTo_succ env m .optimum haddress, hrun, ok_bind, hstep] at hsucc
  cases hsucc
  rfl

/-- Pages 1, 2, 3, 1, 4, 1: page 1 is kept when page 4 comes. -/
theorem run_optimum_le_six :
    ∃ r, run zeroEnv .fresh [0x100, 0x200, 0x300, 0x1ff, 0x400, 0x100] .optimum = .ok r
      ∧ ∃ r', run zeroEnv .fresh [0x100, 0x200, 0x300, 0x1ff, 0x400, 0x100] .fifo = .ok r'
        ∧ r.faultCount ≤ r'.faultCount := by
  obtain ⟨r, hrun, -, hfifo, -⟩ :=
    run_optimum_le zeroEnv .fresh [0x100, 0x200, 0x300, 0x1ff, 0x400, 0x100] denotes_empty
      (fun _ _ => rfl) (Nat.le_refl _) (hitsKeepTlb_of_neg fun _ => show notFound < 0 by decide)
  exact ⟨r, hrun, hfifo⟩

end OsLab.Paging
