import OsLab.Paging.Coherence
import OsLab.Paging.Optimal

/-!
# OsLab.Paging.Victim — what `swapPage_Optimal` returns

The calls of `swapPage_Optimal` one by one, and then along a run.

* **`swapPageOptimal_victim`**: with all frames in use, a miss returns the frame whose page is
  used last, on any TLB and any list.
* **`optimum_defined_iff`**: a hit returns nothing, so the calls of a run are all defined exactly
  if no page is referenced twice. With two frames or more, farthest-next-use eviction hits the
  first page that is referenced again (`OptimalRun.lt_length_of_not_nodup`).
-/

namespace OsLab.Paging

open DoublyLinked Fallible PageReplacement DemandPaging

/-! ## A miss

What the look-ahead finds, in terms of the position of the next use: `0` stands for a page that is
not used again. -/

/-- `0` means that the page is not used again. -/
theorem lookAhead_eq_zero_iff (tlbPage : Int) (addressList : List Int32) (current : Nat) :
    lookAhead tlbPage addressList current = 0
      ↔ nextPosition (pages addressList) current tlbPage = ⊤ := by
  rw [lookAhead_eq]
  by_cases hmem : tlbPage ∈ (pages addressList).drop (current + 1)
  · rw [if_pos hmem, nextPosition_eq_coe hmem]
    exact iff_of_false (by omega) (ENat.natCast_ne_top _)
  · rw [if_neg hmem, nextPosition_eq_top hmem]
    exact iff_of_true rfl rfl

/-- A use found by the look-ahead is the next one. -/
theorem nextPosition_of_lookAhead {tlbPage : Int} {addressList : List Int32} {current : Nat}
    (h : lookAhead tlbPage addressList current ≠ 0) :
    nextPosition (pages addressList) current tlbPage = lookAhead tlbPage addressList current := by
  rw [lookAhead_eq] at h ⊢
  by_cases hmem : tlbPage ∈ (pages addressList).drop (current + 1)
  · rw [if_pos hmem, nextPosition_eq_coe hmem]
  · rw [if_neg hmem] at h
    exact absurd rfl h

/-- Without an `EMPTY` entry no frame is empty. -/
theorem findEmptyFrame_of_full {tlb : Vector TlbEntry numberOfFrames}
    (hfull : ∀ i : Fin numberOfFrames, (tlb.get i).page ≠ notFound) : findEmptyFrame tlb = notFound := by
  have hnone : firstIndex tlb notFound = none :=
    List.find?_eq_none.mpr fun i _ heq => hfull i (beq_iff_eq.mp heq)
  rw [findEmptyFrame, hnone]

/-- **Headline.** With no empty frame, a miss returns a frame whose page is used next no earlier
than that of any other frame; among pages not used again it is the lowest frame. -/
theorem swapPageOptimal_victim {tlb : Vector TlbEntry numberOfFrames}
    (hfull : ∀ i : Fin numberOfFrames, (tlb.get i).page ≠ notFound) (addressList : List Int32)
    (current : Nat) :
    ∃ i : Fin numberOfFrames,
      swapPageOptimal tlb notFound addressList current = some ((i : Nat) : Int)
        ∧ (∀ j : Fin numberOfFrames, nextPosition (pages addressList) current (tlb.get j).page
          ≤ nextPosition (pages addressList) current (tlb.get i).page)
        ∧ (nextPosition (pages addressList) current (tlb.get i).page = ⊤ →
          ∀ j < i, nextPosition (pages addressList) current (tlb.get j).page ≠ ⊤) := by
  have hget (j : Fin numberOfFrames) : tlb.get j = tlb[j] := rfl
  simp only [hget]
  obtain ⟨i, hres, hbest⟩ := victimLoop_all tlb addressList current
  refine ⟨i, ?_, ?_⟩
  · rw [swapPageOptimal, if_pos rfl]
    show (if findEmptyFrame tlb = notFound then
      some (victimLoop tlb addressList current _ 0 (findEmptyFrame tlb)) else _) = _
    rw [findEmptyFrame_of_full hfull, if_pos rfl, hres]
  · -- the loop was left early, or went through all the frames
    rcases hbest with ⟨hzero, hbefore⟩ | hlatest
    · have htop := (lookAhead_eq_zero_iff tlb[i].page addressList current).mp hzero
      refine ⟨fun j => htop ▸ le_top, fun _ j hj htop' => ?_⟩
      exact hbefore j hj ((lookAhead_eq_zero_iff tlb[j].page addressList current).mpr htop')
    · -- every page is used again
      have hne : ∀ j : Fin numberOfFrames, lookAhead tlb[j].page addressList current ≠ 0 :=
        fun j => (hlatest j).1
      refine ⟨fun j => ?_, fun htop => ?_⟩
      · rw [nextPosition_of_lookAhead (hne j), nextPosition_of_lookAhead (hne i)]
        exact_mod_cast (hlatest j).2
      · exact absurd ((lookAhead_eq_zero_iff _ _ _).mpr htop) (hne i)

/-- The TLB of pages 1, 2 and 3. -/
def fullTlb : Vector TlbEntry numberOfFrames := tlbOf fun i => some ((i : Nat) + 1 : Int)

theorem fullTlb_full (i : Fin numberOfFrames) : (fullTlb.get i).page ≠ notFound := by
  rw [fullTlb, get_tlbOf]
  show ((i : Nat) + 1 : Int) ≠ -1
  omega

/-- Pages 1, 2, 3, 4, 2, 1 at the fourth reference: page 3, which is not used again, makes room. -/
theorem swapPageOptimal_victim_six :
    ∃ i : Fin numberOfFrames, (fullTlb.get i).page = 3
      ∧ swapPageOptimal fullTlb notFound [0x100, 0x200, 0x300, 0x400, 0x2ff, 0x100] 3
        = some ((i : Nat) : Int) := by
  obtain ⟨i, hswap, hlatest, -⟩ :=
    swapPageOptimal_victim fullTlb_full [0x100, 0x200, 0x300, 0x400, 0x2ff, 0x100] 3
  refine ⟨i, ?_, hswap⟩
  have hthird : lookAhead (fullTlb.get ⟨2, by decide⟩).page
      [0x100, 0x200, 0x300, 0x400, 0x2ff, 0x100] 3 = 0 := by decide +kernel
  have hnever := hlatest ⟨2, by decide⟩
  rw [(lookAhead_eq_zero_iff _ _ _).mp hthird, top_le_iff, ← lookAhead_eq_zero_iff] at hnever
  have honly : ∀ i : Fin numberOfFrames, lookAhead (fullTlb.get i).page
      [0x100, 0x200, 0x300, 0x400, 0x2ff, 0x100] 3 = 0 → (fullTlb.get i).page = 3 := by decide +kernel
  exact honly i hnever

/-! ## A run

A hit reaches the end of `swapPage_Optimal` without a `return`. So the calls of a run are all
defined only if it has no hit, which is to say that no page comes twice; and then three frames of
different pages are all there is to keep. -/

variable {env : Env} {m : Memory} {addressList : List Int32} {frames : Frames numberOfFrames Int}

/-- No page is in two entries. -/
def OnePlace (tlb : Vector TlbEntry numberOfFrames) : Prop :=
  ∀ i j : Fin numberOfFrames,
    (tlb.get i).page ≠ emptyMark → (tlb.get i).page = (tlb.get j).page → i = j

/-- The run ends; every call of `swapPage_Optimal` in it returns a frame index, on a hit the one it was
given; no page gets into two TLB entries, and a hit leaves the TLB alone. -/
structure OptimumDefined (env : Env) (m : Memory) (addressList : List Int32) : Prop where
  ends : ∃ r, run env m addressList .optimum = .ok r
  returns : ∀ (n : Nat) (address : Int32) (r : RunState), addressList[n]? = some address →
    runTo env m addressList .optimum n = .ok r →
    ∃ i : Fin numberOfFrames,
      swapPageOptimal r.memory.tlb (isPageLoaded r.memory.tlb (getPageNumber address)) addressList n
        = some ((i : Nat) : Int)
      ∧ (isPageLoaded r.memory.tlb (getPageNumber address) ≠ notFound →
        ((i : Nat) : Int) = isPageLoaded r.memory.tlb (getPageNumber address))
  onePlace : ∀ n ≤ addressList.length, ∀ r, runTo env m addressList .optimum n = .ok r →
    OnePlace r.memory.tlb
  hits : HitsKeepTlb env m addressList

/-- A miss returns a frame, an empty one or the victim. -/
theorem swapPageOptimal_miss (tlb : Vector TlbEntry numberOfFrames) (addressList : List Int32)
    (current : Nat) :
    ∃ i : Fin numberOfFrames,
      swapPageOptimal tlb notFound addressList current = some ((i : Nat) : Int) := by
  rw [swapPageOptimal, if_pos rfl]
  dsimp only
  rcases findEmptyFrame_cases tlb with hnone | ⟨i, hi⟩
  · obtain ⟨i, hres, -⟩ := victimLoop_all tlb addressList current
    rw [hnone, if_pos rfl, hres]
    exact ⟨i, rfl⟩
  · rw [hi, if_neg (index_ne_notFound i)]
    exact ⟨i, rfl⟩

/-- A hit runs off the end of the function. -/
theorem swapPageOptimal_hit (tlb : Vector TlbEntry numberOfFrames) {frameIndexParam : Int}
    (hhit : frameIndexParam ≠ notFound) (addressList : List Int32) (current : Nat) :
    swapPageOptimal tlb frameIndexParam addressList current = none := if_neg hhit

/-- Where every call returns, there is no hit. -/
theorem OptimumDefined.miss (h : OptimumDefined env m addressList) {n : Nat} {address : Int32}
    {r : RunState} (haddress : addressList[n]? = some address)
    (hrun : runTo env m addressList .optimum n = .ok r) :
    isPageLoaded r.memory.tlb (getPageNumber address) = notFound := by
  by_contra hhit
  obtain ⟨i, hswap, -⟩ := h.returns n address r haddress hrun
  rw [swapPageOptimal_hit _ hhit] at hswap
  cases hswap

/-- Without a hit every reference is counted. Induction on the references. -/
theorem OptimumDefined.faultCount (h : OptimumDefined env m addressList) (n : Nat) :
    n ≤ addressList.length → ∀ r, runTo env m addressList .optimum n = .ok r → r.faultCount = n := by
  induction n with
  | zero =>
    intro _ r hrun
    cases hrun
    rfl
  | succ n ih =>
    intro hn r' hrun'
    have haddress : addressList[n]? = some addressList[n] := List.getElem?_eq_getElem (by omega)
    rw [runTo_succ env m .optimum haddress] at hrun'
    obtain ⟨r, hrun, hstep⟩ := of_bind_eq_ok hrun'
    rw [runStep, if_pos (h.miss haddress hrun)] at hstep
    obtain ⟨_, -, hstep⟩ := of_bind_eq_ok hstep
    cases hstep
    exact congrArg (· + 1) (ih (by omega) r hrun)

/-- Different pages in the frames, different pages in the TLB. -/
theorem onePlace_tlbOf (hinj : frames.Injective) : OnePlace (tlbOf frames) := by
  intro i j hne heq
  rw [get_tlbOf] at hne heq
  rw [get_tlbOf] at heq
  cases hi : frames i with
  | none =>
    rw [hi] at hne
    exact absurd rfl hne
  | some p =>
    rw [hi] at hne heq
    cases hj : frames j with
    | none =>
      rw [hj] at heq
      exact absurd heq hne
    | some q =>
      rw [hj] at heq
      obtain rfl : p = q := heq
      exact hinj hi hj

/-- While no page has come twice: the frames hold different pages, all of them referenced. -/
structure Fresh (addressList : List Int32) (n : Nat) (m : Memory)
    (frames : Frames numberOfFrames Int) : Prop where
  tlb : m.tlb = tlbOf frames
  injective : frames.Injective
  nonneg : PagesNonneg frames
  referenced : ∀ p ∈ frames.resident, p ∈ (pages addressList).take n

/-- At the start the frames are empty. -/
theorem fresh_init (addressList : List Int32) (m : Memory) :
    Fresh addressList 0 (initPhysicalMemory m) fun _ => none where
  tlb := tlbOf_init m
  injective := fun _ _ _ h => by cases h
  nonneg := fun _ _ h => by cases h
  referenced := fun p hp => by
    obtain ⟨i, hi⟩ := Frames.mem_resident.mp hp
    cases hi

/-- A page that has not come before is not resident. -/
theorem Fresh.notMem {n : Nat} (h : Fresh addressList n m frames) (hnodup : (pages addressList).Nodup)
    {address : Int32} (haddress : addressList[n]? = some address) :
    getPageNumber address ∉ frames.resident := by
  intro hmem
  have hpage : (pages addressList)[n]? = some (getPageNumber address) := by
    rw [pages, List.getElem?_map, haddress]
    rfl
  obtain ⟨i, hi⟩ := List.mem_iff_getElem?.mp (h.referenced _ hmem)
  rw [List.getElem?_take] at hi
  split at hi
  · next hlt =>
    have heq := (List.nodup_iff_getElem?_ne_getElem?.mp hnodup) i n hlt
      (List.getElem?_eq_some_iff.mp hpage).1
    exact heq (hi.trans hpage.symm)
  · cases hi

theorem Fresh.step {n : Nat} {r : RunState} (h : Fresh addressList n r.memory frames)
    (hnodup : (pages addressList).Nodup) {address : Int32}
    (haddress : addressList[n]? = some address) (hopens : env.opens n = true) :
    ∃ r' frames', runStep env addressList .optimum r n address = .ok r'
      ∧ Fresh addressList (n + 1) r'.memory frames' := by
  have hmiss := h.notMem hnodup haddress
  obtain ⟨i, m', hstep, htlb, -⟩ :=
    runStep_optimal_miss addressList h.tlb h.injective h.nonneg hopens hmiss
  refine ⟨_, frames.load i (getPageNumber address), hstep, htlb, h.injective.load hmiss i,
    h.nonneg.load (getPageNumber_nonneg address) i, fun p hp => ?_⟩
  have hpage : (pages addressList)[n]? = some (getPageNumber address) := by
    rw [pages, List.getElem?_map, haddress]
    rfl
  rw [List.take_add_one, hpage, List.mem_append]
  rcases Finset.mem_insert.mp (Frames.resident_load_subset hp) with rfl | hold
  · exact Or.inr (List.mem_singleton_self _)
  · exact Or.inl (h.referenced p hold)

/-- Any number of different pages. Induction on it. -/
theorem runTo_fresh (hnodup : (pages addressList).Nodup)
    (hopens : ∀ PC < addressList.length, env.opens PC = true) (n : Nat) :
    n ≤ addressList.length → ∃ r frames, runTo env m addressList .optimum n = .ok r
      ∧ Fresh addressList n r.memory frames := by
  induction n with
  | zero => exact fun _ => ⟨_, _, runTo_zero env m addressList .optimum, fresh_init addressList m⟩
  | succ n ih =>
    intro hn
    obtain ⟨r, frames, hrun, h⟩ := ih (by omega)
    have haddress : addressList[n]? = some addressList[n] := List.getElem?_eq_getElem (by omega)
    obtain ⟨r', frames', hstep, h'⟩ := h.step hnodup haddress (hopens n (by omega))
    refine ⟨r', frames', ?_, h'⟩
    rw [runTo_succ env m .optimum haddress, hrun, ok_bind, hstep]

/-- **Headline.** With every load succeeding, the calls of `swapPage_Optimal` are all defined, and
the TLB is kept, exactly if no two addresses of the list are on one page. -/
theorem optimum_defined_iff (hopens : ∀ PC < addressList.length, env.opens PC = true) :
    OptimumDefined env m addressList ↔ (pages addressList).Nodup := by
  constructor
  · -- a page that comes twice would be a hit, and a count below the number of references
    intro h
    by_contra hnodup
    obtain ⟨r, c, hrun, hcount, hopt⟩ := runTo_optimal h.hits hopens addressList.length
      (Nat.zero_add _) (runTo_zero env m addressList .optimum) (tlbOf_init m)
      (fun _ _ _ h => by cases h) (fun _ _ h => by cases h)
    rw [List.drop_zero] at hopt
    have hfaults := h.faultCount addressList.length (Nat.le_refl _) r hrun
    have hlt := hopt.lt_length_of_not_nodup (by decide) hnodup
    have hzero : r.faultCount = 0 + c := hcount
    rw [pages, List.length_map] at hlt
    omega
  · -- without a page that comes twice every round is a miss
    intro hnodup
    have hmiss : ∀ {n address r}, addressList[n]? = some address →
        runTo env m addressList .optimum n = .ok r →
        isPageLoaded r.memory.tlb (getPageNumber address) = notFound := by
      intro n address r haddress hrun
      have hn : n ≤ addressList.length := Nat.le_of_lt (List.getElem?_eq_some_iff.mp haddress).1
      obtain ⟨r₀, frames, hrun₀, h⟩ := runTo_fresh (m := m) hnodup hopens n hn
      rw [hrun] at hrun₀
      cases hrun₀
      rw [h.tlb, isPageLoaded_eq_notFound_iff (getPageNumber_nonneg address)]
      exact Frames.frameOf?_eq_none_iff.mpr (h.notMem hnodup haddress)
    refine ⟨?_, fun n address r haddress hrun => ?_, fun n hn r hrun => ?_,
      fun n address r r' haddress hrun hhit _ => absurd (hmiss haddress hrun) hhit⟩
    · obtain ⟨r, -, hrun, -⟩ := runTo_fresh (m := m) hnodup hopens _ (Nat.le_refl _)
      exact ⟨r, hrun⟩
    · rw [hmiss haddress hrun]
      obtain ⟨i, hswap⟩ := swapPageOptimal_miss r.memory.tlb addressList n
      exact ⟨i, hswap, fun hne => absurd rfl hne⟩
    · obtain ⟨r₀, frames, hrun₀, h⟩ := runTo_fresh (m := m) hnodup hopens n hn
      rw [hrun] at hrun₀
      cases hrun₀
      rw [h.tlb]
      exact onePlace_tlbOf h.injective

/-- Pages 1, 2, 3, 4. -/
theorem optimum_defined_four : OptimumDefined zeroEnv .fresh [0x100, 0x200, 0x300, 0x400] :=
  (optimum_defined_iff fun _ _ => rfl).mpr (by decide)

/-- **The missing `return`**: page 1 twice. -/
theorem optimum_undefined :
    (∃ r, runTo zeroEnv .fresh [0x100, 0x1ff] .optimum 1 = .ok r
        ∧ isPageLoaded r.memory.tlb (getPageNumber 0x1ff) = 0
        ∧ swapPageOptimal r.memory.tlb 0 [0x100, 0x1ff] 1 = none)
      ∧ ¬ ∀ (env : Env) (m : Memory) (addressList : List Int32),
        (∀ PC < addressList.length, env.opens PC = true) → OptimumDefined env m addressList := by
  have hstep : ∃ r, runTo zeroEnv .fresh [0x100, 0x1ff] .optimum 1 = .ok r
      ∧ isPageLoaded r.memory.tlb (getPageNumber 0x1ff) = 0
      ∧ swapPageOptimal r.memory.tlb 0 [0x100, 0x1ff] 1 = none := ⟨_, rfl, by decide, rfl⟩
  refine ⟨hstep, fun hall => ?_⟩
  obtain ⟨r, hrun, hloaded, hswap⟩ := hstep
  have hmiss := (hall zeroEnv .fresh [0x100, 0x1ff] fun _ _ => rfl).miss
    (show [0x100, 0x1ff][1]? = some 0x1ff from rfl) hrun
  rw [hloaded] at hmiss
  revert hmiss
  decide

end OsLab.Paging
