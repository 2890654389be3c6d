import OsLab.Paging.Coherence

/-!
# OsLab.Paging.FailedLoad — a load that fails

The swap functions change the history before the load is tried: the victim is popped and the
new page pushed, whatever becomes of the load. When the load of a page that is not resident
fails, the TLB stays as it was, so the history lists a page that is in no frame, and, if a
victim was popped, misses one that is.

* **`not_listsTlb_of_failed`**: one such reference leaves the history out of step.
* **`intact_iff`**: `Run` keeps the history in step exactly when no page fault of the policy
  meets a load that fails. A failed load on a page that is resident does no harm.
-/

namespace OsLab.Paging

open DoublyLinked Fallible PageReplacement

/-- The history lists exactly the pages that the TLB shows, each once. -/
def ListsTlb (m : Memory) : Prop :=
  ∃ xs, Denotes m.history xs ∧ xs.Nodup
    ∧ ∀ p, p ∈ xs ↔ p ≠ emptyMark ∧ ∃ i : Fin numberOfFrames, (m.tlb.get i).page = p

/-- Two histories list the same pages. -/
def SamePages (l l' : LinkedList) : Prop :=
  ∃ xs ys, Denotes l xs ∧ Denotes l' ys ∧ ∀ p, p ∈ xs ↔ p ∈ ys

/-- A failed load leaves the replacement state intact, over a whole run. -/
structure Intact (env : Env) (m : Memory) (addressList : List Int32) (alg : Algorithm) : Prop where
  returns : ∃ r, run env m addressList alg = .ok r
  lists : ∀ n ≤ addressList.length, ∀ r, runTo env m addressList alg n = .ok r → ListsTlb r.memory
  failed : ∀ n < addressList.length, env.opens n = false → ∀ r r',
    runTo env m addressList alg n = .ok r → runTo env m addressList alg (n + 1) = .ok r' →
      r'.memory.tlb = r.memory.tlb ∧ SamePages r.memory.history r'.memory.history

variable {env : Env} {addressList : List Int32} {r : RunState} {s : State numberOfFrames Int}

/-! ## In step

As long as the loads of the page faults succeed, the history lists what the TLB shows. -/

/-- The pages that the TLB shows are those in the frames. -/
theorem mem_resident_iff_tlb {tlb : Vector TlbEntry numberOfFrames}
    {frames : Frames numberOfFrames Int} (htlb : tlb = tlbOf frames) (hnonneg : PagesNonneg frames)
    (p : Int) :
    p ∈ frames.resident ↔ p ≠ emptyMark ∧ ∃ i : Fin numberOfFrames, (tlb.get i).page = p := by
  subst htlb
  rw [Frames.mem_resident]
  constructor
  · -- a page number is never mistaken for `EMPTY`
    rintro ⟨i, hi⟩
    have hp := hnonneg hi
    refine ⟨by unfold emptyMark; omega, i, ?_⟩
    rw [get_tlbOf, hi]
    rfl
  · rintro ⟨hne, i, hi⟩
    rw [get_tlbOf] at hi
    refine ⟨i, ?_⟩
    cases hframe : frames i with
    | none =>
      rw [hframe] at hi
      exact absurd hi.symm hne
    | some q =>
      rw [hframe] at hi
      exact congrArg some hi

/-- A run in step with its policy lists what the TLB shows. -/
theorem Tracks.listsTlb (h : Tracks r s) : ListsTlb r.memory := by
  obtain ⟨xs, hden, hmem, hages⟩ := h.history
  refine ⟨xs, hden, hages.nodup, fun p => ?_⟩
  rw [hmem, mem_resident_iff_tlb h.tlb h.nonneg]

/-- Two histories that list what one TLB shows. -/
theorem ListsTlb.samePages {m m' : Memory} (h : ListsTlb m) (h' : ListsTlb m')
    (htlb : m'.tlb = m.tlb) : SamePages m.history m'.history := by
  obtain ⟨xs, hden, -, hmem⟩ := h
  obtain ⟨ys, hden', -, hmem'⟩ := h'
  refine ⟨xs, ys, hden, hden', fun p => ?_⟩
  rw [hmem, hmem', htlb]

/-- The TLB only changes when a load succeeds. -/
theorem runStep_tlb_of_failed {alg : Algorithm} {r' : RunState} {PC : Nat} {address : Int32}
    {frames : Frames numberOfFrames Int} (halg : alg = .fifo ∨ alg = .lru)
    (htlb : r.memory.tlb = tlbOf frames) (hfails : env.opens PC = false)
    (hstep : runStep env addressList alg r PC address = .ok r') :
    r'.memory.tlb = r.memory.tlb := by
  obtain ⟨frameIndex, m, hswap, hmemory⟩ := of_runStep hstep
  rw [hmemory, hfails, afterLoad_failed]
  exact (swapPage_frame halg htlb hswap).1

theorem byAge_cases (stamp : Stamp) : byAge stamp = .fifo ∨ byAge stamp = .lru := by
  cases stamp
  · exact Or.inl rfl
  · exact Or.inr rfl

/-! ## Out of step

The swap function puts the page on the history before it is loaded. When the load fails, the page
stays there, though no frame has it; nothing later can be said to undo this, since the first such
round already breaks the promise. -/

/-- **The first harm.** A reference to a page that is not resident whose load fails: the page is
listed, and it is in no frame. -/
theorem not_listsTlb_of_failed (addressList : List Int32) (stamp : Stamp) {PC : Nat}
    (h : Tracks r s) {address : Int32}
    (hmiss : getPageNumber address ∉ s.frames.resident) (hfails : env.opens PC = false) :
    ∃ r', runStep env addressList (byAge stamp) r PC address = .ok r' ∧ ¬ ListsTlb r'.memory := by
  have hpage := getPageNumber_nonneg address
  have hnotFound : isPageLoaded r.memory.tlb (getPageNumber address) = notFound := by
    rw [h.tlb]
    exact (isPageLoaded_eq_notFound_iff hpage).mpr (Frames.frameOf?_eq_none_iff.mpr hmiss)
  obtain ⟨i, history, xs, -, hreplace, hden, hmem, -⟩ := replaceTail_tracks h hmiss
  have hswap : swapPage env addressList (byAge stamp) r.memory PC
      (isPageLoaded r.memory.tlb (getPageNumber address)) (getPageNumber address)
        = .ok (((i : Nat) : Int), { r.memory with history }) := by
    rw [hnotFound, ← hreplace]
    cases stamp <;> rfl
  have hstep := runStep_eq hswap
  rw [hfails, afterLoad_failed] at hstep
  refine ⟨_, hstep, ?_⟩
  rintro ⟨ys, hden', -, hmem'⟩
  -- the page is in the history, which is the one list the pointers denote
  have hlisted : getPageNumber address ∈ ys := by
    rw [hden'.unique hden, hmem]
    exact Frames.mem_resident.mpr ⟨i, Frames.load_self⟩
  have hshown := (hmem' _).mp hlisted
  exact hmiss ((mem_resident_iff_tlb h.tlb h.nonneg _).mpr hshown)

/-- **When a failed load does no harm.** With FIFO and with LRU and an empty history, `Run`
returns and keeps the history in step with the TLB exactly when every reference that is a page
fault of the policy finds the backing store. -/
theorem intact_iff (env : Env) (m : Memory) (addressList : List Int32) (stamp : Stamp)
    (hempty : Denotes m.history []) (hfuel : numberOfFrames ≤ env.fuel) :
    Intact env m addressList (byAge stamp)
      ↔ FaultsLoad env addressList stamp addressList.length := by
  constructor
  · intro hintact
    -- up to any index the run follows the policy, so the next fault must load
    have hupTo (n : Nat) (hn : n ≤ addressList.length) : FaultsLoad env addressList stamp n := by
      induction n with
      | zero => exact fun PC hPC => absurd hPC (Nat.not_lt_zero PC)
      | succ n ih =>
        have hbefore := ih (by omega)
        intro PC hPC address haddress hmiss
        rcases Nat.lt_succ_iff_lt_or_eq.mp hPC with hlt | rfl
        · exact hbefore PC hlt address haddress hmiss
        · obtain ⟨r, hrun, htracks⟩ := runTo_tracks stamp hempty hfuel (by omega) hbefore
          by_contra hfails
          obtain ⟨r', hstep, hnot⟩ :=
            not_listsTlb_of_failed addressList stamp htracks hmiss (Bool.eq_false_iff.mpr hfails)
          apply hnot
          apply hintact.lists (PC + 1) hn
          rw [runTo_succ env m _ haddress, hrun, ok_bind, hstep]
    exact hupTo addressList.length (Nat.le_refl _)
  · intro hload
    have htracks {n : Nat} (hn : n ≤ addressList.length) := runTo_tracks stamp hempty hfuel hn
      fun PC hPC => hload PC (by omega)
    have hlists (n : Nat) (hn : n ≤ addressList.length) (r : RunState)
        (hrun : runTo env m addressList (byAge stamp) n = .ok r) : ListsTlb r.memory := by
      obtain ⟨r₀, hrun₀, h⟩ := htracks hn
      rw [hrun] at hrun₀
      cases hrun₀
      exact h.listsTlb
    refine ⟨?_, hlists, fun n hn hfails r r' hrun hrun' => ?_⟩
    · obtain ⟨r, hrun, -⟩ := htracks (Nat.le_refl _)
      exact ⟨r, hrun⟩
    · have htlb : r'.memory.tlb = r.memory.tlb := by
        obtain ⟨frames, hcaches⟩ := runTo_caches (byAge_cases stamp) hrun
        rw [runTo_succ env m _ (List.getElem?_eq_getElem hn), hrun, ok_bind] at hrun'
        exact runStep_tlb_of_failed (byAge_cases stamp) hcaches.tlb hfails hrun'
      exact ⟨htlb, (hlists n (by omega) r hrun).samePages (hlists (n + 1) hn r' hrun') htlb⟩

/-- Pages 1, 2, 1 with LRU, where the second reference of page 1 cannot load: a hit. -/
theorem intact_iff_three : Intact (lossyEnv 2) .fresh [0x100, 0x200, 0x1ff] (byAge .onReference) := by
  apply (intact_iff (lossyEnv 2) .fresh [0x100, 0x200, 0x1ff] .onReference denotes_empty
    (Nat.le_refl 3)).mpr
  intro PC hPC address haddress hmiss
  -- only the third reference fails, and it is a hit
  apply bne_iff_ne.mpr
  rintro rfl
  cases haddress
  exact absurd (by decide) hmiss

/-- Page 0 with FIFO, where its load fails: the history lists page 0, and the TLB is empty. -/
theorem failed_load_listed : ¬ Intact (lossyEnv 0) .fresh [0] .fifo := by
  intro hintact
  have hinit : Tracks { memory := initPhysicalMemory .fresh, faultCount := 0 } .init :=
    tracks_init denotes_empty
  have hmiss : getPageNumber 0 ∉ (State.init : State numberOfFrames Int).frames.resident := by decide
  have hfails : (lossyEnv 0).opens 0 = false := rfl
  obtain ⟨r', hstep, hnot⟩ := not_listsTlb_of_failed [0] .onLoad hinit hmiss hfails
  exact hnot (hintact.lists 1 (Nat.le_refl _) r' hstep)

end OsLab.Paging
