import OsLab.Lib.PageQueue
import OsLab.Paging.Optimal

/-!
# OsLab.Paging.Recency — what FIFO and LRU keep, and what it costs

The history of `Run` is the queue of its policy: the TLB holds the pages of the queue and no
others, and the page at the tail is the next one to go. So what the two algorithms keep can
be read off the addresses, and their faults compared with those of `OPTIMUM`.

* **`faultPages`**: the pages at which `is_PageLoaded` said `NOT_FOUND`, in order.
* **`runTo_fifo_recent`**: `FIFO` keeps the three pages that faulted last.
* **`runTo_lru_recent`**: `LRU` keeps the three pages referenced last.
* **`run_byAge_competitive`**: neither faults more than three times as often as `OPTIMUM`.
-/

namespace OsLab.Paging

open DemandPaging DoublyLinked Fallible PageReplacement

variable {env : Env} {m : Memory} {addressList : List Int32} {r : RunState} {q : List Int}

/-! ## The history is the queue

The list `history` and the frames together are the queue of the policy: its order is in the list,
its pages are in the frames. -/

/-- The history is `q`, head to tail, and the loaded pages are those of `q`. -/
def Keeps (r : RunState) (q : List Int) : Prop :=
  Denotes r.memory.history q
    ∧ ∀ page, 0 ≤ page → (isPageLoaded r.memory.tlb page ≠ notFound ↔ page ∈ q)

/-- A run in step with its policy has the queue of the policy for its history. -/
theorem Tracks.keeps {s : State numberOfFrames Int} (h : Tracks r s) (hq : s.Lists q) :
    Keeps r q := by
  obtain ⟨xs, hden, hmem, hages⟩ := h.history
  have hxs : xs = q := State.Lists.unique (s := s) ⟨hages, hmem⟩ hq
  subst hxs
  refine ⟨hden, fun page hpage => ?_⟩
  rw [h.tlb, Ne, isPageLoaded_eq_notFound_iff hpage, Frames.frameOf?_eq_none_iff, not_not, hmem]

/-- After any number of addresses: the history, what is loaded, and the fault count. -/
theorem runTo_keeps (stamp : Stamp) (hempty : Denotes m.history [])
    (hopens : ∀ PC < addressList.length, env.opens PC = true) (hfuel : numberOfFrames ≤ env.fuel)
    {n : Nat} (hn : n ≤ addressList.length) :
    ∃ r, runTo env m addressList (byAge stamp) n = .ok r
      ∧ Keeps r (Queue.run numberOfFrames stamp [] ((pages addressList).take n))
      ∧ r.faultCount = (Queue.loads numberOfFrames stamp [] ((pages addressList).take n)).length := by
  obtain ⟨r, hrun, htracks⟩ := (run_tracks stamp hempty hopens hfuel).2 n hn
  obtain ⟨hlists, hfaults⟩ := State.Lists.run (k := numberOfFrames) (by decide) stamp
    ((pages addressList).take n) State.lists_init (fun _ _ _ h => by cases h)
  refine ⟨r, hrun, htracks.keeps hlists, ?_⟩
  rw [htracks.faults, hfaults]
  exact Nat.zero_add _

/-! ## What the two algorithms keep

What is resident after any number of addresses can be said without the queue: under LRU the last
three different pages, under FIFO the last three pages that faulted. -/

/-- The round of `Run` at index `PC` is a page fault. -/
def faultsAt (env : Env) (m : Memory) (addressList : List Int32) (alg : Algorithm)
    (address : Int32) (PC : Nat) : Bool :=
  match runTo env m addressList alg PC with
  | .ok r => isPageLoaded r.memory.tlb (getPageNumber address) == notFound
  | .error _ => false

/-- The pages that faulted in the first `n` rounds of `Run`, in order. -/
def faultPages (env : Env) (m : Memory) (addressList : List Int32) (alg : Algorithm) (n : Nat) :
    List Int :=
  ((addressList.zipIdx.take n).filter fun (address, PC) =>
    faultsAt env m addressList alg address PC).map fun (address, _) => getPageNumber address

/-- One more round may be one more fault. -/
theorem faultPages_succ (env : Env) (m : Memory) (alg : Algorithm) {n : Nat} {address : Int32}
    (h : addressList[n]? = some address) :
    faultPages env m addressList alg (n + 1) = faultPages env m addressList alg n
      ++ if faultsAt env m addressList alg address n then [getPageNumber address] else [] := by
  have hn : addressList.zipIdx[n]? = some (address, n) := by
    rw [List.getElem?_zipIdx, h, Option.map_some, Nat.zero_add]
  rw [faultPages, faultPages, List.take_add_one, hn, Option.toList_some, List.filter_append,
    List.map_append, List.filter_singleton]
  congr 1
  cases hfaults : faultsAt env m addressList alg address n <;> simp [hfaults]

/-- The pages that faulted are the pages the queue loaded. -/
theorem faultPages_eq (stamp : Stamp) (hempty : Denotes m.history [])
    (hopens : ∀ PC < addressList.length, env.opens PC = true) (hfuel : numberOfFrames ≤ env.fuel) :
    ∀ n ≤ addressList.length, faultPages env m addressList (byAge stamp) n
      = Queue.loads numberOfFrames stamp [] ((pages addressList).take n) := by
  intro n
  induction n with
  | zero => exact fun _ => rfl
  | succ n ih =>
    intro hn
    have haddress : addressList[n]? = some addressList[n] := List.getElem?_eq_getElem hn
    obtain ⟨r, hrun, ⟨-, hloaded⟩, -⟩ := runTo_keeps stamp hempty hopens hfuel (Nat.le_of_lt hn)
    rw [faultPages_succ env m _ haddress, ih (Nat.le_of_lt hn), pages_take_succ haddress,
      Queue.loads_append_singleton]
    -- a round faults when its page is not in the queue
    have hfault : faultsAt env m addressList (byAge stamp) addressList[n] n = true
        ↔ getPageNumber addressList[n]
          ∉ Queue.run numberOfFrames stamp [] ((pages addressList).take n) := by
      rw [← hloaded _ (getPageNumber_nonneg _), not_not, faultsAt, hrun]
      exact beq_iff_eq
    by_cases hin : getPageNumber addressList[n]
        ∈ Queue.run numberOfFrames stamp [] ((pages addressList).take n)
    · rw [if_pos hin, if_neg fun h => hfault.mp h hin]
    · rw [if_neg hin, if_pos (hfault.mpr hin)]

/-- **FIFO keeps the three pages that faulted last**, the last one at the head of the
history. -/
theorem runTo_fifo_recent (env : Env) (m : Memory) (addressList : List Int32)
    (hempty : Denotes m.history [])
    (hopens : ∀ PC < addressList.length, env.opens PC = true) (hfuel : numberOfFrames ≤ env.fuel)
    (n : Nat) (hn : n ≤ addressList.length) :
    ∃ r, runTo env m addressList .fifo n = .ok r
      ∧ r.faultCount = (faultPages env m addressList .fifo n).length
      ∧ Keeps r ((faultPages env m addressList .fifo n).reverse.take numberOfFrames) := by
  obtain ⟨r, hrun, hkeeps, hfaults⟩ := runTo_keeps .onLoad hempty hopens hfuel hn
  have hpages := faultPages_eq .onLoad hempty hopens hfuel n hn
  refine ⟨r, hrun, ?_, ?_⟩
  · rw [hfaults, ← hpages]
    rfl
  · rw [Queue.run_onLoad _ _ (Nat.zero_le _), List.append_nil, ← hpages] at hkeeps
    exact hkeeps

/-- **LRU keeps the three pages referenced last**, the last one at the head of the history. -/
theorem runTo_lru_recent (env : Env) (m : Memory) (addressList : List Int32)
    (hempty : Denotes m.history [])
    (hopens : ∀ PC < addressList.length, env.opens PC = true) (hfuel : numberOfFrames ≤ env.fuel)
    (n : Nat) (hn : n ≤ addressList.length) :
    ∃ r, runTo env m addressList .lru n = .ok r
      ∧ r.faultCount = (faultPages env m addressList .lru n).length
      ∧ Keeps r (((pages addressList).take n).dedup.reverse.take numberOfFrames) := by
  obtain ⟨r, hrun, hkeeps, hfaults⟩ := runTo_keeps .onReference hempty hopens hfuel hn
  have hpages := faultPages_eq .onReference hempty hopens hfuel n hn
  refine ⟨r, hrun, ?_, ?_⟩
  · rw [hfaults, ← hpages]
    rfl
  · rw [Queue.run_onReference] at hkeeps
    exact hkeeps

/-- Pages 1, 2, 3, 1, 4: page 1 goes, it was loaded first. -/
theorem runTo_fifo_recent_five :
    ∃ r, runTo zeroEnv .fresh [0x100, 0x200, 0x300, 0x1ff, 0x400] .fifo 5 = .ok r
      ∧ Keeps r [4, 3, 2] := by
  obtain ⟨r, hrun, -, hkeeps⟩ := runTo_fifo_recent zeroEnv .fresh
    [0x100, 0x200, 0x300, 0x1ff, 0x400] denotes_empty (fun _ _ => rfl) (Nat.le_refl _) 5
    (by decide)
  exact ⟨r, hrun, hkeeps⟩

/-- Pages 1, 2, 3, 1, 4: page 2 goes, it was used last of all. -/
theorem runTo_lru_recent_five :
    ∃ r, runTo zeroEnv .fresh [0x100, 0x200, 0x300, 0x1ff, 0x400] .lru 5 = .ok r
      ∧ Keeps r [4, 1, 3] := by
  obtain ⟨r, hrun, -, hkeeps⟩ := runTo_lru_recent zeroEnv .fresh
    [0x100, 0x200, 0x300, 0x1ff, 0x400] denotes_empty (fun _ _ => rfl) (Nat.le_refl _) 5
    (by decide)
  exact ⟨r, hrun, hkeeps⟩

/-! ## What it costs

A policy that must know the future faults at most as often, and FIFO and LRU at most three times as
often. Against a policy on fewer frames the factor is smaller. -/

/-- The fault count of `OPTIMUM` is that of a demand-paging policy. -/
theorem run_optimum_demand (hopens : ∀ PC < addressList.length, env.opens PC = true)
    (hhits : HitsKeepTlb env m addressList) :
    ∃ r, run env m addressList .optimum = .ok r
      ∧ OptimalRun numberOfFrames ∅ (pages addressList) r.faultCount := by
  obtain ⟨r, n, hrun, hcount, hopt⟩ := runTo_optimal hhits hopens addressList.length
    (Nat.zero_add _) (runTo_zero env m addressList .optimum) (tlbOf_init m)
    (fun _ _ _ h => by cases h) (fun _ _ h => by cases h)
  have hstart : (Frames.resident fun _ : Fin numberOfFrames => (none : Option Int)) = ∅ := by
    decide
  rw [hstart, List.drop_zero] at hopt
  have hzero : r.faultCount = n := hcount.trans (Nat.zero_add n)
  exact ⟨r, hrun, hzero ▸ hopt⟩

/-- **FIFO and LRU are competitive.** Each loads every page at least once; it faults at most
three times as often as any policy on its three frames, so as `OPTIMUM`; and against a policy
that has only `h = 3 - d` frames, `d + 1` of its faults are paid for by three of the other's,
up to `3 * d`. -/
theorem run_byAge_competitive (env : Env) (m : Memory) (addressList : List Int32)
    (hempty : Denotes m.history [])
    (hopens : ∀ PC < addressList.length, env.opens PC = true) (hfuel : numberOfFrames ≤ env.fuel)
    (stamp : Stamp) :
    ∃ r, run env m addressList (byAge stamp) = .ok r
      ∧ (pages addressList).toFinset.card ≤ r.faultCount
      ∧ (∀ h d n, h + d = numberOfFrames → Run h ∅ (pages addressList) n →
          (d + 1) * r.faultCount ≤ numberOfFrames * n + numberOfFrames * d)
      ∧ (HitsKeepTlb env m addressList → ∃ r', run env m addressList .optimum = .ok r'
          ∧ r.faultCount ≤ numberOfFrames * r'.faultCount) := by
  obtain ⟨r, hrun, -, hcount⟩ := runTo_keeps stamp hempty hopens hfuel (Nat.le_refl _)
  have hall : (pages addressList).take addressList.length = pages addressList := by
    rw [List.take_of_length_le (by rw [pages, List.length_map])]
  rw [hall] at hcount
  refine ⟨r, hrun, ?_, ?_, ?_⟩
  · -- every page is loaded once, at least
    have hsdiff := (State.demandRun_loads (k := numberOfFrames) (by decide) stamp
      (pages addressList)).card_sdiff_le
    rw [Finset.sdiff_empty] at hsdiff
    rw [hcount]
    exact hsdiff
  · intro h d n hhd hn
    rw [hcount]
    exact Queue.length_loads_le stamp hn hhd
  · intro hhits
    obtain ⟨r', hrun', hopt⟩ := run_optimum_demand hopens hhits
    have hle := Queue.length_loads_le stamp hopt.run (Nat.add_zero numberOfFrames)
    refine ⟨r', hrun', ?_⟩
    rw [hcount]
    omega

/-- Pages 1, 2, 3, 4, 1, 2, 3, 4: FIFO faults at each of them. -/
theorem run_byAge_competitive_eight :
    ∃ r, run zeroEnv .fresh [0x100, 0x200, 0x300, 0x400, 0x100, 0x200, 0x300, 0x400] (byAge .onLoad)
        = .ok r
      ∧ ∃ r', run zeroEnv .fresh [0x100, 0x200, 0x300, 0x400, 0x100, 0x200, 0x300, 0x400] .optimum
          = .ok r' ∧ r.faultCount ≤ 3 * r'.faultCount := by
  obtain ⟨r, hrun, -, -, hoptimum⟩ := run_byAge_competitive zeroEnv .fresh
    [0x100, 0x200, 0x300, 0x400, 0x100, 0x200, 0x300, 0x400] denotes_empty (fun _ _ => rfl)
    (Nat.le_refl _) .onLoad
  exact ⟨r, hrun, hoptimum (hitsKeepTlb_of_neg fun _ => show notFound < 0 by decide)⟩

end OsLab.Paging
