import Mathlib.Data.ENat.Lattice
import Mathlib.Data.Finset.Card
import Mathlib.Data.Finset.Insert

/-!
# Demand paging

Page replacement over an arbitrary type of pages and `k` frames, seen as a run of resident
sets along the reference string.

* **`Run k S ρ n`**: some demand-paging policy, started with the pages `S` resident, serves
  the references `ρ` with `n` faults. On a fault it loads the referenced page and keeps any
  `k` or fewer of the pages it has; nothing is assumed about how it chooses.
* **`OptimalRun k S ρ m`**: the policy that evicts, when it must, a page whose next use is
  farthest away (`FarthestUse`).
* **`OptimalRun.le_run`**: no policy faults less often.
* **`OptimalRun.lt_length_of_not_nodup`**: on two frames or more it has a hit if some page is
  referenced twice.
* **`nextPosition`**: the position at which a page is used next, `⊤` for never.

The argument follows a potential. `near ρ x S` counts the pages of `S` used within the next
`x` references; `Covers d ρ S T` says that on every such horizon `S` is at most `d` pages
behind `T`. One reference changes `d` by the difference of the two fault counts, so along
the whole string the faults of the optimal run exceed the other's by at most the `d` it
started with, which is `0`.
-/

namespace DemandPaging

variable {P : Type*} [DecidableEq P] {k : Nat}

/-! ## Policies

A policy is described by its runs: at a reference to a page that is there it does nothing, and at
any other it loads the page and gives up what it likes, as long as the pages fit into the frames.
Nothing is said about how it chooses, so that every policy that loads on demand has such runs. -/

/-- A run of a demand-paging policy on `k` frames, with its number of faults. -/
inductive Run (k : Nat) : Finset P → List P → Nat → Prop where
  | nil (S : Finset P) : Run k S [] 0
  | hit {S : Finset P} {r : P} {ρ : List P} {n : Nat} (hr : r ∈ S) (h : Run k S ρ n) :
      Run k S (r :: ρ) n
  | fault {S S' : Finset P} {r : P} {ρ : List P} {n : Nat} (hr : r ∉ S) (hload : r ∈ S')
      (hkeep : S' ⊆ insert r S) (hcard : S'.card ≤ k) (h : Run k S' ρ n) :
      Run k S (r :: ρ) (n + 1)

/-- On the references `ρ` still to come, no page of `S` is used later than `w`: whenever `w`
occurs within the next `x` references, so does every page of `S`. A page that does not occur
again is used later than every other. -/
def FarthestUse (ρ : List P) (S : Finset P) (w : P) : Prop :=
  w ∈ S ∧ ∀ p ∈ S, ∀ x, w ∈ ρ.take x → p ∈ ρ.take x

/-- The run that evicts a page of farthest next use, and only when all frames are full. -/
inductive OptimalRun (k : Nat) : Finset P → List P → Nat → Prop where
  | nil (S : Finset P) : OptimalRun k S [] 0
  | hit {S : Finset P} {r : P} {ρ : List P} {n : Nat} (hr : r ∈ S) (h : OptimalRun k S ρ n) :
      OptimalRun k S (r :: ρ) n
  | load {S : Finset P} {r : P} {ρ : List P} {n : Nat} (hr : r ∉ S) (hroom : S.card < k)
      (h : OptimalRun k (insert r S) ρ n) : OptimalRun k S (r :: ρ) (n + 1)
  | evict {S : Finset P} {r w : P} {ρ : List P} {n : Nat} (hr : r ∉ S) (hfull : S.card = k)
      (hw : FarthestUse ρ S w) (h : OptimalRun k (insert r (S.erase w)) ρ n) :
      OptimalRun k S (r :: ρ) (n + 1)

/-- Every page that is not there at first is loaded once, at least. -/
theorem Run.card_sdiff_le {S : Finset P} {ρ : List P} {n : Nat} (h : Run k S ρ n) :
    (ρ.toFinset \ S).card ≤ n := by
  induction h with
  | nil S => simp
  | @hit S r ρ n hr _ ih =>
    rw [List.toFinset_cons, Finset.insert_sdiff_of_mem _ hr]
    exact ih
  | @fault S S' r ρ n hr _ hkeep _ _ ih =>
    -- the page loaded is one of those to be counted, the others are still to come
    have hsub : (r :: ρ).toFinset \ S ⊆ insert r (ρ.toFinset \ S') := by
      intro p hp
      rw [List.toFinset_cons] at hp
      obtain ⟨hp, hpS⟩ := Finset.mem_sdiff.mp hp
      rcases Finset.mem_insert.mp hp with rfl | hp
      · exact Finset.mem_insert_self _ _
      · by_cases hpr : p = r
        · exact Finset.mem_insert.mpr (Or.inl hpr)
        · refine Finset.mem_insert_of_mem (Finset.mem_sdiff.mpr ⟨hp, fun hpS' => ?_⟩)
          exact hpS ((Finset.mem_insert.mp (hkeep hpS')).resolve_left hpr)
    have hcard := Finset.card_insert_le r (ρ.toFinset \ S')
    exact Nat.le_trans (Finset.card_le_card hsub) (by omega)

/-! ## The potential

The optimal run is compared with another one by the pages each holds that are needed soon, on every
horizon at once. The lead of the other run on all horizons is what can be turned into faults of the
optimal run, and the argument shows that it does not grow without being paid for. -/

/-- The pages of `S` used within the next `x` references. -/
def near (ρ : List P) (x : Nat) (S : Finset P) : Nat := (S.filter (· ∈ ρ.take x)).card

/-- On every horizon, `S` holds at most `d` soon-needed pages fewer than `T`. -/
def Covers (d : Nat) (ρ : List P) (S T : Finset P) : Prop := ∀ x, near ρ x T ≤ near ρ x S + d

/-- More pages, more of them needed soon. -/
theorem near_mono {ρ : List P} {x : Nat} {S T : Finset P} (h : S ⊆ T) :
    near ρ x S ≤ near ρ x T :=
  Finset.card_le_card (Finset.filter_subset_filter _ h)

theorem near_le_card (ρ : List P) (x : Nat) (S : Finset P) : near ρ x S ≤ S.card :=
  Finset.card_filter_le _ _

theorem near_zero (ρ : List P) (S : Finset P) : near ρ 0 S = 0 := by
  simp [near]

/-- The reference `r` itself counts for the sets that hold it; the other pages see one
reference less. -/
theorem near_cons (r : P) (ρ : List P) (x : Nat) (S : Finset P) :
    near (r :: ρ) (x + 1) S = near ρ x (S.erase r) + if r ∈ S then 1 else 0 := by
  unfold near
  have hrest : (S.erase r).filter (· ∈ (r :: ρ).take (x + 1))
      = (S.erase r).filter (· ∈ ρ.take x) := by
    refine Finset.filter_congr fun p hp => ?_
    rw [List.take_succ_cons, List.mem_cons]
    simp [Finset.ne_of_mem_erase hp]
  rw [← hrest, Finset.filter_erase]
  split
  · next hr =>
    exact (Finset.card_erase_add_one (Finset.mem_filter.mpr ⟨hr, by simp⟩)).symm
  · next hr =>
    have hnot : r ∉ S.filter (· ∈ (r :: ρ).take (x + 1)) := fun h => hr (Finset.mem_filter.mp h).1
    rw [Finset.erase_eq_of_notMem hnot]
    rfl

/-- Splitting off a resident page, on the references still to come. -/
theorem near_eq_erase {ρ : List P} {x : Nat} {S : Finset P} {r : P} (hr : r ∈ S) :
    near ρ x S = near ρ x (S.erase r) + if r ∈ ρ.take x then 1 else 0 := by
  unfold near
  rw [Finset.filter_erase]
  split
  · next hx => exact (Finset.card_erase_add_one (Finset.mem_filter.mpr ⟨hr, hx⟩)).symm
  · next hx =>
    rw [Finset.erase_eq_of_notMem fun h => hx (Finset.mem_filter.mp h).2, Nat.add_zero]

/-- **One reference.** `S'` keeps, besides `r`, either as many soon-needed pages as `S` had or
all but one frame's worth; then the lead of the other policy changes by the difference of the
two hits. -/
theorem Covers.step {r : P} {ρ : List P} {S S' T T' : Finset P} {d d' : Nat}
    (h : Covers d (r :: ρ) S T) (hrS' : r ∈ S') (hrT' : r ∈ T') (hkeep : T' ⊆ insert r T)
    (hcard : T'.card ≤ k)
    (hbest : ∀ x, near ρ x (S.erase r) ≤ near ρ x (S'.erase r) ∨ k ≤ near ρ x (S'.erase r) + 1)
    (hd : d + (if r ∈ S then 1 else 0) = d' + if r ∈ T then 1 else 0) :
    Covers d' ρ S' T' := by
  intro x
  rw [near_eq_erase hrS', near_eq_erase hrT']
  -- the other run has loaded `r` only
  have hT : near ρ x (T'.erase r) ≤ near ρ x (T.erase r) := by
    refine near_mono fun p hp => ?_
    obtain ⟨hne, hp'⟩ := Finset.mem_erase.mp hp
    exact Finset.mem_erase.mpr ⟨hne, (Finset.mem_insert.mp (hkeep hp')).resolve_left hne⟩
  have hone := h (x + 1)
  rw [near_cons, near_cons] at hone
  rcases hbest x with hle | hall
  · omega
  · -- `S'` already holds every soon-needed page it has frames for
    have hsmall : near ρ x (T'.erase r) ≤ T'.card - 1 := by
      rw [← Finset.card_erase_of_mem hrT']
      exact near_le_card _ _ _
    omega

/-- Evicting a page of farthest use costs nothing on the horizons it is not used in, and on
the others every remaining page is used. -/
theorem FarthestUse.near_erase {ρ : List P} {S : Finset P} {w : P} (hw : FarthestUse ρ S w)
    (x : Nat) : near ρ x S ≤ near ρ x (S.erase w) ∨ S.card ≤ near ρ x (S.erase w) + 1 := by
  obtain ⟨hmem, hfar⟩ := hw
  by_cases hx : w ∈ ρ.take x
  · right
    have hall : S.erase w ⊆ (S.erase w).filter (· ∈ ρ.take x) := fun p hp =>
      Finset.mem_filter.mpr ⟨hp, hfar p (Finset.mem_of_mem_erase hp) x hx⟩
    have hle := Finset.card_le_card hall
    have hcard := Finset.card_erase_add_one hmem
    unfold near
    omega
  · left
    rw [near_eq_erase hmem, if_neg hx, Nat.add_zero]

/-! ## No policy faults less often

At a fault of the optimal run the page of farthest next use goes. On the horizons on which that page
is not needed nothing has been lost, and on the others all the pages kept are needed, so that no
other run can hold many more of them. -/

/-- One reference the optimal run faults on, whatever the other policy does. -/
theorem faults_le_of_fault {S S' T : Finset P} {r : P} {ρ : List P} {m n d : Nat} (hr : r ∉ S)
    (hrun : Run k T (r :: ρ) n) (hT : T.card ≤ k) (hcov : Covers d (r :: ρ) S T) (hrS' : r ∈ S')
    (hbest : ∀ x, near ρ x (S.erase r) ≤ near ρ x (S'.erase r) ∨ k ≤ near ρ x (S'.erase r) + 1)
    (ih : ∀ {T : Finset P} {n d : Nat}, Run k T ρ n → T.card ≤ k → Covers d ρ S' T → m ≤ n + d) :
    m + 1 ≤ n + d := by
  cases hrun with
  | hit hrT hrest =>
    -- the other policy holds `r` and the optimal one does not: the lead is at least one page
    have hlead := hcov (0 + 1)
    rw [near_cons, near_cons, near_zero, near_zero, if_pos hrT, if_neg hr] at hlead
    obtain ⟨e, rfl⟩ : ∃ e, d = e + 1 := ⟨d - 1, by omega⟩
    have hcov' : Covers e ρ S' T :=
      hcov.step hrS' hrT (Finset.subset_insert r T) hT hbest (by simp [hr, hrT])
    have hle := ih hrest hT hcov'
    omega
  | fault hrT hload hkeep hcard hrest =>
    have hcov' : Covers d ρ S' _ :=
      hcov.step hrS' hload hkeep hcard hbest (by simp [hr, hrT])
    have hle := ih hrest hcard hcov'
    omega

/-- **Optimality of farthest-next-use eviction**, from a lead of `d` pages. Induction on the
optimal run; the other policy hits or faults on the same reference. -/
theorem OptimalRun.le_run_add {S : Finset P} {ρ : List P} {m : Nat} (hopt : OptimalRun k S ρ m) :
    ∀ {T : Finset P} {n d : Nat}, Run k T ρ n → T.card ≤ k → Covers d ρ S T → m ≤ n + d := by
  induction hopt with
  | nil S => intros; omega
  | @hit S r ρ m hr _ ih =>
    intro T n d hrun hT hcov
    have hbest : ∀ x, near ρ x (S.erase r) ≤ near ρ x (S.erase r)
        ∨ k ≤ near ρ x (S.erase r) + 1 := fun x => Or.inl le_rfl
    cases hrun with
    | hit hrT hrest =>
      exact ih hrest hT (hcov.step hr hrT (Finset.subset_insert r T) hT hbest (by simp [hr, hrT]))
    | fault hrT hload hkeep hcard hrest =>
      -- it faults alone, and what it loads may put it one page further ahead
      have hcov' : Covers (d + 1) ρ S _ :=
        hcov.step hr hload hkeep hcard hbest (by simp [hr, hrT])
      have hle := ih hrest hcard hcov'
      omega
  | @load S r ρ m hr hroom _ ih =>
    intro T n d hrun hT hcov
    refine faults_le_of_fault hr hrun hT hcov (Finset.mem_insert_self r S) (fun x => ?_) ih
    rw [Finset.erase_insert hr, Finset.erase_eq_of_notMem hr]
    exact Or.inl le_rfl
  | @evict S r w ρ m hr hfull hw _ ih =>
    intro T n d hrun hT hcov
    refine faults_le_of_fault hr hrun hT hcov (Finset.mem_insert_self r _) (fun x => ?_) ih
    rw [Finset.erase_insert fun h => hr (Finset.mem_of_mem_erase h), Finset.erase_eq_of_notMem hr,
      ← hfull]
    exact hw.near_erase x

/-- **Optimality.** Started with the same pages, no demand-paging policy faults less often. -/
theorem OptimalRun.le_run {S : Finset P} {ρ : List P} {m n : Nat} (hopt : OptimalRun k S ρ m)
    (hrun : Run k S ρ n) (hcard : S.card ≤ k) : m ≤ n := by
  have hcov : Covers 0 ρ S S := fun x => le_rfl
  exact hopt.le_run_add hrun hcard hcov

/-! ## Faults on every reference

A bound from below: with two frames or more, the optimal run hits as soon as a page occurs twice. -/

/-- The optimal run is a run like any other. -/
theorem OptimalRun.run {S : Finset P} {ρ : List P} {m : Nat} (hopt : OptimalRun k S ρ m) :
    Run k S ρ m := by
  induction hopt with
  | nil S => exact .nil S
  | hit hr _ ih => exact .hit hr ih
  | @load S r ρ m hr hroom _ ih =>
    refine .fault hr (Finset.mem_insert_self r S) (Finset.Subset.refl _) ?_ ih
    rw [Finset.card_insert_of_notMem hr]
    exact hroom
  | @evict S r w ρ m hr hfull hw _ ih =>
    refine .fault hr (Finset.mem_insert_self r _)
      (Finset.insert_subset_insert r (Finset.erase_subset w S)) ?_ ih
    have hcard := Finset.card_erase_add_one hw.1
    exact Nat.le_trans (Finset.card_insert_le r _) (by omega)

/-- It faults once at a reference, at most. -/
theorem OptimalRun.faults_le {S : Finset P} {ρ : List P} {m : Nat} (hopt : OptimalRun k S ρ m) :
    m ≤ ρ.length := by
  induction hopt with
  | nil => exact Nat.le_refl _
  | hit _ _ ih => exact Nat.le_succ_of_le ih
  | load _ _ _ ih => exact Nat.succ_le_succ ih
  | evict _ _ _ _ ih => exact Nat.succ_le_succ ih

/-- With two frames or more, some page that is resident and will be used is hit: a page is only
evicted if another one is used before it. -/
theorem OptimalRun.lt_length_of_mem (hk : 2 ≤ k) {S : Finset P} {ρ : List P} {m : Nat}
    (hopt : OptimalRun k S ρ m) : ∀ {p : P}, p ∈ S → p ∈ ρ → m < ρ.length := by
  induction hopt with
  | nil => exact fun _ hp => absurd hp List.not_mem_nil
  | hit _ hrest => exact fun _ _ => Nat.lt_succ_of_le hrest.faults_le
  | load hr _ _ ih =>
    intro p hpS hp
    have hp' := (List.mem_cons.mp hp).resolve_left fun heq => hr (heq ▸ hpS)
    exact Nat.succ_lt_succ (ih (Finset.mem_insert_of_mem hpS) hp')
  | @evict S r w ρ m hr hfull hw _ ih =>
    intro p hpS hp
    have hp' := (List.mem_cons.mp hp).resolve_left fun heq => hr (heq ▸ hpS)
    by_cases hpw : p = w
    · -- another resident page is used no later than the one evicted
      obtain ⟨q, hqS, hqw⟩ := Finset.exists_mem_ne (by omega : 1 < S.card) w
      have hq : q ∈ ρ := by
        have htake := hw.2 q hqS ρ.length
        rw [List.take_length] at htake
        exact htake (hpw ▸ hp')
      exact Nat.succ_lt_succ (ih (Finset.mem_insert_of_mem (Finset.mem_erase.mpr ⟨hqw, hqS⟩)) hq)
    · exact Nat.succ_lt_succ
        (ih (Finset.mem_insert_of_mem (Finset.mem_erase.mpr ⟨hpw, hpS⟩)) hp')

/-- A page that occurs twice is hit, or another one is. -/
theorem OptimalRun.lt_length_of_not_nodup (hk : 2 ≤ k) {S : Finset P} {ρ : List P} {m : Nat}
    (hopt : OptimalRun k S ρ m) : ¬ ρ.Nodup → m < ρ.length := by
  -- the page just loaded is used again, or the repetition is still to come
  have hagain : ∀ {S : Finset P} {r : P} {ρ : List P} {m : Nat}, OptimalRun k (insert r S) ρ m →
      (¬ ρ.Nodup → m < ρ.length) → ¬ (r :: ρ).Nodup → m + 1 < (r :: ρ).length := by
    intro S r ρ m hrest ih hnot
    refine Nat.succ_lt_succ ?_
    by_cases hr : r ∈ ρ
    · exact hrest.lt_length_of_mem hk (Finset.mem_insert_self r S) hr
    · exact ih fun hnodup => hnot (List.nodup_cons.mpr ⟨hr, hnodup⟩)
  induction hopt with
  | nil => exact fun hnot => absurd List.nodup_nil hnot
  | hit _ hrest => exact fun _ => Nat.lt_succ_of_le hrest.faults_le
  | load _ _ hrest ih => exact hagain hrest ih
  | evict _ _ _ hrest ih => exact hagain hrest ih

/-! ## Positions

A program that looks ahead finds the position of the next use in the whole list. Here that position
is put into terms of the references still to come. -/

/-- The first position behind `current` at which the page is referenced, `⊤` if there is none. -/
noncomputable def nextPosition (ρ : List P) (current : Nat) (p : P) : ℕ∞ :=
  ⨅ j : Nat, ⨅ _ : current < j ∧ ρ[j]? = some p, (j : ℕ∞)

omit [DecidableEq P] in
/-- A page that is not referenced again. -/
theorem nextPosition_eq_top {ρ : List P} {current : Nat} {p : P} (h : p ∉ ρ.drop (current + 1)) :
    nextPosition ρ current p = ⊤ := by
  refine iInf₂_eq_top.mpr fun j hj => absurd ?_ h
  rw [List.mem_iff_getElem?]
  refine ⟨j - (current + 1), ?_⟩
  rw [List.getElem?_drop, ← hj.2]
  congr 1
  omega

/-- The position of the next reference. -/
theorem nextPosition_eq_coe {ρ : List P} {current : Nat} {p : P} (h : p ∈ ρ.drop (current + 1)) :
    nextPosition ρ current p = ((current + 1 + (ρ.drop (current + 1)).idxOf p : Nat) : ℕ∞) := by
  have hfirst : ρ[current + 1 + (ρ.drop (current + 1)).idxOf p]? = some p := by
    rw [← List.getElem?_drop]
    exact List.getElem?_idxOf h
  refine le_antisymm (iInf₂_le _ ⟨by omega, hfirst⟩) (le_iInf₂ fun j hj => ?_)
  -- an occurrence is not before the first one
  have hfound : (ρ.drop (current + 1))[j - (current + 1)]? = some p := by
    rw [List.getElem?_drop, ← hj.2]
    congr 1
    omega
  obtain ⟨hlt, hget⟩ := List.getElem?_eq_some_iff.mp hfound
  have hle : (ρ.drop (current + 1)).idxOf p ≤ j - (current + 1) := by
    by_contra hgt
    have hne := List.not_of_lt_findIdx (Nat.lt_of_not_le hgt)
    rw [hget, beq_self_eq_true] at hne
    cases hne
  have hj1 := hj.1
  exact_mod_cast (by omega : current + 1 + (ρ.drop (current + 1)).idxOf p ≤ j)

end DemandPaging
