import Mathlib.Data.List.Dedup
import OsLab.Lib.PageReplacement

/-!
# Replacement by age as a queue

What the policies by age do to the list of resident pages, newest stamp first, and how their
faults compare with those of any other demand-paging policy.

* **`Queue.serve`**: one reference. A page that is there stays, or moves to the front if
  references are stamped; a page that is not goes to the front and pushes the oldest out.
* **`State.Lists`**: the frames of `State.run` hold the pages of the queue (`Lists.step`,
  `Lists.run`).
* **`Queue.run_onReference`**, **`Queue.run_onLoad`**: what the queue is after any references.
* **`Queue.length_loads_le`**: against a policy on `h` of the `k` frames, `k - h + 1` faults
  of the queue are paid for by `k` of the other's.

The bound follows a potential. A page of the queue that the other policy lacks counts as much
as its position, `k` for the newest one; each page the other policy holds counts `k`. The
other's fault adds at most `k`. A fault of the full queue moves the pages the other lacks one
position back, and there are at least `k - h + 1` of them.
-/

namespace PageReplacement

open DemandPaging

variable {P : Type*} [DecidableEq P] {k : Nat}

namespace Queue

/-! ## The queue

A policy by age on `k` frames keeps its pages in the order of their stamps. A reference puts its
page in front, where it stamps it, and what falls off behind the `k`-th place is the page that is
evicted. -/

/-- One reference, on at most `k` pages listed from the newest stamp to the oldest. -/
def serve (k : Nat) (stamp : Stamp) (q : List P) (r : P) : List P :=
  if r ∈ q then if stamp = .onReference then r :: q.erase r else q
  else (r :: q).take k

def run (k : Nat) (stamp : Stamp) (q ρ : List P) : List P := ρ.foldl (serve k stamp) q

/-- The pages loaded, in the order of their loads. -/
def loads (k : Nat) (stamp : Stamp) : List P → List P → List P
  | _, [] => []
  | q, r :: ρ =>
    if r ∈ q then loads k stamp (serve k stamp q r) ρ
    else r :: loads k stamp (serve k stamp q r) ρ

variable {stamp : Stamp} {q ρ : List P} {r : P}

/-- The first reference, and then the rest. -/
theorem run_cons (k : Nat) (stamp : Stamp) (q : List P) (r : P) (ρ : List P) :
    run k stamp q (r :: ρ) = run k stamp (serve k stamp q r) ρ := rfl

theorem run_append_singleton (k : Nat) (stamp : Stamp) (q ρ : List P) (r : P) :
    run k stamp q (ρ ++ [r]) = serve k stamp (run k stamp q ρ) r := by
  rw [run, List.foldl_append]
  rfl

/-- A page that is there moves to the front, or stays, as the stamp says. -/
theorem serve_hit (k : Nat) (stamp : Stamp) (hr : r ∈ q) :
    serve k stamp q r = if stamp = .onReference then r :: q.erase r else q := if_pos hr

/-- A page that is not there goes in front of what remains, if there is a frame at all. -/
theorem serve_miss (k : Nat) (stamp : Stamp) (hr : r ∉ q) :
    serve k stamp q r = r :: q.take (k - 1) ∨ k = 0 ∧ serve k stamp q r = [] := by
  rw [serve, if_neg hr]
  cases k with
  | zero => exact Or.inr ⟨rfl, rfl⟩
  | succ k => exact Or.inl rfl

/-- With a frame there is always room for it. -/
theorem serve_miss_of_pos (hk : 0 < k) (stamp : Stamp) (hr : r ∉ q) :
    serve k stamp q r = r :: q.take (k - 1) := by
  rcases serve_miss k stamp hr with h | ⟨hzero, -⟩
  · exact h
  · omega

/-- No page stands in the queue twice. -/
theorem nodup_serve (k : Nat) (stamp : Stamp) (hq : q.Nodup) (r : P) :
    (serve k stamp q r).Nodup := by
  by_cases hr : r ∈ q
  · rw [serve_hit k stamp hr]
    split
    · exact List.nodup_cons.mpr ⟨hq.not_mem_erase, hq.erase r⟩
    · exact hq
  · rw [serve, if_neg hr]
    exact (List.nodup_cons.mpr ⟨hr, hq⟩).take

/-- A hit does not change how many there are. -/
theorem length_serve_hit (k : Nat) (stamp : Stamp) (hr : r ∈ q) :
    (serve k stamp q r).length = q.length := by
  rw [serve_hit k stamp hr]
  split
  · rw [List.length_cons, List.length_erase_add_one hr]
  · rfl

/-- A fault adds one, until all frames are in use. -/
theorem length_serve_miss (k : Nat) (stamp : Stamp) (hr : r ∉ q) :
    (serve k stamp q r).length = min k (q.length + 1) := by
  rw [serve, if_neg hr, List.length_take, List.length_cons]

theorem length_serve_le (stamp : Stamp) (hq : q.length ≤ k) (r : P) :
    (serve k stamp q r).length ≤ k := by
  by_cases hr : r ∈ q
  · rw [length_serve_hit k stamp hr]
    exact hq
  · rw [length_serve_miss k stamp hr]
    exact Nat.min_le_left k _

/-! ## What the queue is

The two stamps give the two policies: the pages used last, or the pages loaded last. Both are read
off the references, with no queue in between. -/

/-- A page among the first `n` is taken out from among them. -/
theorem take_erase_of_mem {l : List P} : ∀ {n : Nat}, r ∈ l.take n →
    (l.take n).erase r = (l.erase r).take (n - 1) := by
  induction l with
  | nil => simp
  | cons p l ih =>
    intro n hr
    cases n with
    | zero => cases hr
    | succ n =>
      by_cases hp : p = r
      · subst hp
        rw [List.take_succ_cons, List.erase_cons_head, List.erase_cons_head]
        rfl
      · have hbeq : ¬ (p == r) = true := by simpa using hp
        rw [List.take_succ_cons] at hr ⊢
        have hr' : r ∈ l.take n := (List.mem_cons.mp hr).resolve_left (Ne.symm hp)
        have hpos : 0 < n := by
          cases n with
          | zero => cases hr'
          | succ n => exact Nat.succ_pos n
        obtain ⟨m, rfl⟩ : ∃ m, n = m + 1 := ⟨n - 1, by omega⟩
        rw [List.erase_cons_tail hbeq, List.erase_cons_tail hbeq, ih hr']
        rfl

/-- A page behind them does not matter. -/
theorem take_erase_of_notMem {l : List P} : ∀ {n : Nat}, r ∉ l.take n →
    (l.erase r).take n = l.take n := by
  induction l with
  | nil => simp
  | cons p l ih =>
    intro n hr
    cases n with
    | zero => rfl
    | succ n =>
      rw [List.take_succ_cons, List.mem_cons, not_or] at hr
      have hbeq : ¬ (p == r) = true := by simpa using Ne.symm hr.1
      rw [List.erase_cons_tail hbeq, List.take_succ_cons, List.take_succ_cons, ih hr.2]

/-- A stamped reference, on the first `k` of any list of pages. -/
theorem serve_take (l : List P) (r : P) :
    serve k .onReference (l.take k) r = (r :: l.erase r).take k := by
  cases k with
  | zero => simp [serve]
  | succ k =>
    rw [List.take_succ_cons]
    by_cases hr : r ∈ l.take (k + 1)
    · rw [serve_hit _ _ hr, if_pos rfl, take_erase_of_mem hr]
      rfl
    · have hr' : r ∉ l.take k := fun hmem => hr ((List.take_subset_take_left l (by omega)) hmem)
      rw [serve, if_neg hr, List.take_succ_cons, List.take_take, take_erase_of_notMem hr',
        Nat.min_eq_left (Nat.le_succ k)]

/-- The last occurrence of a page counts. -/
theorem dedup_append_singleton (ρ : List P) (r : P) :
    (ρ ++ [r]).dedup = ρ.dedup.erase r ++ [r] := by
  induction ρ with
  | nil => rfl
  | cons p ρ ih =>
    rw [List.cons_append, List.dedup_cons, List.dedup_cons, ih]
    by_cases hp : p ∈ ρ
    · rw [if_pos hp, if_pos (List.mem_append_left _ hp)]
    · rw [if_neg hp]
      by_cases hpr : p = r
      · subst hpr
        rw [if_pos (by simp), List.erase_cons_head, List.erase_of_not_mem (by simpa using hp)]
      · rw [if_neg (by simp [hp, hpr]), List.erase_cons_tail (by simpa using hpr), List.cons_append]

/-- Stamped at every reference, the queue lists the pages used last, the last one first. -/
theorem run_onReference (k : Nat) (ρ : List P) :
    run k .onReference [] ρ = ρ.dedup.reverse.take k := by
  induction ρ using List.reverseRecOn with
  | nil => exact List.take_nil.symm
  | append_singleton ρ r ih =>
    have herase : (ρ.dedup.erase r).reverse = ρ.dedup.reverse.erase r := by
      rw [(List.nodup_dedup ρ).erase_eq_filter,
        (List.nodup_reverse.mpr (List.nodup_dedup ρ)).erase_eq_filter, List.filter_reverse]
    rw [run_append_singleton, ih, serve_take, dedup_append_singleton, List.reverse_append, herase]
    rfl

/-- Stamped on load, the queue lists the pages loaded last. -/
theorem run_onLoad (ρ : List P) : ∀ q : List P, q.length ≤ k →
    run k .onLoad q ρ = ((loads k .onLoad q ρ).reverse ++ q).take k := by
  induction ρ with
  | nil => exact fun q hq => (List.take_of_length_le hq).symm
  | cons r ρ ih =>
    intro q hq
    rw [run_cons, ih _ (length_serve_le .onLoad hq r), loads]
    by_cases hr : r ∈ q
    · rw [if_pos hr, serve_hit k .onLoad hr, if_neg (by decide)]
    · -- only the first `k` pages of the queue before count
      rw [if_neg hr, List.reverse_cons, List.append_assoc, List.singleton_append, serve, if_neg hr,
        List.take_append, List.take_append, List.take_take, Nat.min_eq_left (Nat.sub_le k _)]

/-- The last reference is a load if its page is not there. -/
theorem loads_append_singleton (k : Nat) (stamp : Stamp) (ρ : List P) (r : P) :
    ∀ q : List P, loads k stamp q (ρ ++ [r])
      = loads k stamp q ρ ++ if r ∈ run k stamp q ρ then [] else [r] := by
  induction ρ with
  | nil =>
    intro q
    rw [List.nil_append, loads]
    rfl
  | cons p ρ ih =>
    intro q
    rw [List.cons_append, loads, loads, run_cons, ih]
    split
    · rfl
    · rw [List.cons_append]

/-! ## The potential

The balance of a comparison with a policy on fewer frames. A page that the other policy does not
hold counts by its place in the queue: the farther it is from being evicted, the more. -/

/-- The positions, `j` for the first one and falling, of the pages of the queue that are not
in `T`. -/
def credit : Nat → List P → Finset P → Nat
  | _, [], _ => 0
  | j, p :: q, T => (if p ∈ T then 0 else j) + credit (j - 1) q T

def potential (k : Nat) (q : List P) (T : Finset P) : Nat := credit k q T + k * T.card

variable {T U : Finset P} {j : Nat}

/-- A page of `T` in front counts nothing, and moves the others back. -/
theorem credit_cons_of_mem (j : Nat) (q : List P) (hr : r ∈ T) :
    credit j (r :: q) T = credit (j - 1) q T := by
  rw [credit, if_pos hr, Nat.zero_add]

/-- Farther back, everything counts less. -/
theorem credit_pred_le (q : List P) (T : Finset P) : ∀ j, credit (j - 1) q T ≤ credit j q T := by
  induction q with
  | nil => exact fun _ => Nat.le_refl _
  | cons p q ih =>
    intro j
    have hrest := ih (j - 1)
    rw [credit, credit]
    split <;> omega

theorem credit_take_le (q : List P) (T : Finset P) : ∀ j n, credit j (q.take n) T ≤ credit j q T := by
  induction q with
  | nil => simp
  | cons p q ih =>
    intro j n
    cases n with
    | zero => exact Nat.zero_le _
    | succ n =>
      rw [List.take_succ_cons, credit, credit]
      exact Nat.add_le_add_left (ih (j - 1) n) _

/-- One position back, every page that is not in `T` counts one less. -/
theorem credit_pred_add (T : Finset P) : ∀ {q : List P} {j : Nat}, q.length ≤ j →
    credit (j - 1) q T + (q.filter (· ∉ T)).length = credit j q T := by
  intro q
  induction q with
  | nil => exact fun _ => rfl
  | cons p q ih =>
    intro j hj
    rw [List.length_cons] at hj
    have hrest := ih (j := j - 1) (by omega)
    rw [credit, credit]
    by_cases hp : p ∈ T
    · rw [if_pos hp, if_pos hp, List.filter_cons_of_neg (by simpa using hp)]
      omega
    · rw [if_neg hp, if_neg hp, List.filter_cons_of_pos (by simpa using hp), List.length_cons]
      omega

/-- Taking pages out of `T` costs at most `j` for each. -/
theorem credit_le_add (T U : Finset P) : ∀ {q : List P} {j : Nat},
    credit j q U ≤ credit j q T + j * (q.filter fun p => p ∈ T \ U).length := by
  intro q
  induction q with
  | nil => exact Nat.zero_le _
  | cons p q ih =>
    intro j
    have hrest := ih (j := j - 1)
    have hmul : (j - 1) * (q.filter fun p => p ∈ T \ U).length
        ≤ j * (q.filter fun p => p ∈ T \ U).length := Nat.mul_le_mul_right _ (Nat.sub_le j 1)
    rw [credit, credit]
    -- a page taken out of `T` counts now, up to `j`
    by_cases hp : p ∈ T \ U
    · obtain ⟨hT, hU⟩ := Finset.mem_sdiff.mp hp
      rw [if_pos hT, if_neg hU, List.filter_cons_of_pos (by simpa using hp), List.length_cons,
        Nat.mul_succ]
      omega
    · rw [List.filter_cons_of_neg (by simpa using hp)]
      have hle : (if p ∈ U then 0 else j) ≤ if p ∈ T then 0 else j := by
        rw [Finset.mem_sdiff, not_and, not_not] at hp
        split
        · exact Nat.zero_le _
        · next hU => rw [if_neg fun hT => hU (hp hT)]
      omega

/-- Moving a page of `T` to the front costs nothing. -/
theorem credit_erase_le (q : List P) (hr : r ∈ T) : ∀ j, r ∈ q →
    credit (j - 1) (q.erase r) T ≤ credit j q T := by
  induction q with
  | nil => exact fun _ h => by cases h
  | cons p q ih =>
    intro j hrq
    by_cases hp : p = r
    · subst hp
      rw [List.erase_cons_head, credit_cons_of_mem j q hr]
    · have hrest := ih (j - 1) ((List.mem_cons.mp hrq).resolve_left (Ne.symm hp))
      rw [List.erase_cons_tail (by simpa using hp), credit, credit]
      split <;> omega

/-! ## Competitiveness

Each reference is looked at from both sides, and the balance says that the faults of the queue are
paid for by those of the other policy. Summed over a run, what is left is the potential at its
beginning and at its end. -/

/-- The queue holds no more pages of a set than it has. -/
theorem length_filter_le_card (hq : q.Nodup) (S : Finset P) :
    (q.filter (· ∈ S)).length ≤ S.card := by
  rw [← List.toFinset_card_of_nodup (hq.filter _)]
  refine Finset.card_le_card fun p hp => ?_
  rw [List.mem_toFinset, List.mem_filter] at hp
  simpa using hp.2

/-- **A fault of the other policy.** It loads one page, at most `k`; each page it gives up
is worth at most the `k` it counted for while it was held. -/
theorem potential_load_le (hq : q.Nodup) (hkeep : U ⊆ insert r T) :
    potential k q U ≤ potential k q T + k := by
  have hlost := length_filter_le_card hq (T \ U)
  have hcredit := credit_le_add T U (q := q) (j := k)
  have hcards : U.card + (T \ U).card ≤ T.card + 1 := by
    have hnew : (U \ T).card ≤ 1 := by
      rw [← Finset.card_singleton r]
      refine Finset.card_le_card fun p hp => ?_
      obtain ⟨hpU, hpT⟩ := Finset.mem_sdiff.mp hp
      exact Finset.mem_singleton.mpr ((Finset.mem_insert.mp (hkeep hpU)).resolve_right hpT)
    have hT := Finset.card_inter_add_card_sdiff T U
    have hU := Finset.card_inter_add_card_sdiff U T
    rw [Finset.inter_comm] at hU
    omega
  have hmul := Nat.mul_le_mul_left k hlost
  have hmul' := Nat.mul_le_mul_left k hcards
  rw [Nat.mul_add, Nat.mul_succ] at hmul'
  unfold potential
  omega

/-- **A reference to a page the other policy holds.** A fault of the full queue is paid for by
the `d + 1` pages or more that the other, with `d` frames less, does not hold. -/
theorem potential_serve_le {d : Nat} (stamp : Stamp) (hq : q.Nodup) (hlen : q.length ≤ k)
    (hr : r ∈ T) (hT : T.card + d ≤ k) :
    (d + 1) * (if r ∈ q then 0 else 1) + (d + 1) * q.length + potential k (serve k stamp q r) T
      ≤ potential k q T + (d + 1) * (serve k stamp q r).length := by
  unfold potential
  by_cases hrq : r ∈ q
  · -- a hit costs nothing, wherever the page goes
    rw [if_pos hrq, length_serve_hit k stamp hrq, serve_hit k stamp hrq]
    have hle : credit k (if stamp = .onReference then r :: q.erase r else q) T ≤ credit k q T := by
      split
      · rw [credit_cons_of_mem k _ hr]
        exact credit_erase_le q hr k hrq
      · exact Nat.le_refl _
    omega
  · have hk : 0 < k := by
      have hpos := Finset.card_pos.mpr ⟨r, hr⟩
      omega
    -- a fault moves every page back by one place
    have hcredit : credit k (serve k stamp q r) T ≤ credit (k - 1) q T := by
      rw [serve_miss_of_pos hk stamp hrq, credit_cons_of_mem k _ hr]
      exact credit_take_le q T (k - 1) (k - 1)
    rw [if_neg hrq, length_serve_miss k stamp hrq]
    rcases Nat.lt_or_ge q.length k with hroom | hfull
    · -- there is room: the queue grows by one page
      have hpred := credit_pred_le q T k
      rw [Nat.min_eq_right (by omega), Nat.mul_succ (d + 1) q.length]
      omega
    · -- the queue is full: all its pages but those of `T` count one less
      have hadd := credit_pred_add T hlen
      have hheld : (q.filter (· ∈ T)).length + 1 ≤ T.card := by
        have hsub := length_filter_le_card hq (T.erase r)
        have hsame : q.filter (· ∈ T.erase r) = q.filter (· ∈ T) := by
          refine List.filter_congr fun p hp => ?_
          have hne : p ≠ r := fun heq => hrq (heq ▸ hp)
          simp [Finset.mem_erase, hne]
        have hcard := Finset.card_erase_add_one hr
        rw [hsame] at hsub
        omega
      have hsplit := List.length_eq_length_filter_add (l := q) fun p => decide (p ∈ T)
      have hnot : q.filter (fun p => !decide (p ∈ T)) = q.filter (· ∉ T) :=
        List.filter_congr fun p _ => by simp
      rw [hnot] at hsplit
      rw [Nat.min_eq_left (by omega), show q.length = k by omega]
      omega

/-- The faults of a run, one reference at a time. -/
theorem length_loads_cons (k : Nat) (stamp : Stamp) (q : List P) (r : P) (ρ : List P) :
    (loads k stamp q (r :: ρ)).length
      = (if r ∈ q then 0 else 1) + (loads k stamp (serve k stamp q r) ρ).length := by
  rw [loads]
  split
  · rw [Nat.zero_add]
  · rw [List.length_cons, Nat.add_comm]

/-- **The balance of a run.** Both sides serve the same references; `U` is what the other
policy holds at the end. Induction on its run. -/
theorem exists_potential_le {h d n : Nat} (stamp : Stamp) (hrun : Run h T ρ n) (hk : h + d ≤ k) :
    T.card ≤ h → ∀ {q : List P}, q.Nodup → q.length ≤ k →
      ∃ U : Finset P, (T.Nonempty ∨ ρ ≠ [] → U.Nonempty)
        ∧ (d + 1) * (loads k stamp q ρ).length + (d + 1) * q.length
            + potential k (run k stamp q ρ) U
          ≤ k * n + potential k q T + (d + 1) * (run k stamp q ρ).length := by
  induction hrun with
  | nil T =>
    intro _ q _ _
    refine ⟨T, fun hne => hne.resolve_right (absurd rfl), ?_⟩
    rw [loads, List.length_nil, Nat.mul_zero, Nat.mul_zero]
    show 0 + (d + 1) * q.length + potential k q T ≤ 0 + potential k q T + (d + 1) * q.length
    omega
  | @hit T r ρ n hr _ ih =>
    intro hT q hq hlen
    obtain ⟨U, hne, hle⟩ := ih hT (nodup_serve k stamp hq r) (length_serve_le stamp hlen r)
    have hserve := potential_serve_le (d := d) stamp hq hlen hr (by omega)
    refine ⟨U, fun _ => hne (Or.inl ⟨r, hr⟩), ?_⟩
    rw [length_loads_cons, run_cons, Nat.mul_add]
    omega
  | @fault T T₁ r ρ n _ hload hkeep hcard _ ih =>
    intro _ q hq hlen
    obtain ⟨U, hne, hle⟩ := ih hcard (nodup_serve k stamp hq r) (length_serve_le stamp hlen r)
    have hserve := potential_serve_le (d := d) stamp hq hlen hload (by omega)
    have hother := potential_load_le (k := k) hq hkeep
    refine ⟨U, fun _ => hne (Or.inl ⟨r, hload⟩), ?_⟩
    rw [length_loads_cons, run_cons, Nat.mul_succ, Nat.mul_add]
    omega

/-- The queue fits into the frames all along. -/
theorem length_run_le (stamp : Stamp) (ρ : List P) :
    ∀ {q : List P}, q.length ≤ k → (run k stamp q ρ).length ≤ k := by
  induction ρ with
  | nil => exact fun hq => hq
  | cons r ρ ih => exact fun hq => ih (length_serve_le stamp hq r)

/-- **Competitiveness.** Started with empty frames, a policy by age on `k` frames faults
`d + 1` times for every `k` faults of a policy on `h = k - d` frames, up to `k * d`. -/
theorem length_loads_le {h d n : Nat} (stamp : Stamp) (hrun : Run h ∅ ρ n) (hk : h + d = k) :
    (d + 1) * (loads k stamp [] ρ).length ≤ k * n + k * d := by
  by_cases hρ : ρ = []
  · subst hρ
    exact Nat.zero_le _
  · obtain ⟨U, hne, hle⟩ := exists_potential_le stamp hrun (Nat.le_of_eq hk) (Nat.zero_le h)
      List.nodup_nil (Nat.zero_le k)
    have hstart : potential k ([] : List P) ∅ = 0 := rfl
    -- at the end the other policy holds a page
    have hend : k ≤ potential k (run k stamp [] ρ) U := by
      have hpos := Nat.mul_le_mul_left k (Finset.card_pos.mpr (hne (Or.inr hρ)))
      rw [Nat.succ_eq_add_one, Nat.zero_add, Nat.mul_one] at hpos
      exact Nat.le_trans hpos (Nat.le_add_left _ _)
    have hlength := Nat.mul_le_mul_left (d + 1) (length_run_le (q := []) stamp ρ (Nat.zero_le k))
    rw [List.length_nil, Nat.mul_zero, hstart] at hle
    rw [Nat.mul_comm (d + 1) k, Nat.mul_succ] at hlength
    omega

end Queue

/-! ## Frames that hold the queue

The faithful policy keeps frames and a log of stamps, and looks for the frame with the oldest one.
The queue is the list of the pages in the frames, by age, so what has been shown for it holds of the
frames. -/

namespace State

variable {s : State k P} {q : List P} {log xs ys : List P}

/-- The queue lists the resident pages, newest stamp first. -/
def Lists (s : State k P) (q : List P) : Prop :=
  Ages s.log q ∧ ∀ p, p ∈ q ↔ p ∈ s.frames.resident

theorem Ages.unique (hx : Ages log xs) (hy : Ages log ys) (h : ∀ p, p ∈ xs ↔ p ∈ ys) : xs = ys := by
  have hperm : xs.Perm ys := (List.perm_ext_iff_of_nodup hx.nodup hy.nodup).mpr h
  exact hperm.eq_of_pairwise (fun p q _ _ hpq hqp => by omega) hx.sorted hy.sorted

theorem Lists.unique {q' : List P} (h : s.Lists q) (h' : s.Lists q') : q = q' :=
  h.1.unique h'.1 fun p => (h.2 p).trans (h'.2 p).symm

/-- Empty frames hold the empty queue. -/
theorem lists_init : (State.init : State k P).Lists [] :=
  ⟨ages_nil, fun p => by simp [Frames.mem_resident, State.init]⟩

/-- As many pages in the queue as in the frames. -/
theorem Lists.length_eq (h : s.Lists q) : q.length = s.frames.resident.card := by
  rw [← List.toFinset_card_of_nodup h.1.nodup]
  congr 1
  ext p
  rw [List.mem_toFinset]
  exact h.2 p

theorem Lists.length_le (h : s.Lists q) : q.length ≤ k := by
  rw [h.length_eq]
  exact Frames.card_resident_le

/-- A page that is resident stays in its frame. -/
theorem Lists.step_hit (h : s.Lists q) {r : P} {i : Fin k} (hi : s.frames.frameOf? r = some i)
    (stamp : Stamp) : (s.step stamp r).Lists (Queue.serve k stamp q r) := by
  obtain ⟨hages, hmem⟩ := h
  have hr : r ∈ q := (hmem r).mpr (Frames.mem_resident.mpr ⟨i, Frames.frameOf?_some hi⟩)
  rw [State.step_hit hi, Queue.serve_hit k stamp hr]
  cases stamp with
  | onLoad => exact ⟨hages, hmem⟩
  | onReference =>
    refine ⟨hages.push List.erase_sublist hages.nodup.not_mem_erase, fun p => ?_⟩
    rw [if_pos rfl, ← (List.perm_cons_erase hr).mem_iff]
    exact hmem p

/-- A page that is not resident goes where `target?` says; the page that was there, if any, is
the last one of the queue. -/
theorem Lists.step_miss (h : s.Lists q) (hinj : s.frames.Injective) {r : P}
    (hr : r ∉ s.frames.resident) {i : Fin k} (hi : s.target? = some i) :
    Ages (r :: s.log) (r :: q.take (k - 1))
      ∧ ∀ p, p ∈ r :: q.take (k - 1) ↔ p ∈ (s.frames.load i r).resident := by
  have hlength := h.length_eq
  obtain ⟨hages, hmem⟩ := h
  have hrq : r ∉ q := fun hrq => hr ((hmem r).mp hrq)
  refine ⟨hages.push (List.take_sublist _ _) fun hin => hrq (List.mem_of_mem_take hin),
    fun p => ?_⟩
  rw [target?] at hi
  cases hfree : s.frames.empty? with
  | some j =>
    rw [hfree, Option.some_or] at hi
    cases hi
    -- a frame is empty, and nothing is evicted
    have hempty := Frames.empty?_some hfree
    have hroom := Frames.card_resident_lt hempty
    rw [List.take_of_length_le (by omega), Frames.resident_load_of_empty hempty, List.mem_cons,
      Finset.mem_insert, hmem]
  | none =>
    -- all frames are in use, and the oldest page is the last of the queue
    have hfull := hinj.card_resident hfree
    have hpos : 0 < k := Nat.zero_lt_of_lt i.isLt
    rw [hfree, Option.none_or] at hi
    obtain ⟨ys, w, rfl⟩ : ∃ ys w, q = ys ++ [w] := by
      have hne : q ≠ [] := fun heq => by
        rw [heq, List.length_nil] at hlength
        omega
      exact ⟨q.dropLast, q.getLast hne, (List.dropLast_append_getLast hne).symm⟩
    obtain ⟨j, hj⟩ := Frames.mem_resident.mp ((hmem w).mp (by simp))
    rw [oldest?_of_ages hinj hages hmem hfree hj] at hi
    cases hi
    have hys : ys.length = k - 1 := by
      rw [List.length_append, List.length_singleton] at hlength
      omega
    have hwys : w ∉ ys := fun hin =>
      (List.nodup_append.mp hages.nodup).2.2 w hin w (List.mem_singleton_self w) rfl
    rw [List.take_append_of_le_length (by omega), List.take_of_length_le (by omega),
      hinj.resident_load hj hr, List.mem_cons, Finset.mem_insert, Finset.mem_erase, ← hmem,
      List.mem_append, List.mem_singleton]
    refine or_congr_right ⟨fun hp => ⟨fun heq => hwys (heq ▸ hp), Or.inl hp⟩, ?_⟩
    rintro ⟨hne, hp | heq⟩
    · exact hp
    · exact absurd heq hne

/-- **One reference.** -/
theorem Lists.step (h : s.Lists q) (hinj : s.frames.Injective) (hk : 0 < k) (stamp : Stamp)
    (r : P) :
    (s.step stamp r).Lists (Queue.serve k stamp q r) ∧ (s.step stamp r).frames.Injective
      ∧ (s.step stamp r).faults = s.faults + if r ∈ q then 0 else 1 := by
  cases hfind : s.frames.frameOf? r with
  | some i =>
    have hr : r ∈ q := (h.2 r).mpr (Frames.mem_resident.mpr ⟨i, Frames.frameOf?_some hfind⟩)
    refine ⟨h.step_hit hfind stamp, ?_⟩
    rw [State.step_hit hfind, if_pos hr]
    exact ⟨hinj, rfl⟩
  | none =>
    have hmiss := Frames.frameOf?_eq_none_iff.mp hfind
    have hr : r ∉ q := fun hrq => hmiss ((h.2 r).mp hrq)
    obtain ⟨i, hi⟩ := s.target?_isSome hk
    rw [State.step_miss hfind hi, Queue.serve_miss_of_pos hk stamp hr, if_neg hr]
    exact ⟨h.step_miss hinj hmiss hi, hinj.load hmiss i, rfl⟩

/-- **Any references.** -/
theorem Lists.run (hk : 0 < k) (stamp : Stamp) (ρ : List P) :
    ∀ {s : State k P} {q : List P}, s.Lists q → s.frames.Injective →
      (s.run stamp ρ).Lists (Queue.run k stamp q ρ)
        ∧ (s.run stamp ρ).faults = s.faults + (Queue.loads k stamp q ρ).length := by
  induction ρ with
  | nil => exact fun h _ => ⟨h, rfl⟩
  | cons r ρ ih =>
    intro s q h hinj
    obtain ⟨hlists, hinj', hfaults⟩ := h.step hinj hk stamp r
    obtain ⟨hrun, hcount⟩ := ih hlists hinj'
    refine ⟨hrun, ?_⟩
    rw [run_cons, hcount, hfaults, Queue.length_loads_cons, Nat.add_assoc]

/-- The queue faults like a demand-paging policy. -/
theorem demandRun_loads (hk : 0 < k) (stamp : Stamp) (ρ : List P) :
    Run k ∅ ρ (Queue.loads k stamp [] ρ).length := by
  obtain ⟨n, hrun, hcount⟩ := demandRun hk stamp ρ (State.init : State k P)
  obtain ⟨-, hfaults⟩ := Lists.run hk stamp ρ (lists_init (k := k)) (fun _ _ _ h => by cases h)
  have hstart : (State.init : State k P).frames.resident = ∅ := by
    refine Finset.eq_empty_of_forall_notMem fun p hp => ?_
    simpa using (lists_init.2 p).mpr hp
  rw [hfaults, Nat.add_left_cancel_iff] at hcount
  rw [hstart] at hrun
  exact hcount ▸ hrun

end State

end PageReplacement
