import OsLab.Paging.LinkedList

/-!
# OsLab.Paging.Sequence — the page history as a sequence

What the member functions of `LinkedList` are for, said of a plain sequence of pages, and when a
sequence of calls on the list does that.

* **`ListOp.next`** and **`ListOp.Returns`**: the sequence after a call, and what the call returns.
* **`Refines`**: the list follows the sequence through all the calls, read from either end.
* **`refines_iff`**: it does so exactly if `RemoveTail` and `Remove` are not called on a sole page
  and `RemoveTail` does not meet the page `-1`.
-/

namespace OsLab.Paging

open DoublyLinked Fallible

/-- A call of a member function. -/
inductive ListOp where
  | addToHead (page : Int)
  | removeTail
  | moveToHead (page : Int)
  | remove (page : Int)
  deriving DecidableEq, Repr

/-- A call on the list: the page returned, if the function returns one, and the list. -/
def LinkedList.call (fuel : Nat) (l : LinkedList) : ListOp → Except Fault (Option Int × LinkedList)
  | .addToHead page => do
    let l ← l.addToHead page
    .ok (none, l)
  | .removeTail => do
    let (page, l) ← l.removeTail
    .ok (some page, l)
  | .moveToHead page => do
    let l ← l.moveToHead fuel page
    .ok (none, l)
  | .remove page => do
    let l ← l.remove fuel page
    .ok (none, l)

/-! ## The sequence

What a list of pages is for its user: a sequence, and four operations on it. `Harmless` leaves out
the calls on which the program's list does something else. -/

namespace ListOp

/-- The pages after the call, first to last. -/
def next (xs : List Int) : ListOp → List Int
  | addToHead page => page :: xs
  | removeTail => xs.dropLast
  | moveToHead page => page :: xs.erase page
  | remove page => xs.erase page

/-- What the call returns: `RemoveTail` the last page, and `-1` on the empty sequence alone. -/
def Returns (xs : List Int) (returned : Option Int) : ListOp → Prop
  | removeTail => returned = some (xs.getLast?.getD (-1)) ∧ (returned = some (-1) → xs = [])
  | _ => returned = none

/-- A page that is moved or removed is there. -/
def Present (xs : List Int) : ListOp → Prop
  | moveToHead page | remove page => page ∈ xs
  | _ => True

/-- No sole page is taken off, and `RemoveTail` does not return a page `-1`. -/
def Harmless (xs : List Int) : ListOp → Prop
  | removeTail => xs.length ≠ 1 ∧ xs.getLast? ≠ some (-1)
  | remove _ => xs.length ≠ 1
  | _ => True

end ListOp

/-- Every call of a sequence finds a sequence of pages with the property. -/
def Along (P : List Int → ListOp → Prop) (xs : List Int) : List ListOp → Prop
  | [] => True
  | op :: ops => P xs op ∧ Along P (op.next xs) ops

/-- The list reads `xs` from `Head` along `Next`, and backwards from `Tail` along `Previous`. -/
def Reads (l : LinkedList) (xs : List Int) : Prop :=
  Forward l.heap.cell l.head xs ∧ Backward l.heap.cell l.tail xs.reverse

/-- The calls return, and after each one the list reads as the sequence does. -/
def Refines (fuel : Nat) (l : LinkedList) (xs : List Int) : List ListOp → Prop
  | [] => Reads l xs
  | op :: ops => Reads l xs ∧ ∃ returned l', l.call fuel op = .ok (returned, l')
      ∧ op.Returns xs returned ∧ Refines fuel l' (op.next xs) ops

/-! ## One call

A call that is harmless does to the list what it does to the sequence, and a call after which the
two still agree was harmless. -/

variable {l : LinkedList} {xs : List Int} {fuel : Nat}

/-- After the calls the list reads as the sequence. -/
theorem Refines.reads {ops : List ListOp} (h : Refines fuel l xs ops) : Reads l xs := by
  cases ops with
  | nil => exact h
  | cons op ops => exact h.1

/-- `RemoveTail` leaves a sole page where it is, and returns the last one of several. -/
theorem removeTail_cases (h : Denotes l xs) :
    (xs = [] ∧ l.removeTail = .ok (-1, l))
      ∨ (∃ p, xs = [p] ∧ l.removeTail = .ok (p, l))
      ∨ ∃ ys p l', ys ≠ [] ∧ xs = ys ++ [p] ∧ l.removeTail = .ok (p, l') ∧ Denotes l' ys := by
  rcases List.eq_nil_or_concat xs with rfl | ⟨ys, p, rfl⟩
  · refine Or.inl ⟨rfl, ?_⟩
    rw [LinkedList.removeTail, if_neg (not_not_intro ((denotes_tail_eq_none_iff h).mpr rfl))]
  · rw [List.concat_eq_append] at h ⊢
    by_cases hys : ys = []
    · subst hys
      obtain ⟨node, hload, hvalue⟩ := load_tail h
      refine Or.inr (Or.inl ⟨p, rfl, ?_⟩)
      have htail : l.tail ≠ none := by
        rw [Ne, denotes_tail_eq_none_iff h]
        simp
      rw [LinkedList.removeTail, if_pos htail, hload, ok_bind, dropTail_single h, ok_bind, hvalue]
    · obtain ⟨l', hl', hden⟩ := LinkedList.removeTail_denotes hys h
      exact Or.inr (Or.inr ⟨ys, p, l', hys, rfl, hl', hden⟩)

/-- A harmless call does what it does to the sequence. One case for each function. -/
theorem call_denotes (h : Denotes l xs) {op : ListOp} (hpresent : op.Present xs)
    (hharmless : op.Harmless xs) (hfuel : xs.length ≤ fuel) :
    ∃ returned l', l.call fuel op = .ok (returned, l') ∧ op.Returns xs returned
      ∧ Denotes l' (op.next xs) := by
  cases op with
  | addToHead page =>
    obtain ⟨l', hl', hden⟩ := LinkedList.addToHead_denotes h page
    refine ⟨none, l', ?_, rfl, hden⟩
    rw [LinkedList.call, hl', ok_bind]
  | removeTail =>
    -- nothing to take off, a sole page, or several pages
    rcases removeTail_cases h with ⟨rfl, hl'⟩ | ⟨p, rfl, -⟩ | ⟨ys, p, l', hys, rfl, hl', hden⟩
    · refine ⟨some (-1), l, ?_, ⟨rfl, fun _ => rfl⟩, h⟩
      rw [LinkedList.call, hl']
      rfl
    · exact absurd rfl hharmless.1
    · refine ⟨some p, l', ?_, ⟨?_, fun hp => ?_⟩, ?_⟩
      · rw [LinkedList.call, hl']
        rfl
      · rw [List.getLast?_concat]
        rfl
      · exact absurd (List.getLast?_concat.trans hp) hharmless.2
      · rw [ListOp.next, List.dropLast_concat]
        exact hden
  | moveToHead page =>
    obtain ⟨l', hl', hden⟩ := LinkedList.moveToHead_denotes h hpresent hfuel
    refine ⟨none, l', ?_, rfl, hden⟩
    rw [LinkedList.call, hl', ok_bind]
  | remove page =>
    -- another page is left
    have hlength := List.length_erase_of_mem (show page ∈ xs from hpresent)
    have hpos := List.length_pos_of_mem (show page ∈ xs from hpresent)
    have hne : xs.length ≠ 1 := hharmless
    have hmore : xs.erase page ≠ [] := by
      rw [Ne, ← List.length_eq_zero_iff, hlength]
      omega
    obtain ⟨l', hl', hden⟩ := LinkedList.remove_denotes h hpresent hmore hfuel
    refine ⟨none, l', ?_, rfl, hden⟩
    rw [LinkedList.call, hl', ok_bind]

/-- A call that goes as the sequence does is harmless. -/
theorem harmless_of_call (h : Denotes l xs) {op : ListOp} (hpresent : op.Present xs)
    {returned : Option Int} {l' : LinkedList} (hcall : l.call fuel op = .ok (returned, l'))
    (hreturns : op.Returns xs returned) (hreads : Reads l' (op.next xs)) : op.Harmless xs := by
  cases op with
  | addToHead page => trivial
  | moveToHead page => trivial
  | removeTail =>
    refine ⟨fun hsole => ?_, fun hlast => ?_⟩
    · obtain ⟨p, rfl⟩ := List.length_eq_one_iff.mp hsole
      rcases removeTail_cases h with ⟨hnil, -⟩ | ⟨q, -, hl'⟩ | ⟨ys, q, -, hys, heq, -⟩
      · cases hnil
      · -- the page is still in the list
        rw [LinkedList.call, hl', ok_bind] at hcall
        cases hcall
        cases hreads.1.unique h.forward_backward.1
      · have hlength := congrArg List.length heq
        rw [List.length_append] at hlength
        have hpos := List.length_pos_of_ne_nil hys
        simp only [List.length_singleton] at hlength
        omega
    · obtain ⟨heq, hempty⟩ := hreturns
      rw [hlast] at heq
      rw [hempty heq] at hlast
      cases hlast
  | remove page =>
    intro hsole
    obtain ⟨p, rfl⟩ := List.length_eq_one_iff.mp hsole
    obtain rfl : page = p := List.mem_singleton.mp hpresent
    -- `Remove` has returned, so the page was not the only one
    have hreturned : ∃ fuel l', removeNode (· == page) fuel l = .ok l' := by
      obtain ⟨l₁, hl₁, -⟩ := of_bind_eq_ok hcall
      exact ⟨fuel, l₁, hl₁⟩
    rcases (removeNode_returns_iff h).mp hreturned with hnil | ⟨hmore, -⟩
    · cases hnil
    · exact hmore rfl

/-! ## A sequence of calls

The list is compared with the sequence after each call. The first call that is not harmless is where
the two part. -/

theorem ListOp.length_next_le (op : ListOp) (xs : List Int) : (op.next xs).length ≤ xs.length + 1 := by
  cases op with
  | addToHead page => exact Nat.le_refl _
  | removeTail => simp only [next, List.length_dropLast]; omega
  | moveToHead page =>
    rw [next, List.length_cons]
    exact Nat.succ_le_succ List.length_erase_le
  | remove page => exact Nat.le_succ_of_le List.length_erase_le

/-- Harmless calls, each on the sequence it finds. Induction on the calls. -/
theorem refines_of_harmless (ops : List ListOp) :
    ∀ {l : LinkedList} {xs : List Int}, Denotes l xs → Along ListOp.Present xs ops →
      Along ListOp.Harmless xs ops → xs.length + ops.length ≤ fuel → Refines fuel l xs ops := by
  induction ops with
  | nil => exact fun h _ _ _ => h.forward_backward
  | cons op ops ih =>
    intro l xs h hpresent hharmless hfuel
    rw [List.length_cons] at hfuel
    have hlong : xs.length ≤ fuel := by omega
    obtain ⟨returned, l', hcall, hreturns, hden⟩ := call_denotes h hpresent.1 hharmless.1 hlong
    have hlength := op.length_next_le xs
    exact ⟨h.forward_backward, returned, l', hcall, hreturns,
      ih hden hpresent.2 hharmless.2 (by omega)⟩

/-- Up to the first call that is not harmless the list and the sequence are in step. -/
theorem harmless_of_refines (ops : List ListOp) :
    ∀ {l : LinkedList} {xs : List Int}, Denotes l xs → Along ListOp.Present xs ops →
      xs.length + ops.length ≤ fuel → Refines fuel l xs ops → Along ListOp.Harmless xs ops := by
  induction ops with
  | nil => exact fun _ _ _ _ => trivial
  | cons op ops ih =>
    intro l xs h hpresent hfuel hrefines
    rw [List.length_cons] at hfuel
    obtain ⟨-, returned, l', hcall, hreturns, hrest⟩ := hrefines
    have hharmless := harmless_of_call h hpresent.1 hcall hreturns hrest.reads
    have hlong : xs.length ≤ fuel := by omega
    obtain ⟨returned', l'', hcall', -, hden⟩ := call_denotes h hpresent.1 hharmless hlong
    rw [hcall] at hcall'
    cases hcall'
    have hlength := op.length_next_le xs
    exact ⟨hharmless, ih hden hpresent.2 (by omega) hrest⟩

/-- **Headline.** From the empty list, calls on pages that are there do to the list what they do to
the sequence exactly if they are harmless. -/
theorem refines_iff {ops : List ListOp} (hpresent : Along ListOp.Present [] ops)
    (hfuel : ops.length ≤ fuel) :
    Refines fuel DList.empty [] ops ↔ Along ListOp.Harmless [] ops := by
  have hlength : ([] : List Int).length + ops.length ≤ fuel := by
    rw [List.length_nil, Nat.zero_add]
    exact hfuel
  exact ⟨harmless_of_refines ops denotes_empty hpresent hlength,
    fun hharmless => refines_of_harmless ops denotes_empty hpresent hharmless hlength⟩

/-- Pages 1, 2, 3; page 1 is moved, page 2 is taken off and page 3 is removed. -/
theorem refines_iff_six :
    Refines 6 DList.empty [] [.addToHead 1, .addToHead 2, .addToHead 3, .moveToHead 1, .removeTail,
      .remove 3] :=
  (refines_iff (by simp [Along, ListOp.Present, ListOp.next]) (Nat.le_refl 6)).mpr
    (by simp [Along, ListOp.Harmless, ListOp.next])

/-- **The sole page.** `RemoveTail` returns page 1 and leaves it in the list, and `Remove(1)` goes
through the null pointer that `Head` has become. -/
theorem sole_page_stays :
    (∃ l, LinkedList.call 1 DList.empty (.addToHead 1) = .ok (none, l)
        ∧ l.call 1 .removeTail = .ok (some 1, l) ∧ Reads l [1]
        ∧ l.call 1 (.remove 1) = .error .nullPointer)
      ∧ ¬ ∀ ops, Along ListOp.Present [] ops → ∃ fuel, Refines fuel DList.empty [] ops := by
  -- the list of page 1
  obtain ⟨l, hl, hden⟩ := LinkedList.addToHead_denotes denotes_empty 1
  have hadd (fuel : Nat) : LinkedList.call fuel DList.empty (.addToHead 1) = .ok (none, l) := by
    rw [LinkedList.call, hl, ok_bind]
  have htail : l.removeTail = .ok (1, l) := by
    rcases removeTail_cases hden with ⟨hnil, -⟩ | ⟨p, heq, hl'⟩ | ⟨ys, p, -, hys, heq, -⟩
    · cases hnil
    · cases heq
      exact hl'
    · exact absurd (List.append_eq_singleton_iff.mp heq.symm) (by simp [hys])
  have hremove : l.remove 1 1 = .error .nullPointer := removeNode_single hden rfl 0
  refine ⟨⟨l, hadd 1, ?_, hden.forward_backward, ?_⟩, fun hall => ?_⟩
  · rw [LinkedList.call, htail, ok_bind]
  · rw [LinkedList.call, hremove, error_bind]
  · obtain ⟨fuel, -, returned, l₁, hcall, -, hrest⟩ :=
      hall [.addToHead 1, .remove 1] (by simp [Along, ListOp.Present, ListOp.next])
    rw [hadd fuel] at hcall
    cases hcall
    obtain ⟨-, returned', l₂, hcall', hreturns, hrest'⟩ := hrest
    exact harmless_of_call hden (List.mem_singleton_self 1) hcall' hreturns hrest'.reads rfl

end OsLab.Paging
