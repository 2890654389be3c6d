import Mathlib.Data.Finset.Sort

/-!
# First fit

An allocator that takes the least free element each time. What it has taken is the beginning of
the free elements in order (`Lowest.take_sort`), and taking one more keeps that
(`Lowest.append`).
-/

namespace FirstFit

universe u

variable {α : Type u} [LinearOrder α] {free : Finset α} {taken : List α} {a p : α}

/-- The elements taken, in order: free ones, with no free one below that is not taken. -/
structure Lowest (free : Finset α) (taken : List α) : Prop where
  increasing : taken.Pairwise (· < ·)
  wasFree : ∀ a ∈ taken, a ∈ free
  closed : ∀ a ∈ taken, ∀ b ∈ free, b < a → b ∈ taken

theorem Lowest.nil (free : Finset α) : Lowest free [] :=
  ⟨List.Pairwise.nil, fun _ h => absurd h List.not_mem_nil, fun _ h => absurd h List.not_mem_nil⟩

/-- A free element that is not taken lies behind all that are. -/
theorem Lowest.lt_of_free (h : Lowest free taken) (ha : a ∈ taken) (hp : p ∈ free)
    (hfresh : p ∉ taken) : a < p := by
  refine lt_of_le_of_ne (le_of_not_gt fun hlt => hfresh (h.closed a ha p hp hlt)) ?_
  rintro rfl
  exact hfresh ha

/-- **Taking the least** element that is left. -/
theorem Lowest.append (h : Lowest free taken) (hp : p ∈ free) (hfresh : p ∉ taken)
    (hfirst : ∀ b ∈ free, b < p → b ∈ taken) : Lowest free (taken ++ [p]) where
  increasing := by
    refine List.pairwise_append.mpr ⟨h.increasing, List.pairwise_singleton _ p, fun a ha b hb => ?_⟩
    rw [List.mem_singleton.mp hb]
    exact h.lt_of_free ha hp hfresh
  wasFree a ha := by
    rcases List.mem_append.mp ha with ha | ha
    · exact h.wasFree a ha
    · rw [List.mem_singleton.mp ha]
      exact hp
  closed a ha b hb hlt := by
    refine List.mem_append_left _ ?_
    rcases List.mem_append.mp ha with ha | ha
    · exact h.closed a ha b hb hlt
    · rw [List.mem_singleton.mp ha] at hlt
      exact hfirst b hb hlt

/-- **What is taken** is the beginning of the free elements in order. -/
theorem Lowest.take_sort (h : Lowest free taken) : free.sort.take taken.length = taken := by
  have hnodup : taken.Nodup := h.increasing.imp fun hlt => ne_of_lt hlt
  have hsplit : free.sort = taken ++ (free.filter (· ∉ taken)).sort := by
    refine List.Perm.eq_of_pairwise' (free.pairwise_sort _) ?_ ?_
    · refine List.pairwise_append.mpr
        ⟨h.increasing.imp le_of_lt, Finset.pairwise_sort _ _, fun a ha b hb => ?_⟩
      obtain ⟨hb, hfresh⟩ := Finset.mem_filter.mp ((Finset.mem_sort _).mp hb)
      exact le_of_lt (h.lt_of_free ha hb hfresh)
    · refine (List.perm_ext_iff_of_nodup (free.sort_nodup _) ?_).mpr fun b => ?_
      · refine List.nodup_append.mpr ⟨hnodup, Finset.sort_nodup _ _, fun a ha b hb => ?_⟩
        rintro rfl
        exact (Finset.mem_filter.mp ((Finset.mem_sort _).mp hb)).2 ha
      · rw [Finset.mem_sort, List.mem_append, Finset.mem_sort, Finset.mem_filter]
        refine ⟨fun hb => ?_, fun hb => hb.elim (h.wasFree b) fun hb => hb.1⟩
        by_cases htaken : b ∈ taken
        · exact Or.inl htaken
        · exact Or.inr ⟨hb, htaken⟩
  rw [hsplit]
  exact List.take_left

end FirstFit
