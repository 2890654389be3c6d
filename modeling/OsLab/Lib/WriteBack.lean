/-!
# Write-back caches

A cache over a store, with a flag for the entries to write back. Indices and entries are of
any types.

* **`Coherent`**: an entry without the flag is the entry of the store.
* **`Coherent.step`**: it survives a step that flags what it changes and leaves the store.
* **`Coherent.flush`**: writing back the flagged entries leaves the cache in the store.
-/

namespace WriteBack

universe u v

variable {ι : Type u} {α : Type v}

def Coherent (store cache : ι → α) (dirty : ι → Bool) : Prop :=
  ∀ i, dirty i = false → store i = cache i

variable {store store' cache cache' : ι → α} {dirty dirty' : ι → Bool}

/-- Nothing is flagged in a cache just loaded. -/
theorem Coherent.of_load (h : ∀ i, cache i = store i) : Coherent store cache dirty :=
  fun i _ => (h i).symm

/-- What is changed in the cache is flagged, and the store is left alone. -/
theorem Coherent.step (h : Coherent store cache dirty) (hstore : ∀ i, store' i = store i)
    (hdirty : ∀ i, dirty i = true → dirty' i = true)
    (hcache : ∀ i, dirty' i = true ∨ cache' i = cache i) : Coherent store' cache' dirty' := by
  intro i hclean
  have hbefore : dirty i = false := by
    cases hi : dirty i with
    | false => rfl
    | true => rw [hdirty i hi] at hclean; cases hclean
  rcases hcache i with hflag | hsame
  · rw [hflag] at hclean
    cases hclean
  · rw [hstore i, hsame, h i hbefore]

/-- To write back what is flagged makes the two the same. -/
theorem Coherent.flush (h : Coherent store cache dirty)
    (hflush : ∀ i, store' i = if dirty i then cache i else store i) (i : ι) : store' i = cache i := by
  rw [hflush i]
  cases hi : dirty i with
  | false => exact h i hi
  | true => rfl

end WriteBack
