/-!
# Fallible computations

The rules by which a `do` block in `Except` is taken apart: a step that returned is replaced
by its value (`ok_bind`), a step that failed ends the block (`error_bind`), and a block that
returned had every step return (`of_bind_eq_ok`). For loops: what every round keeps, the loop
keeps (`foldlM_keeps`), a loop whose rounds all return, returns (`foldlM_returns`), and a loop returns
if its rounds follow those of a loop that does (`foldlM_follows`). An error that no step fails
with is not one of the block's (`bind_ne_error`), nor of the loop's (`foldlM_ne_error`).
-/

namespace Fallible

universe u v

variable {ε : Type u} {α β : Type v}

/-- What follows a result goes on with it. -/
@[simp] theorem ok_bind (a : α) (f : α → Except ε β) : ((Except.ok a : Except ε α) >>= f) = f a :=
  rfl

/-- What follows a failure is not reached. -/
@[simp] theorem error_bind (e : ε) (f : α → Except ε β) :
    ((Except.error e : Except ε α) >>= f) = .error e :=
  rfl

/-- Both parts of a computation that has come through have come through. -/
theorem of_bind_eq_ok {x : Except ε α} {f : α → Except ε β} {b : β} (h : x >>= f = .ok b) :
    ∃ a, x = .ok a ∧ f a = .ok b := by
  cases x with
  | error e => cases h
  | ok a => exact ⟨a, rfl, h⟩

theorem bind_ne_error {x : Except ε α} {f : α → Except ε β} {e : ε} (hx : x ≠ .error e)
    (hf : ∀ a, x = .ok a → f a ≠ .error e) : x >>= f ≠ .error e := by
  cases x with
  | error e' => exact fun h => hx (congrArg Except.error (Except.error.inj h))
  | ok a => exact hf a rfl

/-! ## Loops

A loop whose rounds may fail is a fold. An invariant of its rounds holds at its end; whether it
comes to its end is the same question about its rounds. -/

variable {σ : Type v} {P : σ → Prop} {xs : List α}

/-- Every round that returns keeps `P`. -/
theorem foldlM_keeps {round : σ → α → Except ε σ}
    (hround : ∀ {s s' x}, x ∈ xs → P s → round s x = .ok s' → P s') :
    ∀ {s s' : σ}, P s → xs.foldlM round s = .ok s' → P s' := by
  induction xs with
  | nil =>
    intro s s' hs h
    cases h
    exact hs
  | cons x xs ih =>
    intro s s' hs h
    rw [List.foldlM_cons] at h
    obtain ⟨s₁, hx, h⟩ := of_bind_eq_ok h
    exact ih (fun hmem => hround (List.mem_cons_of_mem x hmem))
      (hround List.mem_cons_self hs hx) h

/-- Every round returns and keeps `P`. -/
theorem foldlM_returns (round : σ → α → Except ε σ)
    (hround : ∀ {s x}, x ∈ xs → P s → ∃ s', round s x = .ok s' ∧ P s') :
    ∀ {s : σ}, P s → ∃ s', xs.foldlM round s = .ok s' ∧ P s' := by
  induction xs with
  | nil => exact fun hs => ⟨_, rfl, hs⟩
  | cons x xs ih =>
    intro s hs
    obtain ⟨s₁, hx, hs₁⟩ := hround List.mem_cons_self hs
    obtain ⟨s', hrest, hs'⟩ := ih (fun hmem => hround (List.mem_cons_of_mem x hmem)) hs₁
    refine ⟨s', ?_, hs'⟩
    rw [List.foldlM_cons, hx, ok_bind, hrest]

/-- Two loops over the same list, `R` being what their rounds keep between them. -/
theorem foldlM_follows {τ : Type v} {R : σ → τ → Prop} {round : σ → α → Except ε σ}
    {round' : τ → α → Except ε τ}
    (hround : ∀ {s s' t x}, x ∈ xs → R s t → round s x = .ok s' →
      ∃ t', round' t x = .ok t' ∧ R s' t') :
    ∀ {s s' : σ} {t : τ}, R s t → xs.foldlM round s = .ok s' →
      ∃ t', xs.foldlM round' t = .ok t' ∧ R s' t' := by
  induction xs with
  | nil =>
    intro s s' t hR h
    cases h
    exact ⟨t, rfl, hR⟩
  | cons x xs ih =>
    intro s s' t hR h
    rw [List.foldlM_cons] at h
    obtain ⟨s₁, hx, h⟩ := of_bind_eq_ok h
    obtain ⟨t₁, hx', hR₁⟩ := hround List.mem_cons_self hR hx
    obtain ⟨t', hrest, hR'⟩ := ih (fun hmem => hround (List.mem_cons_of_mem x hmem)) hR₁ h
    refine ⟨t', ?_, hR'⟩
    rw [List.foldlM_cons, hx', ok_bind, hrest]

theorem foldlM_ne_error {round : σ → α → Except ε σ} {e : ε}
    (hround : ∀ {s x}, x ∈ xs → P s → round s x ≠ .error e ∧ ∀ s', round s x = .ok s' → P s') :
    ∀ {s : σ}, P s → xs.foldlM round s ≠ .error e := by
  induction xs with
  | nil => exact fun _ h => nomatch h
  | cons x xs ih =>
    intro s hs
    obtain ⟨hne, hkeeps⟩ := hround List.mem_cons_self hs
    rw [List.foldlM_cons]
    exact bind_ne_error hne fun s₁ hx =>
      ih (fun hmem => hround (List.mem_cons_of_mem x hmem)) (hkeeps s₁ hx)

end Fallible
