import Mathlib.Logic.Relation

/-!
# Guarded runs

A system that answers events one after the other, `step : σ → ε → σ`, and the runs in which
every event meets a condition on the state it finds.

* **`keeps`**: what every step keeps, a run keeps.
* **`Guarded.keeps`**: what every guarded step keeps, a guarded run keeps, in every state it
  reaches on the way.
* **`keeps_of_moves`**: what every move keeps, any number of them keep.
* **`Permitted.returns`**, **`Permitted.keeps`**: where steps can fail, a run whose guarded steps
  do not fail returns, and what they keep, a run that returns keeps.
* **`returns`**: the same where no guard is needed.
-/

namespace GuardedRun

universe u v

variable {σ : Type u} {ε : Type v} {step : σ → ε → σ} {guard : σ → ε → Prop} {P : σ → Prop}

/-- Every event of the run meets its guard. -/
def Guarded (step : σ → ε → σ) (guard : σ → ε → Prop) (s : σ) : List ε → Prop
  | [] => True
  | event :: events => guard s event ∧ Guarded step guard (step s event) events

/-- What happens first in a guarded run is guarded. -/
theorem Guarded.of_prefix {first events : List ε} (hfirst : first <+: events) :
    ∀ {s : σ}, Guarded step guard s events → Guarded step guard s first := by
  induction first generalizing events with
  | nil => exact fun _ => trivial
  | cons event first ih =>
    intro s h
    obtain ⟨rest, rfl⟩ := hfirst
    exact ⟨h.1, ih (List.prefix_append first rest) h.2⟩

/-- **The invariant rule.** Induction on the events. -/
theorem keeps (hstep : ∀ s event, P s → P (step s event)) (events : List ε) :
    ∀ {s : σ}, P s → P (events.foldl step s) := by
  induction events with
  | nil => exact fun h => h
  | cons event events ih => exact fun h => ih (hstep _ event h)

/-- **The invariant rule for guarded runs.** -/
theorem Guarded.keeps (hstep : ∀ s event, guard s event → P s → P (step s event))
    {events : List ε} {s : σ} (hs : P s) (h : Guarded step guard s events) {first : List ε}
    (hfirst : first <+: events) : P (first.foldl step s) := by
  have hguarded := h.of_prefix hfirst
  clear h hfirst
  induction first generalizing s with
  | nil => exact hs
  | cons event first ih => exact ih (hstep s event hguarded.1 hs) hguarded.2

/-- **The invariant rule for a step relation.** Induction on the moves. -/
theorem keeps_of_moves {move : σ → σ → Prop} (hmove : ∀ s s', move s s' → P s → P s') {s s' : σ}
    (h : Relation.ReflTransGen move s s') (hs : P s) : P s' := by
  induction h with
  | refl => exact hs
  | tail _ hlast ih => exact hmove _ _ hlast ih

/-! ## Steps that can fail

A run of steps that can fail ends at the first failure. A guard then is asked for only as far as the
run goes. -/

section Failing

variable {φ : Type u} {step : σ → ε → Except φ σ}

/-- Every event of the run meets its guard, as far as the run goes. -/
def Permitted (step : σ → ε → Except φ σ) (guard : σ → ε → Prop) (s : σ) : List ε → Prop
  | [] => True
  | event :: events => guard s event ∧ ∀ s', step s event = .ok s' → Permitted step guard s' events

/-- Whether a run is permitted can be computed. -/
instance Permitted.decidable [∀ s event, Decidable (guard s event)] :
    (s : σ) → (events : List ε) → Decidable (Permitted step guard s events)
  | _, [] => isTrue trivial
  | s, event :: events =>
    match hstep : step s event with
    | .ok s' =>
      have : Decidable (Permitted step guard s' events) := Permitted.decidable s' events
      decidable_of_iff (guard s event ∧ Permitted step guard s' events) <|
        and_congr_right fun _ => ⟨fun h s₁ hs₁ => by rw [hstep] at hs₁; cases hs₁; exact h,
          fun h => h s' hstep⟩
    | .error _ =>
      decidable_of_iff (guard s event)
        ⟨fun h => ⟨h, fun s₁ hs₁ => by rw [hstep] at hs₁; cases hs₁⟩, fun h => h.1⟩

/-- **The rule for runs that do not fail.** Induction on the events. -/
theorem Permitted.returns (hstep : ∀ s event, guard s event → P s → ∃ s', step s event = .ok s' ∧ P s')
    (events : List ε) :
    ∀ {s : σ}, P s → Permitted step guard s events → ∃ s', events.foldlM step s = .ok s' ∧ P s' := by
  induction events with
  | nil => exact fun hs _ => ⟨_, rfl, hs⟩
  | cons event events ih =>
    intro s hs h
    obtain ⟨s₁, hstep₁, hs₁⟩ := hstep s event h.1 hs
    obtain ⟨s', hrest, hs'⟩ := ih hs₁ (h.2 s₁ hstep₁)
    refine ⟨s', ?_, hs'⟩
    rw [List.foldlM_cons, hstep₁]
    exact hrest

/-- **The rule for runs whose steps never fail.** Induction on the events. -/
theorem returns (hstep : ∀ s event, P s → ∃ s', step s event = .ok s' ∧ P s') (events : List ε) :
    ∀ {s : σ}, P s → ∃ s', events.foldlM step s = .ok s' ∧ P s' := by
  induction events with
  | nil => exact fun hs => ⟨_, rfl, hs⟩
  | cons event events ih =>
    intro s hs
    obtain ⟨s₁, hstep₁, hs₁⟩ := hstep s event hs
    obtain ⟨s', hrest, hs'⟩ := ih hs₁
    refine ⟨s', ?_, hs'⟩
    rw [List.foldlM_cons, hstep₁]
    exact hrest

/-- **The invariant rule for runs that return.** Induction on the events. -/
theorem Permitted.keeps
    (hstep : ∀ {s event s'}, guard s event → P s → step s event = .ok s' → P s') {events : List ε} :
    ∀ {s s' : σ}, P s → Permitted step guard s events → events.foldlM step s = .ok s' → P s' := by
  induction events with
  | nil =>
    intro s s' hs _ h
    cases h
    exact hs
  | cons event events ih =>
    intro s s' hs hpermitted h
    rw [List.foldlM_cons] at h
    cases hstep₁ : step s event with
    | error _ =>
      rw [hstep₁] at h
      cases h
    | ok s₁ =>
      rw [hstep₁] at h
      exact ih (hstep hpermitted.1 hs hstep₁) (hpermitted.2 s₁ hstep₁) h

/-- Two guards, met together. -/
theorem Permitted.and {guard' : σ → ε → Prop} {events : List ε} :
    ∀ {s : σ}, Permitted step guard s events → Permitted step guard' s events →
      Permitted step (fun s event => guard s event ∧ guard' s event) s events := by
  induction events with
  | nil => exact fun _ _ => trivial
  | cons event events ih =>
    exact fun h h' => ⟨⟨h.1, h'.1⟩, fun s₁ hstep => ih (h.2 s₁ hstep) (h'.2 s₁ hstep)⟩

end Failing

end GuardedRun
