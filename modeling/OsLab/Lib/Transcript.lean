/-!
# Transcripts

A machine that answers inputs one after the other and can fail, `step : σ → ι → Except ε (ο × σ)`.
Nothing is assumed of states, inputs, answers and faults.

* **`transcript`**: all that can be seen of a run, the answers up to the first input that fails,
  and the fault.
* **`Matches`**: two machines fail alike, or give the same answer and stay related. Where the
  steps match, on the inputs that are allowed, the runs are alike (`alike_of_allowed`).
* **`session`**: whole runs as the steps of a machine again, and **`session_matches`**.
* **`final_keeps`**: what every step keeps, a completed run keeps.
-/

namespace Transcript

universe u v w x y z

variable {σ : Type u} {τ : Type v} {ι : Type w} {ο : Type x} {ε : Type y}

/-- The answers to the inputs, up to the first that fails, and why it did. -/
def transcript (step : σ → ι → Except ε (ο × σ)) : σ → List ι → List ο × Option ε
  | _, [] => ([], none)
  | s, input :: inputs =>
    match step s input with
    | .error fault => ([], some fault)
    | .ok (answer, s') =>
      (answer :: (transcript step s' inputs).1, (transcript step s' inputs).2)

/-- The state after the inputs. -/
def final (step : σ → ι → Except ε (ο × σ)) : σ → List ι → Except ε σ
  | s, [] => .ok s
  | s, input :: inputs =>
    match step s input with
    | .error fault => .error fault
    | .ok (_, s') => final step s' inputs

variable {step : σ → ι → Except ε (ο × σ)} {step' : τ → ι → Except ε (ο × τ)} {s s' : σ} {t t' : τ}
variable {input : ι} {inputs : List ι} {answer : ο} {fault : ε}

@[simp] theorem transcript_nil : transcript step s [] = ([], none) := rfl

/-- An input that is answered, and then the rest. -/
theorem transcript_ok (h : step s input = .ok (answer, s')) :
    transcript step s (input :: inputs)
      = (answer :: (transcript step s' inputs).1, (transcript step s' inputs).2) := by
  rw [transcript, h]

theorem transcript_error (h : step s input = .error fault) :
    transcript step s (input :: inputs) = ([], some fault) := by
  rw [transcript, h]

@[simp] theorem final_nil : final step s [] = .ok s := rfl

/-- The first input, and then the rest. -/
theorem final_ok (h : step s input = .ok (answer, s')) :
    final step s (input :: inputs) = final step s' inputs := by
  rw [final, h]

/-- An input that fails leaves no state. -/
theorem final_error (h : step s input = .error fault) :
    final step s (input :: inputs) = .error fault := by
  rw [final, h]

/-- A run of one input or more that was completed: its first step was. -/
theorem of_final_cons (h : final step s (input :: inputs) = .ok s') :
    ∃ answer s₁, step s input = .ok (answer, s₁) ∧ final step s₁ inputs = .ok s' := by
  cases hstep : step s input with
  | error fault =>
    rw [final_error hstep] at h
    cases h
  | ok r =>
    obtain ⟨answer, s₁⟩ := r
    rw [final_ok hstep] at h
    exact ⟨answer, s₁, rfl, h⟩

/-! ## Invariants

What every step keeps holds at the end of a run; and what every answer has, in states that keep it,
the whole transcript has. -/

/-- **The invariant rule.** Induction on the inputs. -/
theorem final_keeps {P : σ → Prop} (inputs : List ι)
    (hstep : ∀ {s s' input answer}, input ∈ inputs → P s → step s input = .ok (answer, s') → P s') :
    ∀ {s s' : σ}, P s → final step s inputs = .ok s' → P s' := by
  induction inputs with
  | nil =>
    intro s s' hs h
    cases h
    exact hs
  | cons input inputs ih =>
    intro s s' hs h
    obtain ⟨answer, s₁, hfirst, hrest⟩ := of_final_cons h
    exact ih (fun hmem => hstep (List.mem_cons_of_mem input hmem))
      (hstep List.mem_cons_self hs hfirst) hrest

/-- **What is answered.** Where every step keeps `P` and answers with `Q`, or fails with `F`, so does
the run. Induction on the inputs. -/
theorem transcript_forall {P : σ → Prop} {Q : ο → Prop} {F : ε → Prop} (inputs : List ι)
    (hstep : ∀ {s s' input answer}, input ∈ inputs → P s → step s input = .ok (answer, s') →
      Q answer ∧ P s')
    (hfault : ∀ {s input fault}, input ∈ inputs → P s → step s input = .error fault → F fault) :
    ∀ {s : σ}, P s → (∀ answer ∈ (transcript step s inputs).1, Q answer)
      ∧ ∀ fault, (transcript step s inputs).2 = some fault → F fault := by
  induction inputs with
  | nil => exact fun _ => ⟨fun _ hmem => absurd hmem List.not_mem_nil, fun _ hnone => by cases hnone⟩
  | cons input inputs ih =>
    intro s hs
    -- the run ends here, or the input is answered
    cases hfirst : step s input with
    | error fault =>
      rw [transcript_error hfirst]
      refine ⟨fun _ hmem => absurd hmem List.not_mem_nil, fun fault' hsome => ?_⟩
      cases hsome
      exact hfault List.mem_cons_self hs hfirst
    | ok r =>
      obtain ⟨answer, s'⟩ := r
      obtain ⟨hanswer, hs'⟩ := hstep List.mem_cons_self hs hfirst
      obtain ⟨hrest, hend⟩ := ih (fun hmem => hstep (List.mem_cons_of_mem input hmem))
        (fun hmem => hfault (List.mem_cons_of_mem input hmem)) hs'
      rw [transcript_ok hfirst]
      exact ⟨List.forall_mem_cons.mpr ⟨hanswer, hrest⟩, hend⟩

/-! ## Two machines

Two machines run beside each other on the same inputs. Where their steps match, an observer of the
answers cannot tell them apart. -/

/-- Both fail alike, or both answer alike and stay related. -/
inductive Matches (R : σ → τ → Prop) : Except ε (ο × σ) → Except ε (ο × τ) → Prop
  | fails (fault : ε) : Matches R (.error fault) (.error fault)
  | answers (answer : ο) {s : σ} {t : τ} (h : R s t) : Matches R (.ok (answer, s)) (.ok (answer, t))

/-- Related states, or the same fault. -/
inductive Ends (R : σ → τ → Prop) : Except ε σ → Except ε τ → Prop
  | fails (fault : ε) : Ends R (.error fault) (.error fault)
  | completes {s : σ} {t : τ} (h : R s t) : Ends R (.ok s) (.ok t)

variable {R : σ → τ → Prop}

/-- Matching steps fail alike or go on alike. -/
theorem of_matches {x : Except ε (ο × σ)} {y : Except ε (ο × τ)} (h : Matches R x y) :
    (∃ fault, x = .error fault ∧ y = .error fault)
      ∨ ∃ answer s t, x = .ok (answer, s) ∧ y = .ok (answer, t) ∧ R s t := by
  cases h with
  | fails fault => exact Or.inl ⟨fault, rfl, rfl⟩
  | answers answer hR => exact Or.inr ⟨answer, _, _, rfl, rfl, hR⟩

theorem of_ends {x : Except ε σ} {y : Except ε τ} (h : Ends R x y) :
    (∃ fault, x = .error fault ∧ y = .error fault) ∨ ∃ s t, x = .ok s ∧ y = .ok t ∧ R s t := by
  cases h with
  | fails fault => exact Or.inl ⟨fault, rfl, rfl⟩
  | completes hR => exact Or.inr ⟨_, _, rfl, rfl, hR⟩

/-- If one has come to its end, so has the other. -/
theorem Ends.of_ok {y : Except ε τ} (h : Ends R (.ok s) y) : ∃ t, y = .ok t ∧ R s t := by
  cases h with
  | completes hR => exact ⟨_, rfl, hR⟩

/-- Every input meets the condition in the state it comes to. -/
def Allowed (step : σ → ι → Except ε (ο × σ)) (guard : σ → ι → Prop) : σ → List ι → Prop
  | _, [] => True
  | s, input :: inputs => guard s input
      ∧ ∀ answer s', step s input = .ok (answer, s') → Allowed step guard s' inputs

/-- A condition that every input meets anywhere. -/
theorem allowed_of_forall {guard : σ → ι → Prop} (inputs : List ι)
    (h : ∀ input ∈ inputs, ∀ s, guard s input) (s : σ) : Allowed step guard s inputs := by
  induction inputs generalizing s with
  | nil => exact trivial
  | cons input inputs ih =>
    exact ⟨h input List.mem_cons_self s,
      fun _ s' _ => ih (fun input' hmem => h input' (List.mem_cons_of_mem input hmem)) s'⟩

/-- The first input, and then the rest. -/
theorem allowed_ok {guard : σ → ι → Prop} (hguard : guard s input)
    (hstep : step s input = .ok (answer, s')) (h : Allowed step guard s' inputs) :
    Allowed step guard s (input :: inputs) := by
  refine ⟨hguard, fun answer' t ht => ?_⟩
  rw [hstep] at ht
  cases ht
  exact h

/-- Two runs in which the same is seen, and which end with related states. -/
structure Alike (R : σ → τ → Prop) (step : σ → ι → Except ε (ο × σ)) (step' : τ → ι → Except ε (ο × τ))
    (s : σ) (t : τ) (inputs : List ι) : Prop where
  seen : transcript step s inputs = transcript step' t inputs
  ends : Ends R (final step s inputs) (final step' t inputs)

/-- **Machines whose steps match run alike**, where the inputs are allowed. Induction on the
inputs. -/
theorem alike_of_allowed {guard : τ → ι → Prop} (inputs : List ι)
    (hstep : ∀ {s t input}, R s t → guard t input → Matches R (step s input) (step' t input)) :
    ∀ {s : σ} {t : τ}, R s t → Allowed step' guard t inputs → Alike R step step' s t inputs := by
  induction inputs with
  | nil => exact fun hR _ => ⟨rfl, .completes hR⟩
  | cons input inputs ih =>
    intro s t hR hallowed
    rcases of_matches (hstep hR hallowed.1) with
      ⟨fault, hs, ht⟩ | ⟨answer, s', t', hs, ht, hR'⟩
    · refine ⟨?_, ?_⟩
      · rw [transcript_error hs, transcript_error ht]
      · rw [final_error hs, final_error ht]
        exact .fails fault
    · obtain ⟨hseen, hends⟩ := ih hR' (hallowed.2 answer t' ht)
      refine ⟨?_, ?_⟩
      · rw [transcript_ok hs, transcript_ok ht, hseen]
      · rw [final_ok hs, final_ok ht]
        exact hends

/-- So they do where every step on the inputs matches. -/
theorem alike_of_mem (inputs : List ι)
    (hstep : ∀ {s t input}, input ∈ inputs → R s t → Matches R (step s input) (step' t input))
    {s : σ} {t : τ} (hR : R s t) : Alike R step step' s t inputs := by
  let guard : τ → ι → Prop := fun _ input => input ∈ inputs
  have hallowed : Allowed step' guard t inputs := allowed_of_forall inputs (fun _ hmem _ => hmem) t
  exact @alike_of_allowed _ _ _ _ _ step step' R guard inputs (fun hR hmem => hstep hmem hR) s t hR
    hallowed

/-! ## Runs as steps

A machine that is started from something that lasts and leaves it behind: one whole run is a step on
what lasts. A run that fails leaves nothing, but what it answered has been seen. -/

variable {δ δ' : Type z} {start : δ → σ} {start' : δ' → τ}
variable {leave : σ → Except ε δ} {leave' : τ → Except ε δ'}

def session (start : δ → σ) (step : σ → ι → Except ε (ο × σ)) (leave : σ → Except ε δ) (d : δ)
    (inputs : List ι) : Except (List ο × ε) (List ο × δ) :=
  match final step (start d) inputs with
  | .error fault => .error ((transcript step (start d) inputs).1, fault)
  | .ok s =>
    match leave s with
    | .error fault => .error ((transcript step (start d) inputs).1, fault)
    | .ok d' => .ok ((transcript step (start d) inputs).1, d')

/-- A run that comes to its end and is left in order. -/
theorem session_ok {inputs : List ι} {d d₁ : δ} (hfinal : final step (start d) inputs = .ok s)
    (hleave : leave s = .ok d₁) :
    session start step leave d inputs = .ok ((transcript step (start d) inputs).1, d₁) := by
  rw [session, hfinal]
  dsimp only
  rw [hleave]

/-- A run shows what its machine answers, also where it fails. -/
theorem session_answers {inputs : List ι} {d : δ} :
    (∀ answers d₁, session start step leave d inputs = .ok (answers, d₁) →
        answers = (transcript step (start d) inputs).1)
      ∧ ∀ answers fault, session start step leave d inputs = .error (answers, fault) →
        answers = (transcript step (start d) inputs).1 := by
  rw [session]
  cases final step (start d) inputs with
  | error fault => exact ⟨fun _ _ h => (by cases h), fun _ _ h => (by cases h; rfl)⟩
  | ok s =>
    dsimp only
    cases leave s with
    | error fault => exact ⟨fun _ _ h => (by cases h), fun _ _ h => (by cases h; rfl)⟩
    | ok d₂ => exact ⟨fun _ _ h => (by cases h; rfl), fun _ _ h => (by cases h)⟩

/-- A run that was left in order. -/
theorem of_session {inputs : List ι} {d d₁ : δ} {answers : List ο}
    (h : session start step leave d inputs = .ok (answers, d₁)) :
    ∃ s, final step (start d) inputs = .ok s ∧ leave s = .ok d₁ := by
  rw [session] at h
  cases hfinal : final step (start d) inputs with
  | error fault =>
    rw [hfinal] at h
    cases h
  | ok s =>
    rw [hfinal] at h
    dsimp only at h
    cases hleave : leave s with
    | error fault =>
      rw [hleave] at h
      cases h
    | ok d₂ =>
      rw [hleave] at h
      cases h
      exact ⟨s, rfl, hleave⟩

/-- **Whole runs match** where the steps do, and the ways to start and to leave. -/
theorem session_matches {S : δ → δ' → Prop} {guard : τ → ι → Prop} {inputs : List ι} {d : δ} {d' : δ'}
    (hstep : ∀ {s t input}, R s t → guard t input → Matches R (step s input) (step' t input))
    (hleave : ∀ {s t}, R s t → Ends S (leave s) (leave' t)) (hstart : R (start d) (start' d'))
    (hallowed : Allowed step' guard (start' d') inputs) :
    Matches S (session start step leave d inputs) (session start' step' leave' d' inputs) := by
  obtain ⟨hseen, hends⟩ := alike_of_allowed inputs hstep hstart hallowed
  rw [session, session, hseen]
  generalize final step (start d) inputs = left at hends
  generalize final step' (start' d') inputs = left' at hends
  cases hends with
  | fails fault => exact .fails _
  | completes hR =>
    dsimp only
    rcases of_ends (hleave hR) with ⟨fault, hleft, hleft'⟩ | ⟨d₁, d₁', hleft, hleft', hS⟩
    · rw [hleft, hleft']
      exact .fails _
    · rw [hleft, hleft']
      exact .answers _ hS

end Transcript
