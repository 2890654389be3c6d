import OsLab.Dining.Rice

/-!
# OsLab.Dining — `main` and the thread handle

The whole program: `main` creates the philosophers, reports while there is rice, waits and
adds up what they consumed. It runs interleaved with the threads it has created.

Every `Philosopher` constructor stores its thread handle in the one global `pThread`, and
`isVacationing` waits on that global. Whichever philosopher it is called on, it therefore
waits for the thread that was created last.

* **`reports_after_all`**: as long as no call of `isVacationing` returns before the
  philosopher it is called on has finished, `main` adds up settled figures.
* **`reports_too_early`**: on the compiled ring the last philosopher can eat everything alone;
  then every call returns, and `main` reads `RiceConsume` of a philosopher still to run.
-/

namespace OsLab.Dining

variable {n : Nat}

/-- The statement `main` executes next; the loops carry their counter. -/
inductive MainPc where
  | create (i : Nat)   -- `pPhilosopher[i] = new Philosopher(i, &data);`
  | moreRice           -- `while (data.MoreRice())`
  | report             -- `ReportStatus(); Sleep(100);`
  | wait (i : Nat)     -- `pPhilosopher[i]->isVacationing();`
  | lastReport         -- `ReportStatus();`
  | add (i : Nat)      -- `total = total + pPhilosopher[i]->getRiceConsume();`
  | done
  deriving DecidableEq, Repr

/-- `main`'s locals and the globals of the program. `created who` says that
`pPhilosopher[who]` is set; a thread handle is the philosopher whose thread it is. -/
structure Program (n : Nat) where
  data : State n
  created : Fin n → Bool
  pThread : Option (Fin n)
  mainPc : MainPc
  total : Int

namespace Program

def initial (n : Nat) (rice : Int) : Program n :=
  { data := .initial n rice, created := fun _ => false, pThread := none, mainPc := .create 0,
    total := 0 }

/-- `Philosopher::Philosopher`: the handle of the new thread goes to the global `pThread`. -/
def construct (p : Program n) (who : Fin n) : Program n :=
  { p with
    data := p.data.setPhil who .new
    created := Function.update p.created who true
    pThread := some who }

/-- `WaitForSingleObject(pThread, INFINITE)` returns: the thread has finished, or there is no
handle to wait on. -/
def waitReturns (p : Program n) : Bool :=
  match p.pThread with
  | some last => decide ((p.data.phil last).pc = .finished)
  | none => true

/-- `Philosopher::isVacationing`, `none` while it waits. -/
def isVacationing (p : Program n) (who : Fin n) : Option Bool :=
  if p.waitReturns then some (decide ((p.data.phil who).vState = .vacation)) else none

def getRiceConsume (p : Program n) (who : Fin n) : Int := (p.data.phil who).riceConsume

/-- `main` executes its next statement; `none` when it waits or has returned. -/
def advanceMain (p : Program n) : Option (Program n) :=
  match p.mainPc with
  | .create i =>
    if h : i < n then some { p.construct ⟨i, h⟩ with mainPc := .create (i + 1) }
    else some { p with mainPc := .moreRice }
  | .moreRice => some { p with mainPc := if p.data.moreRice then .report else .wait 0 }
  | .report => some { p with mainPc := .moreRice }
  | .wait i =>
    if h : i < n then
      -- what `isVacationing` returns is dropped
      (p.isVacationing ⟨i, h⟩).map fun _ => { p with mainPc := .wait (i + 1) }
    else some { p with mainPc := .lastReport }
  | .lastReport => some { p with mainPc := .add 0 }
  | .add i =>
    if h : i < n then
      some { p with total := p.total + p.getRiceConsume ⟨i, h⟩, mainPc := .add (i + 1) }
    else some { p with mainPc := .done }
  | .done => none

/-- The thread of a created philosopher executes its next statement. -/
def advancePhil (p : Program n) (who : Fin n) : Option (Program n) :=
  if p.created who then (p.data.advance who).map fun data => { p with data } else none

/-- One step of the program: `main` or one philosopher executes one statement. -/
def Step (p p' : Program n) : Prop :=
  p.advanceMain = some p' ∨ ∃ who, p.advancePhil who = some p'

def Reachable (rice : Int) (p : Program n) : Prop :=
  Relation.ReflTransGen Step (initial n rice) p

/-- The program after the statements a schedule names in their order, `none` for `main`'s. -/
def run (p : Program n) : List (Option (Fin n)) → Option (Program n)
  | [] => some p
  | none :: rest => p.advanceMain.bind fun p' => p'.run rest
  | some who :: rest => (p.advancePhil who).bind fun p' => p'.run rest

/-- Where a schedule leads is reachable. Induction on the schedule. -/
theorem reachable_of_run {rice : Int} (schedule : List (Option (Fin n))) :
    ∀ {p p' : Program n}, Reachable rice p → p.run schedule = some p' → Reachable rice p' := by
  induction schedule with
  | nil =>
    intro p p' hreach hrun
    cases hrun
    exact hreach
  | cons event rest ih =>
    intro p p' hreach hrun
    cases event with
    | none =>
      obtain ⟨p₁, hadv, hrest⟩ := Option.bind_eq_some_iff.mp hrun
      exact ih (hreach.tail (Or.inl hadv)) hrest
    | some who =>
      obtain ⟨p₁, hadv, hrest⟩ := Option.bind_eq_some_iff.mp hrun
      exact ih (hreach.tail (Or.inr ⟨who, hadv⟩)) hrest

/-- The philosopher whose `isVacationing` call is about to return has finished. -/
def WaitGuarded (p : Program n) : Prop :=
  ∀ who : Fin n, p.mainPc = .wait who → p.waitReturns → p.data.Finished who

instance (p : Program n) : Decidable p.WaitGuarded :=
  inferInstanceAs (Decidable (∀ who : Fin n, p.mainPc = .wait who → p.waitReturns →
    (p.data.phil who).pc = .finished))

/-- A step of the program in which `main`'s calls of `isVacationing` are guarded. -/
def GuardedStep (p p' : Program n) : Prop :=
  (p.advanceMain = some p' ∧ p.WaitGuarded) ∨ ∃ who, p.advancePhil who = some p'

end Program

/-! ## What `main` knows

At the `i`-th `isVacationing` call the philosophers before the `i`-th have finished, and a
finished thread stays finished. -/

/-- A thread that has finished stays finished, whoever goes on. -/
theorem State.finished_advance {s s' : State n} {who w : Fin n} (h : s.advance who = some s')
    (hfin : s.Finished w) : s'.Finished w := by
  have hne : w ≠ who := by
    rintro rfl
    have hpc : (s.phil w).pc = .finished := hfin
    simp [State.advance, hpc] at h
  have hsame := (account_step (State.advance_moves h)).others w hne
  show (s'.phil w).pc = .finished
  rw [hsame]
  exact hfin

/-- The figures of the philosophers before the `i`-th. -/
def Program.sumBefore (p : Program n) (i : Nat) : Int :=
  ∑ who : Fin n, if who.val < i then p.getRiceConsume who else 0

/-- What holds at each statement of `main`. -/
def Program.Knows (p : Program n) : Prop :=
  match p.mainPc with
  | .wait i => p.total = 0 ∧ ∀ who : Fin n, who.val < i → p.data.Finished who
  | .lastReport => p.total = 0 ∧ ∀ who, p.data.Finished who
  | .add i => p.total = p.sumBefore i ∧ ∀ who, p.data.Finished who
  | .done => p.total = p.data.totalRiceConsume ∧ ∀ who, p.data.Finished who
  | _ => p.total = 0

theorem Program.sumBefore_zero (p : Program n) : p.sumBefore 0 = 0 :=
  Finset.sum_eq_zero fun who _ => if_neg (Nat.not_lt_zero who.val)

theorem Program.sumBefore_succ (p : Program n) {i : Nat} (h : i < n) :
    p.sumBefore (i + 1) = p.sumBefore i + p.getRiceConsume ⟨i, h⟩ := by
  have hsplit (who : Fin n) : (if who.val < i + 1 then p.getRiceConsume who else 0)
      = (if who.val < i then p.getRiceConsume who else 0)
        + if who = ⟨i, h⟩ then p.getRiceConsume who else 0 := by
    by_cases heq : who = ⟨i, h⟩
    · subst heq
      simp
    · have hval : who.val ≠ i := fun hval => heq (Fin.ext hval)
      have hiff : who.val < i + 1 ↔ who.val < i := by omega
      simp only [heq, if_false, hiff, add_zero]
  unfold sumBefore
  rw [Finset.sum_congr rfl fun who _ => hsplit who, Finset.sum_add_distrib,
    Finset.sum_ite_eq' Finset.univ, if_pos (Finset.mem_univ _)]

theorem Program.sumBefore_all (p : Program n) {i : Nat} (h : n ≤ i) :
    p.sumBefore i = p.data.totalRiceConsume := by
  refine Finset.sum_congr rfl fun who _ => ?_
  rw [if_pos (lt_of_lt_of_le who.isLt h)]
  rfl

/-- `isVacationing` returns only when its wait does. -/
theorem Program.waitReturns_of_isVacationing {p : Program n} {who : Fin n} {vacation : Bool}
    (h : p.isVacationing who = some vacation) : p.waitReturns := by
  unfold isVacationing at h
  by_contra hwaits
  rw [if_neg hwaits] at h
  cases h

/-- A statement of `main`. Only the return from a wait has something to it: there the guard says
that the philosopher asked about has finished. -/
theorem knows_advanceMain {p p' : Program n} (hadv : p.advanceMain = some p')
    (hguard : p.WaitGuarded) (hinv : p.Knows) : p'.Knows := by
  cases hpc : p.mainPc with
  | create i =>
    simp only [Program.Knows, hpc] at hinv
    simp only [Program.advanceMain, hpc] at hadv
    split at hadv
    · cases hadv
      exact hinv
    · cases hadv
      exact hinv
  | moreRice =>
    simp only [Program.Knows, hpc] at hinv
    simp only [Program.advanceMain, hpc, Option.some.injEq] at hadv
    subst hadv
    by_cases hrice : p.data.moreRice
    · simpa only [Program.Knows, hrice, if_true] using hinv
    · simp only [Program.Knows, hrice, Bool.false_eq_true, if_false]
      exact ⟨hinv, fun who hlt => absurd hlt (Nat.not_lt_zero _)⟩
  | report =>
    simp only [Program.Knows, hpc] at hinv
    simp only [Program.advanceMain, hpc, Option.some.injEq] at hadv
    subst hadv
    exact hinv
  | wait i =>
    simp only [Program.Knows, hpc] at hinv
    obtain ⟨htotal, hbefore⟩ := hinv
    simp only [Program.advanceMain, hpc] at hadv
    split at hadv
    · next hlt =>
      obtain ⟨b, hvac, rfl⟩ := Option.map_eq_some_iff.mp hadv
      -- the call returned, so the guard speaks about the `i`-th philosopher
      have hthis : p.data.Finished ⟨i, hlt⟩ :=
        hguard ⟨i, hlt⟩ hpc (Program.waitReturns_of_isVacationing hvac)
      refine ⟨htotal, fun who hwho => ?_⟩
      rcases Nat.lt_succ_iff_lt_or_eq.mp hwho with hless | heq
      · exact hbefore who hless
      · rw [show who = ⟨i, hlt⟩ from Fin.ext heq]
        exact hthis
    · next hge =>
      cases hadv
      exact ⟨htotal, fun who => hbefore who (lt_of_lt_of_le who.isLt (Nat.le_of_not_lt hge))⟩
  | lastReport =>
    simp only [Program.Knows, hpc] at hinv
    simp only [Program.advanceMain, hpc, Option.some.injEq] at hadv
    subst hadv
    refine ⟨?_, hinv.2⟩
    show p.total = p.sumBefore 0
    rw [hinv.1, Program.sumBefore_zero]
  | add i =>
    simp only [Program.Knows, hpc] at hinv
    obtain ⟨htotal, hfin⟩ := hinv
    simp only [Program.advanceMain, hpc] at hadv
    split at hadv
    · next hlt =>
      cases hadv
      refine ⟨?_, hfin⟩
      show p.total + p.getRiceConsume ⟨i, hlt⟩ = p.sumBefore (i + 1)
      rw [htotal, Program.sumBefore_succ p hlt]
    · next hge =>
      cases hadv
      refine ⟨?_, hfin⟩
      show p.total = p.data.totalRiceConsume
      rw [htotal, Program.sumBefore_all p (Nat.le_of_not_lt hge)]
  | done => simp [Program.advanceMain, hpc] at hadv

/-- A thread's step cannot spoil what `main` knows: `main` reads figures only of threads that
have finished. -/
theorem knows_advancePhil {p p' : Program n} {who : Fin n} (hadv : p.advancePhil who = some p')
    (hinv : p.Knows) : p'.Knows := by
  unfold Program.advancePhil at hadv
  split at hadv
  · obtain ⟨data, hdata, rfl⟩ := Option.map_eq_some_iff.mp hadv
    have hall (hfin : ∀ w, p.data.Finished w) : False := by
      have hpc : (p.data.phil who).pc = .finished := hfin who
      simp [State.advance, hpc] at hdata
    cases hpc : p.mainPc with
    | create i | moreRice | report =>
      simp only [Program.Knows, hpc] at hinv ⊢
      exact hinv
    | wait i =>
      simp only [Program.Knows, hpc] at hinv ⊢
      exact ⟨hinv.1, fun w hw => State.finished_advance hdata (hinv.2 w hw)⟩
    | lastReport | add i | done =>
      simp only [Program.Knows, hpc] at hinv
      exact (hall hinv.2).elim
  · cases hadv

/-- Along a guarded run. Induction on its steps. -/
theorem knows_of_guarded {rice : Int} {p : Program n}
    (hrun : Relation.ReflTransGen Program.GuardedStep (Program.initial n rice) p) : p.Knows := by
  induction hrun with
  | refl => rfl
  | tail _ hstep ih =>
    rcases hstep with ⟨hadv, hguard⟩ | ⟨who, hadv⟩
    · exact knows_advanceMain hadv hguard ih
    · exact knows_advancePhil hadv ih

/-- Where `main` adds up the figures, or has added them up, they are settled: no thread is
left that could take or add a portion. -/
def Program.ReportsSettled (p : Program n) : Prop :=
  (∀ i, p.mainPc = .add i → ∀ who, p.data.Finished who)
    ∧ (p.mainPc = .done →
        p.total = p.data.totalRiceConsume ∧ ∀ who, p.data.advance who = none)

/-- **`main` reports after everyone.** In every run whose `isVacationing` calls return only
once the philosopher they are called on has finished, every philosopher has finished where
`main` reads a figure, and the total it ends with is what the philosophers consumed. -/
theorem reports_after_all {rice : Int} {p : Program n}
    (hrun : Relation.ReflTransGen Program.GuardedStep (Program.initial n rice) p) :
    p.ReportsSettled := by
  have hknows := knows_of_guarded hrun
  constructor
  · intro i hpc
    simp only [Program.Knows, hpc] at hknows
    exact hknows.2
  · intro hpc
    simp only [Program.Knows, hpc] at hknows
    refine ⟨hknows.1, fun who => ?_⟩
    have hfin : (p.data.phil who).pc = .finished := hknows.2 who
    simp only [State.advance, hfin]

/-- One step, and then what can be reached from there. -/
theorem exists_reached_of_step {α : Type*} {r : α → α → Prop} {P : α → Prop} {a b : α}
    (hstep : r a b) (hrest : ∃ c, Relation.ReflTransGen r b c ∧ P c) :
    ∃ c, Relation.ReflTransGen r a c ∧ P c := by
  obtain ⟨c, hreach, hc⟩ := hrest
  exact ⟨c, .head hstep hreach, hc⟩

/-- Two philosophers without rice: both finish, then `main` reaches its total. -/
theorem reports_after_all_two : ∃ p : Program 2, p.mainPc = .add 0 ∧ p.ReportsSettled := by
  have hrun : ∃ p, Relation.ReflTransGen Program.GuardedStep (Program.initial 2 0) p
      ∧ p.mainPc = .add 0 := by
    -- `main` creates both threads
    refine exists_reached_of_step (Or.inl ⟨rfl, by decide⟩) ?_
    refine exists_reached_of_step (Or.inl ⟨rfl, by decide⟩) ?_
    refine exists_reached_of_step (Or.inl ⟨rfl, by decide⟩) ?_
    -- each of them sees that there is no rice
    refine exists_reached_of_step (Or.inr ⟨0, rfl⟩) ?_
    refine exists_reached_of_step (Or.inr ⟨0, rfl⟩) ?_
    refine exists_reached_of_step (Or.inr ⟨0, rfl⟩) ?_
    refine exists_reached_of_step (Or.inr ⟨1, rfl⟩) ?_
    refine exists_reached_of_step (Or.inr ⟨1, rfl⟩) ?_
    refine exists_reached_of_step (Or.inr ⟨1, rfl⟩) ?_
    -- `main` passes its waits
    refine exists_reached_of_step (Or.inl ⟨rfl, by decide⟩) ?_
    refine exists_reached_of_step (Or.inl ⟨rfl, by decide⟩) ?_
    refine exists_reached_of_step (Or.inl ⟨rfl, by decide⟩) ?_
    refine exists_reached_of_step (Or.inl ⟨rfl, by decide⟩) ?_
    refine exists_reached_of_step (Or.inl ⟨rfl, by decide⟩) ?_
    exact ⟨_, .refl, rfl⟩
  obtain ⟨p, hrun, hpc⟩ := hrun
  exact ⟨p, hpc, reports_after_all hrun⟩

/-! ## The wait on the wrong thread

The constructor writes the handle of its thread to a global, so after the loop there is one handle
left, that of the last philosopher. Every `isVacationing` waits on it, whichever philosopher it is
called on. -/

/-- Once the thread created last has finished, `main` passes every wait, whoever is still
running. Induction on the waits left. -/
theorem reaches_add {p : Program n} (hreturns : p.waitReturns) (waits : Nat) :
    ∀ i, i + waits = n → Relation.ReflTransGen Program.Step
      { p with mainPc := .wait i } { p with mainPc := .add 0 } := by
  induction waits with
  | zero =>
    intro i hi
    have hlast : ({ p with mainPc := .wait i } : Program n).advanceMain
        = some { p with mainPc := .lastReport } := dif_neg (by omega)
    exact .head (Or.inl hlast) (.single (Or.inl rfl))
  | succ waits ih =>
    intro i hi
    have hlt : i < n := by omega
    have hcall : ({ p with mainPc := .wait i } : Program n).isVacationing ⟨i, hlt⟩
        = some (decide ((p.data.phil ⟨i, hlt⟩).vState = .vacation)) := if_pos hreturns
    have hwait : ({ p with mainPc := .wait i } : Program n).advanceMain
        = some { p with mainPc := .wait (i + 1) } := by
      simp only [Program.advanceMain, hlt, dif_pos, hcall, Option.map_some]
    exact .head (Or.inl hwait) (ih (i + 1) (by omega))

/-- The created threads run as they do without `main`. -/
theorem reaches_of_threads {p : Program n} (hcreated : ∀ who, p.created who) {data : State n}
    (h : Relation.ReflTransGen State.Step p.data data) :
    Relation.ReflTransGen Program.Step p { p with data } := by
  induction h with
  | refl => exact .refl
  | tail _ hstep ih =>
    obtain ⟨who, hadv⟩ := hstep
    refine ih.tail (Or.inr ⟨who, ?_⟩)
    simp [Program.advancePhil, hcreated who, hadv]

/-- **`main` reports too early.** In the compiled program `main` can read a figure of a philosopher
that has not finished. -/
theorem reports_too_early :
    ¬ ∀ p : Program maxPhilosopher, Program.Reachable initialRice p → p.ReportsSettled := by
  intro hall
  let s0 := State.initial maxPhilosopher initialRice
  -- `main` creates the five threads; the handle left in `pThread` is that of philosopher `4`
  have hcreate : ∃ p, Program.Reachable initialRice p ∧ p.data = s0 ∧ (∀ who, p.created who)
      ∧ p.pThread = some 4 ∧ p.mainPc = .moreRice := by
    refine exists_reached_of_step (Or.inl rfl) ?_
    refine exists_reached_of_step (Or.inl rfl) ?_
    refine exists_reached_of_step (Or.inl rfl) ?_
    refine exists_reached_of_step (Or.inl rfl) ?_
    refine exists_reached_of_step (Or.inl rfl) ?_
    refine exists_reached_of_step (Or.inl rfl) ⟨_, .refl, ?_, by decide, rfl, rfl⟩
    simp [Program.construct, Program.initial, State.setPhil, State.initial, s0]
  obtain ⟨p1, h1, hdata, hcreated, hpThread, hpc⟩ := hcreate
  -- philosopher `4` starts, eats everything and leaves; nobody else has moved
  let s1 := s0.setPhil 4 ⟨.whileTest, .thinking, 0, 0⟩
  have h01 : Relation.ReflTransGen State.Step s0 s1 := reaches_thinking rfl (by decide)
  obtain ⟨s2, h12, hidle, hrice, -, hothers⟩ :=
    reaches_portions (by decide) 4 5000 (le_refl 0) s1 ⟨rfl, rfl, rfl, rfl⟩ rfl
  let s3 := s2.goto 4 .leave
  let s4 := s3.setPhil 4 { s3.phil 4 with vState := .vacation, pc := .finished }
  have h23 : s2.advance 4 = some s3 := by
    simp [State.advance, hidle.pc, State.moreRice, hrice, s3]
  have h34 : s3.advance 4 = some s4 := by
    simp [State.advance, s4, s3, State.goto]
  have hthreads : Relation.ReflTransGen State.Step p1.data s4 := by
    rw [hdata]
    exact ((h01.trans h12).tail ⟨4, h23⟩).tail ⟨4, h34⟩
  -- `main` finds no rice, and each of its waits is for philosopher `4`
  let p2 : Program maxPhilosopher := { p1 with data := s4 }
  have h2 : Program.Reachable initialRice p2 := h1.trans (reaches_of_threads hcreated hthreads)
  have hreturns : p2.waitReturns := by
    simp [Program.waitReturns, p2, hpThread, s4]
  have hnoRice : p2.advanceMain = some { p2 with mainPc := .wait 0 } := by
    have hgone : s4.moreRice = false := by
      simp [State.moreRice, s4, s3, State.goto, hrice]
    simp [Program.advanceMain, p2, hpc, hgone]
  have h3 : Program.Reachable initialRice { p2 with mainPc := .add 0 } :=
    (h2.tail (Or.inl hnoRice)).trans (reaches_add hreturns maxPhilosopher 0 rfl)
  -- philosopher `0` has not executed a statement
  have hfin : s4.Finished 0 := (hall _ h3).1 0 rfl 0
  have hnew : (s4.phil 0).pc = .runEntry := by
    simp [s4, s3, State.goto, hothers 0 (by decide), s1, s0, State.initial, Philosopher.new]
  have hpc0 : (s4.phil 0).pc = .finished := hfin
  rw [hnew] at hpc0
  cases hpc0

end OsLab.Dining
