import Mathlib.Logic.Relation
import Mathlib.Logic.Function.Basic

/-!
# OsLab.Dining — the philosopher threads over `SharedData`

The model of `DinningPhilosopher`: `n` threads run `Philosopher::Run` over one
`SharedData` (`MAX_PHILOSOPHER` is `5` in the source; the ring size is a parameter here).
A thread's state is its program point together with the locals and members the source
keeps for it; one step of the system executes one statement of one thread. Acquiring a
chopstick, the test `Rice > 0`, the decrement `Rice--` and releasing a chopstick are
separate steps. `Sleep` and `ConsumeRice` give no ordering guarantee and change nothing.

Each test of `Rice` and each `Rice--` is one atomic step here. Nothing in the source makes them so:
`Rice` is a plain `int`, and the compiler may make a load and a store of the decrement, of which one
can get lost. What is proved about `Rice` and about the portions eaten holds for the atomic steps; the
order in which the chopsticks are taken does not depend on it.
-/

namespace OsLab.Dining

inductive EState where
  | thinking | hungry | waiting | eating | vacation
  deriving DecidableEq, Repr

/-- The statement a thread executes next: `runEntry` to `finished` in `Philosopher::Run`,
`getFirst` to `putSecond` inside the `SharedData::Eat` it called. -/
inductive Pc where
  | runEntry     -- `v_State = EATING;`
  | whileTest    -- `while (Food->MoreRice())`
  | branch       -- `if (v_State == THINKING) … else if (v_State == HUNGRY) …`
  | getFirst     -- the first `getLeftChopstic`/`getRightChopstic` of `Eat`
  | getSecond    -- the second one
  | setState     -- `*state = new_state;`
  | testRice     -- `if (Rice > 0)`
  | takeRice     -- `Rice--; pounf_of_rice++;`
  | consumeRice  -- `ConsumeRice();`
  | putFirst     -- the first `putLeftChopstic`/`putRightChopstic` of `Eat`
  | putSecond    -- the second one
  | addRice      -- `RiceConsume = RiceConsume + …` with the value `Eat` returned
  | eatingTest   -- `if (v_State == EATING) v_State = THINKING;`
  | leave        -- `v_State = VACATION;`
  | finished     -- `Run` has returned
  deriving DecidableEq, Repr

/-- One `Philosopher` object with the state of its thread. `pounfOfRice` is the local of
the `Eat` call in progress; outside one it keeps the value of the last call. -/
structure Philosopher where
  pc : Pc
  vState : EState
  riceConsume : Int
  pounfOfRice : Int
  deriving DecidableEq, Repr

/-- `Philosopher::Philosopher`: the thread is created and has executed nothing. -/
def Philosopher.new : Philosopher :=
  { pc := .runEntry, vState := .vacation, riceConsume := 0, pounfOfRice := 0 }

/-- `SharedData` with the philosophers sharing it. `chopstic c` is the count of the
semaphore `chopstic[c]`. `pMutex` is created by the source and never waited on. -/
structure State (n : Nat) where
  rice : Int
  chopstic : Fin n → Nat
  phil : Fin n → Philosopher

variable {n : Nat}

/-- `SharedData::SharedData` and `main`'s loop creating the philosophers, with `rice`
pounds to start with: every semaphore is created with initial count `1`. -/
def State.initial (n : Nat) (rice : Int) : State n :=
  { rice, chopstic := fun _ => 1, phil := fun _ => .new }

abbrev maxPhilosopher : Nat := 5

/-- The `Rice` that `SharedData::SharedData` starts with. -/
def initialRice : Int := 5000

/-! ## Chopsticks

A chopstick is a semaphore with maximum `1`. To get it waits while the count is `0`; to put it
raises the count, and fails if it is at the maximum. -/

/-- `(who + 1) % MAX_PHILOSOPHER`. -/
def rightOf (who : Fin n) : Fin n := ⟨(who.val + 1) % n, Nat.mod_lt _ who.pos⟩

namespace State

def setChopstic (s : State n) (c : Fin n) (count : Nat) : State n :=
  { s with chopstic := Function.update s.chopstic c count }

/-- `getChopstic`: `WaitForSingleObject` on the semaphore, `none` while its count is `0`. -/
def getChopstic (s : State n) (c : Fin n) : Option (State n) :=
  if s.chopstic c = 0 then none else some (s.setChopstic c (s.chopstic c - 1))

/-- `putChopstic`: `ReleaseSemaphore(…, 1, NULL)`, which fails and changes nothing when the
count would exceed the maximum `1`. -/
def putChopstic (s : State n) (c : Fin n) : State n :=
  if s.chopstic c + 1 ≤ 1 then s.setChopstic c (s.chopstic c + 1) else s

def getLeftChopstic (s : State n) (who : Fin n) : Option (State n) := s.getChopstic who

def getRightChopstic (s : State n) (who : Fin n) : Option (State n) :=
  s.getChopstic (rightOf who)

def putLeftChopstic (s : State n) (who : Fin n) : State n := s.putChopstic who

def putRightChopstic (s : State n) (who : Fin n) : State n := s.putChopstic (rightOf who)

def moreRice (s : State n) : Bool := decide (0 < s.rice)

def setPhil (s : State n) (who : Fin n) (p : Philosopher) : State n :=
  { s with phil := Function.update s.phil who p }

def goto (s : State n) (who : Fin n) (pc : Pc) : State n :=
  s.setPhil who { s.phil who with pc }

/-- The thread that moves, and the others. -/
@[simp] theorem setPhil_phil (s : State n) (who w : Fin n) (p : Philosopher) :
    (s.setPhil who p).phil w = if w = who then p else s.phil w := by
  simp [setPhil, Function.update_apply]

/-- Chopsticks stay where they are, and so does the rice. -/
@[simp] theorem setPhil_chopstic (s : State n) (who : Fin n) (p : Philosopher) :
    (s.setPhil who p).chopstic = s.chopstic := rfl

@[simp] theorem setPhil_rice (s : State n) (who : Fin n) (p : Philosopher) :
    (s.setPhil who p).rice = s.rice := rfl

/-- A chopstick is nothing to the threads, nor to the rice. -/
@[simp] theorem setChopstic_phil (s : State n) (c : Fin n) (k : Nat) :
    (s.setChopstic c k).phil = s.phil := rfl

@[simp] theorem setChopstic_rice (s : State n) (c : Fin n) (k : Nat) :
    (s.setChopstic c k).rice = s.rice := rfl

@[simp] theorem setChopstic_chopstic (s : State n) (c : Fin n) (k : Nat) :
    (s.setChopstic c k).chopstic = Function.update s.chopstic c k := rfl

/-- The later state of a thread counts. -/
@[simp] theorem setPhil_setPhil (s : State n) (who : Fin n) (p q : Philosopher) :
    (s.setPhil who p).setPhil who q = s.setPhil who q := by
  simp [setPhil]

/-! ## One statement of one thread

The loop of `Run` and the `Eat` it calls, one statement at a time. The test of `Rice` and its
decrement are two statements; the decrement, a load and a store of the global, is one. -/

/-- Thread `who` executes its next statement; `none` when it waits on a semaphore whose
count is `0` or has finished. Odd philosophers take the left chopstick first, even ones
the right one, and `Eat` releases them in the order it took them. -/
def advance (s : State n) (who : Fin n) : Option (State n) :=
  let p := s.phil who
  match p.pc with
  | .runEntry => some (s.setPhil who { p with vState := .eating, pc := .whileTest })
  | .whileTest => some (s.goto who (if s.moreRice then .branch else .leave))
  | .branch =>
    if p.vState = .thinking then
      some (s.setPhil who { p with vState := .hungry, pc := .eatingTest })
    else if p.vState = .hungry then
      some (s.setPhil who { p with vState := .waiting, pounfOfRice := 0, pc := .getFirst })
    else some (s.goto who .eatingTest)
  | .getFirst =>
    (if who.val % 2 = 1 then s.getLeftChopstic who else s.getRightChopstic who).map
      (·.goto who .getSecond)
  | .getSecond =>
    (if who.val % 2 = 1 then s.getRightChopstic who else s.getLeftChopstic who).map
      (·.goto who .setState)
  | .setState => some (s.setPhil who { p with vState := .eating, pc := .testRice })
  | .testRice => some (s.goto who (if 0 < s.rice then .takeRice else .consumeRice))
  | .takeRice =>
    some ({ s with rice := s.rice - 1 }.setPhil who
      { p with pounfOfRice := p.pounfOfRice + 1, pc := .consumeRice })
  | .consumeRice => some (s.goto who .putFirst)
  | .putFirst =>
    some ((if who.val % 2 = 1 then s.putLeftChopstic who else s.putRightChopstic who).goto who
      .putSecond)
  | .putSecond =>
    some ((if who.val % 2 = 1 then s.putRightChopstic who else s.putLeftChopstic who).goto who
      .addRice)
  | .addRice =>
    some (s.setPhil who
      { p with riceConsume := p.riceConsume + p.pounfOfRice, pc := .eatingTest })
  | .eatingTest =>
    some (s.setPhil who
      { p with vState := if p.vState = .eating then .thinking else p.vState, pc := .whileTest })
  | .leave => some (s.setPhil who { p with vState := .vacation, pc := .finished })
  | .finished => none

/-- One step of the system: some thread executes one statement. -/
def Step (s s' : State n) : Prop := ∃ who, s.advance who = some s'

/-- Reachable by some interleaving of the threads, from a fresh `SharedData`. -/
def Reachable (rice : Int) (s : State n) : Prop :=
  Relation.ReflTransGen Step (State.initial n rice) s

/-- The state after the threads named by the schedule executed one statement each. -/
def run (s : State n) : List (Fin n) → Option (State n)
  | [] => some s
  | who :: rest => (s.advance who).bind fun s' => s'.run rest

/-- `Run` has returned in thread `who`. -/
def Finished (s : State n) (who : Fin n) : Prop := (s.phil who).pc = .finished

/-- Thread `who` is inside `getChopstic`, waiting on a semaphore whose count is `0`. -/
def BlockedInGetChopstic (s : State n) (who : Fin n) : Prop :=
  ((s.phil who).pc = .getFirst ∨ (s.phil who).pc = .getSecond) ∧ s.advance who = none

/-! ## Schedules

A schedule names the threads in the order in which they execute their statements. The states
that some schedule leads to are the reachable ones, so a run can be given as a list and computed. -/

theorem run_append (s : State n) (xs ys : List (Fin n)) :
    s.run (xs ++ ys) = (s.run xs).bind fun s' => s'.run ys := by
  induction xs generalizing s with
  | nil => rfl
  | cons who rest ih =>
    rw [List.cons_append, run, run, Option.bind_assoc]
    congr 1
    funext s'
    exact ih s'

/-- The states of the schedules are the reachable states. -/
theorem reachable_iff_run {rice : Int} {s : State n} :
    Reachable rice s ↔ ∃ schedule, (State.initial n rice).run schedule = some s := by
  constructor
  · -- a run is a schedule: add the thread of its last step
    intro h
    induction h with
    | refl => exact ⟨[], rfl⟩
    | tail _ hstep ih =>
      obtain ⟨who, hadv⟩ := hstep
      obtain ⟨schedule, hrun⟩ := ih
      refine ⟨schedule ++ [who], ?_⟩
      rw [run_append, hrun]
      simp [run, hadv]
  · -- and a schedule is a run, from any state
    rintro ⟨schedule, hrun⟩
    have hgen : ∀ (xs : List (Fin n)) (s0 : State n), s0.run xs = some s →
        Relation.ReflTransGen Step s0 s := by
      intro xs
      induction xs with
      | nil =>
        intro s0 h
        cases h
        exact .refl
      | cons who rest ih =>
        intro s0 h
        obtain ⟨s1, hadv, hrest⟩ := Option.bind_eq_some_iff.mp h
        exact .head ⟨who, hadv⟩ (ih s1 hrest)
    exact hgen schedule _ hrun

end State

/-! ## What one step can do

`advance_moves` says it once: a step is *quiet*, or it acquires, releases, tests or takes.
Every invariant of the system is a case analysis on `Moves`. -/

/-- The chopstick `Eat` takes first: the left one for odd philosophers, else the right. -/
def firstOf (who : Fin n) : Fin n := if who.val % 2 = 1 then who else rightOf who

def secondOf (who : Fin n) : Fin n := if who.val % 2 = 1 then rightOf who else who

/-- Between the first acquire of `Eat` and the release of that chopstick. -/
def Pc.holdsFirst : Pc → Bool
  | .getSecond | .setState | .testRice | .takeRice | .consumeRice | .putFirst => true
  | _ => false

/-- Between the second acquire of `Eat` and the release of that chopstick. -/
def Pc.holdsSecond : Pc → Bool
  | .setState | .testRice | .takeRice | .consumeRice | .putFirst | .putSecond => true
  | _ => false

/-- Inside `Eat`, up to and including the statement that adds its result. -/
def Pc.inEat : Pc → Bool
  | .getFirst | .getSecond | .setState | .testRice | .takeRice | .consumeRice | .putFirst
  | .putSecond | .addRice => true
  | _ => false

def Pc.leftLoop : Pc → Bool
  | .leave | .finished => true
  | _ => false

/-- The portions a philosopher has taken: those of finished `Eat` calls and the one of the
call in progress. -/
def Philosopher.portions (p : Philosopher) : Int :=
  p.riceConsume + if p.pc.inEat then p.pounfOfRice else 0

/-- A change of one thread that acquires, releases, tests and takes nothing. -/
structure Quiet (rice : Int) (p p' : Philosopher) : Prop where
  first : p'.pc.holdsFirst = p.pc.holdsFirst
  second : p'.pc.holdsSecond = p.pc.holdsSecond
  portions : p'.portions = p.portions
  take : p.pc ≠ .takeRice
  take' : p'.pc ≠ .takeRice
  test : p.pc = .testRice → rice ≤ 0
  left : p'.pc.leftLoop → p.pc.leftLoop ∨ rice ≤ 0

/-- The effect of one step of thread `who`, by what it does to the shared data. -/
inductive Moves (s : State n) (who : Fin n) : State n → Prop where
  | quiet (p : Philosopher) (hquiet : Quiet s.rice (s.phil who) p) :
      Moves s who (s.setPhil who p)
  | getFirst (hpc : (s.phil who).pc = .getFirst) (hfree : s.chopstic (firstOf who) ≠ 0) :
      Moves s who
        ((s.setChopstic (firstOf who) (s.chopstic (firstOf who) - 1)).goto who .getSecond)
  | getSecond (hpc : (s.phil who).pc = .getSecond) (hfree : s.chopstic (secondOf who) ≠ 0) :
      Moves s who
        ((s.setChopstic (secondOf who) (s.chopstic (secondOf who) - 1)).goto who .setState)
  -- the test `Rice > 0` succeeded
  | testRice (hpc : (s.phil who).pc = .testRice) (hrice : 0 < s.rice) :
      Moves s who (s.goto who .takeRice)
  | takeRice (hpc : (s.phil who).pc = .takeRice) :
      Moves s who ({ s with rice := s.rice - 1 }.setPhil who
        { s.phil who with pounfOfRice := (s.phil who).pounfOfRice + 1, pc := .consumeRice })
  | putFirst (hpc : (s.phil who).pc = .putFirst) :
      Moves s who ((s.putChopstic (firstOf who)).goto who .putSecond)
  | putSecond (hpc : (s.phil who).pc = .putSecond) :
      Moves s who ((s.putChopstic (secondOf who)).goto who .addRice)

theorem State.advance_getFirst {s : State n} {who : Fin n} (h : (s.phil who).pc = .getFirst) :
    s.advance who = (s.getChopstic (firstOf who)).map (·.goto who .getSecond) := by
  unfold firstOf
  simp only [State.advance, h]
  split <;> rfl

theorem State.advance_getSecond {s : State n} {who : Fin n} (h : (s.phil who).pc = .getSecond) :
    s.advance who = (s.getChopstic (secondOf who)).map (·.goto who .setState) := by
  unfold secondOf
  simp only [State.advance, h]
  split <;> rfl

theorem State.advance_putFirst {s : State n} {who : Fin n} (h : (s.phil who).pc = .putFirst) :
    s.advance who = some ((s.putChopstic (firstOf who)).goto who .putSecond) := by
  unfold firstOf
  simp only [State.advance, h]
  split <;> rfl

theorem State.advance_putSecond {s : State n} {who : Fin n} (h : (s.phil who).pc = .putSecond) :
    s.advance who = some ((s.putChopstic (secondOf who)).goto who .addRice) := by
  unfold secondOf
  simp only [State.advance, h]
  split <;> rfl

/-- The wait is over: there was a chopstick, and it has been taken. -/
theorem State.getChopstic_eq_some {s s' : State n} {c : Fin n} (h : s.getChopstic c = some s') :
    s.chopstic c ≠ 0 ∧ s' = s.setChopstic c (s.chopstic c - 1) := by
  unfold State.getChopstic at h
  split at h
  · cases h
  · next hne => exact ⟨hne, (Option.some.inj h).symm⟩

/-- **The step inversion.** Whatever statement thread `who` executes, its effect is one of
`Moves`. Case split on the program point. -/
theorem State.advance_moves {s s' : State n} {who : Fin n} (h : s.advance who = some s') :
    Moves s who s' := by
  cases hpc : (s.phil who).pc with
  | whileTest =>
    simp only [State.advance, hpc, Option.some.injEq] at h
    subst h
    -- the loop is left only when the rice is gone
    by_cases hr : 0 < s.rice
    · refine .quiet _ ?_
      constructor <;> simp [hpc, State.moreRice, hr, Pc.holdsFirst, Pc.holdsSecond,
        Philosopher.portions, Pc.inEat, Pc.leftLoop]
    · refine .quiet _ ?_
      constructor <;> simp [hpc, State.moreRice, hr, Pc.holdsFirst, Pc.holdsSecond,
        Philosopher.portions, Pc.inEat, Pc.leftLoop]
      omega
  | branch =>
    simp only [State.advance, hpc] at h
    split at h
    · cases h
      refine .quiet _ ?_
      constructor <;> simp [hpc, Pc.holdsFirst, Pc.holdsSecond, Philosopher.portions, Pc.inEat,
        Pc.leftLoop]
    · split at h
      · cases h
        refine .quiet _ ?_
        constructor <;> simp [hpc, Pc.holdsFirst, Pc.holdsSecond, Philosopher.portions, Pc.inEat,
          Pc.leftLoop]
      · cases h
        refine .quiet _ ?_
        constructor <;> simp [hpc, Pc.holdsFirst, Pc.holdsSecond, Philosopher.portions, Pc.inEat,
          Pc.leftLoop]
  | getFirst =>
    rw [State.advance_getFirst hpc] at h
    obtain ⟨s1, h1, rfl⟩ := Option.map_eq_some_iff.mp h
    obtain ⟨hfree, rfl⟩ := State.getChopstic_eq_some h1
    exact .getFirst hpc hfree
  | getSecond =>
    rw [State.advance_getSecond hpc] at h
    obtain ⟨s1, h1, rfl⟩ := Option.map_eq_some_iff.mp h
    obtain ⟨hfree, rfl⟩ := State.getChopstic_eq_some h1
    exact .getSecond hpc hfree
  | testRice =>
    simp only [State.advance, hpc, Option.some.injEq] at h
    subst h
    by_cases hr : 0 < s.rice
    · rw [if_pos hr]
      exact .testRice hpc hr
    · rw [if_neg hr]
      refine .quiet _ ?_
      constructor <;> simp [hpc, Pc.holdsFirst, Pc.holdsSecond, Philosopher.portions, Pc.inEat,
        Pc.leftLoop]
      omega
  | takeRice =>
    simp only [State.advance, hpc, Option.some.injEq] at h
    subst h
    exact .takeRice hpc
  | putFirst =>
    rw [State.advance_putFirst hpc] at h
    cases h
    exact .putFirst hpc
  | putSecond =>
    rw [State.advance_putSecond hpc] at h
    cases h
    exact .putSecond hpc
  | finished => simp [State.advance, hpc] at h
  | runEntry | setState | consumeRice | addRice | eatingTest | leave =>
    simp only [State.advance, hpc, Option.some.injEq] at h
    subst h
    refine .quiet _ ?_
    constructor <;> simp [hpc, Pc.holdsFirst, Pc.holdsSecond, Philosopher.portions, Pc.inEat,
      Pc.leftLoop]

end OsLab.Dining
