import OsLab.Dining.Chopsticks
import Mathlib.Algebra.BigOperators.Fin
import Mathlib.Algebra.BigOperators.Group.Finset.Piecewise
import Mathlib.Algebra.Order.BigOperators.Group.Finset

/-!
# OsLab.Dining — the rice account

`Rice` plus the portions taken is constant under every interleaving (`account_step`): the
portions grow by one exactly when `Rice` drops by one. What is not guaranteed is that
`Rice` stays non-negative. The chopsticks only exclude neighbours, so two philosophers who
share no chopstick can both pass the test `Rice > 0` on the last portion and both take it.

The test-and-decrement is safe as long as a philosopher passes the test only while more
rice is left than there are philosophers between their own test and their decrement
(`GuardedTest`). `pending` counts those; `pending ≤ rice` is the invariant, and its defect
`rice - pending` never grows, so a single unguarded test already dooms the final account.
-/

namespace OsLab.Dining

variable {n : Nat}

namespace State

/-- The portions taken so far, over all philosophers. -/
def portionsTaken (s : State n) : Int := ∑ who, (s.phil who).portions

/-- The `total` that `main` adds up from `getRiceConsume`. -/
def totalRiceConsume (s : State n) : Int := ∑ who, (s.phil who).riceConsume

/-- Philosophers that have passed the test `Rice > 0` and not yet executed `Rice--`. -/
def pending (s : State n) : Int := ∑ who, if (s.phil who).pc = .takeRice then 1 else 0

/-- If `who` is about to pass the test `Rice > 0`, there is rice for it beyond what the
philosophers past their test are about to take. -/
def GuardedTest (s : State n) (who : Fin n) : Prop :=
  (s.phil who).pc = .testRice → 0 < s.rice → s.pending < s.rice

/-- Every test of the schedule is guarded. -/
def Guarded (s : State n) : List (Fin n) → Prop
  | [] => True
  | who :: rest => s.GuardedTest who ∧ ∀ s', s.advance who = some s' → s'.Guarded rest

instance (s : State n) (who : Fin n) : Decidable (s.GuardedTest who) :=
  inferInstanceAs (Decidable ((s.phil who).pc = .testRice → 0 < s.rice → s.pending < s.rice))

/-- Whether the tests of a schedule are guarded can be computed. -/
instance Guarded.decidable : (s : State n) → (schedule : List (Fin n)) →
    Decidable (s.Guarded schedule)
  | _, [] => isTrue trivial
  | s, who :: rest =>
    match hadv : s.advance who with
    | some s' =>
      have : Decidable (s'.Guarded rest) := Guarded.decidable s' rest
      decidable_of_iff (s.GuardedTest who ∧ s'.Guarded rest) <|
        and_congr_right fun _ => ⟨fun h s₁ hs₁ => by rw [hadv] at hs₁; cases hs₁; exact h,
          fun h => h s' hadv⟩
    | none =>
      decidable_of_iff (s.GuardedTest who)
        ⟨fun h => ⟨h, fun s₁ hs₁ => by rw [hadv] at hs₁; cases hs₁⟩, fun h => h.1⟩

end State

/-! ## Sums over the ring

What has been taken and what is about to be taken, summed over all philosophers. A step changes one
term of each sum. -/

/-- Replacing one thread changes a sum over the threads by that thread's summand. -/
theorem sum_setPhil (s : State n) (who : Fin n) (p : Philosopher) (f : Philosopher → Int) :
    ∑ w, f ((s.setPhil who p).phil w) = (∑ w, f (s.phil w)) - f (s.phil who) + f p := by
  have hsplit (g : Fin n → Int) : ∑ w, g w = g who + ∑ w ∈ Finset.univ.erase who, g w :=
    (Finset.add_sum_erase Finset.univ g (Finset.mem_univ who)).symm
  have hrest : ∑ w ∈ Finset.univ.erase who, f ((s.setPhil who p).phil w)
      = ∑ w ∈ Finset.univ.erase who, f (s.phil w) := by
    refine Finset.sum_congr rfl fun w hw => ?_
    rw [State.setPhil_phil, if_neg (Finset.ne_of_mem_erase hw)]
  rw [hsplit, hsplit fun w => f (s.phil w), hrest, State.setPhil_phil, if_pos rfl]
  omega

/-- One thread comes to the decrement, or leaves it. -/
theorem pending_setPhil (s : State n) (who : Fin n) (p : Philosopher) :
    (s.setPhil who p).pending
      = s.pending - (if (s.phil who).pc = .takeRice then 1 else 0)
        + (if p.pc = .takeRice then 1 else 0) :=
  sum_setPhil s who p fun q => if q.pc = .takeRice then 1 else 0

/-- The portions of one thread change. -/
theorem portionsTaken_setPhil (s : State n) (who : Fin n) (p : Philosopher) :
    (s.setPhil who p).portionsTaken = s.portionsTaken - (s.phil who).portions + p.portions :=
  sum_setPhil s who p Philosopher.portions

/-- Nobody's decrement is less than none. -/
theorem State.pending_nonneg (s : State n) : 0 ≤ s.pending := by
  refine Finset.sum_nonneg fun w _ => ?_
  split <;> omega

/-- To put a chopstick back moves nobody, and leaves the rice. -/
theorem State.putChopstic_phil (s : State n) (c : Fin n) : (s.putChopstic c).phil = s.phil := by
  unfold State.putChopstic
  split <;> rfl

theorem State.putChopstic_rice (s : State n) (c : Fin n) : (s.putChopstic c).rice = s.rice := by
  unfold State.putChopstic
  split <;> rfl

/-! ## One step of the account

Rice and the portions taken add up to the same throughout, since the decrement of the one is the
portion of the other. What can go wrong is the test: two threads may both find the last portion and
then both take it. -/

/-- What one step of `who` does to the account: the total is kept; the reserve
`rice - pending` never grows; a guarded step keeps it non-negative and an unguarded one makes
it negative; and a thread leaves the loop of `Run` only after the rice is gone. -/
structure AccountStep (s s' : State n) (who : Fin n) : Prop where
  total : s'.rice + s'.portionsTaken = s.rice + s.portionsTaken
  reserve_le : s'.rice - s'.pending ≤ s.rice - s.pending
  guarded : s.GuardedTest who → 0 ≤ s.rice - s.pending → 0 ≤ s'.rice - s'.pending
  unguarded : ¬ s.GuardedTest who → s'.rice - s'.pending < 0
  rice_le : s'.rice ≤ s.rice
  left : (s'.phil who).pc.leftLoop → (s.phil who).pc.leftLoop ∨ s.rice ≤ 0
  others : ∀ w, w ≠ who → s'.phil w = s.phil w

/-- A step that moves `who` and leaves `Rice` and the account alone. -/
theorem accountStep_of_phil {s s' : State n} {who : Fin n} {p : Philosopher}
    (hphil : s'.phil = (s.setPhil who p).phil) (hrice : s'.rice = s.rice)
    (hportions : p.portions = (s.phil who).portions)
    (htake : (s.phil who).pc ≠ .takeRice) (htake' : p.pc ≠ .takeRice)
    (htest : (s.phil who).pc = .testRice → s.rice ≤ 0)
    (hleft : p.pc.leftLoop → (s.phil who).pc.leftLoop ∨ s.rice ≤ 0) :
    AccountStep s s' who := by
  -- neither sum has changed
  have hpend : s'.pending = s.pending := by
    have h := pending_setPhil s who p
    rw [if_neg htake, if_neg htake'] at h
    have heq : s'.pending = (s.setPhil who p).pending := by unfold State.pending; rw [hphil]
    omega
  have hport : s'.portionsTaken = s.portionsTaken := by
    have h := portionsTaken_setPhil s who p
    have heq : s'.portionsTaken = (s.setPhil who p).portionsTaken := by
      unfold State.portionsTaken; rw [hphil]
    omega
  have hguard : s.GuardedTest who := fun hpc hpos => absurd (htest hpc) (by omega)
  refine ⟨by omega, by omega, fun _ _ => by omega, fun h => absurd hguard h, by omega, ?_, ?_⟩
  · rw [hphil, State.setPhil_phil, if_pos rfl]
    exact hleft
  · intro w hw
    rw [hphil, State.setPhil_phil, if_neg hw]

/-- One statement of one thread. Only the test and the decrement have something to it. -/
theorem account_step {s s' : State n} {who : Fin n} (hmove : Moves s who s') :
    AccountStep s s' who := by
  cases hmove with
  | quiet p hq =>
    exact accountStep_of_phil rfl rfl hq.portions hq.take hq.take' hq.test hq.left
  | getFirst hpc =>
    exact accountStep_of_phil rfl rfl (by simp [Philosopher.portions, hpc, Pc.inEat])
      (by simp [hpc]) (by simp) (by simp [hpc]) (by simp [Pc.leftLoop])
  | getSecond hpc =>
    exact accountStep_of_phil rfl rfl (by simp [Philosopher.portions, hpc, Pc.inEat])
      (by simp [hpc]) (by simp) (by simp [hpc]) (by simp [Pc.leftLoop])
  | putFirst hpc =>
    refine accountStep_of_phil (p := { s.phil who with pc := .putSecond }) ?_ ?_
      (by simp [Philosopher.portions, hpc, Pc.inEat]) (by simp [hpc]) (by simp) (by simp [hpc])
      (by simp [Pc.leftLoop])
    · simp [State.goto, State.setPhil, State.putChopstic_phil]
    · simp [State.goto, State.putChopstic_rice]
  | putSecond hpc =>
    refine accountStep_of_phil (p := { s.phil who with pc := .addRice }) ?_ ?_
      (by simp [Philosopher.portions, hpc, Pc.inEat]) (by simp [hpc]) (by simp) (by simp [hpc])
      (by simp [Pc.leftLoop])
    · simp [State.goto, State.setPhil, State.putChopstic_phil]
    · simp [State.goto, State.putChopstic_rice]
  | testRice hpc hrice =>
    -- the only step that raises `pending`
    have hpend := pending_setPhil s who { s.phil who with pc := .takeRice }
    have hport := portionsTaken_setPhil s who { s.phil who with pc := .takeRice }
    rw [if_neg (by simp [hpc]), if_pos rfl] at hpend
    have hsame : ({ s.phil who with pc := .takeRice } : Philosopher).portions
        = (s.phil who).portions := by simp [Philosopher.portions, hpc, Pc.inEat]
    rw [← State.goto] at hpend hport
    have hr : (s.goto who .takeRice).rice = s.rice := rfl
    refine ⟨by omega, by omega, fun hg _ => ?_, fun hg => ?_, by omega, ?_, ?_⟩
    · have hlt := hg hpc hrice
      omega
    · have hge : ¬ s.pending < s.rice := fun hlt => hg fun _ _ => hlt
      omega
    · simp [State.goto, Pc.leftLoop]
    · intro w hw
      rw [State.goto, State.setPhil_phil, if_neg hw]
  | takeRice hpc =>
    -- one portion leaves `Rice` and `pending` and is counted as taken
    set p : Philosopher :=
      { s.phil who with pounfOfRice := (s.phil who).pounfOfRice + 1, pc := .consumeRice } with hp
    set s1 : State n := { s with rice := s.rice - 1 } with hs1
    have hpend := pending_setPhil s1 who p
    have hport := portionsTaken_setPhil s1 who p
    rw [if_pos hpc, if_neg (by simp [hp])] at hpend
    have hmore : p.portions = (s.phil who).portions + 1 := by
      simp [Philosopher.portions, hp, hpc, Pc.inEat]
      omega
    have hpend1 : s1.pending = s.pending := rfl
    have hport1 : s1.portionsTaken = s.portionsTaken := rfl
    have hphil1 : (s1.phil who).portions = (s.phil who).portions := rfl
    have hr : (s1.setPhil who p).rice = s.rice - 1 := rfl
    refine ⟨by omega, by omega, fun _ _ => by omega, fun hg => ?_, by omega, ?_, ?_⟩
    · exact absurd (fun h => absurd hpc (by simp [h])) hg
    · simp [hp, Pc.leftLoop]
    · intro w hw
      rw [State.setPhil_phil, if_neg hw]

/-! ## A whole run of the account

A run is guarded when at each test of `Rice` there is a portion left for everyone who has passed the
test and not yet taken it. What the account says at the end depends on that alone. -/

/-- Whoever is out of the loop of `Run` has seen the rice gone. -/
def State.LeftAfterRice (s : State n) : Prop := ∀ who, (s.phil who).pc.leftLoop → s.rice ≤ 0

/-- A thread leaves its loop only when the rice has gone, and the rice does not come back. -/
theorem leftAfterRice_step {s s' : State n} {who : Fin n} (hstep : AccountStep s s' who)
    (hinv : s.LeftAfterRice) : s'.LeftAfterRice := by
  intro w hw
  have hle := hstep.rice_le
  by_cases heq : w = who
  · subst heq
    rcases hstep.left hw with hleft | hrice
    · exact le_trans hle (hinv w hleft)
    · exact le_trans hle hrice
  · rw [hstep.others w heq] at hw
    exact le_trans hle (hinv w hw)

/-- **The account over a schedule.** Induction on the schedule, one `AccountStep` at a time. -/
theorem account_run (schedule : List (Fin n)) :
    ∀ {s s' : State n}, s.run schedule = some s' →
      s'.rice + s'.portionsTaken = s.rice + s.portionsTaken
        ∧ s'.rice - s'.pending ≤ s.rice - s.pending
        ∧ (s.Guarded schedule → 0 ≤ s.rice - s.pending → 0 ≤ s'.rice - s'.pending)
        ∧ (¬ s.Guarded schedule → s'.rice - s'.pending < 0)
        ∧ (s.LeftAfterRice → s'.LeftAfterRice) := by
  induction schedule with
  | nil =>
    intro s s' hrun
    cases hrun
    exact ⟨rfl, le_refl _, fun _ h => h, fun h => absurd trivial h, fun h => h⟩
  | cons who rest ih =>
    intro s s' hrun
    obtain ⟨s1, hadv, hrest⟩ := Option.bind_eq_some_iff.mp hrun
    have hstep := account_step (State.advance_moves hadv)
    obtain ⟨htotal, hres, hguard, hunguard, hleft⟩ := ih hrest
    refine ⟨by rw [htotal, hstep.total], le_trans hres hstep.reserve_le, ?_, ?_,
      fun h => hleft (leftAfterRice_step hstep h)⟩
    · -- the first test is guarded, and so is the rest
      rintro ⟨hg, hrestg⟩ hpos
      exact hguard (hrestg s1 hadv) (hstep.guarded hg hpos)
    · -- the first one is not, or one of the rest
      intro hng
      by_cases hg : s.GuardedTest who
      · refine hunguard fun hrestg => hng ⟨hg, fun s2 h2 => ?_⟩
        rw [hadv] at h2
        cases h2
        exact hrestg
      · exact lt_of_le_of_lt hres (hstep.unguarded hg)

/-- Once every thread has finished, nothing is pending and every portion is reported. -/
theorem settled_of_finished {s : State n} (hfin : ∀ who, s.Finished who) :
    s.pending = 0 ∧ s.portionsTaken = s.totalRiceConsume := by
  have hpc : ∀ who, (s.phil who).pc = .finished := hfin
  constructor
  · exact Finset.sum_eq_zero fun who _ => by rw [hpc who]; rfl
  · refine Finset.sum_congr rfl fun who _ => ?_
    simp [Philosopher.portions, hpc who, Pc.inEat]

theorem initial_account (rice : Int) :
    (State.initial n rice).portionsTaken = 0 ∧ (State.initial n rice).pending = 0
      ∧ (State.initial n rice).LeftAfterRice := by
  refine ⟨Finset.sum_eq_zero fun who _ => rfl, Finset.sum_eq_zero fun who _ => rfl, ?_⟩
  intro who hleft
  cases hleft

/-- **The rice account.** For every schedule of the five threads: `Rice` and the portions
taken always add up to the initial `5000`. If every test of the schedule is guarded, `Rice`
never goes below `0` and `main` reports `5000` once all threads have finished; and `main`
reports `5000` only in that case. -/
theorem rice_account (schedule : List (Fin maxPhilosopher)) (s : State maxPhilosopher)
    (hrun : (State.initial maxPhilosopher initialRice).run schedule = some s) :
    initialRice = s.rice + s.portionsTaken
      ∧ ((State.initial maxPhilosopher initialRice).Guarded schedule →
          0 ≤ s.rice ∧ ((∀ who, s.Finished who) → s.totalRiceConsume = initialRice))
      ∧ ((∀ who, s.Finished who) → s.totalRiceConsume = initialRice →
          (State.initial maxPhilosopher initialRice).Guarded schedule) := by
  obtain ⟨htotal, -, hguard, hunguard, hleft⟩ := account_run schedule hrun
  obtain ⟨hport0, hpend0, hleft0⟩ := initial_account (n := maxPhilosopher) initialRice
  have hrice0 : (State.initial maxPhilosopher initialRice).rice = initialRice := rfl
  have hinit : initialRice = 5000 := rfl
  have hpend := s.pending_nonneg
  refine ⟨by omega, fun hg => ?_, fun hfin htot => ?_⟩
  · -- guarded, the rice ends at `0` and not below
    have hres := hguard hg (by omega)
    refine ⟨by omega, fun hfin => ?_⟩
    obtain ⟨-, hreport⟩ := settled_of_finished hfin
    have hgone : s.rice ≤ 0 := hleft hleft0 0 (by
      rw [show (s.phil 0).pc = .finished from hfin 0]; rfl)
    omega
  · -- unguarded, it has gone below
    obtain ⟨hpend', hreport⟩ := settled_of_finished hfin
    by_contra hng
    have hlt := hunguard hng
    omega

/-- `supper` goes on: `2` takes its second chopstick, `0` and `2` both test before either takes
its portion. There is rice enough for both, so the tests are guarded. -/
theorem rice_account_supper :
    ∃ s, (State.initial maxPhilosopher initialRice).run (supper ++ [2, 2, 0, 2, 0, 2]) = some s
      ∧ (s.rice = 4998 ∧ s.portionsTaken = 2)
      ∧ (State.initial maxPhilosopher initialRice).Guarded (supper ++ [2, 2, 0, 2, 0, 2])
      ∧ initialRice = s.rice + s.portionsTaken ∧ 0 ≤ s.rice := by
  have hguarded : (State.initial maxPhilosopher initialRice).Guarded (supper ++ [2, 2, 0, 2, 0, 2]) := by
    decide +kernel
  obtain ⟨s, hrun, hrice⟩ : ∃ s : State maxPhilosopher,
      (State.initial maxPhilosopher initialRice).run (supper ++ [2, 2, 0, 2, 0, 2]) = some s
        ∧ s.rice = 4998 ∧ s.portionsTaken = 2 :=
    ⟨_, rfl, rfl, rfl⟩
  obtain ⟨htotal, hkept, -⟩ := rice_account _ s hrun
  exact ⟨s, hrun, hrice, hguarded, htotal, (hkept hguarded).1⟩

/-! ## The last portion taken twice

Philosophers `0` and `2` of the compiled ring share no chopstick. Philosopher `0` eats
alone until one portion is left; then both pass the test before either decrements. -/

/-- Thread `who` at the head of its loop, thinking, with both of its chopsticks free. -/
structure State.Idle (s : State n) (who : Fin n) : Prop where
  pc : (s.phil who).pc = .whileTest
  vState : (s.phil who).vState = .thinking
  first : s.chopstic (firstOf who) = 1
  second : s.chopstic (secondOf who) = 1

/-- The philosophers `who` and `w` share no chopstick. -/
def Apart (who w : Fin n) : Prop :=
  w ≠ who ∧ (firstOf w ≠ firstOf who ∧ firstOf w ≠ secondOf who)
    ∧ (secondOf w ≠ firstOf who ∧ secondOf w ≠ secondOf who)

instance (who w : Fin n) : Decidable (Apart who w) := inferInstanceAs (Decidable (_ ∧ _))

/-- `who` at the statement `pc` of `Eat`, with both of its chopsticks taken. -/
def State.inside (s : State n) (who : Fin n) (pc : Pc) : State n :=
  ((s.setChopstic (firstOf who) 0).setChopstic (secondOf who) 0).setPhil who
    ⟨pc, .eating, (s.phil who).riceConsume, 0⟩

/-- `s` with the meal of `who` finished. -/
def State.afterMeal (s : State n) (who : Fin n) : State n :=
  { rice := s.rice - 1
    chopstic := Function.update (Function.update s.chopstic (firstOf who) 1) (secondOf who) 1
    phil := Function.update s.phil who ⟨.whileTest, .thinking, (s.phil who).riceConsume + 1, 1⟩ }

/-- A meal does not concern the chopsticks of another pair. -/
theorem State.Idle.inside {s : State n} {who w : Fin n} (hw : s.Idle w) (hapart : Apart who w)
    (pc : Pc) : (s.inside who pc).Idle w := by
  obtain ⟨hpc, hst, hf, hg⟩ := hw
  obtain ⟨hne, ⟨hff, hfs⟩, hsf, hss⟩ := hapart
  constructor <;> simp [State.inside, *]

theorem State.Idle.afterMeal {s : State n} {who w : Fin n} (hw : s.Idle w)
    (hapart : Apart who w) : (s.afterMeal who).Idle w := by
  obtain ⟨hpc, hst, hf, hg⟩ := hw
  obtain ⟨hne, ⟨hff, hfs⟩, hsf, hss⟩ := hapart
  constructor <;> simp [State.afterMeal, *]

/-- An idle philosopher, scheduled alone, reaches the test `Rice > 0` of its next meal. -/
theorem reaches_testRice (hn : 2 ≤ n) {s : State n} {who : Fin n} (hidle : s.Idle who)
    (hrice : 0 < s.rice) : Relation.ReflTransGen State.Step s (s.inside who .testRice) := by
  obtain ⟨hpc, hst, hf, hg⟩ := hidle
  have hne := firstOf_ne_secondOf hn who
  set c := (s.phil who).riceConsume with hc
  set k := (s.phil who).pounfOfRice with hk
  -- from the head of the loop to the test of `Rice`, eight statements
  have h0 : s.advance who = some (s.setPhil who ⟨.branch, .thinking, c, k⟩) := by
    simp [State.advance, hpc, State.goto, State.moreRice, hrice, hst, hc, hk]
  have h1 : (s.setPhil who ⟨.branch, .thinking, c, k⟩).advance who
      = some (s.setPhil who ⟨.eatingTest, .hungry, c, k⟩) := by
    simp [State.advance]
  have h2 : (s.setPhil who ⟨.eatingTest, .hungry, c, k⟩).advance who
      = some (s.setPhil who ⟨.whileTest, .hungry, c, k⟩) := by
    simp [State.advance]
  have h3 : (s.setPhil who ⟨.whileTest, .hungry, c, k⟩).advance who
      = some (s.setPhil who ⟨.branch, .hungry, c, k⟩) := by
    simp [State.advance, State.goto, State.moreRice, hrice]
  have h4 : (s.setPhil who ⟨.branch, .hungry, c, k⟩).advance who
      = some (s.setPhil who ⟨.getFirst, .waiting, c, 0⟩) := by
    simp [State.advance]
  have h5 : (s.setPhil who ⟨.getFirst, .waiting, c, 0⟩).advance who
      = some ((s.setChopstic (firstOf who) 0).setPhil who ⟨.getSecond, .waiting, c, 0⟩) := by
    rw [State.advance_getFirst (by simp)]
    simp [State.getChopstic, hf, State.goto, State.setPhil, State.setChopstic]
  have h6 : ((s.setChopstic (firstOf who) 0).setPhil who ⟨.getSecond, .waiting, c, 0⟩).advance who
      = some (((s.setChopstic (firstOf who) 0).setChopstic (secondOf who) 0).setPhil who
          ⟨.setState, .waiting, c, 0⟩) := by
    rw [State.advance_getSecond (by simp)]
    simp [State.getChopstic, hg, State.goto, State.setPhil, State.setChopstic,
      Function.update_of_ne hne.symm]
  have h7 : (((s.setChopstic (firstOf who) 0).setChopstic (secondOf who) 0).setPhil who
      ⟨.setState, .waiting, c, 0⟩).advance who = some (s.inside who .testRice) := by
    simp [State.advance, State.inside, hc]
  exact .head ⟨who, h0⟩ (.head ⟨who, h1⟩ (.head ⟨who, h2⟩ (.head ⟨who, h3⟩ (.head ⟨who, h4⟩
    (.head ⟨who, h5⟩ (.head ⟨who, h6⟩ (.single ⟨who, h7⟩)))))))

/-- From the test on, a philosopher scheduled alone finishes its meal. -/
theorem reaches_afterMeal (hn : 2 ≤ n) {s : State n} {who : Fin n} (hrice : 0 < s.rice) :
    Relation.ReflTransGen State.Step (s.inside who .testRice) (s.afterMeal who) := by
  have hne := firstOf_ne_secondOf hn who
  set c := (s.phil who).riceConsume with hc
  -- both chopsticks taken, one portion less
  let t : State n := { ((s.setChopstic (firstOf who) 0).setChopstic (secondOf who) 0) with
    rice := s.rice - 1 }
  let t1 : State n := t.setChopstic (firstOf who) 1
  let t2 : State n := t1.setChopstic (secondOf who) 1
  have h0 : (s.inside who .testRice).advance who = some (s.inside who .takeRice) := by
    simp [State.advance, State.inside, State.goto, hrice]
  have h1 : (s.inside who .takeRice).advance who
      = some (t.setPhil who ⟨.consumeRice, .eating, c, 1⟩) := by
    simp [State.advance, State.inside, State.setPhil, State.setChopstic, t, hc]
  have h2 : (t.setPhil who ⟨.consumeRice, .eating, c, 1⟩).advance who
      = some (t.setPhil who ⟨.putFirst, .eating, c, 1⟩) := by
    simp [State.advance, State.goto]
  have h3 : (t.setPhil who ⟨.putFirst, .eating, c, 1⟩).advance who
      = some (t1.setPhil who ⟨.putSecond, .eating, c, 1⟩) := by
    rw [State.advance_putFirst (by simp)]
    simp [State.putChopstic, State.goto, State.setPhil, State.setChopstic, t, t1,
      Function.update_of_ne hne]
  have h4 : (t1.setPhil who ⟨.putSecond, .eating, c, 1⟩).advance who
      = some (t2.setPhil who ⟨.addRice, .eating, c, 1⟩) := by
    rw [State.advance_putSecond (by simp)]
    simp [State.putChopstic, State.goto, State.setPhil, State.setChopstic, t, t1, t2,
      Function.update_of_ne hne.symm]
  have h5 : (t2.setPhil who ⟨.addRice, .eating, c, 1⟩).advance who
      = some (t2.setPhil who ⟨.eatingTest, .eating, c + 1, 1⟩) := by
    simp [State.advance]
  have h6 : (t2.setPhil who ⟨.eatingTest, .eating, c + 1, 1⟩).advance who
      = some (s.afterMeal who) := by
    have hchop : t2.chopstic = (s.afterMeal who).chopstic := by
      funext w
      simp only [t2, t1, t, State.setChopstic, State.afterMeal, Function.update_apply]
      split_ifs <;> rfl
    have hdone : t2.setPhil who ⟨.whileTest, .thinking, c + 1, 1⟩ = s.afterMeal who := by
      simp only [State.setPhil, State.afterMeal, State.mk.injEq]
      exact ⟨rfl, hchop, rfl⟩
    rw [← hdone]
    simp [State.advance]
  exact .head ⟨who, h0⟩ (.head ⟨who, h1⟩ (.head ⟨who, h2⟩ (.head ⟨who, h3⟩ (.head ⟨who, h4⟩
    (.head ⟨who, h5⟩ (.single ⟨who, h6⟩))))))

/-- The first round of the loop of `Run` only settles `v_State`. -/
theorem reaches_thinking {s : State n} {who : Fin n} (hnew : s.phil who = .new)
    (hrice : 0 < s.rice) :
    Relation.ReflTransGen State.Step s (s.setPhil who ⟨.whileTest, .thinking, 0, 0⟩) := by
  have h0 : s.advance who = some (s.setPhil who ⟨.whileTest, .eating, 0, 0⟩) := by
    simp [State.advance, hnew, Philosopher.new]
  have h1 : (s.setPhil who ⟨.whileTest, .eating, 0, 0⟩).advance who
      = some (s.setPhil who ⟨.branch, .eating, 0, 0⟩) := by
    simp [State.advance, State.goto, State.moreRice, hrice]
  have h2 : (s.setPhil who ⟨.branch, .eating, 0, 0⟩).advance who
      = some (s.setPhil who ⟨.eatingTest, .eating, 0, 0⟩) := by
    simp [State.advance, State.goto]
  have h3 : (s.setPhil who ⟨.eatingTest, .eating, 0, 0⟩).advance who
      = some (s.setPhil who ⟨.whileTest, .thinking, 0, 0⟩) := by
    simp [State.advance]
  exact .head ⟨who, h0⟩ (.head ⟨who, h1⟩ (.head ⟨who, h2⟩ (.single ⟨who, h3⟩)))

/-- After it the philosopher can start again. -/
theorem State.Idle.afterMeal_self (hn : 2 ≤ n) {s : State n} {who : Fin n} :
    (s.afterMeal who).Idle who := by
  have hne := firstOf_ne_secondOf hn who
  constructor <;> simp [State.afterMeal, hne]

/-- A philosopher scheduled alone eats any number of portions that are there. Nobody else
moves, and whoever shares no chopstick with it stays idle. Induction on the portions eaten. -/
theorem reaches_portions (hn : 2 ≤ n) (who : Fin n) (portions : Nat) {left : Int}
    (hleft : 0 ≤ left) :
    ∀ s : State n, s.Idle who → s.rice = portions + left →
      ∃ s' : State n, Relation.ReflTransGen State.Step s s' ∧ s'.Idle who ∧ s'.rice = left
        ∧ (∀ w, Apart who w → s.Idle w → s'.Idle w) ∧ ∀ w, w ≠ who → s'.phil w = s.phil w := by
  induction portions with
  | zero => exact fun s hidle hrice => ⟨s, .refl, hidle, by omega, fun _ _ h => h, fun _ _ => rfl⟩
  | succ portions ih =>
    intro s hidle hrice
    have hpos : 0 < s.rice := by omega
    -- one meal, and then the others
    have hmeal := (reaches_testRice hn hidle hpos).trans (reaches_afterMeal hn hpos)
    have hrice' : (s.afterMeal who).rice = portions + left := by
      show s.rice - 1 = portions + left
      omega
    obtain ⟨s', hreach, hidle', hrice', hapart, hrest⟩ :=
      ih (s.afterMeal who) (State.Idle.afterMeal_self hn) hrice'
    refine ⟨s', hmeal.trans hreach, hidle', hrice',
      fun w hw h => hapart w hw (h.afterMeal hw), fun w hw => ?_⟩
    rw [hrest w hw]
    exact Function.update_of_ne hw _ _

/-- **The last portion is taken twice.** Rice does not stay non-negative in every reachable
state of the compiled system. -/
theorem rice_can_go_negative :
    ¬ ∀ s : State maxPhilosopher, State.Reachable initialRice s →
      0 ≤ s.rice ∧ initialRice = s.rice + s.portionsTaken
        ∧ ((∀ who, s.Finished who) → s.totalRiceConsume = initialRice) := by
  intro hall
  -- both philosophers start, then `0` eats all but the last portion
  let s0 := State.initial maxPhilosopher initialRice
  let s1 := s0.setPhil 0 ⟨.whileTest, .thinking, 0, 0⟩
  let s2 := s1.setPhil 2 ⟨.whileTest, .thinking, 0, 0⟩
  have hrice2 : s2.rice = ((4999 : Nat) : Int) + 1 := rfl
  have h01 : Relation.ReflTransGen State.Step s0 s1 := reaches_thinking rfl (by decide)
  have h12 : Relation.ReflTransGen State.Step s1 s2 := reaches_thinking (by rfl) (by decide)
  obtain ⟨s3, h23, hidle0, hrice3, hapart, -⟩ :=
    reaches_portions (by decide) 0 4999 (by decide) s2 ⟨rfl, rfl, rfl, rfl⟩ hrice2
  have hidle2 : s3.Idle 2 := hapart 2 (by decide) ⟨rfl, rfl, rfl, rfl⟩
  -- both reach the test, pass it, and only then decrement
  let s4 := s3.inside 0 .testRice
  let s5 := s4.inside 2 .testRice
  have h34 : Relation.ReflTransGen State.Step s3 s4 :=
    reaches_testRice (by decide) hidle0 (by omega)
  have h45 : Relation.ReflTransGen State.Step s4 s5 :=
    reaches_testRice (by decide) (hidle2.inside (by decide) _) (by show 0 < s3.rice; omega)
  let s6 := s5.goto 0 .takeRice
  let s7 := s6.goto 2 .takeRice
  have hrice5 : s5.rice = 1 := hrice3
  have h56 : s5.advance 0 = some s6 := by
    simp [State.advance, s5, s4, State.inside, hrice3, s6]
  have h67 : s6.advance 2 = some s7 := by
    simp [State.advance, s5, s4, State.inside, hrice3, s6, s7, State.goto]
  have h7 : ∃ s8, s7.advance 0 = some s8 ∧ ∃ s9, s8.advance 2 = some s9 ∧ s9.rice = -1 := by
    simp [State.advance, s5, s4, State.inside, hrice3, s6, s7, State.goto]
  obtain ⟨s8, h78, s9, h89, hrice9⟩ := h7
  have hreach : State.Reachable initialRice s9 :=
    (((h01.trans h12).trans (h23.trans (h34.trans h45))).tail ⟨0, h56⟩ |>.tail ⟨2, h67⟩
      |>.tail ⟨0, h78⟩).tail ⟨2, h89⟩
  have hnonneg := (hall s9 hreach).1
  omega

end OsLab.Dining
