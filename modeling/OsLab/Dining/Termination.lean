import OsLab.Dining.Main

/-!
# OsLab.Dining — every supper ends

What the unguarded test-and-decrement of `Eat` can and cannot do, and how long it can take.

* **`State.reserve_ge`**: philosophers past their test hold two chopsticks each, so at most
  half of the ring is there at once, and `Rice` never goes below `1 - n / 2`.
* **`State.variant`**: what is left to do, a bound on the statements the threads can still
  execute. Each portion taken restarts one thread; every other statement brings its thread
  closer to the next portion or to the end of `Run` (`Progress`).
* **`schedule_ends`**: every interleaving ends, with all philosophers on vacation.
-/

namespace OsLab.Dining

variable {n : Nat} {rice : Int} {s s' : State n} {who : Fin n}

/-! ## How far below zero

Everyone who is about to take a portion has passed the test, and whoever has passed it inside `Eat`
holds both chopsticks. So at most half of the philosophers can be there at once, and no more
portions than that are taken beyond the last. -/

namespace State

/-- The philosophers between their second acquire and their first release. -/
def critical (s : State n) : Finset (Fin n) :=
  Finset.univ.filter fun who => (s.phil who).pc.inCriticalSection

/-- The philosophers that have passed the test and not yet executed `Rice--`. -/
def takers (s : State n) : Finset (Fin n) :=
  Finset.univ.filter fun who => (s.phil who).pc = .takeRice

/-- As many portions are about to be taken as there are takers. -/
theorem pending_eq_card (s : State n) : s.pending = s.takers.card := by
  rw [pending, takers, Finset.sum_boole]

/-- Two chopsticks each. -/
theorem two_mul_card_critical_le (hn : 2 ≤ n) (hexcl : Semaphore.Exclusive s.chopstic s.Holds) :
    2 * s.critical.card ≤ n := by
  have hcritical : ∀ who ∈ s.critical, (s.phil who).pc.inCriticalSection := fun who hwho =>
    (Finset.mem_filter.mp hwho).2
  have hle := hexcl.two_mul_card_le (fun who hwho => holds_left (hcritical who hwho))
    (fun who hwho => holds_right (hcritical who hwho)) (fun who _ => (rightOf_ne hn who).symm)
  rwa [Fintype.card_fin] at hle

/-- A philosopher at its test keeps the others past theirs below half the ring. -/
theorem pending_lt_of_testRice (hn : 2 ≤ n) (hexcl : Semaphore.Exclusive s.chopstic s.Holds)
    (hpc : (s.phil who).pc = .testRice) : s.pending + 1 ≤ (n / 2 : Nat) := by
  have hle := two_mul_card_critical_le hn hexcl
  have hsub : insert who s.takers ⊆ s.critical := by
    intro w hw
    refine Finset.mem_filter.mpr ⟨Finset.mem_univ w, ?_⟩
    rcases Finset.mem_insert.mp hw with rfl | hw
    · rw [hpc]
      rfl
    · rw [(Finset.mem_filter.mp hw).2]
      rfl
  have hcard := Finset.card_le_card hsub
  rw [Finset.card_insert_of_notMem (by simp [takers, hpc])] at hcard
  rw [pending_eq_card]
  omega

end State

/-- A thread that neither comes to the decrement nor leaves it. -/
theorem reserve_of_phil (who : Fin n) (p : Philosopher) (hphil : s'.phil = (s.setPhil who p).phil)
    (hrice : s'.rice = s.rice) (htake : (s.phil who).pc ≠ .takeRice) (htake' : p.pc ≠ .takeRice) :
    s'.rice - s'.pending = s.rice - s.pending := by
  have hpending := pending_setPhil s who p
  have heq : s'.pending = (s.setPhil who p).pending := by unfold State.pending; rw [hphil]
  rw [if_neg htake, if_neg htake'] at hpending
  omega

/-- The reserve `rice - pending` only drops when a test is passed, by one. -/
theorem reserve_step (hmove : Moves s who s') :
    s'.rice - s'.pending = s.rice - s.pending
      ∨ (s.phil who).pc = .testRice ∧ 0 < s.rice ∧ s'.rice = s.rice
        ∧ s'.pending = s.pending + 1 := by
  cases hmove with
  | quiet p hquiet => exact Or.inl (reserve_of_phil who _ rfl rfl hquiet.take hquiet.take')
  | getFirst hpc => exact Or.inl (reserve_of_phil who _ rfl rfl (by simp [hpc]) (by simp))
  | getSecond hpc => exact Or.inl (reserve_of_phil who _ rfl rfl (by simp [hpc]) (by simp))
  | putFirst hpc =>
    refine Or.inl (reserve_of_phil who { s.phil who with pc := .putSecond } ?_ ?_
      (by simp [hpc]) (by simp))
    · simp [State.goto, State.setPhil, State.putChopstic_phil]
    · simp [State.goto, State.putChopstic_rice]
  | putSecond hpc =>
    refine Or.inl (reserve_of_phil who { s.phil who with pc := .addRice } ?_ ?_
      (by simp [hpc]) (by simp))
    · simp [State.goto, State.setPhil, State.putChopstic_phil]
    · simp [State.goto, State.putChopstic_rice]
  | testRice hpc hrice =>
    have hpending := pending_setPhil s who { s.phil who with pc := .takeRice }
    rw [if_neg (by simp [hpc]), if_pos rfl] at hpending
    rw [← State.goto] at hpending
    exact Or.inr ⟨hpc, hrice, rfl, by omega⟩
  | takeRice hpc =>
    -- the portion leaves `rice` and `pending`
    have hpending := pending_setPhil { s with rice := s.rice - 1 } who
      { s.phil who with pounfOfRice := (s.phil who).pounfOfRice + 1, pc := .consumeRice }
    rw [if_pos hpc, if_neg (by simp)] at hpending
    have hsame : ({ s with rice := s.rice - 1 } : State n).pending = s.pending := rfl
    left
    show s.rice - 1 - _ = _
    omega

/-- **How far below zero `Rice` can go.** Whoever passes the test sees one portion at least,
and besides it less than half of the ring can be past the test. -/
theorem State.reserve_ge (hn : 2 ≤ n) (hrice : 0 ≤ rice) (hreach : State.Reachable rice s) :
    1 - ((n / 2 : Nat) : Int) ≤ s.rice - s.pending := by
  induction hreach with
  | refl =>
    obtain ⟨-, hpending, -⟩ := initial_account (n := n) rice
    have hstart : (State.initial n rice).rice = rice := rfl
    omega
  | @tail s s' hreach hstep ih =>
    obtain ⟨who, hadv⟩ := hstep
    rcases reserve_step (State.advance_moves hadv) with heq | ⟨hpc, hpos, hsame, hmore⟩
    · omega
    · have hlt := State.pending_lt_of_testRice hn (exclusive_of_reachable hn hreach) hpc
      omega

/-- Whoever has finished has seen the rice gone. -/
theorem rice_le_of_finished (hreach : State.Reachable rice s) (hfin : s.Finished who) :
    s.rice ≤ 0 := by
  obtain ⟨schedule, hrun⟩ := State.reachable_iff_run.mp hreach
  obtain ⟨-, -, -, -, hleft⟩ := account_run schedule hrun
  refine hleft (initial_account rice).2.2 who ?_
  rw [show (s.phil who).pc = .finished from hfin]
  rfl

/-- **The account of every reachable state.** `Rice` stays above `- n / 2`, and what has been
taken exceeds what there was by less than half the ring; once all philosophers have finished,
it is at least what there was. -/
theorem portions_between (hn : 2 ≤ n) (hrice : 0 ≤ rice) (hreach : State.Reachable rice s) :
    1 - ((n / 2 : Nat) : Int) ≤ s.rice
      ∧ s.portionsTaken + 1 ≤ rice + (n / 2 : Nat)
      ∧ ((∀ who, s.Finished who) →
          rice ≤ s.totalRiceConsume ∧ s.totalRiceConsume + 1 ≤ rice + (n / 2 : Nat)) := by
  obtain ⟨schedule, hrun⟩ := State.reachable_iff_run.mp hreach
  obtain ⟨htotal, -⟩ := account_run schedule hrun
  obtain ⟨hportions, -⟩ := initial_account (n := n) rice
  have hstart : (State.initial n rice).rice = rice := rfl
  have hreserve := State.reserve_ge hn hrice hreach
  have hnonneg := s.pending_nonneg
  refine ⟨by omega, by omega, fun hfin => ?_⟩
  obtain ⟨-, hreport⟩ := settled_of_finished hfin
  have hgone := rice_le_of_finished hreach (hfin ⟨0, by omega⟩)
  omega

/-! ## What is left to do

For each thread the statements to its next test of `Rice`, or to its end. They get fewer with every
statement, unless a portion is taken; and portions are used up. -/

/-- From the head of the loop of `Run` to `Rice--`, if there is rice. -/
def EState.stepsToTake : EState → Nat
  | .hungry => 6
  | .thinking => 9
  | _ => 12

/-- `v_State` after `if (v_State == EATING) v_State = THINKING;`. -/
def EState.afterEatingTest (vState : EState) : EState :=
  if vState = .eating then .thinking else vState

/-- The statements up to the next `Rice--` or to the end of `Run`, with 8 for what comes after
the last `Rice--`. `more` tells whether there is rice. -/
def stepsLeft (more : Bool) (pc : Pc) (vState : EState) : Nat :=
  match pc with
  | .runEntry => if more then 21 else 3
  | .whileTest => if more then vState.stepsToTake + 8 else 2
  | .branch => if more then vState.stepsToTake + 7 else if vState = .hungry then 12 else 4
  | .eatingTest => if more then vState.afterEatingTest.stepsToTake + 9 else 3
  | .getFirst => if more then 12 else 11
  | .getSecond => if more then 11 else 10
  | .setState => if more then 10 else 9
  | .testRice => if more then 9 else 8
  | .takeRice => 8
  | .consumeRice => if more then 22 else 7
  | .putFirst => if more then 21 else 6
  | .putSecond => if more then 20 else 5
  | .addRice => if more then 19 else 4
  | .leave => 1
  | .finished => 0

def Philosopher.stepsLeft (more : Bool) (p : Philosopher) : Nat := Dining.stepsLeft more p.pc p.vState

/-- The states a philosopher can be in at its program point. -/
def Philosopher.Consistent (p : Philosopher) : Prop :=
  match p.pc with
  | .whileTest | .branch | .eatingTest =>
    p.vState = .thinking ∨ p.vState = .hungry ∨ p.vState = .eating
  | .testRice | .takeRice | .consumeRice | .putFirst | .putSecond | .addRice => p.vState = .eating
  | _ => True

/-- Without rice there is less to do. -/
theorem stepsLeft_mono (more : Bool) (pc : Pc) (vState : EState) :
    stepsLeft false pc vState ≤ stepsLeft more pc vState := by
  cases more with
  | false => exact Nat.le_refl _
  | true => cases pc <;> cases vState <;> decide

/-- A round of the loop has no more statements than these. -/
theorem stepsLeft_le (more : Bool) (pc : Pc) (vState : EState) : stepsLeft more pc vState ≤ 22 := by
  cases more <;> cases pc <;> cases vState <;> decide

/-- What a statement does for its thread: it takes a portion, or it brings the thread closer to
the next one or to the end of `Run`. -/
structure Progress (s s' : State n) (who : Fin n) : Prop where
  consistent : (s'.phil who).Consistent
  closer : s'.rice = s.rice
      ∧ (s'.phil who).stepsLeft (decide (0 < s.rice)) < (s.phil who).stepsLeft (decide (0 < s.rice))
    ∨ (s.phil who).pc = .takeRice ∧ s'.rice = s.rice - 1

/-- A statement that only moves its thread. -/
theorem progress_of_phil (who : Fin n) (p : Philosopher) (hphil : s'.phil = (s.setPhil who p).phil)
    (hrice : s'.rice = s.rice) (hc : p.Consistent)
    (hlt : p.stepsLeft (decide (0 < s.rice)) < (s.phil who).stepsLeft (decide (0 < s.rice))) :
    Progress s s' who := by
  have hwho : s'.phil who = p := by rw [hphil, State.setPhil_phil, if_pos rfl]
  exact ⟨hwho ▸ hc, Or.inl ⟨hrice, hwho ▸ hlt⟩⟩

/-- One statement of one thread. One case for each. -/
theorem advance_progress (h : s.advance who = some s') (hc : (s.phil who).Consistent) :
    Progress s s' who := by
  cases hpc : (s.phil who).pc with
  | runEntry =>
    simp only [State.advance, hpc, Option.some.injEq] at h
    subst h
    refine progress_of_phil who _ rfl rfl (by simp [Philosopher.Consistent]) ?_
    simp only [Philosopher.stepsLeft, hpc, stepsLeft, EState.stepsToTake]
    split <;> decide
  | whileTest =>
    simp only [State.advance, hpc, Option.some.injEq] at h
    subst h
    simp only [Philosopher.Consistent, hpc] at hc
    by_cases hr : 0 < s.rice
    · refine progress_of_phil who _ rfl rfl (by simp [Philosopher.Consistent, State.moreRice, hr, hc]) ?_
      simp [Philosopher.stepsLeft, hpc, stepsLeft, State.moreRice, hr]
    · refine progress_of_phil who _ rfl rfl (by simp [Philosopher.Consistent, State.moreRice, hr]) ?_
      simp [Philosopher.stepsLeft, hpc, stepsLeft, State.moreRice, hr]
  | branch =>
    simp only [State.advance, hpc] at h
    simp only [Philosopher.Consistent, hpc] at hc
    rcases hc with hv | hv | hv
    · rw [if_pos hv] at h
      cases h
      refine progress_of_phil who _ rfl rfl (by simp [Philosopher.Consistent]) ?_
      simp only [Philosopher.stepsLeft, hpc, hv, stepsLeft]
      split <;> decide
    · rw [if_neg (by simp [hv]), if_pos hv] at h
      cases h
      refine progress_of_phil who _ rfl rfl (by simp [Philosopher.Consistent]) ?_
      simp only [Philosopher.stepsLeft, hpc, hv, stepsLeft]
      split <;> decide
    · rw [if_neg (by simp [hv]), if_neg (by simp [hv])] at h
      cases h
      refine progress_of_phil who _ rfl rfl (by simp [Philosopher.Consistent, hv]) ?_
      simp only [Philosopher.stepsLeft, hpc, hv, stepsLeft]
      split <;> decide
  | getFirst =>
    rw [State.advance_getFirst hpc] at h
    obtain ⟨s₁, h₁, rfl⟩ := Option.map_eq_some_iff.mp h
    obtain ⟨-, rfl⟩ := State.getChopstic_eq_some h₁
    refine progress_of_phil who { s.phil who with pc := .getSecond } rfl rfl trivial ?_
    simp only [Philosopher.stepsLeft, hpc, stepsLeft]
    split <;> decide
  | getSecond =>
    rw [State.advance_getSecond hpc] at h
    obtain ⟨s₁, h₁, rfl⟩ := Option.map_eq_some_iff.mp h
    obtain ⟨-, rfl⟩ := State.getChopstic_eq_some h₁
    refine progress_of_phil who { s.phil who with pc := .setState } rfl rfl trivial ?_
    simp only [Philosopher.stepsLeft, hpc, stepsLeft]
    split <;> decide
  | testRice =>
    simp only [State.advance, hpc, Option.some.injEq] at h
    subst h
    simp only [Philosopher.Consistent, hpc] at hc
    -- without rice the portion is skipped
    by_cases hr : 0 < s.rice
    · refine progress_of_phil who _ rfl rfl (by simp [Philosopher.Consistent, hr, hc]) ?_
      simp [Philosopher.stepsLeft, hpc, stepsLeft, hr]
    · refine progress_of_phil who _ rfl rfl (by simp [Philosopher.Consistent, hr, hc]) ?_
      simp [Philosopher.stepsLeft, hpc, stepsLeft, hr]
  | takeRice =>
    simp only [State.advance, hpc, Option.some.injEq] at h
    subst h
    simp only [Philosopher.Consistent, hpc] at hc
    exact ⟨by simp [Philosopher.Consistent, hc], Or.inr ⟨hpc, rfl⟩⟩
  | putFirst =>
    rw [State.advance_putFirst hpc] at h
    cases h
    simp only [Philosopher.Consistent, hpc] at hc
    refine progress_of_phil who { s.phil who with pc := .putSecond } ?_ ?_ hc ?_
    · simp [State.goto, State.setPhil, State.putChopstic_phil]
    · simp [State.goto, State.putChopstic_rice]
    · simp only [Philosopher.stepsLeft, hpc, stepsLeft]
      split <;> decide
  | putSecond =>
    rw [State.advance_putSecond hpc] at h
    cases h
    simp only [Philosopher.Consistent, hpc] at hc
    refine progress_of_phil who { s.phil who with pc := .addRice } ?_ ?_ hc ?_
    · simp [State.goto, State.setPhil, State.putChopstic_phil]
    · simp [State.goto, State.putChopstic_rice]
    · simp only [Philosopher.stepsLeft, hpc, stepsLeft]
      split <;> decide
  | eatingTest =>
    simp only [State.advance, hpc, Option.some.injEq] at h
    subst h
    simp only [Philosopher.Consistent, hpc] at hc
    refine progress_of_phil who _ rfl rfl ?_ ?_
    · rcases hc with hv | hv | hv <;> simp [Philosopher.Consistent, hv]
    · simp only [Philosopher.stepsLeft, hpc, stepsLeft, EState.afterEatingTest]
      split <;> omega
  | finished => simp [State.advance, hpc] at h
  | leave =>
    simp only [State.advance, hpc, Option.some.injEq] at h
    subst h
    refine progress_of_phil who _ rfl rfl (by simp [Philosopher.Consistent]) ?_
    simp [Philosopher.stepsLeft, hpc, stepsLeft]
  | setState | consumeRice | addRice =>
    simp only [State.advance, hpc, Option.some.injEq] at h
    subst h
    simp only [Philosopher.Consistent, hpc] at hc
    refine progress_of_phil who _ rfl rfl (by simp [Philosopher.Consistent, hc]) ?_
    simp only [Philosopher.stepsLeft, hpc, stepsLeft, hc]
    split <;> decide

/-! ## Every interleaving ends

The variant falls with every step, so a run has no more steps than its value at the start. A state
in which nobody can step is one in which all have finished, since there is no deadlock. -/

namespace State

/-- A bound on the statements that can still be executed: a portion is worth one round of the
loop, and `n` portions more than there are can be taken. -/
def variant (s : State n) : Nat :=
  15 * (s.rice + n).toNat + ∑ who, (s.phil who).stepsLeft (decide (0 < s.rice))

/-- What holds along every run: exclusion, the reserve, and the states of the philosophers. -/
structure OnTheWay (s : State n) : Prop where
  exclusive : Semaphore.Exclusive s.chopstic s.Holds
  reserve : 1 - ((n / 2 : Nat) : Int) ≤ s.rice - s.pending
  consistent : ∀ who, (s.phil who).Consistent

end State

/-- A sum in which only one summand grows. -/
theorem sum_add_le {f g : Fin n → Nat} (who : Fin n) (h : ∀ w, w ≠ who → g w ≤ f w) :
    (∑ w, g w) + f who ≤ (∑ w, f w) + g who := by
  rw [← Finset.add_sum_erase Finset.univ g (Finset.mem_univ who),
    ← Finset.add_sum_erase Finset.univ f (Finset.mem_univ who)]
  have hle : ∑ w ∈ Finset.univ.erase who, g w ≤ ∑ w ∈ Finset.univ.erase who, f w :=
    Finset.sum_le_sum fun w hw => h w (Finset.ne_of_mem_erase hw)
  omega

/-- **Every statement lowers the variant.** -/
theorem variant_step (hinv : s.OnTheWay) (h : s.advance who = some s') :
    s'.variant < s.variant := by
  have hstep := account_step (State.advance_moves h)
  have hprogress := advance_progress h (hinv.consistent who)
  -- rice that is gone stays gone
  have hmore (p : Philosopher) :
      p.stepsLeft (decide (0 < s'.rice)) ≤ p.stepsLeft (decide (0 < s.rice)) := by
    by_cases hr : 0 < s'.rice
    · have hle := hstep.rice_le
      rw [decide_eq_true hr, decide_eq_true (by omega)]
    · rw [decide_eq_false hr]
      exact stepsLeft_mono _ _ _
  have hothers := sum_add_le (f := fun w => (s.phil w).stepsLeft (decide (0 < s.rice)))
    (g := fun w => (s'.phil w).stepsLeft (decide (0 < s'.rice))) who fun w hw => by
      rw [hstep.others w hw]
      exact hmore _
  have hself := hmore (s'.phil who)
  unfold State.variant
  rcases hprogress.closer with ⟨hrice, hlt⟩ | ⟨hpc, hrice⟩
  · rw [hrice] at hothers ⊢
    omega
  · -- a portion is taken, and there is always one to count it against
    have htake : (s.phil who).stepsLeft (decide (0 < s.rice)) = 8 := by
      rw [Philosopher.stepsLeft, hpc]
      rfl
    have hlast := stepsLeft_le (decide (0 < s'.rice)) (s'.phil who).pc (s'.phil who).vState
    have hreserve := hinv.reserve
    have hnonneg := s.pending_nonneg
    have hrest : (s.rice + n).toNat = (s'.rice + n).toNat + 1 := by omega
    rw [hrest]
    simp only [Philosopher.stepsLeft] at hothers htake hself ⊢
    omega

/-- In a run a thread is where its state says. -/
theorem consistent_of_reachable (hreach : State.Reachable rice s) :
    ∀ who, (s.phil who).Consistent := by
  induction hreach with
  | refl => exact fun _ => trivial
  | tail _ hstep ih =>
    obtain ⟨who, hadv⟩ := hstep
    intro w
    by_cases hw : w = who
    · subst hw
      exact (advance_progress hadv (ih w)).consistent
    · rw [(account_step (State.advance_moves hadv)).others w hw]
      exact ih w

/-- A reachable state has all that the variant needs. -/
theorem onTheWay_of_reachable (hn : 2 ≤ n) (hrice : 0 ≤ rice) (hreach : State.Reachable rice s) :
    s.OnTheWay :=
  ⟨exclusive_of_reachable hn hreach, State.reserve_ge hn hrice hreach,
    consistent_of_reachable hreach⟩

/-- A schedule is no longer than the variant it uses up. Induction on the schedule. -/
theorem length_add_variant_le (hn : 2 ≤ n) (hrice : 0 ≤ rice) (schedule : List (Fin n)) :
    ∀ {s s' : State n}, State.Reachable rice s → s.run schedule = some s' →
      schedule.length + s'.variant ≤ s.variant := by
  induction schedule with
  | nil =>
    intro s s' _ hrun
    cases hrun
    rw [List.length_nil, Nat.zero_add]
  | cons who rest ih =>
    intro s s' hreach hrun
    obtain ⟨s₁, hadv, hrest⟩ := Option.bind_eq_some_iff.mp hrun
    have hlt := variant_step (onTheWay_of_reachable hn hrice hreach) hadv
    have hle := ih (hreach.tail ⟨who, hadv⟩) hrest
    rw [List.length_cons]
    omega

theorem variant_initial (n : Nat) (rice : Int) :
    (State.initial n rice).variant ≤ 15 * (rice + n).toNat + 21 * n := by
  have hsum : ∑ who, ((State.initial n rice).phil who).stepsLeft (decide (0 < rice)) ≤ ∑ _ : Fin n, 21 :=
    Finset.sum_le_sum fun who _ => by
      show stepsLeft _ .runEntry .vacation ≤ 21
      cases decide (0 < rice) <;> decide
  rw [Finset.sum_const, Finset.card_univ, Fintype.card_fin, smul_eq_mul] at hsum
  have hstart : (State.initial n rice).rice = rice := rfl
  rw [State.variant, hstart]
  omega

/-- Where no thread can execute a statement, all have finished. -/
theorem finished_of_stuck (hn : 2 ≤ n) (hreach : State.Reachable rice s)
    (hstuck : ∀ who, s.advance who = none) : ∀ who, s.Finished who := by
  have hinv := exclusive_of_reachable hn hreach
  have hfree (who : Fin n) (hwait : s.waitsFor who = none) : s.Finished who := by
    by_contra hunf
    obtain ⟨s', hadv⟩ := State.advance_isSome hwait hunf
    rw [hstuck who] at hadv
    cases hadv
  intro who
  cases hwait : s.waitsFor who with
  | none => exact hfree who hwait
  | some c =>
    -- the last one in the order of chopsticks does not wait, and holds one
    obtain ⟨j, c', hj, hjw⟩ := Semaphore.exists_unblocked_holder s.waitsFor s.Holds rank
      (fun _ _ h => exists_holder_of_waitsFor hinv h)
      (fun _ _ _ hh hw => rank_lt_of_holds_of_waitsFor hn hh hw) hwait
    exact absurd (hfree j hjw) (State.not_finished_of_holds hj)

/-- **Every supper ends.** However the threads are interleaved, they execute a bounded number
of statements, and `Rice` stays above minus half the ring; where no thread can go on all
philosophers are on vacation, and together they have eaten at least what there was, and less
than half the ring more. -/
theorem schedule_ends (hn : 2 ≤ n) (hrice : 0 ≤ rice) (schedule : List (Fin n)) (s : State n)
    (hrun : (State.initial n rice).run schedule = some s) :
    schedule.length ≤ 15 * (rice + n).toNat + 21 * n
      ∧ 1 - ((n / 2 : Nat) : Int) ≤ s.rice
      ∧ ((∀ who, s.advance who = none) → (∀ who, s.Finished who)
        ∧ rice ≤ s.totalRiceConsume ∧ s.totalRiceConsume + 1 ≤ rice + (n / 2 : Nat)) := by
  have hreach := State.reachable_iff_run.mpr ⟨schedule, hrun⟩
  obtain ⟨hfloor, -, htotal⟩ := portions_between hn hrice hreach
  refine ⟨?_, hfloor, fun hstuck => ?_⟩
  · have hle := length_add_variant_le hn hrice schedule .refl hrun
    have hstart := variant_initial n rice
    omega
  · have hfin := finished_of_stuck hn hreach hstuck
    exact ⟨hfin, htotal hfin⟩

/-- Four philosophers and one portion, a whole supper: `0` and `2` share no chopstick, both test
before either takes, and both eat. Nobody can go on then, and two portions were eaten, as many as
the bound allows. -/
theorem schedule_ends_twice : ∃ s : State 4,
    (State.initial 4 1).run (List.replicate 12 0 ++ List.replicate 12 2 ++ [0, 2, 0, 2]
        ++ List.replicate 7 0 ++ List.replicate 7 2 ++ [1, 1, 1, 3, 3, 3]) = some s
      ∧ (s.rice = -1 ∧ ∀ who, s.advance who = none)
      ∧ 1 - 2 ≤ s.rice ∧ (∀ who, s.Finished who)
      ∧ 1 ≤ s.totalRiceConsume ∧ s.totalRiceConsume + 1 ≤ 1 + 2 := by
  obtain ⟨s, hrun, hrice, hfinished⟩ : ∃ s : State 4,
      (State.initial 4 1).run (List.replicate 12 0 ++ List.replicate 12 2 ++ [0, 2, 0, 2]
        ++ List.replicate 7 0 ++ List.replicate 7 2 ++ [1, 1, 1, 3, 3, 3]) = some s
        ∧ s.rice = -1 ∧ ∀ who, (s.phil who).pc = .finished :=
    ⟨_, rfl, rfl, by decide +kernel⟩
  have hnone (who : Fin 4) : s.advance who = none := by
    simp only [State.advance, hfinished who]
  obtain ⟨-, hfloor, hend⟩ := schedule_ends (by decide) (by decide) _ s hrun
  exact ⟨s, hrun, ⟨hrice, hnone⟩, hfloor, hend hnone⟩

/-! ## The whole program

`main` runs beside the threads. It only reads their figures, which never shrink, so whatever it
adds up is covered by the portions taken. -/

/-- The figures of one thread: the portion of the `Eat` call is added when the call returns. -/
theorem advance_figures (h : s.advance who = some s') :
    ((s'.phil who).riceConsume = (s.phil who).riceConsume
        ∨ (s'.phil who).riceConsume = (s.phil who).riceConsume + (s.phil who).pounfOfRice)
      ∧ ((s'.phil who).pounfOfRice = (s.phil who).pounfOfRice ∨ (s'.phil who).pounfOfRice = 0
        ∨ (s'.phil who).pounfOfRice = (s.phil who).pounfOfRice + 1) := by
  -- only `Eat` and the statement behind it write to the figures
  cases hpc : (s.phil who).pc with
  | getFirst =>
    rw [State.advance_getFirst hpc] at h
    obtain ⟨s₁, h₁, rfl⟩ := Option.map_eq_some_iff.mp h
    obtain ⟨-, rfl⟩ := State.getChopstic_eq_some h₁
    simp [State.goto]
  | getSecond =>
    rw [State.advance_getSecond hpc] at h
    obtain ⟨s₁, h₁, rfl⟩ := Option.map_eq_some_iff.mp h
    obtain ⟨-, rfl⟩ := State.getChopstic_eq_some h₁
    simp [State.goto]
  | putFirst =>
    rw [State.advance_putFirst hpc] at h
    cases h
    simp [State.goto, State.putChopstic_phil]
  | putSecond =>
    rw [State.advance_putSecond hpc] at h
    cases h
    simp [State.goto, State.putChopstic_phil]
  | branch =>
    simp only [State.advance, hpc] at h
    split at h
    · cases h
      simp
    · split at h <;> cases h <;> simp [State.goto]
  | finished => simp [State.advance, hpc] at h
  | runEntry | whileTest | setState | testRice | takeRice | consumeRice | addRice | eatingTest
  | leave =>
    simp only [State.advance, hpc, Option.some.injEq] at h
    subst h
    simp [State.goto]

/-- No figure is negative. -/
def State.FiguresNonneg (s : State n) : Prop :=
  ∀ who, 0 ≤ (s.phil who).riceConsume ∧ 0 ≤ (s.phil who).pounfOfRice

/-- Figures do not fall below zero, and do not shrink. -/
theorem figuresNonneg_step (h : s.advance who = some s') (hinv : s.FiguresNonneg) :
    s'.FiguresNonneg ∧ ∀ w, (s.phil w).riceConsume ≤ (s'.phil w).riceConsume := by
  have hothers := (account_step (State.advance_moves h)).others
  obtain ⟨hconsume, hportion⟩ := advance_figures h
  obtain ⟨hc, hp⟩ := hinv who
  refine ⟨fun w => ?_, fun w => ?_⟩ <;> by_cases hw : w = who
  · subst hw
    omega
  · rw [hothers w hw]
    exact hinv w
  · subst hw
    omega
  · rw [hothers w hw]

/-- The figures that `main` has read. -/
def Program.figuresRead (p : Program n) : Int :=
  match p.mainPc with
  | .add i => p.sumBefore i
  | .done => p.data.totalRiceConsume
  | _ => 0

/-- What holds of the program at every point of `main`. -/
structure Program.Sane (rice : Int) (p : Program n) : Prop where
  reachable : State.Reachable rice p.data
  figures : p.data.FiguresNonneg
  fresh : ∀ who, p.created who = false → p.data.phil who = .new
  creating : ∀ i, p.mainPc = .create i → ∀ who : Fin n, p.created who = true ↔ who.val < i
  created : (∀ i, p.mainPc ≠ .create i) → ∀ who, p.created who = true
  total_nonneg : 0 ≤ p.total
  total_le : p.total ≤ p.figuresRead

theorem sane_initial (n : Nat) (rice : Int) : (Program.initial n rice).Sane rice where
  reachable := .refl
  figures := fun _ => ⟨Int.le_refl 0, Int.le_refl 0⟩
  fresh := fun _ _ => rfl
  creating := fun i h who => by cases h; simp [Program.initial]
  created := fun h => absurd rfl (h 0)
  total_nonneg := Int.le_refl 0
  total_le := Int.le_refl 0

theorem sumBefore_mono {p p' : Program n} (h : ∀ w, (p.data.phil w).riceConsume
    ≤ (p'.data.phil w).riceConsume) (i : Nat) : p.sumBefore i ≤ p'.sumBefore i := by
  refine Finset.sum_le_sum fun w _ => ?_
  split
  · exact h w
  · exact Int.le_refl 0

/-- A statement of a thread: the figures only grow. -/
theorem sane_advancePhil {p p' : Program n} (h : p.advancePhil who = some p') (hinv : p.Sane rice) :
    p'.Sane rice := by
  unfold Program.advancePhil at h
  split at h
  · next hcreated =>
    obtain ⟨data, hdata, rfl⟩ := Option.map_eq_some_iff.mp h
    obtain ⟨hfigures, hgrow⟩ := figuresNonneg_step hdata hinv.figures
    refine ⟨hinv.reachable.tail ⟨who, hdata⟩, hfigures, fun w hw => ?_, hinv.creating,
      hinv.created, hinv.total_nonneg, Int.le_trans hinv.total_le ?_⟩
    · -- a philosopher who has not been created has not moved
      have hne : w ≠ who := by
        rintro rfl
        rw [hcreated] at hw
        cases hw
      show data.phil w = .new
      rw [(account_step (State.advance_moves hdata)).others w hne]
      exact hinv.fresh w hw
    · -- what `main` has added up was no more than the figures then, and they have grown
      unfold Program.figuresRead
      cases p.mainPc with
      | add i => exact sumBefore_mono hgrow i
      | done => exact Finset.sum_le_sum fun w _ => hgrow w
      | create i | moreRice | report | wait i | lastReport => exact Int.le_refl 0
  · cases h

/-- `main` goes on without touching the data. -/
theorem Program.Sane.goto {p : Program n} (hinv : p.Sane rice) {mainPc : MainPc} {total : Int}
    (hcreate : ∀ i, mainPc ≠ .create i) (hcreated : ∀ who, p.created who = true)
    (hnonneg : 0 ≤ total) (hle : total ≤ ({ p with mainPc, total } : Program n).figuresRead) :
    ({ p with mainPc, total } : Program n).Sane rice :=
  ⟨hinv.reachable, hinv.figures, hinv.fresh, fun i h => absurd h (hcreate i), fun _ => hcreated,
    hnonneg, hle⟩

/-- The constructor changes nothing but the globals: the thread is as `initial` has it. -/
theorem construct_data {p : Program n} (hinv : p.Sane rice) (hnew : p.created who = false) :
    (p.construct who).data = p.data := by
  have hphil := hinv.fresh who hnew
  show { p.data with phil := Function.update p.data.phil who .new } = p.data
  rw [← hphil, Function.update_eq_self]

/-- A statement of `main`. It creates a philosopher, goes on, waits, or adds a figure. -/
theorem sane_advanceMain {p p' : Program n} (h : p.advanceMain = some p') (hinv : p.Sane rice) :
    p'.Sane rice := by
  cases hpc : p.mainPc with
  | create i =>
    have hbefore := hinv.creating i hpc
    have hzero : p.total ≤ 0 := by simpa only [Program.figuresRead, hpc] using hinv.total_le
    simp only [Program.advanceMain, hpc] at h
    split at h
    · next hlt =>
      cases h
      -- philosopher `i` is created: those before it have been
      have hnew : p.created ⟨i, hlt⟩ = false := by
        rw [← Bool.not_eq_true, hbefore]
        exact Nat.lt_irrefl i
      have hdata := construct_data hinv hnew
      refine ⟨?_, ?_, fun w hw => ?_, fun j hj w => ?_, fun hcreate => absurd rfl (hcreate (i + 1)),
        hinv.total_nonneg, hzero⟩
      · exact hdata ▸ hinv.reachable
      · exact hdata ▸ hinv.figures
      · have hold : p.created w = false := by
          by_contra hne
          have hwi : w ≠ ⟨i, hlt⟩ := by
            rintro rfl
            exact hne hnew
          rw [show (p.construct ⟨i, hlt⟩).created w = p.created w from
            Function.update_of_ne hwi _ _] at hw
          exact hne hw
        show (p.construct ⟨i, hlt⟩).data.phil w = .new
        rw [hdata]
        exact hinv.fresh w hold
      · cases hj
        show Function.update p.created ⟨i, hlt⟩ true w = true ↔ w.val < i + 1
        by_cases hwi : w = ⟨i, hlt⟩
        · subst hwi
          simp
        · have hval : w.val ≠ i := fun hval => hwi (Fin.ext hval)
          rw [Function.update_of_ne hwi, hbefore]
          omega
    · next hge =>
      cases h
      refine hinv.goto (by simp) (fun w => (hbefore w).mpr ?_) hinv.total_nonneg hzero
      have hw := w.isLt
      omega
  | moreRice =>
    have hzero : p.total ≤ 0 := by simpa only [Program.figuresRead, hpc] using hinv.total_le
    simp only [Program.advanceMain, hpc, Option.some.injEq] at h
    subst h
    have hcreated := hinv.created (by simp [hpc])
    refine hinv.goto (fun i => by split <;> simp) hcreated hinv.total_nonneg ?_
    by_cases hrice : p.data.moreRice = true
    · rw [if_pos hrice]
      exact hzero
    · rw [if_neg hrice]
      exact hzero
  | report =>
    have hzero : p.total ≤ 0 := by simpa only [Program.figuresRead, hpc] using hinv.total_le
    simp only [Program.advanceMain, hpc, Option.some.injEq] at h
    subst h
    exact hinv.goto (by simp) (hinv.created (by simp [hpc])) hinv.total_nonneg hzero
  | wait i =>
    have hzero : p.total ≤ 0 := by simpa only [Program.figuresRead, hpc] using hinv.total_le
    have hcreated := hinv.created (by simp [hpc])
    simp only [Program.advanceMain, hpc] at h
    split at h
    · obtain ⟨b, -, rfl⟩ := Option.map_eq_some_iff.mp h
      exact hinv.goto (by simp) hcreated hinv.total_nonneg hzero
    · cases h
      exact hinv.goto (by simp) hcreated hinv.total_nonneg hzero
  | lastReport =>
    have hzero : p.total ≤ 0 := by simpa only [Program.figuresRead, hpc] using hinv.total_le
    simp only [Program.advanceMain, hpc, Option.some.injEq] at h
    subst h
    refine hinv.goto (by simp) (hinv.created (by simp [hpc])) hinv.total_nonneg ?_
    show p.total ≤ Program.sumBefore _ 0
    rw [Program.sumBefore_zero]
    exact hzero
  | add i =>
    have hle : p.total ≤ p.sumBefore i := by simpa only [Program.figuresRead, hpc] using hinv.total_le
    have hcreated := hinv.created (by simp [hpc])
    simp only [Program.advanceMain, hpc] at h
    split at h
    · next hlt =>
      cases h
      -- the figure of philosopher `i` is added
      have hfigure := (hinv.figures ⟨i, hlt⟩).1
      refine hinv.goto (by simp) hcreated (Int.add_nonneg hinv.total_nonneg hfigure) ?_
      show p.total + p.getRiceConsume ⟨i, hlt⟩ ≤ p.sumBefore (i + 1)
      rw [Program.sumBefore_succ p hlt]
      omega
    · next hge =>
      cases h
      refine hinv.goto (by simp) hcreated hinv.total_nonneg ?_
      show p.total ≤ p.data.totalRiceConsume
      rw [← Program.sumBefore_all p (Nat.le_of_not_lt hge)]
      exact hle
  | done => simp [Program.advanceMain, hpc] at h

/-- In every reachable state. Induction on the run. -/
theorem sane_of_reachable {p : Program n} (hreach : Program.Reachable rice p) : p.Sane rice := by
  induction hreach with
  | refl => exact sane_initial n rice
  | tail _ hstep ih =>
    rcases hstep with hadv | ⟨who, hadv⟩
    · exact sane_advanceMain hadv ih
    · exact sane_advancePhil hadv ih

/-- What has been read is covered by the portions taken. -/
theorem figuresRead_le {p : Program n} (hfigures : p.data.FiguresNonneg) :
    p.figuresRead ≤ p.data.portionsTaken := by
  have hportions (w : Fin n) : (p.data.phil w).riceConsume ≤ (p.data.phil w).portions := by
    have hw := (hfigures w).2
    unfold Philosopher.portions
    split <;> omega
  have hall : p.data.totalRiceConsume ≤ p.data.portionsTaken :=
    Finset.sum_le_sum fun w _ => hportions w
  have hsome (i : Nat) : p.sumBefore i ≤ p.data.totalRiceConsume := by
    refine Finset.sum_le_sum fun w _ => ?_
    split
    · exact Int.le_refl _
    · exact (hfigures w).1
  have hzero : 0 ≤ p.data.totalRiceConsume := Finset.sum_nonneg fun w _ => (hfigures w).1
  unfold Program.figuresRead
  cases p.mainPc with
  | add i => exact Int.le_trans (hsome i) hall
  | done => exact hall
  | create i | moreRice | report | wait i | lastReport => exact Int.le_trans hzero hall

/-- The threads can finish from where they are. Strong induction on the variant. -/
theorem exists_finished (hn : 2 ≤ n) (hrice : 0 ≤ rice) (k : Nat) :
    ∀ {s : State n}, State.Reachable rice s → s.variant ≤ k →
      ∃ s', Relation.ReflTransGen State.Step s s' ∧ ∀ who, s'.Finished who := by
  induction k with
  | zero =>
    intro s hreach hk
    refine ⟨s, .refl, finished_of_stuck hn hreach fun who => ?_⟩
    cases hadv : s.advance who with
    | none => rfl
    | some s' =>
      have hlt := variant_step (onTheWay_of_reachable hn hrice hreach) hadv
      omega
  | succ k ih =>
    intro s hreach hk
    by_cases hstuck : ∀ who, s.advance who = none
    · exact ⟨s, .refl, finished_of_stuck hn hreach hstuck⟩
    · -- somebody can step, and the variant falls
      obtain ⟨who, hwho⟩ := not_forall.mp hstuck
      obtain ⟨s', hadv⟩ := Option.ne_none_iff_exists'.mp hwho
      have hlt := variant_step (onTheWay_of_reachable hn hrice hreach) hadv
      obtain ⟨s'', hrun, hfin⟩ := ih (hreach.tail ⟨who, hadv⟩) (by omega)
      exact ⟨s'', .head ⟨who, hadv⟩ hrun, hfin⟩

/-- `main` creates the philosophers that are missing. Induction on their number. -/
theorem reaches_moreRice (missing : Nat) : ∀ {p : Program n} {i : Nat}, p.mainPc = .create i →
    n ≤ i + missing → ∃ p', Relation.ReflTransGen Program.Step p p' ∧ p'.mainPc = .moreRice := by
  induction missing with
  | zero =>
    intro p i hpc hi
    refine ⟨{ p with mainPc := .moreRice }, .single (Or.inl ?_), rfl⟩
    simp only [Program.advanceMain, hpc, dif_neg (show ¬ i < n by omega)]
  | succ missing ih =>
    intro p i hpc hi
    by_cases hlt : i < n
    · obtain ⟨p', hrun, hpc'⟩ :=
        ih (p := { p.construct ⟨i, hlt⟩ with mainPc := .create (i + 1) }) rfl (by omega)
      refine ⟨p', .head (Or.inl ?_) hrun, hpc'⟩
      simp only [Program.advanceMain, hpc, dif_pos hlt]
    · refine ⟨{ p with mainPc := .moreRice }, .single (Or.inl ?_), rfl⟩
      simp only [Program.advanceMain, hpc, dif_neg hlt]

/-- `main` adds up the figures that are left. Induction on their number. -/
theorem reaches_done (left : Nat) : ∀ {p : Program n} {i : Nat}, p.mainPc = .add i →
    i + left = n → ∃ p', Relation.ReflTransGen Program.Step p p' ∧ p'.mainPc = .done
      ∧ p'.data = p.data := by
  induction left with
  | zero =>
    intro p i hpc hi
    refine ⟨{ p with mainPc := .done }, .single (Or.inl ?_), rfl, rfl⟩
    simp only [Program.advanceMain, hpc, dif_neg (show ¬ i < n by omega)]
  | succ left ih =>
    intro p i hpc hi
    have hlt : i < n := by omega
    obtain ⟨p', hrun, hdone, hdata⟩ := ih (p := { p with
      total := p.total + p.getRiceConsume ⟨i, hlt⟩, mainPc := .add (i + 1) }) rfl (by omega)
    refine ⟨p', .head (Or.inl ?_) hrun, hdone, hdata⟩
    simp only [Program.advanceMain, hpc, dif_pos hlt]

/-- Once all philosophers have finished, `main` goes through to its end. -/
theorem reaches_done_of_finished {p : Program n} (hcreated : ∀ i, p.mainPc ≠ .create i)
    (hgone : p.data.moreRice = false) (hfin : ∀ who, p.data.Finished who) :
    ∃ p', Relation.ReflTransGen Program.Step p p' ∧ p'.mainPc = .done ∧ p'.data = p.data := by
  have hreturns : p.waitReturns := by
    unfold Program.waitReturns
    cases p.pThread with
    | none => rfl
    | some last => exact decide_eq_true (hfin last)
  -- from each statement of `main` on, the last ones first
  have hadd (i : Nat) (q : Program n) (hq : q.mainPc = .add i) :
      ∃ p', Relation.ReflTransGen Program.Step q p' ∧ p'.mainPc = .done ∧ p'.data = q.data := by
    rcases Nat.lt_or_ge i n with hlt | hge
    · exact reaches_done (n - i) hq (by omega)
    · refine ⟨{ q with mainPc := .done }, .single (Or.inl ?_), rfl, rfl⟩
      simp only [Program.advanceMain, hq, dif_neg (Nat.not_lt.mpr hge)]
  have hreport : ∃ p', Relation.ReflTransGen Program.Step { p with mainPc := .add 0 } p'
      ∧ p'.mainPc = .done ∧ p'.data = p.data := hadd 0 { p with mainPc := .add 0 } rfl
  have hwait (i : Nat) : ∃ p', Relation.ReflTransGen Program.Step { p with mainPc := .wait i } p'
      ∧ p'.mainPc = .done ∧ p'.data = p.data := by
    obtain ⟨p', hrun, hdone⟩ := hreport
    rcases Nat.le_total i n with hle | hge
    · exact ⟨p', (reaches_add hreturns (n - i) i (by omega)).trans hrun, hdone⟩
    · have hlast : ({ p with mainPc := .wait i } : Program n).advanceMain
          = some { p with mainPc := .lastReport } := dif_neg (by omega)
      exact ⟨p', .head (Or.inl hlast) (.head (Or.inl rfl) hrun), hdone⟩
  have hmoreRice : ({ p with mainPc := .moreRice } : Program n).advanceMain
      = some { p with mainPc := .wait 0 } := by
    simp [Program.advanceMain, hgone]
  cases hpc : p.mainPc with
  | create i => exact absurd hpc (hcreated i)
  | done => exact ⟨p, .refl, hpc, rfl⟩
  | add i => exact hadd i p hpc
  | wait i =>
    have hself : p = { p with mainPc := .wait i } := by rw [← hpc]
    obtain ⟨p', hrun, hdone⟩ := hwait i
    exact ⟨p', by rwa [hself], hdone⟩
  | lastReport =>
    obtain ⟨p', hrun, hdone⟩ := hreport
    refine ⟨p', .head (Or.inl ?_) hrun, hdone⟩
    simp [Program.advanceMain, hpc]
  | moreRice =>
    have hself : p = { p with mainPc := .moreRice } := by rw [← hpc]
    obtain ⟨p', hrun, hdone⟩ := hwait 0
    exact ⟨p', by rw [hself]; exact .head (Or.inl hmoreRice) hrun, hdone⟩
  | report =>
    obtain ⟨p', hrun, hdone⟩ := hwait 0
    refine ⟨p', .head (Or.inl ?_) (.head (Or.inl hmoreRice) hrun), hdone⟩
    simp [Program.advanceMain, hpc]

/-- With all threads created, they finish, and then `main` does. -/
theorem exists_done (hn : 2 ≤ n) (hrice : 0 ≤ rice) {p : Program n} (hinv : p.Sane rice)
    (hcreate : ∀ i, p.mainPc ≠ .create i) :
    ∃ p', Relation.ReflTransGen Program.Step p p' ∧ p'.mainPc = .done
      ∧ ∀ who, p'.data.Finished who := by
  obtain ⟨data, hthreads, hfin⟩ := exists_finished hn hrice _ hinv.reachable (Nat.le_refl _)
  have hgone : data.moreRice = false := by
    have hle := rice_le_of_finished (hinv.reachable.trans hthreads) (hfin ⟨0, by omega⟩)
    exact decide_eq_false (by omega)
  obtain ⟨p', hrun, hdone, hdata⟩ := reaches_done_of_finished (p := { p with data }) hcreate hgone hfin
  exact ⟨p', (reaches_of_threads (hinv.created hcreate) hthreads).trans hrun, hdone, hdata ▸ hfin⟩

/-- **The whole program.** From every state it can reach, whatever the interleaving so far, it
can come to the end of `main` with all philosophers on vacation; and the total that `main` has
added up, even when it read figures too early, is never more than the overshoot of `Rice`
allows. -/
theorem main_can_return (hn : 2 ≤ n) (hrice : 0 ≤ rice) {p : Program n}
    (hreach : Program.Reachable rice p) :
    (0 ≤ p.total ∧ p.total + 1 ≤ rice + (n / 2 : Nat))
      ∧ ∃ p', Relation.ReflTransGen Program.Step p p' ∧ p'.mainPc = .done
        ∧ ∀ who, p'.data.Finished who := by
  have hinv := sane_of_reachable hreach
  refine ⟨⟨hinv.total_nonneg, ?_⟩, ?_⟩
  · obtain ⟨-, hportions, -⟩ := portions_between hn hrice hinv.reachable
    have hread := figuresRead_le hinv.figures
    have hle := hinv.total_le
    omega
  · by_cases hcreate : ∀ i, p.mainPc ≠ .create i
    · exact exists_done hn hrice hinv hcreate
    · obtain ⟨i, hi⟩ := not_forall.mp hcreate
      obtain ⟨p₁, hcreating, hpc⟩ := reaches_moreRice n (not_not.mp hi) (Nat.le_add_left n i)
      obtain ⟨p', hrun, hdone⟩ := exists_done hn hrice (sane_of_reachable (hreach.trans hcreating))
        (by simp [hpc])
      exact ⟨p', hcreating.trans hrun, hdone⟩

/-- One portion in the compiled ring: philosopher `0` has taken it and not put its chopsticks
back, philosopher `4` found no rice and has finished, and `main`, which waited for `4` only, has
read the figure of `0`. From there all philosophers can still finish, and `main` too. -/
theorem main_can_return_early : ∃ p : Program maxPhilosopher, Program.Reachable 1 p
    ∧ (p.mainPc = .add 1 ∧ (p.data.phil 0).pc = .consumeRice ∧ ¬ p.data.Finished 0)
    ∧ (0 ≤ p.total ∧ p.total + 1 ≤ 1 + 2)
    ∧ ∃ p', Relation.ReflTransGen Program.Step p p' ∧ p'.mainPc = .done
      ∧ ∀ who, p'.data.Finished who := by
  obtain ⟨p, hrun, hmain, hpc⟩ : ∃ p, (Program.initial maxPhilosopher 1).run
      (List.replicate 6 none ++ List.replicate 14 (some 0) ++ List.replicate 3 (some 4)
        ++ List.replicate 9 none) = some p
        ∧ p.mainPc = .add 1 ∧ (p.data.phil 0).pc = .consumeRice :=
    ⟨_, rfl, rfl, rfl⟩
  have hreach : Program.Reachable 1 p := Program.reachable_of_run _ .refl hrun
  have hunf : ¬ p.data.Finished 0 := by simp [State.Finished, hpc]
  exact ⟨p, hreach, ⟨hmain, hpc, hunf⟩, main_can_return (by decide) (by decide) hreach⟩

end OsLab.Dining
