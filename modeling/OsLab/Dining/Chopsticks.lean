import OsLab.Dining.Philosopher
import OsLab.Lib.Semaphore

/-!
# OsLab.Dining — the chopstick protocol

Which chopsticks a thread holds is read off its program point (`Holds`). The invariant
`Semaphore.Exclusive` says that a semaphore count is `1` exactly when nobody holds the
chopstick and that nobody shares one; it is preserved by every step (`exclusive_step`) and
so holds in every reachable state. `neighbour_exclusion` reads it at the program points of two
neighbours, who share the chopstick between them.

Deadlock freedom is ordered acquisition: `rank` puts the odd chopsticks first, chopstick
`0` next and the other even ones last, and every philosopher takes a chopstick of lower
rank first (`rank_firstOf_lt`). Odd rings are covered: there the last philosopher is even,
meets the even philosopher `0`, and takes `0` before its own chopstick.
-/

namespace OsLab.Dining

variable {n : Nat}

def State.Holds (s : State n) (who c : Fin n) : Prop :=
  (c = firstOf who ∧ (s.phil who).pc.holdsFirst)
    ∨ (c = secondOf who ∧ (s.phil who).pc.holdsSecond)

/-- On a ring of two or more the neighbour is somebody else. -/
theorem rightOf_ne (hn : 2 ≤ n) (who : Fin n) : rightOf who ≠ who := by
  intro heq
  have hval : (who.val + 1) % n = who.val := congrArg Fin.val heq
  have hlt := who.isLt
  rcases Nat.lt_or_ge (who.val + 1) n with h | h
  · rw [Nat.mod_eq_of_lt h] at hval
    omega
  · rw [show who.val + 1 = n by omega, Nat.mod_self] at hval
    omega

/-- The two chopsticks of a philosopher differ on every ring of two or more. -/
theorem firstOf_ne_secondOf (hn : 2 ≤ n) (who : Fin n) : firstOf who ≠ secondOf who := by
  unfold firstOf secondOf
  split
  · exact (rightOf_ne hn who).symm
  · exact rightOf_ne hn who

/-! ## Exclusion

The semaphores of the chopsticks are binary, and a thread puts back only what it holds. So the
counts and the holders stay in step, whatever the interleaving, and this is the invariant of
`Semaphore`. -/

/-- What a thread holds depends on where it is. -/
theorem State.holds_setPhil (s : State n) (who : Fin n) (p : Philosopher) (w c : Fin n) :
    (s.setPhil who p).Holds w c ↔
      if w = who then (c = firstOf who ∧ p.pc.holdsFirst) ∨ (c = secondOf who ∧ p.pc.holdsSecond)
      else s.Holds w c := by
  unfold State.Holds
  by_cases hw : w = who
  · subst hw; simp
  · simp [hw]

/-- A thread that holds what it held before. -/
theorem exclusive_setPhil {s : State n} {who : Fin n} {p : Philosopher}
    (hinv : Semaphore.Exclusive s.chopstic s.Holds)
    (hfirst : p.pc.holdsFirst = (s.phil who).pc.holdsFirst)
    (hsecond : p.pc.holdsSecond = (s.phil who).pc.holdsSecond) :
    Semaphore.Exclusive (s.setPhil who p).chopstic (s.setPhil who p).Holds := by
  refine hinv.congr fun w c => ?_
  rw [State.holds_setPhil]
  split
  · next hw => subst hw; simp only [State.Holds, hfirst, hsecond]
  · exact Iff.rfl

/-- A chopstick with count `0` can be put back. -/
theorem State.putChopstic_of_zero {s : State n} {c : Fin n} (h : s.chopstic c = 0) :
    s.putChopstic c = s.setChopstic c (s.chopstic c + 1) := by
  rw [State.putChopstic, if_pos (by omega)]

/-- A thread that acquires `c`: afterwards it holds `c` too. -/
theorem exclusive_acquire {s : State n} {who c : Fin n} {pc : Pc}
    (hinv : Semaphore.Exclusive s.chopstic s.Holds) (hfree : s.chopstic c ≠ 0)
    (hgain : ∀ d, (s.goto who pc).Holds who d ↔ s.Holds who d ∨ d = c) :
    Semaphore.Exclusive ((s.setChopstic c (s.chopstic c - 1)).goto who pc).chopstic
      ((s.setChopstic c (s.chopstic c - 1)).goto who pc).Holds := by
  refine hinv.acquire who hfree fun w d => ?_
  by_cases hw : w = who
  · subst hw
    rw [and_iff_right rfl]
    exact hgain d
  · rw [State.goto, State.holds_setPhil]
    simp [hw, State.Holds]

/-- A thread that releases `c`: afterwards it holds what it held but `c`. -/
theorem exclusive_release {s : State n} {who c : Fin n} {pc : Pc}
    (hinv : Semaphore.Exclusive s.chopstic s.Holds) (hwho : s.Holds who c)
    (hloss : ∀ d, (s.goto who pc).Holds who d ↔ s.Holds who d ∧ d ≠ c) :
    Semaphore.Exclusive ((s.putChopstic c).goto who pc).chopstic
      ((s.putChopstic c).goto who pc).Holds := by
  rw [State.putChopstic_of_zero (hinv.count_eq_zero_of_holds hwho)]
  refine hinv.release hwho fun w d => ?_
  by_cases hw : w = who
  · subst hw
    rw [and_iff_right rfl]
    exact hloss d
  · rw [State.goto, State.holds_setPhil]
    simp [hw, State.Holds]

/-- What the thread that moves holds at its next program point. -/
theorem holds_goto (s : State n) (who : Fin n) (pc : Pc) (d : Fin n) :
    (s.goto who pc).Holds who d
      ↔ (d = firstOf who ∧ pc.holdsFirst) ∨ (d = secondOf who ∧ pc.holdsSecond) := by
  rw [State.goto, State.holds_setPhil, if_pos rfl]

/-- One statement of one thread. One case for each kind of step. -/
theorem exclusive_step (hn : 2 ≤ n) {s s' : State n} {who : Fin n}
    (hinv : Semaphore.Exclusive s.chopstic s.Holds) (hmove : Moves s who s') :
    Semaphore.Exclusive s'.chopstic s'.Holds := by
  have hne := firstOf_ne_secondOf hn who
  cases hmove with
  | quiet p hquiet => exact exclusive_setPhil hinv hquiet.first hquiet.second
  | getFirst hpc hfree =>
    refine exclusive_acquire hinv hfree fun d => ?_
    rw [holds_goto]
    simp [State.Holds, hpc, Pc.holdsFirst, Pc.holdsSecond]
  | getSecond hpc hfree =>
    refine exclusive_acquire hinv hfree fun d => ?_
    rw [holds_goto]
    simp [State.Holds, hpc, Pc.holdsFirst, Pc.holdsSecond]
  | testRice hpc =>
    exact exclusive_setPhil hinv (by simp [hpc, Pc.holdsFirst]) (by simp [hpc, Pc.holdsSecond])
  | takeRice hpc =>
    exact exclusive_setPhil (s := { s with rice := s.rice - 1 }) hinv
      (by simp [hpc, Pc.holdsFirst]) (by simp [hpc, Pc.holdsSecond])
  | putFirst hpc =>
    have hwho : s.Holds who (firstOf who) := Or.inl ⟨rfl, by simp [hpc, Pc.holdsFirst]⟩
    refine exclusive_release hinv hwho fun d => ?_
    rw [holds_goto]
    -- it still holds the second chopstick, which is another one
    by_cases hd : d = firstOf who
    · subst hd
      simp [Pc.holdsFirst, hne]
    · simp [State.Holds, hpc, Pc.holdsFirst, Pc.holdsSecond, hd]
  | putSecond hpc =>
    have hwho : s.Holds who (secondOf who) := Or.inr ⟨rfl, by simp [hpc, Pc.holdsSecond]⟩
    refine exclusive_release hinv hwho fun d => ?_
    rw [holds_goto]
    simp [State.Holds, hpc, Pc.holdsFirst, Pc.holdsSecond]

/-- **Exclusion in every reachable state.** Induction on the run. -/
theorem exclusive_of_reachable (hn : 2 ≤ n) {rice : Int} {s : State n}
    (h : State.Reachable rice s) : Semaphore.Exclusive s.chopstic s.Holds := by
  induction h with
  | refl =>
    intro c
    exact Or.inl ⟨rfl, fun w => by
      simp [State.Holds, State.initial, Philosopher.new, Pc.holdsFirst, Pc.holdsSecond]⟩
  | tail _ hstep ih =>
    obtain ⟨who, hadv⟩ := hstep
    exact exclusive_step hn ih (State.advance_moves hadv)

/-! ## Neighbours

Between its second acquire and its first release a philosopher holds both of its chopsticks,
whichever it took first. Two neighbours there would share the chopstick between them. -/

/-- Between the second acquire of `Eat` and its first release. -/
def Pc.inCriticalSection : Pc → Bool
  | .setState | .testRice | .takeRice | .consumeRice | .putFirst => true
  | _ => false

theorem Pc.holds_of_inCriticalSection {pc : Pc} (h : pc.inCriticalSection) :
    pc.holdsFirst ∧ pc.holdsSecond := by
  cases pc <;> simp_all [Pc.inCriticalSection, Pc.holdsFirst, Pc.holdsSecond]

theorem State.holds_left {s : State n} {who : Fin n}
    (h : (s.phil who).pc.inCriticalSection) : s.Holds who who := by
  have hboth := Pc.holds_of_inCriticalSection h
  by_cases hodd : who.val % 2 = 1
  · exact Or.inl ⟨by rw [firstOf, if_pos hodd], hboth.1⟩
  · exact Or.inr ⟨by rw [secondOf, if_neg hodd], hboth.2⟩

theorem State.holds_right {s : State n} {who : Fin n}
    (h : (s.phil who).pc.inCriticalSection) : s.Holds who (rightOf who) := by
  have hboth := Pc.holds_of_inCriticalSection h
  by_cases hodd : who.val % 2 = 1
  · exact Or.inr ⟨by rw [secondOf, if_pos hodd], hboth.2⟩
  · exact Or.inl ⟨by rw [firstOf, if_neg hodd], hboth.1⟩

/-- A chopstick about to be put back has count `0`, so `ReleaseSemaphore` succeeds. -/
theorem putChopstic_of_holds {s : State n} (hinv : Semaphore.Exclusive s.chopstic s.Holds)
    {who c : Fin n} (h : s.Holds who c) :
    s.chopstic c + 1 ≤ 1 ∧ s.putChopstic c = s.setChopstic c 1 := by
  have hzero := hinv.count_eq_zero_of_holds h
  refine ⟨by omega, ?_⟩
  rw [State.putChopstic_of_zero hzero, hzero]

/-- **Neighbour exclusion.** On every ring of two or more philosophers and in every reachable
state: a chopstick has at most one holder; its count is `1` exactly when it has none, and
never more; the two releases of `Eat` find a count below the maximum and take effect; and no
philosopher is between its second acquire and its first release together with its right
neighbour. -/
theorem neighbour_exclusion (hn : 2 ≤ n) {rice : Int} {s : State n}
    (hreach : State.Reachable rice s) :
    (∀ c i j, s.Holds i c → s.Holds j c → i = j)
      ∧ (∀ c, s.chopstic c ≤ 1 ∧ (s.chopstic c = 1 ↔ ∀ i, ¬ s.Holds i c))
      ∧ (∀ who, (s.phil who).pc = .putFirst → s.chopstic (firstOf who) + 1 ≤ 1
          ∧ s.putChopstic (firstOf who) = s.setChopstic (firstOf who) 1)
      ∧ (∀ who, (s.phil who).pc = .putSecond → s.chopstic (secondOf who) + 1 ≤ 1
          ∧ s.putChopstic (secondOf who) = s.setChopstic (secondOf who) 1)
      ∧ ∀ who, ¬ ((s.phil who).pc.inCriticalSection
          ∧ (s.phil (rightOf who)).pc.inCriticalSection) := by
  have hinv := exclusive_of_reachable hn hreach
  refine ⟨fun c i j hi hj => hinv.holder_unique hi hj, fun c => hinv.count_eq_one_iff c,
    fun who hpc => ?_, fun who hpc => ?_, fun who hboth => ?_⟩
  · -- what is put back first is held
    have hholds : s.Holds who (firstOf who) := Or.inl ⟨rfl, by simp [hpc, Pc.holdsFirst]⟩
    exact putChopstic_of_holds hinv hholds
  · -- and what is put back second
    have hholds : s.Holds who (secondOf who) := Or.inr ⟨rfl, by simp [hpc, Pc.holdsSecond]⟩
    exact putChopstic_of_holds hinv hholds
  · -- both hold the chopstick between them
    have hshared := hinv.holder_unique (State.holds_right hboth.1) (State.holds_left hboth.2)
    exact rightOf_ne hn who hshared.symm

/-- A supper of the compiled ring. Philosopher `0` takes both of its chopsticks and comes to the
test of `Rice`; `1`, who shares chopstick `1` with it, comes to its first acquire; `2` takes its
first chopstick; and `4`, who shares chopstick `0` with it, comes to its first acquire. -/
def supper : List (Fin maxPhilosopher) :=
  List.replicate 12 0 ++ List.replicate 9 1 ++ List.replicate 10 2 ++ List.replicate 9 4

/-- Philosopher `0` eats, its right neighbour waits for the chopstick between them: nobody else
holds that chopstick, its count is `0`, and the neighbour is not inside. -/
theorem neighbour_exclusion_supper :
    ∃ s : State maxPhilosopher, (State.initial maxPhilosopher initialRice).run supper = some s
      ∧ (s.phil 0).pc = .testRice ∧ s.BlockedInGetChopstic (rightOf 0)
      ∧ (∀ i, s.Holds i (rightOf 0) → i = 0)
      ∧ (s.chopstic (rightOf 0) ≤ 1
          ∧ (s.chopstic (rightOf 0) = 1 ↔ ∀ i, ¬ s.Holds i (rightOf 0)))
      ∧ ¬ ((s.phil 0).pc.inCriticalSection ∧ (s.phil (rightOf 0)).pc.inCriticalSection) := by
  obtain ⟨s, hrun, hpc, hwaits⟩ : ∃ s : State maxPhilosopher,
      (State.initial maxPhilosopher initialRice).run supper = some s
        ∧ (s.phil 0).pc = .testRice ∧ s.BlockedInGetChopstic (rightOf 0) :=
    ⟨_, rfl, rfl, Or.inl rfl, rfl⟩
  have hreach : State.Reachable initialRice s := State.reachable_iff_run.mpr ⟨supper, hrun⟩
  obtain ⟨hholder, hcount, -, -, hneighbours⟩ := neighbour_exclusion (by decide) hreach
  have heats : s.Holds 0 (rightOf 0) := State.holds_right (by rw [hpc]; rfl)
  exact ⟨s, hrun, hpc, hwaits, fun i hi => hholder _ i 0 hi heats, hcount _, hneighbours 0⟩

/-! ## Deadlock freedom

The odd philosophers take their left chopstick first, the others their right one. This is an order
of the chopsticks after all: both ways the one taken first has the smaller rank, so the holder of
the greatest chopstick that anybody waits for does not wait itself. -/

/-- The order in which chopsticks are taken: odd ones, then `0`, then the other even ones. -/
def rank (c : Fin n) : Nat := if c.val % 2 = 1 then 0 else if c.val = 0 then 1 else 2

/-- The chopstick taken first has the smaller rank. -/
theorem rank_firstOf_lt (hn : 2 ≤ n) (who : Fin n) : rank (firstOf who) < rank (secondOf who) := by
  have hlt := who.isLt
  rcases Nat.lt_or_ge (who.val + 1) n with h | h
  · have hright : (rightOf who).val = who.val + 1 := Nat.mod_eq_of_lt h
    unfold firstOf secondOf rank
    split <;> simp only [hright] <;> grind
  · -- the last philosopher of the ring: its right chopstick is `0`
    have hright : (rightOf who).val = 0 := by
      show (who.val + 1) % n = 0
      rw [show who.val + 1 = n by omega, Nat.mod_self]
    unfold firstOf secondOf rank
    split <;> simp only [hright] <;> grind

def State.waitsFor (s : State n) (who : Fin n) : Option (Fin n) :=
  match (s.phil who).pc with
  | .getFirst => if s.chopstic (firstOf who) = 0 then some (firstOf who) else none
  | .getSecond => if s.chopstic (secondOf who) = 0 then some (secondOf who) else none
  | _ => none

/-- A thread that is neither blocked nor finished can execute its next statement. -/
theorem State.advance_isSome {s : State n} {who : Fin n} (hwait : s.waitsFor who = none)
    (hfin : ¬ s.Finished who) : ∃ s', s.advance who = some s' := by
  unfold State.Finished at hfin
  cases hpc : (s.phil who).pc with
  | getFirst =>
    -- a thread that does not wait finds its chopstick on the table
    have hfree : s.chopstic (firstOf who) ≠ 0 := by
      intro hzero
      simp [State.waitsFor, hpc, hzero] at hwait
    rw [State.advance_getFirst hpc, State.getChopstic, if_neg hfree]
    exact ⟨_, rfl⟩
  | getSecond =>
    have hfree : s.chopstic (secondOf who) ≠ 0 := by
      intro hzero
      simp [State.waitsFor, hpc, hzero] at hwait
    rw [State.advance_getSecond hpc, State.getChopstic, if_neg hfree]
    exact ⟨_, rfl⟩
  | finished => exact absurd hpc hfin
  | branch =>
    simp only [State.advance, hpc]
    split
    · exact ⟨_, rfl⟩
    · split
      · exact ⟨_, rfl⟩
      · exact ⟨_, rfl⟩
  | runEntry | whileTest | setState | testRice | takeRice | consumeRice | putFirst | putSecond
  | addRice | eatingTest | leave =>
    simp only [State.advance, hpc]
    exact ⟨_, rfl⟩

/-- A thread that waits holds at most its first chopstick, and waits for its second. -/
theorem rank_lt_of_holds_of_waitsFor (hn : 2 ≤ n) {s : State n} {who c c' : Fin n}
    (hholds : s.Holds who c) (hwait : s.waitsFor who = some c') : rank c < rank c' := by
  unfold State.waitsFor at hwait
  split at hwait
  · next hpc => simp [State.Holds, hpc, Pc.holdsFirst, Pc.holdsSecond] at hholds
  · next hpc =>
    simp only [State.Holds, hpc, Pc.holdsFirst, Pc.holdsSecond] at hholds
    split at hwait
    · cases hwait
      rcases hholds with ⟨rfl, -⟩ | ⟨-, hfalse⟩
      · exact rank_firstOf_lt hn who
      · cases hfalse
    · cases hwait
  · cases hwait

/-- A thread that has finished holds nothing. -/
theorem State.not_finished_of_holds {s : State n} {who c : Fin n} (h : s.Holds who c) :
    ¬ s.Finished who := by
  intro hfin
  have hpc : (s.phil who).pc = .finished := hfin
  simp [State.Holds, hpc, Pc.holdsFirst, Pc.holdsSecond] at h

theorem exists_holder_of_waitsFor {s : State n} {who c : Fin n}
    (hinv : Semaphore.Exclusive s.chopstic s.Holds) (hwait : s.waitsFor who = some c) :
    ∃ w, s.Holds w c := by
  have hzero : s.chopstic c = 0 := by
    unfold State.waitsFor at hwait
    split at hwait
    · split at hwait
      · next hz => cases hwait; exact hz
      · cases hwait
    · split at hwait
      · next hz => cases hwait; exact hz
      · cases hwait
    · cases hwait
  rcases hinv c with ⟨hone, -⟩ | ⟨-, w, hw, -⟩
  · omega
  · exact ⟨w, hw⟩

/-- A thread blocked in `getChopstic` waits for the chopstick it asked for. -/
theorem State.waitsFor_of_blocked {s : State n} {who : Fin n} (h : s.BlockedInGetChopstic who) :
    s.waitsFor who ≠ none := by
  obtain ⟨hpc, hadv⟩ := h
  intro hwait
  have hfin : ¬ s.Finished who := by
    unfold State.Finished
    rcases hpc with hpc | hpc <;> simp [hpc]
  obtain ⟨s', hs'⟩ := State.advance_isSome hwait hfin
  rw [hadv] at hs'
  cases hs'

/-- **Deadlock freedom.** On every ring of two or more philosophers and in every reachable
state with an unfinished philosopher, some thread can step, and not every unfinished thread
is blocked in `getChopstic`. -/
theorem exists_step_of_unfinished (hn : 2 ≤ n) {rice : Int} {s : State n}
    (hreach : State.Reachable rice s) (hunf : ∃ who, ¬ s.Finished who) :
    (∃ who s', s.advance who = some s')
      ∧ ¬ ∀ who, ¬ s.Finished who → s.BlockedInGetChopstic who := by
  have hinv := exclusive_of_reachable hn hreach
  -- some unfinished thread is not waiting
  have hfree : ∃ who, ¬ s.Finished who ∧ s.waitsFor who = none := by
    obtain ⟨who, hwho⟩ := hunf
    cases hwait : s.waitsFor who with
    | none => exact ⟨who, hwho, hwait⟩
    | some c =>
      obtain ⟨j, c', hj, hjw⟩ := Semaphore.exists_unblocked_holder s.waitsFor s.Holds rank
        (fun _ _ h => exists_holder_of_waitsFor hinv h)
        (fun _ _ _ hh hw => rank_lt_of_holds_of_waitsFor hn hh hw) hwait
      exact ⟨j, State.not_finished_of_holds hj, hjw⟩
  obtain ⟨who, hwho, hwait⟩ := hfree
  obtain ⟨s', hs'⟩ := State.advance_isSome hwait hwho
  exact ⟨⟨who, s', hs'⟩, fun hall => State.waitsFor_of_blocked (hall who hwho) hwait⟩

/-- In the middle of `supper` chopsticks are held and two threads are blocked in `getChopstic`;
some thread can step, and not all of them are blocked. -/
theorem exists_step_of_unfinished_supper :
    ∃ s : State maxPhilosopher, (State.initial maxPhilosopher initialRice).run supper = some s
      ∧ (s.Holds 0 0 ∧ s.Holds 0 1 ∧ s.Holds 2 3)
      ∧ (s.BlockedInGetChopstic 1 ∧ s.BlockedInGetChopstic 4)
      ∧ (∃ who s', s.advance who = some s')
      ∧ ¬ ∀ who, ¬ s.Finished who → s.BlockedInGetChopstic who := by
  obtain ⟨s, hrun, hheld, hwait⟩ : ∃ s : State maxPhilosopher,
      (State.initial maxPhilosopher initialRice).run supper = some s
        ∧ (s.Holds 0 0 ∧ s.Holds 0 1 ∧ s.Holds 2 3)
        ∧ s.BlockedInGetChopstic 1 ∧ s.BlockedInGetChopstic 4 :=
    ⟨_, rfl, ⟨State.holds_left rfl, State.holds_right rfl, Or.inl ⟨rfl, rfl⟩⟩,
      ⟨Or.inl rfl, rfl⟩, Or.inl rfl, rfl⟩
  have hreach : State.Reachable initialRice s := State.reachable_iff_run.mpr ⟨supper, hrun⟩
  have hunf : ∃ who, ¬ s.Finished who := ⟨0, State.not_finished_of_holds hheld.1⟩
  exact ⟨s, hrun, hheld, hwait, exists_step_of_unfinished (by decide) hreach hunf⟩

end OsLab.Dining
