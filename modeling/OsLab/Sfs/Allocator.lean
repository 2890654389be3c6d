import OsLab.Sfs.Secrecy

/-!
# OsLab.Sfs.Allocator — inode numbers

`create` and `remove` as an allocator of inode numbers. The scan of `getNextFreeINode` goes by block
and slot, the number it gives is flat, and the number that means failure is beyond every table.

* **`create_takes`**: `create` takes the first free inode and changes nothing else.
* **`allocate_live`**: along a run of creates and removes the valid inodes are those created and
  not removed since.
* **`create_firstFit`**: both, and that no number is given out while it is in use.
-/

namespace OsLab.Sfs

open Fallible

namespace State

/-- `n` is the number of an inode of the table. -/
def InTable (s : State) (n : Nat) : Prop := n < s.fs.superBlock.inodeBlocks.toNat * inodesPerBlock

instance (s : State) (n : Nat) : Decidable (s.InTable n) := inferInstanceAs (Decidable (_ < _))

/-- `s'` is `s` with inode `n` taken: its `Valid` is 1 and its block is dirty. -/
structure Takes (s s' : State) (n : Nat) : Prop where
  taken : ∃ inode, s.inodeAt n = some inode ∧ s'.inodeAt n = some { inode with valid := 1 }
  others : ∀ m, m ≠ n → s'.inodeAt m = s.inodeAt m
  dirty : ∀ i, s'.isDirty i = (decide (i = n / inodesPerBlock) || s.isDirty i)
  shape : s'.shape = s.shape
  rest : s' = { s with fs := { s.fs with
    inodeBlocks := s'.fs.inodeBlocks, inodeBlocksDirty := s'.fs.inodeBlocksDirty } }

/-- The inodes in use. -/
def live (s : State) : Set Nat := {n | ∃ valid, s.validAt n = some valid ∧ valid ≠ 0}

variable {s s' : State} {n : Nat}

/-- The table has the inodes of its blocks. -/
theorem Mounted.inTable_iff (hm : s.Mounted) :
    s.InTable n ↔ n < s.shape.tableBlocks * inodesPerBlock := by
  rw [InTable, show s.fs.superBlock.inodeBlocks.toNat = s.shape.tableBlocks from hm.inodeBlocks]

/-- An inode that can be looked up is in the table. -/
theorem Mounted.inTable_of_validAt (hm : s.Mounted) {valid : UInt32} (h : s.validAt n = some valid) :
    s.InTable n := by
  obtain ⟨inode, hat, -⟩ := Option.map_eq_some_iff.mp h
  exact hm.inTable_iff.mpr (lt_of_inodeAt hat)

/-- The number that means failure names no inode. -/
theorem Mounted.invalideReturn_notIn (hm : s.Mounted) : ¬ s.InTable invalideReturn := by
  have hdistinct := hm.distinct
  rw [hm.inTable_iff]
  unfold invalideReturn inodesPerBlock
  unfold Disk.distinctBlocks at hdistinct
  omega

/-! ## One call

`create` takes the first inode that is not valid. Its loop runs over the whole table; what it
returns when there is none is a number outside the table. -/

/-- The inode is valid and its block is to be written back. -/
theorem created_takes (hm : s.Mounted) {inode : Inode} (hat : s.inodeAt n = some inode) :
    s.Takes (s.created n inode) n where
  taken := ⟨inode, hat, created_inodeAt_self hat⟩
  others := fun _ hne => created_inodeAt_of_ne hne
  dirty := fun i => by
    have hblock :
        n / inodesPerBlock < (s.setINode n { inode with valid := 1 }).shape.dirtyBlocks := by
      rw [setINode_shape, hm.dirtyBlocks]
      exact (Nat.div_lt_iff_lt_mul (by decide)).mpr (lt_of_inodeAt hat)
    rw [created, setDirty_isDirty hblock, setINode_isDirty]
  shape := created_shape
  rest := rfl

/-- **`create`** takes the first free inode, if there is one. -/
theorem create_takes (hm : s.Mounted) :
    (∃ n s', s.create = .ok (n, s') ∧ s.FirstFree n ∧ s.Takes s' n)
      ∨ s.create = .ok (invalideReturn, s) ∧ ∀ n, s.validAt n ≠ some 0 := by
  rcases of_create hm with ⟨n, inode, hcreate, hat, -, hnext, -⟩ | ⟨hcreate, hfull⟩
  · exact Or.inl ⟨n, _, hcreate, (firstFree_iff hm).mpr ⟨inode, hnext⟩, created_takes hm hat⟩
  · refine Or.inr ⟨hcreate, fun n hfree => ?_⟩
    obtain ⟨inode, hat, hinvalid⟩ := Option.map_eq_some_iff.mp hfree
    exact hfull n inode hat hinvalid

theorem Takes.validAt (h : s.Takes s' n) (m : Nat) :
    s'.validAt m = if m = n then some 1 else s.validAt m := by
  obtain ⟨inode, -, htaken⟩ := h.taken
  by_cases hmn : m = n
  · rw [if_pos hmn, hmn, validAt_eq_some htaken]
  · rw [if_neg hmn, State.validAt, h.others m hmn, State.validAt]

theorem Takes.live (h : s.Takes s' n) : s'.live = insert n s.live := by
  ext m
  simp only [State.live, Set.mem_insert_iff, Set.mem_ofPred_eq, h.validAt]
  by_cases hmn : m = n <;> simp [hmn]

theorem remove_live {r : Bool} (h : s.remove n = .ok (r, s')) : s'.live = s.live \ {n} := by
  ext m
  simp only [live, Set.mem_sdiff, Set.mem_singleton_iff, Set.mem_ofPred_eq, remove_validAt h]
  by_cases hmn : m = n <;> simp [hmn]

/-! ## A run

A run of the allocator gives numbers out and takes them back. Its events say which; from them alone
it can be told which numbers are in use. -/

/-- A call to the allocator. -/
inductive AllocCall where
  | create
  | remove (inumber : Nat)
  deriving DecidableEq, Repr

/-- What came of a call. -/
inductive AllocEvent where
  | created (inumber : Nat)
  | full
  | removed (inumber : Nat)
  deriving DecidableEq, Repr

/-- A call; a `create` has succeeded if its number is that of an inode. -/
def allocateStep (s : State) : AllocCall → Except Fault (AllocEvent × State)
  | .create => do
    let (n, s') ← s.create
    .ok (if s.InTable n then .created n else .full, s')
  | .remove inumber => do
    let (_, s') ← s.remove inumber
    .ok (.removed inumber, s')

/-- The calls, one after the other. -/
def allocate (s : State) : List AllocCall → Except Fault (List AllocEvent × State)
  | [] => .ok ([], s)
  | call :: calls => do
    let (event, s) ← s.allocateStep call
    let (events, s) ← s.allocate calls
    .ok (event :: events, s)

/-- The numbers in use after an event. -/
def AllocEvent.next (live : Set Nat) : AllocEvent → Set Nat
  | created inumber => insert inumber live
  | full => live
  | removed inumber => live \ {inumber}

/-- The numbers in use after the events. -/
def liveAfter (live : Set Nat) (events : List AllocEvent) : Set Nat := events.foldl AllocEvent.next live

/-- A call does to the inodes in use what it reports, and gives out a number that was free. -/
theorem allocateStep_live (hm : s.Mounted) {call : AllocCall} {event : AllocEvent}
    (h : s.allocateStep call = .ok (event, s')) :
    s'.Mounted ∧ s'.live = event.next s.live ∧ ∀ n, event = .created n → n ∉ s.live := by
  cases call with
  | create =>
    -- a number is given out, or there is none
    rcases create_takes hm with ⟨n, s₁, hcreate, hfirst, htakes⟩ | ⟨hcreate, -⟩
    · rw [allocateStep, hcreate, ok_bind] at h
      dsimp only at h
      rw [if_pos (hm.inTable_of_validAt hfirst.1)] at h
      cases h
      refine ⟨hm.of_shape htakes.shape, htakes.live, fun m hm' => ?_⟩
      cases hm'
      rintro ⟨valid, hvalid, hne⟩
      rw [hfirst.1] at hvalid
      cases hvalid
      exact hne rfl
    · rw [allocateStep, hcreate, ok_bind] at h
      dsimp only at h
      rw [if_neg hm.invalideReturn_notIn] at h
      cases h
      exact ⟨hm, rfl, fun m hm' => by cases hm'⟩
  | remove inumber =>
    obtain ⟨⟨r, s₁⟩, hremove, h⟩ := of_bind_eq_ok h
    cases h
    obtain ⟨-, -, -, hshape, -⟩ := of_remove hremove
    exact ⟨hm.of_shape hshape, remove_live hremove, fun m hm' => by cases hm'⟩

/-- **The run.** A number is in use when it was given out, or was in use before, and has not been
removed since; none is given out while it is in use. Induction on the calls. -/
theorem allocate_live (calls : List AllocCall) :
    ∀ {s s' : State} {events : List AllocEvent}, s.Mounted → s.allocate calls = .ok (events, s') →
      s'.live = liveAfter s.live events
        ∧ ∀ before n after, events = before ++ .created n :: after → n ∉ liveAfter s.live before := by
  induction calls with
  | nil =>
    intro s s' events _ h
    cases h
    refine ⟨rfl, fun before n after heq => ?_⟩
    simp at heq
  | cons call calls ih =>
    intro s s' events hm h
    obtain ⟨⟨event, s₁⟩, hstep, h⟩ := of_bind_eq_ok h
    obtain ⟨⟨rest, s₂⟩, hrest, h⟩ := of_bind_eq_ok h
    cases h
    obtain ⟨hm₁, hlive, hfresh⟩ := allocateStep_live hm hstep
    obtain ⟨hlive', hfresh'⟩ := ih hm₁ hrest
    rw [hlive] at hlive' hfresh'
    refine ⟨hlive', fun before n after heq => ?_⟩
    -- the number was given out at once, or later on
    cases before with
    | nil =>
      obtain ⟨hevent, -⟩ := List.cons.inj heq
      exact hfresh n hevent
    | cons first before =>
      obtain ⟨rfl, hafter⟩ := List.cons.inj heq
      exact hfresh' before n after hafter

/-- **Headline.** In every mounted state `create` takes the first free inode and nothing else, or
there is none and it returns a number that is no inode's; and along every run of creates and
removes no number is given out while it is in use. -/
theorem create_firstFit (hm : s.Mounted) :
    ((∃ n, s.InTable n ∧ s.validAt n = some 0) →
        ∃ n s', s.create = .ok (n, s') ∧ s.InTable n ∧ s.validAt n = some 0
          ∧ (∀ m < n, s.validAt m ≠ some 0) ∧ s.Takes s' n)
      ∧ ((¬ ∃ n, s.InTable n ∧ s.validAt n = some 0) → s.create = .ok (invalideReturn, s))
      ∧ ¬ s.InTable invalideReturn
      ∧ ∀ calls events s', s.allocate calls = .ok (events, s') →
        ∀ before n after, events = before ++ .created n :: after → n ∉ liveAfter s.live before := by
  refine ⟨fun ⟨k, _, hfree⟩ => ?_, fun hnone => ?_, hm.invalideReturn_notIn,
    fun calls events s' h => (allocate_live calls hm h).2⟩
  · rcases create_takes hm with ⟨n, s', hcreate, hfirst, htakes⟩ | ⟨-, hfull⟩
    · exact ⟨n, s', hcreate, hm.inTable_of_validAt hfirst.1, hfirst.1, hfirst.2, htakes⟩
    · exact absurd hfree (hfull k)
  · rcases create_takes hm with ⟨n, s', -, hfirst, -⟩ | ⟨hcreate, -⟩
    · exact absurd ⟨n, hm.inTable_of_validAt hfirst.1, hfirst.1⟩ hnone
    · exact hcreate

/-- The small disk with inode `0` in use: `create` gives out `1`. A run that creates, removes `0` and
creates again gets a number that was not in use. -/
theorem create_firstFit_second : ∃ s₀, (State.start 4 (smallImage 1)).mount = .ok (true, s₀)
    ∧ s₀.validAt 0 = some 1
    ∧ (∃ s', s₀.create = .ok (1, s') ∧ s₀.Takes s' 1)
    ∧ ∃ event s', s₀.allocate [.create, .remove 0, .create]
        = .ok ([.created 1, .removed 0, event], s')
      ∧ ∀ n, event = .created n → n ∉ liveAfter s₀.live [.created 1, .removed 0] := by
  obtain ⟨s₀, hmount, hismount⟩ := smallDisk_mount 4 (by decide) (by decide) 1
  have hm := hismount.mounted
  obtain ⟨htable, -⟩ := smallDisk_mounted hismount
  have hat (n : Nat) (hn : n < 128) : s₀.inodeAt n = some (imageInode (smallDisk 4 1) n) :=
    hismount.inodeAt (by rw [htable]; exact hn)
  have hzero : s₀.validAt 0 = some 1 := validAt_eq_some (hat 0 (by decide))
  have hone : s₀.validAt 1 = some 0 := validAt_eq_some (hat 1 (by decide))
  obtain ⟨hfirst, -, -, hrun⟩ := create_firstFit hm
  -- the first free inode is `1`
  obtain ⟨n, s₁, hcreate, hin, hfree, hleast, htakes⟩ :=
    hfirst ⟨1, hm.inTable_of_validAt hone, hone⟩
  obtain rfl : n = 1 := by
    have hne : n ≠ 0 := by
      rintro rfl
      rw [hzero] at hfree
      exact absurd hfree (by decide)
    have hle : ¬ 1 < n := fun hlt => hleast 1 hlt hone
    omega
  -- the run goes through
  obtain ⟨s₂, hremove⟩ := smallDisk_remove hismount (by decide) htakes.shape (n := 0) (by decide)
  obtain ⟨-, _, -, hshape, -⟩ := of_remove hremove
  have hm₂ : s₂.Mounted := hm.of_shape (hshape.trans htakes.shape)
  obtain ⟨⟨m, s₃⟩, hcreate₂⟩ := create_ok hm₂
  have hcalls : s₀.allocate [.create, .remove 0, .create]
      = .ok ([.created 1, .removed 0, if s₂.InTable m then .created m else .full], s₃) := by
    simp only [allocate, allocateStep, hcreate, ok_bind, if_pos hin, hremove, hcreate₂]
  refine ⟨s₀, hmount, hzero, ⟨s₁, hcreate, htakes⟩, _, s₃, hcalls, fun n hevent => ?_⟩
  rw [hevent] at hcalls
  exact hrun _ _ s₃ hcalls [.created 1, .removed 0] n [] rfl

end State

end OsLab.Sfs
