import OsLab.Sfs.Session

/-!
# OsLab.Sfs.Numbers — inode numbers

What the commands do with the inode number that was typed, and with the ones `create` gives.
`getINode` indexes the table with any number; `isValidInode`, `ls` and `create` count inodes in
inode blocks, in twenties and in slots.

* **`validates_iff`**: when `remove`, `stat`, `cat` and `copyout` treat a number as they should;
  `remove` takes any slot of the table for a file (`remove_any_slot`).
* **`usable_iff`**: which inodes `do_create` accepts and `ls` shows; `create_rejected` is a free
  inode that is lost.
-/

namespace OsLab.Sfs

open Fallible State

variable {s s' : State} {n : Nat} {inode : Inode}

/-! ## Numbers typed

`atoi` gives an `int`, which becomes a `size_t` and then a `uint32_t`. A negative number so becomes
a large one. -/

/-- `atoi` of a number in decimal, which it cuts off at the limits of an `int`. -/
def atoi (typed : Int) : Int := max (-2147483648) (min typed 2147483647)

/-- `size_t inumber = atoi(arg1)`, and `uint32_t` from there on. -/
def inodeNumber (typed : Int) : Nat := (atoi typed % 4294967296).toNat

/-- The commands that name an inode. -/
inductive InodeCommand where
  | remove
  | stat
  | cat (opens : Bool)
  | copyout (opens : Bool)
  deriving DecidableEq

namespace InodeCommand

def toCommand (command : InodeCommand) (n : Nat) : Command :=
  match command with
  | .remove => .remove n
  | .stat => .stat n
  | .cat opens => .cat n opens
  | .copyout opens => .copyout n opens

/-- The message by which it reports failure. -/
def failed : InodeCommand → Message
  | .remove => .removeFailed
  | .stat => .statFailed
  | .cat _ => .catFailed
  | .copyout _ => .copyoutFailed

/-- On a mounted disk it calls `getINode`; `cat` and `copyout` open their file first. -/
def looksUp : InodeCommand → Bool
  | .remove | .stat => true
  | .cat opens | .copyout opens => opens

end InodeCommand

/-- The number is that of an inode with `Valid > 0`. -/
def State.IsFile (s : State) (n : Nat) : Prop := ∃ inode, s.inodeAt n = some inode ∧ inode.valid ≠ 0

/-- What a command should do with a number: look it up within the table, report failure and
change nothing if it is not that of a file, and remove exactly the files. -/
structure State.Validates (s : State) (command : InodeCommand) (n : Nat) : Prop where
  inRange : command.looksUp = true → n / inodesPerBlock < s.fs.inodeBlocks.length
  rejects : ¬ s.IsFile n →
    ∃ printed, exec s (command.toCommand n) = .ok (printed, s) ∧ command.failed ∈ printed
  removes : command = .remove →
    ((∃ s', exec s (command.toCommand n) = .ok ([.removedInode n], s')) ↔ s.IsFile n)

/-- The condition: a file, for `remove` one whose data blocks have entries in the bitmap; for
`stat` also an empty inode; for `cat` and `copyout` any number if the file cannot be opened. -/
def State.MayName (s : State) (command : InodeCommand) (n : Nat) : Prop :=
  match command with
  | .remove => ∃ inode, s.inodeAt n = some inode ∧ inode.valid ≠ 0
      ∧ ∀ k, s.IsDataBlock (inode.direct k).toNat → (inode.direct k).toNat < 4096
  | .stat => ∃ inode, s.inodeAt n = some inode ∧ (inode.valid ≠ 0 ∨ inode.size = 0)
  | .cat opens | .copyout opens => opens = false ∨ s.IsFile n

/-- A number in range is that of an inode, and one of an inode is in range. -/
theorem inodeAt_of_inRange (h : n / inodesPerBlock < s.fs.inodeBlocks.length) :
    ∃ inode, s.inodeAt n = some inode :=
  inodeAt_eq_some_of_lt ((Nat.div_lt_iff_lt_mul inodesPerBlock_pos).mp h)

theorem inRange_of_inodeAt (h : s.inodeAt n = some inode) :
    n / inodesPerBlock < s.fs.inodeBlocks.length :=
  (Nat.div_lt_iff_lt_mul inodesPerBlock_pos).mpr (lt_of_inodeAt h)

/-! ## Removing

`remove` clears whatever inode it is given, valid or not, and gives up its blocks. -/

/-- A mark is set or an entry is missing. -/
theorem setBlockFreeStatus_returns_iff (hdisk : s.fs.diskSet = true) {p : UInt32} {free : Bool} :
    (∃ s', s.setBlockFreeStatus p free = .ok s') ↔ (s.IsDataBlock p.toNat → p.toNat < 4096) :=
  ⟨fun ⟨_, h⟩ => (setBlockFreeStatus_eq h).2, fun h => ⟨_, setBlockFreeStatus_ok hdisk h⟩⟩

/-- The rounds of `remove` return if the pointers they come to have entries in the bitmap where
they are data blocks. A round leaves the later pointers alone. -/
theorem removePointers_returns_iff {ks : List (Fin 5)} (hks : ks.Nodup) :
    ∀ {s : State} {inode : Inode}, s.Mounted → s.inodeAt n = some inode →
      ((∃ s', ks.foldlM (removePointer n) s = .ok s')
        ↔ ∀ k ∈ ks, s.IsDataBlock (inode.direct k).toNat → (inode.direct k).toNat < 4096) := by
  induction ks with
  | nil => exact fun {s inode} _ _ => ⟨fun _ k hk => absurd hk List.not_mem_nil, fun _ => ⟨s, rfl⟩⟩
  | cons k ks ih =>
    intro s inode hm hat
    obtain ⟨hk, hks⟩ := List.nodup_cons.mp hks
    have hround : ∀ {s₁}, s.setBlockFreeStatus (inode.direct k) true = .ok s₁ →
        removePointer n s k = .ok (s₁.setINode n (clearPointer inode k)) := fun hmark => by
      unfold removePointer
      rw [getINode_ok hat, ok_bind, hmark]
      rfl
    rw [List.foldlM_cons, List.forall_mem_cons, ← setBlockFreeStatus_returns_iff hm.diskSet]
    -- what the rounds behind this one find
    have hrest : ∀ {s₁}, s.setBlockFreeStatus (inode.direct k) true = .ok s₁ →
        ((∃ s', ks.foldlM (removePointer n) (s₁.setINode n (clearPointer inode k)) = .ok s')
          ↔ ∀ k ∈ ks, s.IsDataBlock (inode.direct k).toNat → (inode.direct k).toNat < 4096) := by
      intro s₁ hmark
      obtain ⟨rfl, -⟩ := setBlockFreeStatus_eq hmark
      have hshape : ((s.mark (inode.direct k).toNat true).setINode n (clearPointer inode k)).shape
          = s.shape := setINode_shape.trans mark_shape
      have hself : ((s.mark (inode.direct k).toNat true).setINode n (clearPointer inode k)).inodeAt n
          = some (clearPointer inode k) := setINode_inodeAt_self (lt_of_inodeAt hat)
      rw [ih hks (hm.of_shape hshape) hself]
      refine forall₂_congr fun k' hk' => ?_
      have hne : k' ≠ k := fun heq => hk (heq ▸ hk')
      have hpointer : (clearPointer inode k).direct k' = inode.direct k' := if_neg hne
      rw [hpointer, isDataBlock_congr hshape]
    constructor
    · rintro ⟨s', h⟩
      obtain ⟨s₂, h₂, h⟩ := of_bind_eq_ok h
      obtain ⟨s₁, hmark⟩ : ∃ s₁, s.setBlockFreeStatus (inode.direct k) true = .ok s₁ := by
        unfold removePointer at h₂
        rw [getINode_ok hat, ok_bind] at h₂
        obtain ⟨s₁, hmark, -⟩ := of_bind_eq_ok h₂
        exact ⟨s₁, hmark⟩
      rw [hround hmark] at h₂
      cases h₂
      exact ⟨⟨s₁, hmark⟩, (hrest hmark).mp ⟨s', h⟩⟩
    · rintro ⟨⟨s₁, hmark⟩, hcovers⟩
      rw [hround hmark, ok_bind]
      exact (hrest hmark).mpr hcovers

/-- **`remove`** returns on every inode of the table whose data blocks have entries in the
bitmap, valid or not. -/
theorem remove_returns_iff (hm : s.Mounted) :
    (∃ s', s.remove n = .ok (true, s')) ↔ ∃ inode, s.inodeAt n = some inode
      ∧ ∀ k, s.IsDataBlock (inode.direct k).toNat → (inode.direct k).toNat < 4096 := by
  constructor
  · rintro ⟨s', h⟩
    obtain ⟨-, inode, hat, -⟩ := of_remove h
    obtain ⟨s₁, hloop, -⟩ := of_bind_eq_ok h
    exact ⟨inode, hat, fun k => (removePointers_returns_iff (List.nodup_finRange 5) hm hat).mp
      ⟨s₁, hloop⟩ k (List.mem_finRange k)⟩
  · rintro ⟨inode, hat, hcovers⟩
    obtain ⟨s', hs'⟩ := (removePointers_returns_iff (List.nodup_finRange 5) hm hat).mpr
      fun k _ => hcovers k
    refine ⟨s', ?_⟩
    rw [State.remove, hs']
    rfl

/-! ## Commands that name an inode

A command should look up only what is in the table, reject what is no file, and remove what is one.
Each of the four does this for some numbers only, and these are given exactly. -/

/-- `remove` says that it has removed, whenever it returns. -/
theorem exec_remove_iff (hm : s.Mounted) {printed : List Message} :
    exec s (.remove n) = .ok (printed, s')
      ↔ s.remove n = .ok (true, s') ∧ printed = [.removedInode n] := by
  show doRemove s n = _ ↔ _
  rw [doRemove, if_pos (Mounted.isDiskMounted hm)]
  constructor
  · intro h
    obtain ⟨⟨removed, s₁⟩, hremove, h⟩ := of_bind_eq_ok h
    cases h
    obtain ⟨rfl, -⟩ := of_remove hremove
    exact ⟨hremove, rfl⟩
  · rintro ⟨hremove, rfl⟩
    rw [hremove]
    rfl

theorem exec_stat (hm : s.Mounted) (hat : s.inodeAt n = some inode) :
    exec s (.stat n) = .ok
      ([if inode.size.toNat > 0 then .inodeHasSize n inode.size.toNat else .statFailed], s) := by
  show doStat s n = _
  rw [doStat, if_pos (Mounted.isDiskMounted hm), stat, getINode_ok hat]
  rfl

/-- `cat` and `copyout` of a file that cannot be opened. -/
theorem doCopyout_not_opened (failed : Message) :
    doCopyout s n false failed = .ok ([], [.unableToOpen, failed], s) := rfl

/-- They report no failure otherwise. -/
theorem doCopyout_opened (hm : s.Mounted) {failed : Message} (hfailed : ∀ k, failed ≠ .bytesCopied k)
    {written : List UInt8} {printed : List Message}
    (h : doCopyout s n true failed = .ok (written, printed, s')) : failed ∉ printed := by
  unfold doCopyout copyout at h
  rw [if_pos rfl, if_pos (Mounted.isDiskMounted hm)] at h
  obtain ⟨⟨success, written', more, s₁⟩, hcopy, h⟩ := of_bind_eq_ok h
  obtain ⟨⟨written'', offset, s₂⟩, -, hcopy⟩ := of_bind_eq_ok hcopy
  cases hcopy
  cases h
  exact fun hmem => hfailed offset (List.mem_singleton.mp hmem)

theorem remove_validates_iff (hm : s.Mounted) : s.Validates .remove n ↔ s.MayName .remove n := by
  constructor
  · intro h
    have hfile : s.IsFile n := by
      by_contra hnot
      obtain ⟨printed, hexec, hmem⟩ := h.rejects hnot
      -- the only message is that of success
      obtain ⟨-, rfl⟩ := (exec_remove_iff hm).mp hexec
      cases List.mem_singleton.mp hmem
    obtain ⟨s', hexec⟩ := (h.removes rfl).mpr hfile
    obtain ⟨inode, hat, hvalid⟩ := hfile
    obtain ⟨inode', hat', hcovers⟩ :=
      (remove_returns_iff hm).mp ⟨s', ((exec_remove_iff hm).mp hexec).1⟩
    rw [hat] at hat'
    cases hat'
    exact ⟨inode, hat, hvalid, hcovers⟩
  · rintro ⟨inode, hat, hvalid, hcovers⟩
    have hfile : s.IsFile n := ⟨inode, hat, hvalid⟩
    obtain ⟨s', hremove⟩ := (remove_returns_iff hm).mpr ⟨inode, hat, hcovers⟩
    exact ⟨fun _ => inRange_of_inodeAt hat, fun hnot => absurd hfile hnot,
      fun _ => iff_of_true ⟨s', (exec_remove_iff hm).mpr ⟨hremove, rfl⟩⟩ hfile⟩

theorem stat_validates_iff (hm : s.Mounted) : s.Validates .stat n ↔ s.MayName .stat n := by
  constructor
  · intro h
    obtain ⟨inode, hat⟩ := inodeAt_of_inRange (h.inRange rfl)
    refine ⟨inode, hat, ?_⟩
    by_cases hvalid : inode.valid = 0
    · have hnot : ¬ s.IsFile n := by
        rintro ⟨inode', hat', hvalid'⟩
        rw [hat] at hat'
        cases hat'
        exact hvalid' hvalid
      -- a size is printed for an inode that is no file
      obtain ⟨printed, hexec, hmem⟩ := h.rejects hnot
      have hstat : exec s (.stat n) = .ok (printed, s) := hexec
      rw [exec_stat hm hat] at hstat
      cases hstat
      right
      by_contra hsize
      have hpos : inode.size.toNat > 0 :=
        Nat.pos_of_ne_zero fun hzero => hsize (UInt32.toNat_inj.mp hzero)
      rw [if_pos hpos] at hmem
      cases List.mem_singleton.mp hmem
    · exact Or.inl hvalid
  · rintro ⟨inode, hat, hcase⟩
    refine ⟨fun _ => inRange_of_inodeAt hat, fun hnot => ⟨_, exec_stat hm hat, ?_⟩, fun h => by cases h⟩
    rcases hcase with hvalid | hsize
    · exact absurd ⟨inode, hat, hvalid⟩ hnot
    · rw [hsize, if_neg (by decide)]
      exact List.mem_singleton_self _

/-- `cat` and `copyout` are one function. -/
theorem exec_copyout_iff {command : InodeCommand} {opens : Bool} {printed : List Message}
    (hcommand : command = .cat opens ∨ command = .copyout opens) :
    exec s (command.toCommand n) = .ok (printed, s')
      ↔ ∃ written, doCopyout s n opens command.failed = .ok (written, printed, s') := by
  constructor
  · intro h
    rcases hcommand with rfl | rfl
    all_goals
      obtain ⟨⟨written, printed', s₁⟩, hcopy, h⟩ := of_bind_eq_ok h
      cases h
      exact ⟨written, hcopy⟩
  · rintro ⟨written, hcopy⟩
    rcases hcommand with rfl | rfl
    all_goals
      unfold InodeCommand.failed at hcopy
      rw [InodeCommand.toCommand, exec, hcopy]
      rfl

/-- `cat` and `copyout`, which differ in a message only. -/
theorem copyout_validates_iff (hm : s.Mounted) {command : InodeCommand} {opens : Bool}
    (hcommand : command = .cat opens ∨ command = .copyout opens) :
    s.Validates command n ↔ opens = false ∨ s.IsFile n := by
  have hlooks : command.looksUp = opens := by rcases hcommand with rfl | rfl <;> rfl
  have hremove : command ≠ .remove := by
    rintro rfl
    rcases hcommand with h | h <;> cases h
  have hfailed : ∀ k, command.failed ≠ .bytesCopied k := by
    intro k hk
    rcases hcommand with rfl | rfl <;> cases hk
  constructor
  · intro h
    cases opens with
    | false => exact Or.inl rfl
    | true =>
      -- the target is open, so what is no file is copied all the same
      refine Or.inr ?_
      by_contra hnot
      obtain ⟨printed, hrun, hmem⟩ := h.rejects hnot
      obtain ⟨written, hcopy⟩ := (exec_copyout_iff hcommand).mp hrun
      exact doCopyout_opened hm hfailed hcopy hmem
  · intro h
    refine ⟨fun hlooksUp => ?_, fun hnot => ?_, fun heq => absurd heq hremove⟩
    · rcases h with hclosed | ⟨inode, hat, -⟩
      · rw [hlooks, hclosed] at hlooksUp
        cases hlooksUp
      · exact inRange_of_inodeAt hat
    · obtain rfl := h.resolve_right hnot
      exact ⟨_, (exec_copyout_iff hcommand).mpr ⟨[], doCopyout_not_opened command.failed⟩, by simp⟩

/-- **Headline.** For every number typed, a command treats it as it should exactly if it may be
named. -/
theorem validates_iff (hm : s.Mounted) (command : InodeCommand) (typed : Int) :
    s.Validates command (inodeNumber typed) ↔ s.MayName command (inodeNumber typed) := by
  cases command with
  | remove => exact remove_validates_iff hm
  | stat => exact stat_validates_iff hm
  | cat opens => exact copyout_validates_iff hm (Or.inl rfl)
  | copyout opens => exact copyout_validates_iff hm (Or.inr rfl)

/-- A file may be removed. -/
theorem validates_first_inode : ∃ s₀, (State.start 4 (smallImage 1)).mount = .ok (true, s₀)
    ∧ s₀.Validates .remove (inodeNumber 0) := by
  obtain ⟨s₀, hmount, hismount⟩ := smallDisk_mount 4 (by decide) (by decide) 1
  obtain ⟨htable, -⟩ := smallDisk_mounted hismount
  have hat : s₀.inodeAt (inodeNumber 0) = some (imageInode (smallDisk 4 1) 0) :=
    hismount.inodeAt (by rw [htable]; decide)
  refine ⟨s₀, hmount, (validates_iff hismount.mounted .remove 0).mpr ⟨_, hat, by decide, fun k _ => ?_⟩⟩
  have hempty : (imageInode (smallDisk 4 1) 0).direct k = 0 :=
    (smallDisk_empty 4 1 (by decide)).2 k
  rw [hempty]
  decide

theorem remove_outOfBounds (h : s.inodeAt n = none) : s.remove n = .error .outOfBounds := by
  have hget : s.getINode n = .error .outOfBounds := by
    rw [getINode_eq, h]
    rfl
  have hfin : List.finRange 5 = 0 :: [1, 2, 3, 4] := by decide
  rw [State.remove, hfin, List.foldlM_cons, removePointer, hget]
  rfl

/-- **The defect**: inode `5` was never created and is removed all the same, and inode `-1` is
looked up far outside the table. -/
theorem remove_any_slot : ∃ s₀ s', (State.start 4 (smallImage 0)).mount = .ok (true, s₀)
    ∧ ¬ s₀.IsFile (inodeNumber 5)
    ∧ exec s₀ (.remove (inodeNumber 5)) = .ok ([.removedInode 5], s')
    ∧ exec s₀ (.remove (inodeNumber (-1))) = .error .outOfBounds := by
  obtain ⟨s₀, hmount, hismount⟩ := smallDisk_mount 4 (by decide) (by decide) 0
  obtain ⟨htable, -⟩ := smallDisk_mounted hismount
  have hm := hismount.mounted
  have hat : s₀.inodeAt (inodeNumber 5) = some (imageInode (smallDisk 4 0) 5) :=
    hismount.inodeAt (by rw [htable]; decide)
  have hempty : ∀ k, (imageInode (smallDisk 4 0) 5).direct k = 0 :=
    (smallDisk_empty 4 0 (by decide)).2
  obtain ⟨s', hremove⟩ := (remove_returns_iff hm).mpr ⟨_, hat, fun k _ => by rw [hempty k]; decide⟩
  -- `-1` is far outside the table
  have hnone : s₀.inodeAt (inodeNumber (-1)) = none := by
    cases hout : s₀.inodeAt (inodeNumber (-1)) with
    | none => rfl
    | some inode =>
      have hlt := lt_of_inodeAt hout
      rw [htable] at hlt
      exact absurd hlt (by decide)
  refine ⟨s₀, s', hmount, ?_, (exec_remove_iff hm).mpr ⟨hremove, rfl⟩, ?_⟩
  · rintro ⟨inode, hat', hvalid⟩
    rw [hat] at hat'
    cases hat'
    exact hvalid (by decide)
  · show doRemove s₀ _ = _
    rw [doRemove, if_pos (Mounted.isDiskMounted hm), remove_outOfBounds hnone]
    rfl

/-! ## Numbers given by `create`

`create` counts inodes and may give any of the table. `isValidInode` compares with the number of
inode blocks, and `ls` goes to `20`: both take the number for something else. -/

/-- The inode is accepted by `isValidInode`, and `ls` shows it while it is valid. -/
structure State.Usable (s : State) (n : Nat) : Prop where
  accepted : s.isValidInode n = true
  listed : ∀ inode, s.inodeAt n = some inode → inode.valid ≠ 0 →
    ∃ lines, s.ls = .ok lines ∧ (n, inode.size) ∈ lines

/-- No inode is free. -/
def State.IsFull (s : State) : Prop := ∀ n inode, s.inodeAt n = some inode → inode.valid ≠ 0

/-- Some inode below the bound is free. -/
def State.FreeBelow (s : State) (bound : Nat) : Prop :=
  ∃ n < bound, ∃ inode, s.inodeAt n = some inode ∧ inode.valid = 0

/-- `do_create` reports failure only when no inode is free. -/
def State.FailsOnlyWhenFull (s : State) : Prop :=
  ∀ n printed s', doCreate s = .ok (n, printed, s') → Message.createFailed ∈ printed → s.IsFull

/-- `ls` shows the first twenty inodes, which are in the table if it has a block. -/
theorem of_ls (hm : s.Mounted) (hblocks : 1 ≤ s.fs.superBlock.inodeBlocks.toNat) :
    ∃ lines, s.ls = .ok lines
      ∧ ∀ m size, (m, size) ∈ lines
        ↔ m < 20 ∧ ∃ inode, s.inodeAt m = some inode ∧ inode.size = size := by
  have htable : s.fs.superBlock.inodeBlocks.toNat = s.shape.tableBlocks := hm.inodeBlocks
  have hin : ∀ m < 20, ∃ inode, s.inodeAt m = some inode := fun m hmlt =>
    inodeAt_eq_some_of_lt (by unfold inodesPerBlock; omega)
  -- one line for each number, in order; induction on the numbers
  have hlines : ∀ ms : List Nat, (∀ m ∈ ms, m < 20) →
      ∃ lines, (ms.mapM fun inodeNumber => do
          let pInode ← s.getINode inodeNumber
          .ok (inodeNumber, pInode.size) : Except Fault _) = .ok lines
        ∧ ∀ m size, (m, size) ∈ lines
          ↔ m ∈ ms ∧ ∃ inode, s.inodeAt m = some inode ∧ inode.size = size := by
    intro ms
    induction ms with
    | nil => exact fun _ => ⟨[], rfl, fun m size => by simp⟩
    | cons m ms ih =>
      intro hms
      obtain ⟨lines, hrest, hmem⟩ := ih fun m' hm' => hms m' (List.mem_cons_of_mem m hm')
      obtain ⟨inode, hat⟩ := hin m (hms m List.mem_cons_self)
      refine ⟨(m, inode.size) :: lines, ?_, fun m' size => ?_⟩
      · rw [List.mapM_cons, getINode_ok hat, ok_bind, ok_bind, hrest]
        rfl
      · rw [List.mem_cons, hmem, List.mem_cons, Prod.mk.injEq]
        constructor
        · rintro (⟨rfl, rfl⟩ | ⟨hm', hfound⟩)
          · exact ⟨Or.inl rfl, inode, hat, rfl⟩
          · exact ⟨Or.inr hm', hfound⟩
        · rintro ⟨rfl | hm', inode', hat', hsize⟩
          · rw [hat] at hat'
            cases hat'
            exact Or.inl ⟨rfl, hsize.symm⟩
          · exact Or.inr ⟨hm', inode', hat', hsize⟩
  obtain ⟨lines, hls, hmem⟩ := hlines (List.range 20) fun m hm' => List.mem_range.mp hm'
  refine ⟨lines, hls, fun m size => ?_⟩
  rw [hmem, List.mem_range]

/-- The inode that is free first is below the bound if any is. -/
theorem freeBelow_iff {bound : Nat} (hat : s.inodeAt n = some inode) (hvalid : inode.valid = 0)
    (hbefore : ∀ m inode', m < n → s.inodeAt m = some inode' → inode'.valid ≠ 0) :
    s.FreeBelow bound ↔ n < bound := by
  constructor
  · rintro ⟨m, hm, inode', hat', hvalid'⟩
    by_contra hn
    exact hbefore m inode' (by omega) hat' hvalid'
  · exact fun hn => ⟨n, hn, inode, hat, hvalid⟩

/-- A free inode is refused if all those below the number of inode blocks are in use. -/
theorem failsOnlyWhenFull_iff (hm : s.Mounted) :
    s.FailsOnlyWhenFull ↔ s.IsFull ∨ s.FreeBelow s.fs.superBlock.inodeBlocks.toNat := by
  rcases of_create hm with ⟨n, inode, hcreate, hat, hvalid, -, hbefore⟩ | ⟨-, hfull⟩
  · have hcommand := doCreate_created hm created_shape hcreate
    have hnot : ¬ s.IsFull := fun hfull => hfull n inode hat hvalid
    rw [or_iff_right hnot, freeBelow_iff hat hvalid hbefore]
    constructor
    · intro h
      by_contra hn
      rw [if_neg hn] at hcommand
      exact hnot (h _ _ _ hcommand (List.mem_singleton_self _))
    · intro hn n' printed s' hcommand' hmem
      rw [hcommand, if_pos hn] at hcommand'
      cases hcommand'
      cases List.mem_singleton.mp hmem
  · exact iff_of_true (fun _ _ _ _ _ => hfull) (Or.inl hfull)

/-- **Headline.** In every mounted state with inode blocks: an inode of the table is usable exactly
if its number is below the number of inode blocks, and below twenty while it is valid. So not all
are, and `do_create` fails only when the table is full exactly if it is full or an inode below the
number of inode blocks is free. `ls` stays in the table. -/
theorem usable_iff (hm : s.Mounted) (hblocks : 1 ≤ s.fs.superBlock.inodeBlocks.toNat) :
    (∀ n < s.fs.superBlock.inodeBlocks.toNat * inodesPerBlock,
        (s.Usable n ↔ n < s.fs.superBlock.inodeBlocks.toNat
          ∧ (n < 20 ∨ ∀ inode, s.inodeAt n = some inode → inode.valid = 0)))
      ∧ (¬ ∀ n < s.fs.superBlock.inodeBlocks.toNat * inodesPerBlock, s.Usable n)
      ∧ (s.FailsOnlyWhenFull ↔ s.IsFull ∨ s.FreeBelow s.fs.superBlock.inodeBlocks.toNat)
      ∧ ∃ lines, s.ls = .ok lines := by
  obtain ⟨lines, hls, hmem⟩ := of_ls hm hblocks
  refine ⟨fun n _ => ⟨fun h => ⟨(isValidInode_iff hm).mp h.accepted, ?_⟩, fun ⟨hn, hlisted⟩ =>
    ⟨(isValidInode_iff hm).mpr hn, fun inode hat hvalid => ⟨lines, hls, ?_⟩⟩⟩, fun hall => ?_,
    failsOnlyWhenFull_iff hm, lines, hls⟩
  · -- a valid inode from `20` on has no line
    by_contra hout
    obtain ⟨hge, hvalid⟩ := not_or.mp hout
    refine hvalid fun inode hat => ?_
    by_contra hne
    obtain ⟨lines', hls', hline⟩ := h.listed inode hat hne
    rw [hls] at hls'
    cases hls'
    exact hge ((hmem n inode.size).mp hline).1
  · refine (hmem n inode.size).mpr ⟨hlisted.resolve_right fun hzero => hvalid (hzero inode hat),
      inode, hat, rfl⟩
  · -- the number of inode blocks is itself the number of an inode
    have hin : s.fs.superBlock.inodeBlocks.toNat
        < s.fs.superBlock.inodeBlocks.toNat * inodesPerBlock := by
      unfold inodesPerBlock
      omega
    exact Nat.lt_irrefl _ ((isValidInode_iff hm).mp (hall _ hin).accepted)

/-- On the small disk inode `0` is usable. -/
theorem usable_first_inode : ∃ s₀, (State.start 4 (smallImage 1)).mount = .ok (true, s₀)
    ∧ s₀.Usable 0 := by
  obtain ⟨s₀, hmount, hismount⟩ := smallDisk_mount 4 (by decide) (by decide) 1
  have hblocks : s₀.fs.superBlock.inodeBlocks.toNat = 1 :=
    hismount.mounted.inodeBlocks.trans (smallDisk_mounted hismount).1
  have husable := (usable_iff hismount.mounted (by rw [hblocks])).1 0 (by rw [hblocks]; decide)
  exact ⟨s₀, hmount, husable.mpr ⟨by rw [hblocks]; decide, Or.inl (by decide)⟩⟩

/-- **The defect**: inode `1` of the small disk is free, `create` takes it, and `do_create` reports
failure. -/
theorem create_rejected : ∃ s₀ inode s', (State.start 4 (smallImage 1)).mount = .ok (true, s₀)
    ∧ s₀.inodeAt 1 = some inode ∧ inode.valid = 0 ∧ ¬ s₀.isValidInode 1 = true
    ∧ doCreate s₀ = .ok (1, [.createFailed], s') := by
  obtain ⟨s₀, hmount, hismount⟩ := smallDisk_mount 4 (by decide) (by decide) 1
  obtain ⟨htable, -⟩ := smallDisk_mounted hismount
  have hm := hismount.mounted
  have hblocks : s₀.fs.superBlock.inodeBlocks.toNat = 1 := hm.inodeBlocks.trans htable
  have hat : ∀ n < 128, s₀.inodeAt n = some (imageInode (smallDisk 4 1) n) := fun n hn =>
    hismount.inodeAt (by rw [htable]; exact hn)
  have hfirst : (imageInode (smallDisk 4 1) 0).valid ≠ 0 := by decide
  have hsecond : (imageInode (smallDisk 4 1) 1).valid = 0 := by decide
  rcases of_create hm with ⟨n, inode, hcreate, hat', hvalid, -, hbefore⟩ | ⟨-, hfull⟩
  · -- inode `0` is valid, so `create` comes to inode `1`
    have hn : n = 1 := by
      have hle : n ≤ 1 := Nat.le_of_not_lt fun hlt =>
        hbefore 1 _ hlt (hat 1 (by decide)) hsecond
      have hpos : n ≠ 0 := by
        rintro rfl
        rw [hat 0 (by decide)] at hat'
        cases hat'
        exact hfirst hvalid
      omega
    subst hn
    have hcommand := doCreate_created hm created_shape hcreate
    rw [hblocks, if_neg (by decide)] at hcommand
    -- `1` is not below the number of inode blocks
    refine ⟨s₀, inode, _, hmount, hat', hvalid, fun haccepted => ?_, hcommand⟩
    rw [isValidInode_iff hm, hblocks] at haccepted
    exact Nat.lt_irrefl 1 haccepted
  · exact absurd hsecond (hfull 1 _ (hat 1 (by decide)))

end OsLab.Sfs
