import OsLab.Lib.WriteBack
import OsLab.Sfs.Session

/-!
# OsLab.Sfs.Persistence — what survives an exit

The inode table in memory is a write-back cache of the inode blocks: `~FileSystem` writes the
blocks flagged dirty. `create` sets the flag; `write` and `updateSize` rely on it; `remove`
changes an inode without setting it.

* **`Synced`**: the table is coherent with the disk. It holds after a mount
  (`IsMount.synced`), `copyin` keeps it (`doCopyin_synced`), and `remove` keeps it where its
  block is dirty already or its inode was blank (`remove_synced`).
* **`Synced.remount`**: a new `FileSystem` reads back a coherent table.
* **`persistence`** is the headline; in `removed_inode_returns` a file that was removed is back
  after the next mount.
-/

namespace OsLab.Sfs

open Fallible WriteBack

namespace State

variable {s s' : State} {n : Nat}

/-! ## Coherence

The table in memory and the inode blocks on the disk. Where a block is not flagged the two are the
same, and where it is flagged the exit makes them so. -/

/-- The inode of a number on the disk, `none` outside the table. -/
def imageAt (disk : Disk) (tableBlocks n : Nat) : Option Inode :=
  if n < tableBlocks * inodesPerBlock then some (imageInode disk n) else none

/-- The flag of the block an inode is in. -/
abbrev inDirtyBlock (s : State) (n : Nat) : Bool := s.isDirty (n / inodesPerBlock)

structure Synced (s : State) : Prop where
  mounted : s.Mounted
  superBlock : s.shape.superBlock = decodeSuper (s.disk.blockAt 0)
  table : Coherent (imageAt s.disk s.shape.tableBlocks) s.inodeAt s.inDirtyBlock

/-- The table on the disk lies in its first blocks. -/
theorem imageAt_congr {disk disk' : Disk} {tableBlocks : Nat}
    (h : ∀ b ≤ tableBlocks, disk'.blockAt b = disk.blockAt b) (n : Nat) :
    imageAt disk' tableBlocks n = imageAt disk tableBlocks n := by
  unfold imageAt
  split
  · next hn =>
    have hblock : n / inodesPerBlock < tableBlocks := (Nat.div_lt_iff_lt_mul (by decide)).mpr hn
    rw [imageInode, imageInode, h _ hblock]
  · rfl

/-- **A step** that leaves the inode blocks on the disk and flags what it changes. -/
theorem Synced.step (h : s.Synced) (hshape : s'.shape = s.shape)
    (hdisk : ∀ b ≤ s.shape.tableBlocks, s'.disk.blockAt b = s.disk.blockAt b)
    (hdirty : ∀ i, s.isDirty i = true → s'.isDirty i = true)
    (htable : ∀ m, s'.inDirtyBlock m = true ∨ s'.inodeAt m = s.inodeAt m) : s'.Synced where
  mounted := h.mounted.of_shape hshape
  superBlock := by
    rw [hshape, hdisk 0 (Nat.zero_le _)]
    exact h.superBlock
  table := by
    rw [hshape]
    exact h.table.step (imageAt_congr hdisk) (fun m => hdirty _) htable

/-- **After a mount.** -/
theorem IsMount.synced {s₀ : State} (h : IsMount s₀ s) : s.Synced where
  mounted := h.mounted
  superBlock := by
    rw [h.disk]
    exact h.superBlock
  table := Coherent.of_load fun n => by
    rw [h.disk]
    by_cases hn : n < s.shape.tableBlocks * inodesPerBlock
    · rw [h.inodeAt hn, imageAt, if_pos hn]
      rfl
    · rw [inodeAt_eq_none hn, imageAt, if_neg hn]

/-! ## Calls

A call that changes an inode must find its block flagged or flag it. `create` flags it, `write` and
`updateSize` come after a `create`, and `remove` does not care. -/

/-- `create` flags the block of the inode it takes. -/
theorem created_synced (hs : s.Synced) {inode : Inode} (hat : s.inodeAt n = some inode) :
    (s.created n inode).Synced ∧ (s.created n inode).inDirtyBlock n = true := by
  have hlt : n / inodesPerBlock < s.shape.dirtyBlocks := by
    rw [hs.mounted.dirtyBlocks]
    exact (Nat.div_lt_iff_lt_mul (by decide)).mpr (lt_of_inodeAt hat)
  have hflag : ∀ i, (s.created n inode).isDirty i
      = (decide (i = n / inodesPerBlock) || s.isDirty i) := fun i => by
    rw [created, setDirty_isDirty (by rw [setINode_shape]; exact hlt), setINode_isDirty]
  refine ⟨hs.step created_shape (fun _ _ => rfl) (fun i hi => ?_) (fun m => ?_), ?_⟩
  · rw [hflag, hi, Bool.or_true]
  · by_cases hmn : m = n
    · exact Or.inl (by rw [inDirtyBlock, hflag, hmn, decide_eq_true rfl, Bool.true_or])
    · exact Or.inr (created_inodeAt_of_ne hmn)
  · rw [inDirtyBlock, hflag, decide_eq_true rfl, Bool.true_or]

/-- A write to an inode in a flagged block. -/
theorem write_synced (hs : s.Synced) (hdirty : s.inDirtyBlock n = true) {data : Block}
    {length offset total : Nat} (h : s.write n data length offset = .ok (total, s')) :
    s'.Synced ∧ s'.inDirtyBlock n = true := by
  have hothers := (write_inodeAt hs.mounted h).1
  have hshape := write_shape hs.mounted h
  have htables : ∀ b ≤ s.shape.tableBlocks, s'.disk.blockAt b = s.disk.blockAt b :=
    fun b => write_tables hs.mounted h
  have hdirty' : ∀ i, s'.isDirty i = s.isDirty i := write_isDirty hs.mounted h
  refine ⟨hs.step hshape htables (fun i hi => (hdirty' i).trans hi) fun m => ?_,
    (hdirty' _).trans hdirty⟩
  by_cases hmn : m = n
  · subst hmn
    exact Or.inl ((hdirty' _).trans hdirty)
  · exact Or.inr (hothers m hmn)

theorem updateSize_synced (hs : s.Synced) (hdirty : s.inDirtyBlock n = true) {size : Nat}
    (h : s.updateSize n size = .ok s') : s'.Synced ∧ s'.inDirtyBlock n = true := by
  obtain ⟨inode, hat, rfl⟩ := of_updateSize h
  refine ⟨hs.step setINode_shape (fun _ _ => rfl) (fun i hi => hi) (fun m => ?_), hdirty⟩
  by_cases hmn : m = n
  · subst hmn
    exact Or.inl hdirty
  · exact Or.inr (setINode_inodeAt_of_ne hmn)

theorem read_synced (hs : s.Synced) {data data' : Block} {length offset total : Nat}
    (h : s.read n data length offset = .ok (total, data', s')) : s'.Synced := by
  obtain ⟨inode, -, ⟨-, -, -, -, rfl, -⟩ | ⟨-, -, -, rfl⟩⟩ := of_read h
  · exact hs.step mark_shape (fun _ _ => rfl) (fun _ hi => hi) fun _ => Or.inr rfl
  · exact hs

/-- When a `remove` of inode `n` is safe: its block is dirty, or there is nothing to clear. -/
def RemoveIsSaved (s : State) (n : Nat) : Prop :=
  s.inDirtyBlock n = true ∨ ∀ inode, s.inodeAt n = some inode → clear inode = inode

/-- A `remove` in a flagged block, or of an inode that is blank already. -/
theorem remove_synced (hs : s.Synced) (hsaved : s.RemoveIsSaved n) {r : Bool}
    (h : s.remove n = .ok (r, s')) : s'.Synced := by
  obtain ⟨-, inode, hat, hshape, hdisk, hdirty, hself, hothers, -⟩ := of_remove h
  refine hs.step hshape (fun b _ => by rw [hdisk]) (fun i hi => (hdirty i).trans hi) (fun m => ?_)
  by_cases hmn : m = n
  · subst hmn
    rcases hsaved with hflag | hblank
    · exact Or.inl ((hdirty _).trans hflag)
    · exact Or.inr (by rw [hself, hat, hblank inode hat])
  · exact Or.inr (hothers m hmn)

/-! ## Remounting

A new `FileSystem` reads the table from the disk. After the exit of a coherent one it gets the table
that was in memory. -/

/-- A new `FileSystem` on the disk. `mounts` is what the disk counts: `0` in a new process. -/
def reopen (disk : Disk) (mounts : Nat) : State := { disk := { disk with mounts }, fs := .init }

/-- **The next mount** reads back the table, if it was coherent at the exit. -/
theorem Synced.remount (hs : s.Synced) {disk' : Disk} (hexit : s.destroy = .ok disk') {mounts : Nat}
    (hmount : IsMount (reopen disk' mounts) s') (n : Nat) : s'.inodeAt n = s.inodeAt n := by
  obtain ⟨disk₁, hdestroy, -, -, hzero, hblocks⟩ := destroy_spec hs.mounted
  rw [hexit] at hdestroy
  cases hdestroy
  have htable : s'.shape.tableBlocks = s.shape.tableBlocks := by
    have hsuper : s'.fs.superBlock = s.fs.superBlock :=
      hmount.superBlock.trans ((congrArg decodeSuper hzero).trans hs.superBlock.symm)
    rw [← hmount.mounted.inodeBlocks, ← hs.mounted.inodeBlocks]
    exact congrArg (fun super => super.inodeBlocks.toNat) hsuper
  -- the exit has written the dirty blocks
  have hflush : ∀ m, imageAt disk' s.shape.tableBlocks m
      = if s.inDirtyBlock m then s.inodeAt m else imageAt s.disk s.shape.tableBlocks m := by
    intro m
    by_cases hm : m < s.shape.tableBlocks * inodesPerBlock
    · have hlt : m / inodesPerBlock < s.fs.inodeBlocks.length :=
        (Nat.div_lt_iff_lt_mul (by decide)).mpr hm
      have hblock := List.getElem?_eq_getElem hlt
      generalize s.fs.inodeBlocks[m / inodesPerBlock] = block at hblock
      have hread := hblocks _ block hblock
      rw [imageAt, if_pos hm, imageAt, if_pos hm, imageInode, hread, inodeAt, hblock, Option.map_some,
        inDirtyBlock]
      split
      · rw [decodeInodes_encodeInodes]
      · rfl
    · rw [imageAt, if_neg hm, imageAt, if_neg hm, inodeAt_eq_none hm, ite_self]
  by_cases hn : n < s'.shape.tableBlocks * inodesPerBlock
  · rw [← hs.table.flush hflush n, hmount.inodeAt hn, imageAt, if_pos (htable ▸ hn)]
    rfl
  · rw [inodeAt_eq_none hn, inodeAt_eq_none (htable ▸ hn)]

end State

open State

variable {s s' : State} {n : Nat}

/-! ## Commands

Of the commands, `copyin` flags the block of its inode at once, so all that follows is written back.
`remove` is left. -/

/-- `copyin`, whether it fails or not. -/
theorem doCopyin_synced (hs : s.Synced) {source : Option (List UInt8)} {printed : List Message}
    (h : doCopyin s source = .ok (n, printed, s')) :
    s'.Synced ∧ (Message.copyinFailed ∉ printed → s'.inDirtyBlock n = true) := by
  rcases of_doCopyin hs.mounted h with
    ⟨inode, hat, -, -, ⟨rfl, -⟩ | ⟨stream, offset, more, s₁, -, hloop, hsize, -⟩⟩ | ⟨rfl, hfailed, -⟩
  · obtain ⟨hs', hdirty⟩ := created_synced hs hat
    exact ⟨hs', fun _ => hdirty⟩
  · obtain ⟨rest, ⟨hs₁, hdirty⟩, -⟩ := copyinLoop_rule
      (Q := fun s _ _ => s.Synced ∧ s.inDirtyBlock n = true) (fun hs => hs.1.mounted)
      (fun hs _ _ hwrite => write_synced hs.1 hs.2 hwrite) stream (created_synced hs hat) hloop
    obtain ⟨hs', hdirty'⟩ := updateSize_synced hs₁ hdirty hsize
    exact ⟨hs', fun _ => hdirty'⟩
  · exact ⟨hs, fun hsuccess => absurd hfailed hsuccess⟩

/-- The condition on a command: a `remove` has to be saved. -/
def State.IsSaved (s : State) : Command → Prop
  | .remove n => s.RemoveIsSaved n
  | _ => True

theorem exec_synced (hs : s.Synced) {command : Command} (hfile : command.isFile = true)
    (hsaved : s.IsSaved command) {printed : List Message}
    (h : exec s command = .ok (printed, s')) : s'.Synced := by
  rcases of_exec hs.mounted hfile h with
    ⟨_, _, -, hcopyin⟩ | ⟨_, rfl, hremove⟩ | ⟨_, _, _, hcopyout⟩ | rfl
  · exact (doCopyin_synced hs hcopyin).1
  · exact remove_synced hs hsaved hremove
  · exact (copyoutLoop_rule (P := Synced) (fun hs hread => read_synced hs hread)
      _ rfl rfl hs hcopyout).1
  · exact hs

/-- A session whose steps all meet the condition. -/
def State.AllSaved (s : State) : List Command → Prop
  | [] => True
  | command :: rest => s.IsSaved command
      ∧ ∀ printed s', exec s command = .ok (printed, s') → s'.AllSaved rest

/-- Commands that are all saved, each in the state it comes to. -/
theorem execAll_synced {commands : List Command} :
    ∀ {s s' : State}, (∀ command ∈ commands, command.isFile = true) → s.AllSaved commands →
      s.Synced → execAll s commands = .ok s' → s'.Synced := by
  induction commands with
  | nil =>
    intro s s' _ _ hs h
    cases h
    exact hs
  | cons command rest ih =>
    intro s s' hfile hsaved hs h
    obtain ⟨⟨printed, s₁⟩, hexec, h⟩ := of_bind_eq_ok h
    have hs₁ := exec_synced hs (hfile command List.mem_cons_self) hsaved.1 hexec
    exact ih (fun c hmem => hfile c (List.mem_cons_of_mem command hmem))
      (hsaved.2 printed s₁ hexec) hs₁ h

/-! ## The headline

What is in memory at the exit is there again after the next mount, on a disk that can be mounted. -/

/-- **Headline.** A session of commands on files after a mount, every `remove` saved: the exit
returns, and whatever mounts the disk next has the inode table of the exit. On a disk the
bitmap covers, the next mount is accepted. -/
theorem persistence {blocks : UInt32} {image : Bytes.Image} {s₀ : State} {commands : List Command}
    (hmount : (State.start blocks image).mount = .ok (true, s₀))
    (hfile : ∀ command ∈ commands, command.isFile = true) (hsaved : s₀.AllSaved commands)
    (hrun : execAll s₀ commands = .ok s) (mounts : Nat) :
    ∃ disk', s.destroy = .ok disk'
      ∧ (disk'.size.toNat ≤ 4096 → ∃ s', (reopen disk' mounts).mount = .ok (true, s'))
      ∧ ∀ s', (reopen disk' mounts).mount = .ok (true, s') →
        (∀ n, s'.inodeAt n = s.inodeAt n)
          ∧ ∀ b, (∃ slot, s'.Holds slot b) ↔ ∃ slot, s.Holds slot b := by
  have hismount := (of_mount hmount).2
  have hs := execAll_synced hfile hsaved hismount.synced hrun
  obtain ⟨disk', hexit, hblocks, -, hzero, -⟩ := destroy_spec hs.mounted
  refine ⟨disk', hexit, fun hsmall => ?_, fun s' hremount => ?_⟩
  · -- the superblock has not been written, so the table fits as before
    have hfits : (decodeSuper (disk'.blockAt 0)).inodeBlocks.toNat + 1 ≤ disk'.size.toNat := by
      have hsize := hs.mounted.fits
      rw [hs.mounted.size_eq] at hsize
      have htable := hs.mounted.inodeBlocks
      have hblocks' : disk'.size.toNat = s.shape.blocks.toNat := congrArg UInt32.toNat hblocks
      rw [hzero, ← hs.superBlock, htable, hblocks']
      omega
    obtain ⟨s', hremount, -⟩ := mount_ok (s := reopen disk' mounts) hfits hsmall
    exact ⟨s', hremount⟩
  · have htable := hs.remount hexit (of_mount hremount).2
    refine ⟨htable, fun b => ?_⟩
    simp only [Holds, htable]

/-- A file copied in, then removed: the flag `create` has set saves both. -/
theorem persistence_copyin_remove : ∃ s₀ s disk',
    (State.start 4 (smallImage 0)).mount = .ok (true, s₀)
      ∧ execAll s₀ [.copyin (some [65]), .remove 0] = .ok s ∧ s.destroy = .ok disk'
      ∧ ∀ s', (reopen disk' 0).mount = .ok (true, s') → ∀ n, s'.inodeAt n = s.inodeAt n := by
  obtain ⟨s₀, printed, s₁, s, hmount, hcopyin, hsuccess, -, hrun⟩ := smallDisk_copyin_remove
  have hsaved : s₀.AllSaved [.copyin (some [65]), .remove 0] := by
    refine ⟨trivial, fun printed' s' hexec => ⟨Or.inl ?_, fun _ _ _ => trivial⟩⟩
    simp only [exec, hcopyin, ok_bind] at hexec
    cases hexec
    exact (doCopyin_synced (of_mount hmount).2.synced hcopyin).2 hsuccess
  obtain ⟨disk', hexit, -, htable⟩ := persistence hmount (by decide) hsaved hrun 0
  exact ⟨s₀, s, disk', hmount, hrun, hexit, fun s' hremount => (htable s' hremount).1⟩

/-- **The defect**, on a disk with one empty file, in inode `0`: it is mounted, the file is
removed, and the session ends. After the next mount inode `0` is valid. -/
theorem removed_inode_returns : ∃ s₀ s disk' s',
    (State.start 4 (smallImage 1)).mount = .ok (true, s₀) ∧ execAll s₀ [.remove 0] = .ok s
      ∧ s.destroy = .ok disk' ∧ (reopen disk' 0).mount = .ok (true, s')
      ∧ s'.inodeAt 0 ≠ s.inodeAt 0 := by
  have hclean : CleanImage (State.start 4 (smallImage 1)).disk :=
    smallDisk_clean (by decide) (by decide) 1
  obtain ⟨s₀, hmount, hismount⟩ := mount_ok hclean.fits hclean.small
  have hm := hismount.mounted
  have htable := (smallDisk_mounted hismount).1
  obtain ⟨s, hremove⟩ := smallDisk_remove hismount (by decide) rfl (n := 0) (by decide)
  have hrun : execAll s₀ [.remove 0] = .ok s := by
    simp only [execAll, exec, ok_bind, doRemove, Mounted.isDiskMounted hm, hremove, if_true]
  obtain ⟨-, inode', -, hshape, hdisk, hdirty, hself, -, -⟩ := of_remove hremove
  have hm' : s.Mounted := hm.of_shape hshape
  obtain ⟨disk', hexit, hblocks, -, hzero, hentries⟩ := destroy_spec hm'
  -- block 1 is not dirty, so the disk still has the inode as it was mounted
  have hone : disk'.blockAt 1 = (smallDisk 4 1).blockAt 1 := by
    have hlt : 0 < s.fs.inodeBlocks.length := by
      show 0 < s.shape.tableBlocks
      rw [hshape, htable]
      decide
    have hentry := hentries 0 _ (List.getElem?_eq_getElem hlt)
    rw [hdirty, hismount.clean 0, hdisk, hismount.disk] at hentry
    exact hentry
  have hzero' : disk'.blockAt 0 = (smallDisk 4 1).blockAt 0 := by
    rw [hzero, hdisk, hismount.disk]
    rfl
  have hsize : disk'.size = 4 := by
    show disk'.blocks = 4
    rw [hblocks, hdisk, hismount.disk]
    rfl
  obtain ⟨s', hremount, hismount'⟩ := mount_ok (s := reopen disk' 0)
    (by
      show (decodeSuper (disk'.blockAt 0)).inodeBlocks.toNat + 1 ≤ disk'.size.toNat
      rw [hzero', hsize, smallDisk_inodeBlocks]
      decide)
    (by
      show disk'.size.toNat ≤ 4096
      rw [hsize]
      decide)
  refine ⟨s₀, s, disk', s', hmount, hrun, hexit, hremount, fun heq => ?_⟩
  have hat' := hismount'.inodeAt (n := 0) (by
    rw [← hismount'.mounted.inodeBlocks]
    show 0 < s'.fs.superBlock.inodeBlocks.toNat * inodesPerBlock
    have hsuper : s'.fs.superBlock = decodeSuper (disk'.blockAt 0) := hismount'.superBlock
    rw [hsuper, hzero', smallDisk_inodeBlocks]
    decide)
  have hvalid : (imageInode (reopen disk' 0).disk 0).valid = 1 := by
    show (decodeInodes (disk'.blockAt 1) 0).valid = 1
    rw [hone]
    rfl
  rw [heq, hself] at hat'
  rw [← Option.some.inj hat'] at hvalid
  cases hvalid

end OsLab.Sfs
