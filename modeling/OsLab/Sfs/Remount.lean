import OsLab.Sfs.Persistence
import OsLab.Sfs.Secrecy

/-!
# OsLab.Sfs.Remount — mounting twice

`mount` does not look whether the disk is mounted. It reads the inode table again, over the one
in memory, and keeps the bitmap.

* **`exec_tables`**: no command on files writes to the superblock or the inode blocks, so what a
  second `mount` reads is what the first has read, and it returns (`mount_again`).
* **`losesNothing_iff`** is the headline: when nothing is lost; in `remount_loses` a file is.
-/

namespace OsLab.Sfs

open Fallible State

variable {s s' t t' : State} {n : Nat} {printed : List Message}

/-! ## The inode blocks on the disk

The table in memory is written back by the destructor only. Up to then the inode blocks on the disk
are those of the image. -/

/-- A `copyin` writes to the data blocks that the allocator gives out. -/
theorem doCopyin_tables (hm : s.Mounted) {source : Option (List UInt8)}
    (h : doCopyin s source = .ok (n, printed, s')) {b : Nat} (hb : b ≤ s.shape.tableBlocks) :
    s'.disk.blockAt b = s.disk.blockAt b := by
  rcases of_doCopyin hm h with
    ⟨inode, hat, -, -, ⟨rfl, -⟩ | ⟨stream, offset, more, s₁, -, hloop, hsize, -⟩⟩ | ⟨rfl, -⟩
  · rfl
  · obtain ⟨rest, ⟨-, hdisk⟩, -⟩ := copyinLoop_rule
      (Q := fun s₁ _ _ => s₁.shape = s.shape ∧ s₁.disk.blockAt b = s.disk.blockAt b)
      (fun hQ => hm.of_shape hQ.1)
      (fun {s₁ s₂ _ _ _} hQ _ _ hwrite => by
        have hm₁ := hm.of_shape hQ.1
        have hb₁ : b ≤ s₁.shape.tableBlocks := by
          rw [hQ.1]
          exact hb
        exact ⟨(write_shape hm₁ hwrite).trans hQ.1, (write_tables hm₁ hwrite hb₁).trans hQ.2⟩)
      stream ⟨created_shape, rfl⟩ hloop
    obtain ⟨inode', -, rfl⟩ := of_updateSize hsize
    exact hdisk
  · rfl

/-- **A command on files** writes to data blocks only. -/
theorem exec_tables (hm : s.Mounted) {command : Command} (hfile : command.isFile = true)
    (h : exec s command = .ok (printed, s')) {b : Nat} (hb : b ≤ s.shape.tableBlocks) :
    s'.disk.blockAt b = s.disk.blockAt b := by
  rcases of_exec hm hfile h with ⟨_, _, -, hcopyin⟩ | ⟨_, -, hremove⟩ | ⟨_, _, _, hcopyout⟩ | rfl
  · exact doCopyin_tables hm hcopyin hb
  · obtain ⟨-, _, -, -, hdisk, -⟩ := of_remove hremove
    rw [hdisk]
  · refine (copyoutLoop_rule (P := fun s₁ => s₁.disk.blockAt b = s.disk.blockAt b)
      (fun hdisk hread => ?_) _ rfl rfl rfl hcopyout).1
    obtain ⟨_, -, ⟨-, -, -, -, rfl, -⟩ | ⟨-, -, -, rfl⟩⟩ := of_read hread
    · exact hdisk
    · exact hdisk
  · rfl

/-- So after any commands on files the inode blocks are as they were. -/
theorem execAll_tables (hm : s.Mounted) {commands : List Command}
    (hfile : ∀ command ∈ commands, command.isFile = true) (hrun : execAll s commands = .ok s') :
    s'.shape = s.shape ∧ ∀ b ≤ s.shape.tableBlocks, s'.disk.blockAt b = s.disk.blockAt b := by
  refine execAll_keeps (P := fun s₁ => s₁.shape = s.shape
      ∧ ∀ b ≤ s.shape.tableBlocks, s₁.disk.blockAt b = s.disk.blockAt b)
    (fun {s₁ s₂ command _} hmem ⟨hshape, hdisk⟩ hexec => ?_) ⟨rfl, fun _ _ => rfl⟩ hrun
  have hm₁ := hm.of_shape hshape
  refine ⟨(exec_shape hm₁ (hfile command hmem) hexec).trans hshape, fun b hb => ?_⟩
  have hb₁ : b ≤ s₁.shape.tableBlocks := by
    rw [hshape]
    exact hb
  exact (exec_tables hm₁ (hfile command hmem) hexec hb₁).trans (hdisk b hb)

/-! ## A second mount

`mount` throws where a valid inode points to a data block without an entry in the bitmap. A second
one meets the pointers that the first one has met. -/

/-- What a round of `mount` depends on: the data region, and the inode blocks up to `last`. -/
structure ReadsAlike (last : Nat) (s t : State) : Prop where
  diskSet : t.fs.diskSet = true
  blocks : t.disk.blocks = s.disk.blocks
  firstDataBlock : t.fs.firstDataBlock = s.fs.firstDataBlock
  tables : ∀ b ≤ last, t.disk.blockAt b = s.disk.blockAt b

variable {last : Nat}

/-- A mark that returns in the one returns in the other, so do the marks of an inode, and those of
an inode block. -/
theorem ReadsAlike.setBlockFreeStatus (h : ReadsAlike last s t) {p : UInt32} {free : Bool}
    (hmark : s.setBlockFreeStatus p free = .ok s') :
    ∃ t', t.setBlockFreeStatus p free = .ok t' ∧ ReadsAlike last s' t' := by
  obtain ⟨rfl, hlt⟩ := setBlockFreeStatus_eq hmark
  have hdata : t.IsDataBlock p.toNat ↔ s.IsDataBlock p.toNat := by
    show t.fs.firstDataBlock ≤ _ ∧ _ < t.disk.blocks.toNat ↔ _
    rw [h.firstDataBlock, h.blocks]
    rfl
  exact ⟨_, setBlockFreeStatus_ok h.diskSet fun hd => hlt (hdata.mp hd), h.diskSet, h.blocks,
    h.firstDataBlock, h.tables⟩

theorem ReadsAlike.markInode (h : ReadsAlike last s t) {inode : Inode}
    (hmark : s.markInode inode = .ok s') : ∃ t', t.markInode inode = .ok t' ∧ ReadsAlike last s' t' :=
  foldlM_follows (fun _ hR hround => hR.setBlockFreeStatus hround) h hmark

theorem ReadsAlike.mountBlock (h : ReadsAlike last s t) {i : Nat} (hi : i + 1 ≤ last)
    (hblock : s.mountBlock i = .ok s') : ∃ t', t.mountBlock i = .ok t' ∧ ReadsAlike last s' t' := by
  unfold State.mountBlock at hblock ⊢
  obtain ⟨⟨total, data⟩, hread, hblock⟩ := of_bind_eq_ok hblock
  have hlt := Disk.lt_of_read_ok hread
  rw [Disk.read_ok hlt] at hread
  cases hread
  rw [Disk.read_ok (by rw [h.blocks]; exact hlt), h.tables _ hi, ok_bind]
  dsimp only at hblock ⊢
  refine foldlM_follows (R := ReadsAlike last) (fun {s₁ s₂ t₁ j} _ hR hround => ?_) ?_ hblock
  · split at hround
    · next hvalid =>
      rw [if_pos hvalid]
      exact hR.markInode hround
    · next hvalid =>
      cases hround
      rw [if_neg hvalid]
      exact ⟨t₁, rfl, hR⟩
  · exact ⟨h.diskSet, h.blocks, h.firstDataBlock, h.tables⟩

/-- **A second mount** of a disk with the same superblock and inode blocks returns as well. -/
theorem mount_again (hblocks : t.disk.blocks = s.disk.blocks)
    (htables : ∀ b ≤ (decodeSuper (s.disk.blockAt 0)).inodeBlocks.toNat,
      t.disk.blockAt b = s.disk.blockAt b)
    (h : s.mount = .ok (true, s')) : ∃ t', t.mount = .ok (true, t') := by
  unfold State.mount at h ⊢
  obtain ⟨⟨total, data⟩, hread, h⟩ := of_bind_eq_ok h
  have hzero : ((0 : Nat) : Int) < asInt s.disk.blocks := Disk.lt_of_read_ok hread
  have hdata : s.disk.read 0 = .ok (blockSize, s.disk.blockAt 0) := Disk.read_ok hzero
  have hdata' : t.disk.read 0 = .ok (blockSize, t.disk.blockAt 0) :=
    Disk.read_ok (b := 0) (by rw [hblocks]; exact hzero)
  rw [hdata] at hread
  cases hread
  rw [hdata', htables 0 (Nat.zero_le _), ok_bind]
  dsimp only at h ⊢
  split at h
  · cases h
  · next halloc =>
    obtain ⟨s₁, hloop, h⟩ := of_bind_eq_ok h
    rw [if_neg halloc]
    generalize (decodeSuper (s.disk.blockAt 0)).inodeBlocks.toNat = last at *
    -- the two start with different bitmaps, and no round reads one
    generalize hfs : FileSystem.mk true _ _ [] _ _ = fs
    obtain ⟨t₁, hloop', -⟩ : ∃ t₁, (List.range last).foldlM mountBlock { disk := t.disk.mount, fs }
        = .ok t₁ ∧ ReadsAlike last s₁ t₁ := by
      refine foldlM_follows (fun hmem hR hblock => hR.mountBlock (List.mem_range.mp hmem) hblock) ?_
        hloop
      exact ⟨by rw [← hfs], hblocks, by rw [← hfs], htables⟩
    rw [hloop']
    exact ⟨t₁, rfl⟩

/-! ## What a second mount loses

What is in memory is replaced by what is on the disk. That is a loss where the two differ, and where
a block stays marked that nothing points to. -/

/-- What a mount should keep of an inode: `Valid`, `Size` and `Direct`. -/
def Inode.file (inode : Inode) : UInt32 × UInt32 × (Fin 5 → UInt32) :=
  (inode.valid, inode.size, inode.direct)

/-- All inodes are as before. -/
def SameInodes (s s' : State) : Prop :=
  ∀ n, (s'.inodeAt n).map Inode.file = (s.inodeAt n).map Inode.file

/-- A data block, if the bitmap has an entry for it, is marked used exactly if a valid inode
points to it. -/
def State.UsedIsHeld (s : State) : Prop :=
  ∀ b < 4096, s.IsDataBlock b → (s.isFree b = false ↔ ∃ slot, s.Holds slot b)

/-- A `mount` is refused and changes nothing, or it loses nothing. -/
def State.LosesNothing (s : State) : Prop :=
  ∃ printed s', doMount s = .ok (printed, s')
    ∧ (printed = [.mountFailed] ∧ s' = s ∨ SameInodes s s' ∧ s'.UsedIsHeld)

/-- The condition: the table is the one on the disk, and every data block marked used is held by
a valid inode. -/
structure State.Saved (s : State) : Prop where
  table : ∀ n inode, s.inodeAt n = some inode → (imageInode s.disk n).file = inode.file
  held : ∀ b < 4096, s.IsDataBlock b → s.isFree b = false → ∃ slot, s.Holds slot b

/-- The same inodes point to the same blocks. -/
theorem SameInodes.holds_iff (h : SameInodes s s') (slot : Slot) (b : Nat) :
    s'.Holds slot b ↔ s.Holds slot b := by
  have himp : ∀ {s s' : State}, SameInodes s s' → s'.Holds slot b → s.Holds slot b := by
    rintro s s' hsame ⟨inode', hat', hvalid, hdirect⟩
    have hfile := hsame slot.1
    rw [hat', Option.map_some, eq_comm] at hfile
    obtain ⟨inode, hat, hfile⟩ := Option.map_eq_some_iff.mp hfile
    obtain ⟨hvalid', -, hdirect'⟩ := by
      rw [Inode.file, Inode.file, Prod.mk.injEq, Prod.mk.injEq] at hfile
      exact hfile
    exact ⟨inode, hat, hvalid'.symm ▸ hvalid, by rw [hdirect', hdirect]⟩
  exact ⟨himp h, himp fun n => (h n).symm⟩

/-- **A mount** over a mounted file system, whose superblock is the one on the disk. -/
theorem remount_iff (hm : s.Mounted) (hsuper : s.fs.superBlock = decodeSuper (s.disk.blockAt 0))
    (h : IsMount s s') : SameInodes s s' ∧ s'.UsedIsHeld ↔ s.Saved := by
  have htable : s'.shape.tableBlocks = s.shape.tableBlocks := by
    rw [h.tableBlocks, ← hsuper]
    exact hm.inodeBlocks
  have hsame : SameInodes s s' ↔ ∀ n inode, s.inodeAt n = some inode →
      (imageInode s.disk n).file = inode.file := by
    constructor
    · intro hsame n inode hat
      have hfile := hsame n
      rw [h.inodeAt (htable ▸ lt_of_inodeAt hat), hat] at hfile
      exact Option.some.inj hfile
    · intro hfile n
      by_cases hn : n < s.shape.tableBlocks * inodesPerBlock
      · obtain ⟨inode, hat⟩ := inodeAt_eq_some_of_lt hn
        rw [h.inodeAt (htable ▸ hn), hat, Option.map_some, Option.map_some, hfile n inode hat]
      · rw [inodeAt_eq_none hn, inodeAt_eq_none (htable ▸ hn)]
  have hdata : ∀ b, s'.IsDataBlock b ↔ s.IsDataBlock b := fun b => by
    unfold IsDataBlock Shape.IsDataBlock
    rw [h.mounted.firstDataBlock, hm.firstDataBlock, htable, h.blocks]
    rfl
  -- the marks from before stay, and the blocks of the valid inodes are marked
  have hused : ∀ b, s'.IsDataBlock b →
      (s'.isFree b = false ↔ s.isFree b = false ∨ ∃ slot, s'.Holds slot b) := by
    intro b hb
    have howned : ImageOwned s.disk s'.shape.tableBlocks b ↔ ∃ slot, s'.Holds slot b := by
      rw [h.imageOwned_iff]
      exact ⟨fun ⟨n, inode, k, hat, hvalid, hk⟩ => ⟨(n, k), inode, hat, hvalid, hk⟩,
        fun ⟨(n, k), inode, hat, hvalid, hk⟩ => ⟨n, inode, k, hat, hvalid, hk⟩⟩
    rw [← Bool.not_eq_true, h.free, howned, and_iff_right hb, not_and_or, Bool.not_eq_true, not_not]
  constructor
  · rintro ⟨hinodes, hheld⟩
    refine ⟨hsame.mp hinodes, fun b hlt hb hmarked => ?_⟩
    have hb' := (hdata b).mpr hb
    -- a mark from before is one after, and so has an owner
    obtain ⟨slot, hholds⟩ := (hheld b hlt hb').mp ((hused b hb').mpr (Or.inl hmarked))
    exact ⟨slot, (hinodes.holds_iff slot b).mp hholds⟩
  · rintro ⟨hfile, hheld⟩
    have hinodes := hsame.mpr hfile
    refine ⟨hinodes, fun b hlt hb => ?_⟩
    rw [hused b hb]
    -- a mark from before had an owner, which is one after as well
    refine or_iff_right_of_imp fun hmarked => ?_
    obtain ⟨slot, hholds⟩ := hheld b hlt ((hdata b).mp hb) hmarked
    exact ⟨slot, (hinodes.holds_iff slot b).mpr hholds⟩

/-- **Headline.** After a mount of any image and any commands on files, a further `mount` loses
nothing if and only if the table is saved and no data block is marked used in vain. -/
theorem losesNothing_iff {blocks : UInt32} {image : Bytes.Image} {s₀ : State}
    {commands : List Command} (hmount : (State.start blocks image).mount = .ok (true, s₀))
    (hfile : ∀ command ∈ commands, command.isFile = true) (hrun : execAll s₀ commands = .ok s) :
    s.LosesNothing ↔ s.Saved := by
  have hismount := (of_mount hmount).2
  obtain ⟨hshape, htables⟩ := execAll_tables hismount.mounted hfile hrun
  have hm := hismount.mounted.of_shape hshape
  have hdisk : ∀ b ≤ s₀.shape.tableBlocks,
      s.disk.blockAt b = (State.start blocks image).disk.blockAt b := by
    intro b hb
    rw [htables b hb, hismount.disk]
    rfl
  have hsuper : s.fs.superBlock = decodeSuper (s.disk.blockAt 0) := by
    have hsame : s.fs.superBlock = s₀.fs.superBlock := congrArg Shape.superBlock hshape
    rw [hsame, hismount.superBlock, hdisk 0 (Nat.zero_le _)]
  have hblocks : s.disk.blocks = (State.start blocks image).disk.blocks :=
    (congrArg Shape.blocks hshape).trans hismount.blocks
  obtain ⟨s', hmount'⟩ := mount_again hblocks (hismount.tableBlocks ▸ hdisk) hmount
  rw [← remount_iff hm hsuper (of_mount hmount').2]
  have hcommand : doMount s = .ok ([.diskMounted], s') := by
    rw [doMount, hmount']
    rfl
  constructor
  · rintro ⟨printed, s'', hexec, hcase⟩
    rw [hcommand] at hexec
    cases hexec
    rcases hcase with ⟨hrefused, -⟩ | hkept
    · -- `mount` has not been refused
      cases hrefused
    · exact hkept
  · exact fun hkept => ⟨_, s', hcommand, Or.inr hkept⟩

/-- Where the disk has no file and memory has none, the session is saved. -/
theorem saved_of_no_file (hs : s.Accounted)
    (hmemory : ∀ n inode, s.inodeAt n = some inode → inode.valid = 0)
    (hdisk : ∀ n inode, s.inodeAt n = some inode → (imageInode s.disk n).file = (0, 0, fun _ => 0)) :
    s.Saved where
  table n inode hat := by
    have hvalid := hmemory n inode hat
    obtain ⟨hsize, hdirect⟩ := hs.empty n inode hat hvalid
    rw [hdisk n inode hat, Inode.file, hvalid, hsize, funext hdirect]
  held b _ hdata hused := by
    obtain ⟨slot, hown⟩ := hs.owners.owned hdata hused
    exact ⟨slot, (hs.ownerOf_eq_some_iff_holds hdata).mp hown⟩

/-- A file copied in and removed again: its inode is free, its block too, and the second mount finds
both as they are in memory. -/
theorem losesNothing_removed : ∃ s₀ s, (State.start 4 (smallImage 0)).mount = .ok (true, s₀)
    ∧ execAll s₀ [.copyin (some [65]), .remove 0] = .ok s ∧ s.LosesNothing := by
  have hclean : CleanImage (State.start 4 (smallImage 0)).disk :=
    smallDisk_clean (by decide) (by decide) 0
  have hfile : ∀ command ∈ [Command.copyin (some [65]), .remove 0], command.isFile = true := by
    simp [Command.isFile]
  have hblank : ∀ n < 128, (imageInode (smallDisk 4 0) n).file = (0, 0, fun _ => 0) := by
    decide +kernel
  obtain ⟨s₀, printed, s₁, s, hmount, hcopyin, -, hremove, hrun⟩ := smallDisk_copyin_remove
  have hismount := (of_mount hmount).2
  have hm := hismount.mounted
  obtain ⟨hshape, htables⟩ := execAll_tables hm hfile hrun
  have htable : s₀.shape.tableBlocks = 1 := (smallDisk_mounted hismount).1
  have hn {n : Nat} {inode : Inode} (hat : s.inodeAt n = some inode) : n < 128 := by
    have hlt := lt_of_inodeAt hat
    rwa [hshape, htable] at hlt
  -- in memory: `copyin` has taken inode `0`, `remove` has given it back
  have hmemory (n : Nat) (inode : Inode) (hat : s.inodeAt n = some inode) : inode.valid = 0 := by
    have hvalid := remove_validAt hremove n
    rw [validAt_eq_some hat] at hvalid
    by_cases hzero : n = 0
    · rw [if_pos hzero] at hvalid
      exact Option.some.inj hvalid
    · have hstart : s₀.validAt n = some 0 := by
        rw [validAt_eq_some (hismount.inodeAt (by rw [htable]; exact hn hat))]
        exact congrArg (fun file => some file.1) (hblank n (hn hat))
      rw [if_neg hzero] at hvalid
      rcases doCopyin_validAt hm hcopyin with ⟨-, hcopied⟩ | ⟨-, rfl⟩
      · rw [hcopied, if_neg hzero, hstart] at hvalid
        exact Option.some.inj hvalid
      · rw [hstart] at hvalid
        exact Option.some.inj hvalid
  -- on the disk the table is still the one of the image
  have hdisk (n : Nat) (inode : Inode) (hat : s.inodeAt n = some inode) :
      (imageInode s.disk n).file = (0, 0, fun _ => 0) := by
    have hblock : n / inodesPerBlock + 1 = 1 := by
      have hlt := hn hat
      unfold inodesPerBlock
      omega
    rw [← hblank n (hn hat), imageInode, imageInode, hblock, htables 1 (Nat.le_of_eq htable.symm),
      hismount.disk]
    rfl
  have hsaved := saved_of_no_file
    (execAll_accounted (hismount.accounted hclean) hfile hrun) hmemory hdisk
  exact ⟨s₀, s, hmount, hrun, (losesNothing_iff hmount hfile hrun).mpr hsaved⟩

/-- **The defect**: a file of one byte is gone after a second mount. -/
theorem remount_loses : ∃ s₀ s s', (State.start 4 (smallImage 0)).mount = .ok (true, s₀)
    ∧ execAll s₀ [.copyin (some [65])] = .ok s ∧ doMount s = .ok ([.diskMounted], s')
    ∧ (∃ inode, s.inodeAt 0 = some inode ∧ inode.valid = 1)
    ∧ (∃ inode, s'.inodeAt 0 = some inode ∧ inode.valid = 0) ∧ ¬ s.LosesNothing := by
  obtain ⟨s₀, printed, s, hmount, hismount, hcopyin, -⟩ :=
    smallDisk_copyin 4 (by decide) (by decide) [65] (by decide) (by decide)
  have hrun : execAll s₀ [.copyin (some [65])] = .ok s := by
    rw [execAll, exec, hcopyin]
    rfl
  have hfile : ∀ command ∈ [Command.copyin (some [65])], command.isFile = true := by
    simp [Command.isFile]
  -- in memory inode `0` is taken, on the disk it is not
  obtain ⟨inode, hat, hvalid⟩ : ∃ inode, s.inodeAt 0 = some inode ∧ inode.valid = 1 := by
    obtain ⟨free, hnext⟩ := smallDisk_nextFreeINode hismount
    rcases doCopyin_validAt hismount.mounted hcopyin with ⟨-, hvalidAt⟩ | ⟨hnone, -⟩
    · exact Option.map_eq_some_iff.mp ((hvalidAt 0).trans (if_pos rfl))
    · exact absurd ((firstFree_iff hismount.mounted).mpr ⟨free, hnext⟩) (hnone 0)
  obtain ⟨hshape, htables⟩ := execAll_tables hismount.mounted hfile hrun
  have htable : s₀.shape.tableBlocks = 1 := (smallDisk_mounted hismount).1
  have hdisk : ∀ b ≤ 1, s.disk.blockAt b = (smallDisk 4 0).blockAt b := by
    intro b hb
    rw [htables b (by rw [htable]; exact hb), hismount.disk]
    rfl
  have himage : (imageInode s.disk 0).valid = 0 := by
    rw [imageInode, hdisk _ (by decide)]
    rfl
  have hblocks : s.disk.blocks = (State.start 4 (smallImage 0)).disk.blocks :=
    (congrArg Shape.blocks hshape).trans hismount.blocks
  obtain ⟨s', hmount'⟩ := mount_again hblocks hdisk hmount
  have hismount' := (of_mount hmount').2
  have hat' : s'.inodeAt 0 = some (imageInode s.disk 0) := by
    refine hismount'.inodeAt ?_
    rw [hismount'.tableBlocks, hdisk 0 (by decide)]
    decide
  have hcommand : doMount s = .ok ([.diskMounted], s') := by
    rw [doMount, hmount']
    rfl
  refine ⟨s₀, s, s', hmount, hrun, hcommand, ⟨inode, hat, hvalid⟩, ⟨_, hat', himage⟩, ?_⟩
  rintro ⟨printed', s'', hexec, hcase⟩
  rw [hcommand] at hexec
  cases hexec
  rcases hcase with ⟨hrefused, -⟩ | ⟨hsame, -⟩
  · cases hrefused
  · have hkept := hsame 0
    rw [hat', hat, Option.map_some, Option.map_some, Option.some.injEq] at hkept
    have hone : (0 : UInt32) = 1 := himage.symm.trans ((congrArg Prod.fst hkept).trans hvalid)
    exact absurd hone (by decide)

end OsLab.Sfs
