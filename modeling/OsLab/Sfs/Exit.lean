import OsLab.Sfs.Refinement

/-!
# OsLab.Sfs.Exit — what is left of an exit that is cut off

The inode table reaches the disk in `~FileSystem` only, one block after the other; what `write`
puts on the disk goes to blocks that no file on the disk has. So the program can be ended at any
point, in the middle of a command, by an exception that nobody catches, or between two rounds of
the destructor.

* **`destroyRounds_spec`**: the disk after some rounds of the destructor.
* **`Kept`**: the blocks that inode `m` has on the disk are marked, and nobody else's. Every call but
  a `remove` of `m` keeps it (`apply_kept`), and every command (`exec_kept`).
* **`survives`** is the headline: file by file, the next mount finds what the rounds have written, or
  the file as it was mounted.
-/

namespace OsLab.Sfs

open Fallible Ownership

namespace State

variable {s s' s₀ : State} {n m b : Nat}

/-! ## The destructor, round by round

`~FileSystem` writes back one inode block after the other, those that are flagged. Cut off after
some rounds it has written some of them, and nothing else. -/

/-- `~FileSystem` up to the round `rounds`. -/
def destroyRounds (s : State) (rounds : Nat) : Except Fault Disk :=
  ((s.fs.inodeBlocks.zip s.fs.inodeBlocksDirty).take rounds).zipIdx.foldlM saveBlock s.disk

theorem destroy_eq (s : State) : s.destroy = s.destroyRounds s.shape.tableBlocks := by
  have hlength : (s.fs.inodeBlocks.zip s.fs.inodeBlocksDirty).length ≤ s.shape.tableBlocks := by
    rw [List.length_zip]
    exact Nat.min_le_left _ _
  rw [destroyRounds, List.take_of_length_le hlength]
  rfl

/-- **The disk after some rounds**: the dirty blocks among the first are written, and nothing else
is touched. -/
theorem destroyRounds_spec (hm : s.Mounted) (rounds : Nat) :
    ∃ disk', s.destroyRounds rounds = .ok disk' ∧ disk'.blocks = s.disk.blocks
      ∧ disk'.mounts = s.disk.mounts
      ∧ (∀ b < Disk.distinctBlocks, b = 0 ∨ s.shape.tableBlocks < b →
          disk'.blockAt b = s.disk.blockAt b)
      ∧ ∀ i block, s.fs.inodeBlocks[i]? = some block → disk'.blockAt (i + 1)
        = if i < rounds ∧ s.isDirty i = true then encodeInodes block
          else s.disk.blockAt (i + 1) := by
  have hdirty : s.fs.inodeBlocksDirty.length = s.fs.inodeBlocks.length := hm.dirtyBlocks
  have hlength : ((s.fs.inodeBlocks.zip s.fs.inodeBlocksDirty).take rounds).length
      = min rounds s.shape.tableBlocks := by
    rw [List.length_take, List.length_zip, hdirty, Nat.min_self]
    rfl
  have hfits : (s.shape.tableBlocks : Int) < asInt s.disk.blocks := hm.fits
  have hdistinct := hm.distinct
  obtain ⟨disk', hsave, hblocks, hmounts, hothers, hentries⟩ :=
    foldlM_saveBlock ((s.fs.inodeBlocks.zip s.fs.inodeBlocksDirty).take rounds) 0 s.disk
      (by rw [hlength]; omega) (by rw [hlength]; omega)
  rw [hlength, Nat.zero_add] at hothers
  refine ⟨disk', hsave, hblocks, hmounts, fun b hb hout => hothers b hb (by omega),
    fun i block hblock => ?_⟩
  obtain ⟨hi, -⟩ := List.getElem?_eq_some_iff.mp hblock
  by_cases hround : i < rounds
  · -- round `i` has been gone through: its block is saved if it is flagged
    have hflag : s.fs.inodeBlocksDirty[i]? = some (s.isDirty i) := by
      have hi' : i < s.fs.inodeBlocksDirty.length := by omega
      rw [isDirty, List.getElem?_eq_getElem hi']
      rfl
    have hentry : ((s.fs.inodeBlocks.zip s.fs.inodeBlocksDirty).take rounds)[i]?
        = some (block, s.isDirty i) := by
      rw [List.getElem?_take_of_lt hround]
      exact List.getElem?_zip_eq_some.mpr ⟨hblock, hflag⟩
    have hrec := hentries i _ hentry
    rw [Nat.zero_add] at hrec
    simp only [hrec, hround, true_and]
  · -- this round has not been come to
    have htable : i < s.shape.tableBlocks := hi
    rw [if_neg fun hand => hround hand.1]
    exact hothers (i + 1) (by omega) (by omega)

/-- What is then on the disk, as the next mount sees it. -/
theorem destroyRounds_table (hm : s.Mounted) {rounds : Nat} {disk' : Disk}
    (hexit : s.destroyRounds rounds = .ok disk') :
    disk'.blocks = s.disk.blocks ∧ disk'.blockAt 0 = s.disk.blockAt 0
      ∧ (∀ b < Disk.distinctBlocks, s.shape.tableBlocks < b → disk'.blockAt b = s.disk.blockAt b)
      ∧ ∀ n inode, s.inodeAt n = some inode → imageInode disk' n
        = if n / inodesPerBlock < rounds ∧ s.inDirtyBlock n = true then inode
          else imageInode s.disk n := by
  obtain ⟨disk₁, hsave, hblocks, -, hothers, hentries⟩ := destroyRounds_spec hm rounds
  rw [hexit] at hsave
  cases hsave
  refine ⟨hblocks, hothers 0 (by decide) (Or.inl rfl), fun b hb hout => hothers b hb (Or.inr hout),
    fun n inode hat => ?_⟩
  unfold inodeAt at hat
  obtain ⟨block, hblock, rfl⟩ := Option.map_eq_some_iff.mp hat
  -- an inode comes back as it is in the block that holds it
  have hread := hentries _ block hblock
  by_cases hsaved : n / inodesPerBlock < rounds ∧ s.isDirty (n / inodesPerBlock) = true
  · rw [if_pos hsaved] at hread
    rw [if_pos hsaved, imageInode, hread, decodeInodes_encodeInodes]
  · rw [if_neg hsaved] at hread
    rw [if_neg hsaved, imageInode, imageInode, hread]

/-! ## The blocks of the files on the disk

What a file has on the disk stays there, as long as its inode is not removed: its blocks are marked,
so that nobody else gets them, and no call writes to a block that is marked. -/

/-- Since the state `s₀` nothing on the disk has changed that the files in `spared` had then. -/
structure Kept (s₀ s : State) (spared : Nat → Prop) : Prop where
  start : s₀.Separate
  separate : s.Separate
  shape : s.shape = s₀.shape
  tables : ∀ b ≤ s₀.shape.tableBlocks, s.disk.blockAt b = s₀.disk.blockAt b
  marked : ∀ m k b, spared m → s₀.ownerOf (m, k) = some b → s.IsUsed b
  blocks : ∀ m k b, spared m → s₀.ownerOf (m, k) = some b → s.disk.blockAt b = s₀.disk.blockAt b
  alone : ∀ m k b, spared m → s₀.ownerOf (m, k) = some b → ∀ slot, s.ownerOf slot = some b →
    slot.1 = m

variable {spared : Nat → Prop}

/-- At the start everything is as it is. -/
theorem Separate.kept (hs : s.Separate) (spared : Nat → Prop) : Kept s s spared where
  start := hs
  separate := hs
  shape := rfl
  tables _ _ := rfl
  marked _ _ _ _ hb := hs.owners.marked hb
  blocks _ _ _ _ _ := rfl
  alone _ _ _ _ hb _ hb' := congrArg Prod.fst (hs.owners.injective hb' hb)

theorem SameSlots.kept (h : SameSlots s s') (hk : Kept s₀ s spared) : Kept s₀ s' spared where
  start := hk.start
  separate := (h.afterCall hk.separate none).separate
  shape := h.shape.trans hk.shape
  tables b hb := by
    rw [h.disk]
    exact hk.tables b hb
  marked m k b hm hb := (h.free b).trans (hk.marked m k b hm hb)
  blocks m k b hm hb := by
    rw [h.disk]
    exact hk.blocks m k b hm hb
  alone m k b hm hb slot hslot := hk.alone m k b hm hb slot ((h.owners slot).symm.trans hslot)

/-- A write goes to a block that is not marked. -/
theorem write_kept (hk : Kept s₀ s spared) {data : Block} {length offset total : Nat}
    (h : s.write n data length offset = .ok (total, s')) : Kept s₀ s' spared := by
  have hs := hk.separate
  rcases write_assigns hs h with
    ⟨hindex, c, hshape, hdisk, hdata, hfresh, hself, hothers, hused⟩ | ⟨-, rfl⟩
  · have hc4096 := hs.lt_of_isDataBlock hdata
    -- the block taken is not marked, so it is none of those to be kept
    have hne : ∀ m k b, spared m → s₀.ownerOf (m, k) = some b → b ≠ c := fun m k b hm hb hbc =>
      hfresh (hbc ▸ hk.marked m k b hm hb)
    have hother : ∀ b < 4096, b ≠ c → s'.disk.blockAt b = s.disk.blockAt b := by
      intro b hb hbc
      rw [hdisk]
      exact Disk.blockAt_setBlock_of_ne hbc (by unfold Disk.distinctBlocks; omega)
        (by unfold Disk.distinctBlocks; omega)
    have hregion : s₀.shape.tableBlocks < c := by
      have hle : s.shape.firstDataBlock ≤ c := hdata.1
      have hfirst : s.shape.firstDataBlock = s.shape.tableBlocks + 1 := hs.mounted.firstDataBlock
      rw [← hk.shape]
      omega
    refine ⟨hk.start, (write_afterCall hs h).separate, hshape.trans hk.shape, fun b hb => ?_,
      fun m k b hm hb => ?_, fun m k b hm hb => ?_, fun m k b hm hb slot hslot => ?_⟩
    · rw [hother b (by omega) (by omega)]
      exact hk.tables b hb
    · exact (hused b).mpr (Or.inr (hk.marked m k b hm hb))
    · rw [hother b (hk.start.lt_of_isDataBlock (hk.start.owners.inRegion hb)) (hne m k b hm hb)]
      exact hk.blocks m k b hm hb
    · -- the slot just filled has the new block, the others what they had
      by_cases hslot' : slot = (n, ⟨offset / blockSize, hindex⟩)
      · rw [hslot', hself] at hslot
        cases hslot
        exact absurd rfl (hne m k _ hm hb)
      · exact hk.alone m k b hm hb slot ((hothers slot hslot').symm.trans hslot)
  · exact hk

/-- A `remove` gives back what its own inode has. -/
theorem remove_kept (hk : Kept s₀ s spared) (hn : ¬ spared n) {r : Bool}
    (h : s.remove n = .ok (r, s')) : Kept s₀ s' spared := by
  have hs := hk.separate
  obtain ⟨hshape, hdisk, hcleared, hkept, hused⟩ := remove_releases hs h
  refine ⟨hk.start, (remove_afterCall hs h).separate, hshape.trans hk.shape, fun b hb => ?_,
    fun m k b hm hb => ?_, fun m k b hm hb => ?_, fun m k b hm hb slot hslot => ?_⟩
  · rw [hdisk]
    exact hk.tables b hb
  · refine (hused b).mpr ⟨hk.marked m k b hm hb, ?_⟩
    rintro ⟨slot, hslot, hown⟩
    have hmn : slot.1 = m := hk.alone m k b hm hb slot hown
    exact hn (hslot ▸ hmn ▸ hm)
  · rw [hdisk]
    exact hk.blocks m k b hm hb
  · by_cases hslot' : slot.1 = n
    · rw [hcleared slot hslot'] at hslot
      cases hslot
    · exact hk.alone m k b hm hb slot ((hkept slot hslot').symm.trans hslot)

/-- **A call** that removes nothing in `spared`. -/
theorem apply_kept (hk : Kept s₀ s spared) {call : ApiCall}
    (hremove : ∀ m, call = .remove m → ¬ spared m) (h : s.apply call = .ok s') :
    Kept s₀ s' spared := by
  cases call with
  | create =>
    obtain ⟨_, hcreate⟩ := of_apply h
    exact (create_sameSlots hk.separate.mounted hcreate).kept hk
  | write inumber data length offset =>
    obtain ⟨_, hwrite⟩ := of_apply h
    exact write_kept hk hwrite
  | read inumber data length offset =>
    obtain ⟨_, _, hread⟩ := of_apply h
    exact (read_sameSlots hk.separate hread).kept hk
  | remove inumber =>
    obtain ⟨_, hcall⟩ := of_apply h
    exact remove_kept hk (hremove inumber rfl) hcall
  | updateSize inumber size => exact (updateSize_sameSlots (of_apply h)).kept hk

/-- **A run of calls.** -/
theorem applyAll_kept {calls : List ApiCall} (hremove : ∀ m, .remove m ∈ calls → ¬ spared m)
    (hk : Kept s₀ s spared) (h : s.applyAll calls = .ok s') : Kept s₀ s' spared := by
  rw [applyAll_eq] at h
  exact foldlM_keeps (P := fun s => Kept s₀ s spared)
    (fun hmem hk hcall => apply_kept hk (fun m heq => hremove m (heq ▸ hmem)) hcall) hk h

/-! ## The files on the disk

A file is its inode in the table and its blocks. If the next mount finds both as they were, it finds
the file as it was. -/

/-- An inode that stands on a disk, with the blocks it has. -/
theorem Mounted.ofDisk_files (hm : s.Mounted) {disk' : Disk}
    (hsuper : s.fs.superBlock = decodeSuper (disk'.blockAt 0))
    (hinode : ∀ inode, s.inodeAt n = some inode → imageInode disk' n = inode)
    (hblocks : ∀ k b, s.ownerOf (n, k) = some b → disk'.blockAt b = s.disk.blockAt b) :
    (Store.ofDisk disk').files n = s.files n := by
  have htable : (decodeSuper (disk'.blockAt 0)).inodeBlocks.toNat = s.shape.tableBlocks := by
    rw [← hsuper]
    exact hm.inodeBlocks
  show (if n < (decodeSuper (disk'.blockAt 0)).inodeBlocks.toNat * inodesPerBlock ∧ _ then _ else _) = _
  rw [htable]
  by_cases hn : n < s.shape.tableBlocks * inodesPerBlock
  · -- an inode of the table: not valid, or with its blocks
    obtain ⟨inode, hat⟩ := inodeAt_eq_some_of_lt hn
    rw [hinode inode hat]
    by_cases hvalid : inode.valid = 0
    · rw [if_neg fun hand => hand.2 hvalid, files_of_invalid hat hvalid]
    · have hslots : (disk'.fileOf inode).slots = (s.disk.fileOf inode).slots := by
        funext k
        show (if inode.direct k = 0 then none else some (disk'.blockAt (inode.direct k).toNat)) = _
        by_cases hzero : inode.direct k = 0
        · rw [if_pos hzero]
          exact (if_pos hzero).symm
        · rw [if_neg hzero, hblocks k _ (ownerOf_eq_some_iff.mpr ⟨inode, hat, hzero, rfl⟩)]
          exact (if_neg hzero).symm
      rw [if_pos ⟨hn, hvalid⟩, files_of_valid hat hvalid]
      exact congrArg some (congrArg (File.mk inode.size) hslots)
  · rw [if_neg fun hand => hn hand.1, files_of_none (inodeAt_eq_none hn)]

/-- A file whose inode block has been written. -/
theorem files_of_saved (hs : s.Separate) (hsuper : s.fs.superBlock = decodeSuper (s.disk.blockAt 0))
    {rounds : Nat} {disk' : Disk} (hexit : s.destroyRounds rounds = .ok disk')
    (hsaved : n / inodesPerBlock < rounds ∧ s.inDirtyBlock n = true) :
    (Store.ofDisk disk').files n = s.files n := by
  obtain ⟨-, hzero, hothers, hinodes⟩ := destroyRounds_table hs.mounted hexit
  refine Mounted.ofDisk_files hs.mounted (hsuper.trans (congrArg decodeSuper hzero.symm))
    (fun inode hat => ?_) fun k b hb => ?_
  · rw [hinodes n inode hat, if_pos hsaved]
  · have hdata : s.IsDataBlock b := hs.owners.inRegion hb
    have hb4096 := hs.lt_of_isDataBlock hdata
    have hfirst : s.shape.firstDataBlock = s.shape.tableBlocks + 1 := hs.mounted.firstDataBlock
    have hle := hdata.1
    exact hothers b (by unfold Disk.distinctBlocks; omega) (by omega)

/-- A file whose inode block has not been written, and that has been kept. -/
theorem Kept.files_of_unsaved (hk : Kept s₀ s spared) (hspared : spared m)
    (hsuper : s₀.fs.superBlock = decodeSuper (s₀.disk.blockAt 0))
    (htable : ∀ inode, s₀.inodeAt m = some inode → imageInode s₀.disk m = inode)
    {rounds : Nat} {disk' : Disk} (hexit : s.destroyRounds rounds = .ok disk')
    (hnot : ¬ (m / inodesPerBlock < rounds ∧ s.inDirtyBlock m = true)) :
    (Store.ofDisk disk').files m = s₀.files m := by
  have hs := hk.separate
  obtain ⟨-, hzero, hothers, hinodes⟩ := destroyRounds_table hs.mounted hexit
  have hzero' : disk'.blockAt 0 = s₀.disk.blockAt 0 := hzero.trans (hk.tables 0 (Nat.zero_le _))
  refine Mounted.ofDisk_files hk.start.mounted (hsuper.trans (congrArg decodeSuper hzero'.symm))
    (fun inode₀ hat₀ => ?_) fun k b hb => ?_
  · -- the inode is that of the first mount, since its block was not saved
    have hm : m < s₀.shape.tableBlocks * inodesPerBlock := lt_of_inodeAt hat₀
    obtain ⟨inode, hat⟩ := inodeAt_eq_some_of_lt (s := s) (hk.shape.symm ▸ hm)
    have hblock : m / inodesPerBlock < s₀.shape.tableBlocks :=
      (Nat.div_lt_iff_lt_mul (by decide)).mpr hm
    rw [hinodes m inode hat, if_neg hnot, ← htable inode₀ hat₀, imageInode, imageInode,
      hk.tables _ hblock]
  · have hdata : s₀.IsDataBlock b := hk.start.owners.inRegion hb
    have hb4096 := hk.start.lt_of_isDataBlock hdata
    have hfirst : s₀.shape.firstDataBlock = s₀.shape.tableBlocks + 1 := hk.start.mounted.firstDataBlock
    have hle := hdata.1
    rw [← hk.blocks m k b hspared hb]
    exact hothers b (by unfold Disk.distinctBlocks; omega) (by rw [hk.shape]; omega)

end State

open State

variable {s s' s₀ : State} {spared : Nat → Prop}

/-! ## Commands

The calls that the commands are made of keep the blocks of the files; only `remove` gives blocks up,
those of its own inode. -/

/-- **A command** that removes nothing in `spared`. -/
theorem exec_kept (hk : Kept s₀ s spared) {command : Command} (hfile : command.isFile = true)
    (hremove : ∀ m, command = .remove m → ¬ spared m) {printed : List Message}
    (h : exec s command = .ok (printed, s')) : Kept s₀ s' spared := by
  have hm := hk.separate.mounted
  rcases of_exec hm hfile h with
    ⟨_, n, -, hcopyin⟩ | ⟨n, rfl, hcall⟩ | ⟨_, _, _, hcopyout⟩ | rfl
  · rcases of_doCopyin hm hcopyin with
      ⟨inode, hat, -, -, ⟨rfl, -⟩ | ⟨stream, offset, more, s₁, -, hloop, hsize, -⟩⟩ | ⟨rfl, -, -⟩
    · exact (created_sameSlots hat).kept hk
    · obtain ⟨rest, hk₁, -⟩ := copyinLoop_rule (Q := fun s _ _ => Kept s₀ s spared)
        (fun hk => hk.separate.mounted) (fun hk _ _ hwrite => write_kept hk hwrite) stream
        ((created_sameSlots hat).kept hk) hloop
      exact (updateSize_sameSlots hsize).kept hk₁
    · exact hk
  · exact remove_kept hk (hremove n rfl) hcall
  · exact (copyoutLoop_rule (P := fun s => Kept s₀ s spared)
      (fun hk hread => (read_sameSlots hk.separate hread).kept hk) _ rfl rfl hk hcopyout).1
  · exact hk

theorem execAll_kept {commands : List Command} (hfile : ∀ command ∈ commands, command.isFile = true)
    (hremove : ∀ m, .remove m ∈ commands → ¬ spared m) (hk : Kept s₀ s spared)
    (hrun : execAll s commands = .ok s') : Kept s₀ s' spared :=
  execAll_keeps (P := fun s => Kept s₀ s spared)
    (fun hmem hk hexec => exec_kept hk (hfile _ hmem) (fun m heq => hremove m (heq ▸ hmem)) hexec)
    hk hrun

/-! ## The headline

Commands, then some calls of a command that was not finished, then some rounds of the destructor.
The next mount finds each file as one of two, which is told by whether its inode block was saved. -/

/-- **Headline.** After a mount of a clean image, any commands on files and any calls of one that is
cut off, let the program be ended, with `rounds` rounds of the destructor done: the disk can be
mounted again. A number whose inode block was dirty and has been written has the file it had in
memory; every other number that nobody removed has the file of the first mount. -/
theorem survives {blocks : UInt32} {image : Bytes.Image} {s₀ s₁ : State} {commands : List Command}
    {calls : List ApiCall} (rounds : Nat) (hclean : CleanImage (State.start blocks image).disk)
    (hmount : (State.start blocks image).mount = .ok (true, s₀))
    (hfile : ∀ command ∈ commands, command.isFile = true) (hrun : execAll s₀ commands = .ok s₁)
    (hcalls : s₁.applyAll calls = .ok s) :
    ∃ disk' t, s.destroyRounds rounds = .ok disk' ∧ (reopen disk' 0).mount = .ok (true, t)
      ∧ ∀ n, (n / inodesPerBlock < rounds ∧ s.inDirtyBlock n = true → t.files n = s.files n)
        ∧ (¬ (n / inodesPerBlock < rounds ∧ s.inDirtyBlock n = true) → .remove n ∉ commands →
          ApiCall.remove n ∉ calls → t.files n = s₀.files n) := by
  have hismount := (of_mount hmount).2
  have horder := hismount.inOrder hclean
  let spared := fun n : Nat => .remove n ∉ commands ∧ ApiCall.remove n ∉ calls
  have hk₁ : Kept s₀ s₁ spared := execAll_kept hfile (fun _ hmem hspared => hspared.1 hmem)
    (horder.accounted.separate.kept spared) hrun
  have hk := applyAll_kept (fun _ hmem hspared => hspared.2 hmem) hk₁ hcalls
  have hs := hk.separate
  have hsuper₀ : s.fs.superBlock = s₀.fs.superBlock := congrArg Shape.superBlock hk.shape
  have hsuper : s.fs.superBlock = decodeSuper (s.disk.blockAt 0) := by
    rw [hsuper₀, hk.tables 0 (Nat.zero_le _)]
    exact horder.superBlock
  obtain ⟨disk', hexit, -⟩ := destroyRounds_spec hs.mounted rounds
  obtain ⟨hblocks, hzero, -⟩ := destroyRounds_table hs.mounted hexit
  -- the superblock and the size are those of the state, so the mount is accepted
  have hfits : (decodeSuper (disk'.blockAt 0)).inodeBlocks.toNat + 1 ≤ disk'.size.toNat := by
    have htable : s.fs.superBlock.inodeBlocks.toNat = s.shape.tableBlocks := hs.mounted.inodeBlocks
    have hsize := hs.mounted.fits
    rw [hs.mounted.size_eq] at hsize
    rw [hzero, ← hsuper, htable]
    show _ ≤ disk'.blocks.toNat
    rw [hblocks]
    exact Int.ofNat_lt.mp hsize
  have hsmall : disk'.size.toNat ≤ 4096 := by
    show disk'.blocks.toNat ≤ _
    rw [hblocks]
    exact hs.small
  obtain ⟨t, hremount, ht⟩ := mount_ok (s := reopen disk' 0) hfits hsmall
  have hfiles : ∀ n, t.files n = (Store.ofDisk disk').files n := fun n =>
    congrArg (fun σ : Store => σ.files n) ht.store_eq
  refine ⟨disk', t, hexit, hremount, fun n => ⟨fun hsaved => ?_, fun hnot hcommands hcalls => ?_⟩⟩
  · rw [hfiles]
    exact files_of_saved hs hsuper hexit hsaved
  · rw [hfiles]
    refine hk.files_of_unsaved ⟨hcommands, hcalls⟩ horder.superBlock (fun inode hat => ?_) hexit hnot
    rw [hismount.inodeAt (lt_of_inodeAt hat)] at hat
    rw [hismount.disk]
    exact Option.some.inj hat

/-- A file copied in; the program ends before the destructor has done a round. -/
theorem survives_small : ∃ s₀ s₁ t, (State.start 4 (smallImage 0)).mount = .ok (true, s₀)
    ∧ execAll s₀ [.copyin (some [65])] = .ok s₁ ∧ s₁.files 0 ≠ none
    ∧ (reopen s₁.disk 0).mount = .ok (true, t) ∧ t.files 0 = none := by
  have hclean : CleanImage (State.start 4 (smallImage 0)).disk :=
    smallDisk_clean (by decide) (by decide) 0
  obtain ⟨s₀, printed, s₁, hmount, hismount, hcopyin, hsuccess⟩ :=
    smallDisk_copyin 4 (by decide) (by decide) [65] (by decide) (by decide)
  have hrun : execAll s₀ [.copyin (some [65])] = .ok s₁ := by
    simp only [execAll, exec, hcopyin, ok_bind]
  have hcalls : s₁.applyAll [] = .ok s₁ := rfl
  obtain ⟨disk', t, hexit, hremount, hfiles⟩ := survives 0 hclean hmount (by decide) hrun hcalls
  have hdisk : s₁.disk = disk' := Except.ok.inj hexit
  subst hdisk
  -- the file is in memory
  have hfile : s₁.files 0 = some (.ofStream [65]) :=
    doCopyin_files (hismount.accounted hclean) hcopyin hsuccess
  -- and none was on the disk
  have hblank : s₀.files 0 = none := by
    have hn : 0 < s₀.shape.tableBlocks * inodesPerBlock := by
      rw [(smallDisk_mounted hismount).1]
      decide
    exact files_of_invalid (hismount.inodeAt hn) rfl
  refine ⟨s₀, s₁, t, hmount, hrun, by rw [hfile]; exact Option.some_ne_none _, hremount, ?_⟩
  rw [(hfiles 0).2 (fun hand => absurd hand.1 (Nat.not_lt_zero _)) (by simp) (by simp), hblank]

end OsLab.Sfs
