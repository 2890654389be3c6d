import OsLab.Sfs.Bitmap
import OsLab.Sfs.Isolation
import OsLab.Sfs.Numbers
import OsLab.Sfs.Ranges

/-!
# OsLab.Sfs.Bounds — disks larger than the bitmap

The bitmap has 4096 entries, and its guards compare a block number with the size of the disk.

* **`InBounds`**: from the mount of an image on, nothing runs over the bitmap.
* **`exists_run_over`**: if a data block has no entry, writes to one inode bring the allocator
  to it.
* **`inBounds_iff`**: so nothing runs over the bitmap exactly if the disk has no more blocks than
  the bitmap has entries, or no inodes, or no data blocks.
-/

namespace OsLab.Sfs

open Fallible State

variable {s s' s₀ : State} {blocks : UInt32} {image : Bytes.Image}

/-- `InodeBlocks` in the superblock of an image. -/
def inodeBlocksOf (blocks : UInt32) (image : Bytes.Image) : Nat :=
  (decodeSuper ((State.start blocks image).disk.blockAt 0)).inodeBlocks.toNat

/-- `mount` throws nothing on the image. What is left is that it runs over the bitmap. -/
def Accepted (blocks : UInt32) (image : Bytes.Image) : Prop :=
  ∀ fault, (State.start blocks image).mount = .error fault → fault = .outOfBounds

/-- Neither the allocator nor a call that names an inode of the table runs over the bitmap. -/
structure State.StaysInside (s : State) : Prop where
  scan : s.getNextFreeBlock ≠ .error .outOfBounds
  calls : ∀ call : ApiCall, (∀ n, call.target = some n → ∃ inode, s.inodeAt n = some inode) →
    s.apply call ≠ .error .outOfBounds

/-- Nor does `mount`, nor anything in a state that calls lead to. -/
structure InBounds (blocks : UInt32) (image : Bytes.Image) : Prop where
  mount : (State.start blocks image).mount ≠ .error .outOfBounds
  reached : ∀ {s₀ s : State} {calls : List ApiCall}, (State.start blocks image).mount = .ok (true, s₀) →
    s₀.applyAll calls = .ok s → s.StaysInside

/-! ## The disk

A read or write of the disk is checked against the number of blocks. What goes wrong there is an
exception. -/

theorem Disk.sanityCheck_ne {disk : Disk} {blocknum : Int} {dataIsNull : Bool} :
    disk.sanityCheck blocknum dataIsNull ≠ .error .outOfBounds := by
  unfold Disk.sanityCheck
  split
  · simp
  · split
    · simp
    · split
      · simp
      · simp

theorem Disk.read_ne {disk : Disk} {blocknum : Int} : disk.read blocknum ≠ .error .outOfBounds :=
  bind_ne_error sanityCheck_ne fun _ _ => by simp

/-- Neither does a write run over anything but the disk. -/
theorem Disk.write_ne {disk : Disk} {blocknum : Int} {data : Block} :
    disk.write blocknum data ≠ .error .outOfBounds :=
  bind_ne_error sanityCheck_ne fun _ _ => by simp

/-! ## Mounting

`mount` marks the blocks to which the inodes of the image point. `setBlockFreeStatus` keeps off what
is no data block, but asks nothing about the 4096 entries of the bitmap. -/

/-- What the rounds of `mount` keep. -/
structure Mounting (disk : Disk) (first : Nat) (s : State) : Prop where
  disk : s.disk = disk
  diskSet : s.fs.diskSet = true
  firstDataBlock : s.fs.firstDataBlock = first

section Mounting

variable {disk : Disk} {first : Nat}

/-- To mark a pointer, when every data block has an entry. -/
theorem Mounting.setBlockFreeStatus (h : Mounting disk first s)
    (hcovers : ∀ b, first ≤ b → b < disk.blocks.toNat → b < 4096) (p : UInt32) (free : Bool) :
    ∃ s', s.setBlockFreeStatus p free = .ok s' ∧ Mounting disk first s' := by
  refine ⟨_, setBlockFreeStatus_ok h.diskSet fun hdata => ?_, h.disk, h.diskSet, h.firstDataBlock⟩
  refine hcovers p.toNat ?_ ?_
  · rw [← h.firstDataBlock]
    exact hdata.1
  · rw [← h.disk]
    exact hdata.2

theorem Mounting.markInode (h : Mounting disk first s)
    (hcovers : ∀ b, first ≤ b → b < disk.blocks.toNat → b < 4096) (inode : Inode) :
    ∃ s', s.markInode inode = .ok s' ∧ Mounting disk first s' :=
  foldlM_returns _ (fun _ hs => hs.setBlockFreeStatus hcovers _ false) h

/-- A round of `mount` may throw, but it does not run over the bitmap. -/
theorem Mounting.mountBlock (h : Mounting disk first s)
    (hcovers : ∀ b, first ≤ b → b < disk.blocks.toNat → b < 4096) (i : Nat) :
    s.mountBlock i ≠ .error .outOfBounds
      ∧ ∀ s', s.mountBlock i = .ok s' → Mounting disk first s' := by
  -- the table with the block read in, and the marks of its inodes
  have hmarks (inodes : InodeBlock) : ∃ s', (List.finRange 128).foldlM
        (fun s j => if (inodes j).valid > 0 then s.markInode (inodes j) else .ok s)
        { s with fs := { s.fs with inodeBlocks := s.fs.inodeBlocks ++ [inodes] } } = .ok s'
      ∧ Mounting disk first s' := by
    refine foldlM_returns _ (fun {s j} _ hs => ?_) ⟨h.disk, h.diskSet, h.firstDataBlock⟩
    split
    · exact hs.markInode hcovers (inodes j)
    · exact ⟨s, rfl, hs⟩
  unfold State.mountBlock
  refine ⟨bind_ne_error Disk.read_ne fun r _ => ?_, fun s' h' => ?_⟩
  · obtain ⟨s', hloop, -⟩ := hmarks (decodeInodes r.2)
    dsimp only
    rw [hloop]
    simp
  · obtain ⟨r, -, h'⟩ := of_bind_eq_ok h'
    obtain ⟨s'', hloop, hs''⟩ := hmarks (decodeInodes r.2)
    dsimp only at h'
    rw [hloop] at h'
    cases h'
    exact hs''

end Mounting

/-- `mount` does not run over the bitmap, if there is an entry for every data block or no inode
block at all. -/
theorem mount_ne (hcovers : 0 < (decodeSuper (s.disk.blockAt 0)).inodeBlocks.toNat →
      ∀ b, (decodeSuper (s.disk.blockAt 0)).inodeBlocks.toNat + 1 ≤ b → b < s.disk.blocks.toNat →
        b < 4096) :
    s.mount ≠ .error .outOfBounds := by
  unfold State.mount
  refine bind_ne_error Disk.read_ne fun r hread => ?_
  have hzero : ((0 : Nat) : Int) < asInt s.disk.blocks := Disk.lt_of_read_ok hread
  have hdata : s.disk.read 0 = .ok (blockSize, s.disk.blockAt 0) := Disk.read_ok hzero
  rw [hdata] at hread
  cases hread
  dsimp only
  split
  · simp
  · refine bind_ne_error ?_ fun _ _ => by simp
    refine foldlM_ne_error (P := Mounting s.disk.mount
      ((decodeSuper (s.disk.blockAt 0)).inodeBlocks.toNat + 1)) (fun {s' i} hi hs' => ?_) ⟨rfl, rfl, rfl⟩
    exact hs'.mountBlock (hcovers (Nat.zero_lt_of_lt (List.mem_range.mp hi))) i

/-! ## The calls

A call looks up bits for the pointers of its inode and for the data blocks that the allocator scans.
Without inodes there is no call that finds one. -/

theorem State.BitmapCovers.of_shape (h : s.BitmapCovers) (hshape : s'.shape = s.shape) :
    s'.BitmapCovers :=
  fun b hb => h b ((isDataBlock_congr hshape b).mp hb)

/-- A call that returns keeps the shape. -/
theorem apply_shape (hm : s.Mounted) {call : ApiCall} (h : s.apply call = .ok s') :
    s'.shape = s.shape := by
  cases call with
  | create =>
    obtain ⟨_, hcreate⟩ := of_apply h
    exact (create_sameSlots hm hcreate).shape
  | write inumber data length offset =>
    obtain ⟨_, hwrite⟩ := of_apply h
    exact write_shape hm hwrite
  | read inumber data length offset =>
    obtain ⟨_, _, hread⟩ := of_apply h
    exact read_shape hread
  | remove inumber =>
    obtain ⟨_, hremove⟩ := of_apply h
    obtain ⟨-, inode, -, hshape, -⟩ := of_remove hremove
    exact hshape
  | updateSize inumber size => exact (updateSize_sameSlots (of_apply h)).shape

theorem applyAll_shape {calls : List ApiCall} (hm : s.Mounted) (h : s.applyAll calls = .ok s') :
    s'.shape = s.shape := by
  rw [applyAll_eq] at h
  refine foldlM_keeps (P := fun s' : State => s'.shape = s.shape)
    (fun {s₁ s₂ call} _ hshape hcall => ?_) rfl h
  exact (apply_shape (hm.of_shape hshape) hcall).trans hshape

/-- With an entry for every data block the calls do not run over the bitmap. -/
theorem apply_ne (hm : s.Mounted) (hcovers : s.BitmapCovers) {call : ApiCall}
    (htarget : ∀ n, call.target = some n → ∃ inode, s.inodeAt n = some inode) :
    s.apply call ≠ .error .outOfBounds := by
  -- a data block that is marked has its entry
  have hmark {s' : State} (hshape : s'.shape = s.shape) (p : UInt32) (free : Bool) :
      s'.setBlockFreeStatus p free ≠ .error .outOfBounds := by
    rw [setBlockFreeStatus_ok (hm.of_shape hshape).diskSet (hcovers.of_shape hshape _)]
    simp
  cases call with
  | create =>
    obtain ⟨r, hcreate⟩ := create_ok hm
    rw [apply, hcreate]
    simp
  | write inumber data length offset =>
    obtain ⟨inode, hat⟩ := htarget inumber rfl
    obtain ⟨p, hp⟩ := getNextFreeBlock_returns hm hcovers
    refine bind_ne_error ?_ fun _ _ => by simp
    unfold State.write
    rw [hp, ok_bind]
    dsimp only
    split
    · rw [getINode_ok hat, ok_bind]
      refine bind_ne_error Disk.write_ne fun r hwrite => ?_
      refine bind_ne_error (hmark ?_ _ _) fun _ _ => by simp
      rw [setINode_disk] at hwrite
      obtain ⟨-, -, hwrite⟩ := of_bind_eq_ok hwrite
      cases hwrite
      exact setINode_shape
    · simp
  | read inumber data length offset =>
    obtain ⟨inode, hat⟩ := htarget inumber rfl
    refine bind_ne_error ?_ fun _ _ => by simp
    unfold State.read
    rw [getINode_ok hat, ok_bind]
    dsimp only
    split
    · refine bind_ne_error Disk.read_ne fun _ _ => ?_
      exact bind_ne_error (hmark rfl _ _) fun _ _ => by simp
    · simp
  | remove inumber =>
    obtain ⟨inode, hat⟩ := htarget inumber rfl
    obtain ⟨s', hremove⟩ := (remove_returns_iff hm).mpr ⟨inode, hat, fun k => hcovers _⟩
    rw [apply, hremove]
    simp
  | updateSize inumber size =>
    obtain ⟨inode, hat⟩ := htarget inumber rfl
    rw [apply, updateSize_ok hat]
    simp

/-- Without inodes no call changes anything. -/
theorem apply_of_no_inode (hm : s.Mounted) (hnone : ∀ n, s.inodeAt n = none) {call : ApiCall}
    (h : s.apply call = .ok s') : s' = s := by
  -- every call that could do something needs an inode
  have hnot {n : Nat} {inode : Inode} (hat : s.inodeAt n = some inode) : False := by
    rw [hnone] at hat
    cases hat
  cases call with
  | create =>
    obtain ⟨_, hcreate⟩ := of_apply h
    rcases of_create hm with ⟨n, inode, -, hat, -⟩ | ⟨heq, -⟩
    · exact (hnot hat).elim
    · rw [heq] at hcreate
      cases hcreate
      rfl
  | write inumber data length offset =>
    obtain ⟨_, hwrite⟩ := of_apply h
    rcases of_write hm hwrite with ⟨p, inode, -, -, -, -, -, hat, -⟩ | ⟨-, -, rfl⟩
    · exact (hnot hat).elim
    · rfl
  | read inumber data length offset =>
    obtain ⟨_, _, hread⟩ := of_apply h
    obtain ⟨inode, hat, -⟩ := of_read hread
    exact (hnot hat).elim
  | remove inumber =>
    obtain ⟨_, hremove⟩ := of_apply h
    obtain ⟨-, inode, hat, -⟩ := of_remove hremove
    exact (hnot hat).elim
  | updateSize inumber size =>
    obtain ⟨inode, hat, -⟩ := of_updateSize (of_apply h)
    exact (hnot hat).elim

/-- Without inodes the state stays the same. -/
theorem applyAll_of_no_inode {calls : List ApiCall} (hm : s.Mounted)
    (hnone : ∀ n, s.inodeAt n = none) (h : s.applyAll calls = .ok s') : s' = s := by
  rw [applyAll_eq] at h
  refine foldlM_keeps (P := fun s' : State => s' = s) (fun {s₁ s₂ call} _ hs₁ hcall => ?_) rfl h
  subst hs₁
  exact apply_of_no_inode hm hnone hcall

/-! ## A data block without an entry

The other direction. Such a block lies behind all that have an entry, so the allocator gets to it
once these are in use, and writes to one inode bring that about: a write does not ask whether its
slot is taken. -/

/-- What the allocator can fail with. -/
theorem getNextFreeBlock_error (hm : s.Mounted) {fault : Fault}
    (h : s.getNextFreeBlock = .error fault) : fault = .outOfBounds := by
  have hdisk : s.fs.diskSet = true := hm.diskSet
  -- a lookup fails on a block without an entry, or not at all
  have hlookup {p : UInt32} {fault : Fault} (h : s.getBlockFreeStatus p = .error fault) :
      fault = .outOfBounds := by
    by_cases hentry : s.IsDataBlock p.toNat → p.toNat < 4096
    · rw [getBlockFreeStatus_ok hdisk hentry] at h
      cases h
    · push Not at hentry
      unfold getBlockFreeStatus at h
      rw [bitmapIndex_over hdisk hentry.1 hentry.2] at h
      cases h
      rfl
  -- and so does the scan
  have hscan {rounds : Nat} : ∀ {b : Nat} {fault : Fault}, s.nextFreeLoop rounds b = .error fault →
      fault = .outOfBounds := by
    induction rounds with
    | zero => exact fun h => nomatch h
    | succ rounds ih =>
      intro b fault h
      unfold nextFreeLoop at h
      cases hstatus : s.getBlockFreeStatus (UInt32.ofNat b) with
      | error fault' =>
        rw [hstatus] at h
        cases h
        exact hlookup hstatus
      | ok status =>
        rw [hstatus, ok_bind] at h
        cases status with
        | true => cases h
        | false => exact ih h
  unfold getNextFreeBlock at h
  rw [if_pos hdisk] at h
  dsimp only at h
  cases hloop : s.nextFreeLoop (asInt s.disk.size - s.fs.firstDataBlock).toNat s.fs.firstDataBlock with
  | error fault' =>
    rw [hloop] at h
    cases h
    exact hscan hloop
  | ok r =>
    rw [hloop] at h
    cases h

/-- **Filling the disk.** Writes to one inode take the free blocks one by one, until the allocator
comes to the data block without an entry. Induction on the free blocks. -/
theorem exists_run_over {n b : Nat} (free : Nat) :
    ∀ {s : State} {inode : Inode}, s.freeBlocks.card = free → s.Mounted → s.inodeAt n = some inode →
      s.IsDataBlock b → 4096 ≤ b →
      ∃ calls s', s.applyAll calls = .ok s' ∧ s'.getNextFreeBlock = .error .outOfBounds := by
  induction free with
  | zero =>
    intro s inode hcard hm _ hb hge
    -- nothing is free, so the scan comes to the block without an entry
    have hfull : ∀ c, s.IsDataBlock c → s.isFree c = false := fun c hc =>
      Bool.eq_false_iff.mpr fun hfree => by
        have hmem := mem_freeBlocks.mpr ⟨hc, hfree⟩
        rw [Finset.card_eq_zero.mp hcard] at hmem
        exact Finset.notMem_empty c hmem
    refine ⟨[], s, rfl, ?_⟩
    cases hnext : s.getNextFreeBlock with
    | error fault => rw [getNextFreeBlock_error hm hnext]
    | ok p =>
      have hcovers := (getNextFreeBlock_full hm hfull).1.mp ⟨p, hnext⟩
      exact absurd (hcovers b hb) (Nat.not_lt.mpr hge)
  | succ free ih =>
    intro s inode hcard hm hat hb hge
    -- one write takes one free block
    obtain ⟨c, hc⟩ := Finset.card_pos.mp (by omega : 0 < s.freeBlocks.card)
    have hzero : 0 / blockSize < pointersPerInode := by decide
    obtain ⟨s₁, hwrite⟩ := write_ok hm hat hzero ⟨c, mem_freeBlocks.mp hc⟩ zeroBuffer 4096
    have hshape := write_shape hm hwrite
    obtain ⟨inode₁, hat₁, -⟩ := (write_inodeAt hm hwrite).2 inode hat
    have hcard₁ : s₁.freeBlocks.card = free := by
      have hone := write_freeBlocks hm hzero hwrite
      omega
    obtain ⟨calls, s', hrun, hover⟩ :=
      ih hcard₁ (hm.of_shape hshape) hat₁ ((isDataBlock_congr hshape b).mpr hb) hge
    refine ⟨.write n zeroBuffer 4096 0 :: calls, s', ?_, hover⟩
    rw [applyAll, apply, hwrite]
    exact hrun

/-! ## The headline

The two directions together. A disk of more than 4096 blocks stays inside the bitmap only if it has
no inode or no data block. -/

theorem isDataBlock_iff_of_start (hmount : IsMount (State.start blocks image) s₀) (b : Nat) :
    s₀.IsDataBlock b ↔ inodeBlocksOf blocks image + 1 ≤ b ∧ b < blocks.toNat :=
  hmount.isDataBlock_iff b

/-- With an entry for every data block nothing can happen. -/
theorem staysInside_of_covers (hm : s.Mounted) (hcovers : s.BitmapCovers) : s.StaysInside where
  scan := by
    obtain ⟨p, hp⟩ := getNextFreeBlock_returns hm hcovers
    simp [hp]
  calls := fun _ htarget => apply_ne hm hcovers htarget

/-- Without inodes the data blocks stay free, and the scan ends at the first. -/
theorem staysInside_of_no_inode (hmount : IsMount (State.start blocks image) s₀)
    (hzero : inodeBlocksOf blocks image = 0) (hblocks : 1 < blocks.toNat)
    {calls : List ApiCall} (hrun : s₀.applyAll calls = .ok s) : s.StaysInside := by
  have hm := hmount.mounted
  have htable : s₀.shape.tableBlocks = 0 := hmount.tableBlocks.trans hzero
  have hnone (n : Nat) : s₀.inodeAt n = none := inodeAt_eq_none (by rw [htable]; omega)
  obtain rfl := applyAll_of_no_inode hm hnone hrun
  refine ⟨?_, fun call htarget => ?_⟩
  · -- no inode, no mark: block `1` is free
    have hfree : s.isFree 1 = true := by
      refine (hmount.free 1).mpr ⟨rfl, fun ⟨_, howned⟩ => ?_⟩
      obtain ⟨n, inode, k, hat, -⟩ := (hmount.imageOwned_iff 1).mp howned
      rw [hnone] at hat
      cases hat
    have hdata := (isDataBlock_iff_of_start hmount 1).mpr ⟨by omega, hblocks⟩
    obtain ⟨p, hp⟩ := getNextFreeBlock_ok hm.diskSet ⟨1, hdata, hfree⟩
    simp [hp]
  · cases call with
    | create =>
      obtain ⟨r, hcreate⟩ := create_ok hm
      rw [apply, hcreate]
      simp
    | write n | read n | remove n | updateSize n =>
      obtain ⟨inode, hat⟩ := htarget n rfl
      rw [hnone] at hat
      cases hat

/-- A disk that is too large, with an inode and a data block. -/
theorem not_inBounds (haccepted : Accepted blocks image) (hlarge : 4096 < blocks.toNat)
    (hinodes : inodeBlocksOf blocks image ≠ 0)
    (hblocks : inodeBlocksOf blocks image + 1 < blocks.toNat) : ¬ InBounds blocks image := by
  intro hbounds
  cases hmount : (State.start blocks image).mount with
  | error fault =>
    rw [haccepted fault hmount] at hmount
    exact hbounds.mount hmount
  | ok r =>
    obtain ⟨r, s₀⟩ := r
    obtain ⟨rfl, hismount⟩ := of_mount hmount
    have htable : s₀.shape.tableBlocks = inodeBlocksOf blocks image := hismount.tableBlocks
    obtain ⟨inode, hat⟩ : ∃ inode, s₀.inodeAt 0 = some inode :=
      inodeAt_eq_some_of_lt (Nat.mul_pos (by omega) inodesPerBlock_pos)
    -- the last block of the disk is a data block behind the bitmap
    have hlast := (isDataBlock_iff_of_start hismount (blocks.toNat - 1)).mpr ⟨by omega, by omega⟩
    obtain ⟨calls, s, hrun, hover⟩ :=
      exists_run_over s₀.freeBlocks.card rfl hismount.mounted hat hlast (by omega)
    exact (hbounds.reached hmount hrun).scan hover

/-- **Headline.** On an image that `mount` accepts nothing runs over the bitmap exactly if the disk
has at most 4096 blocks, or no inode blocks, or no data blocks. -/
theorem inBounds_iff (haccepted : Accepted blocks image) :
    InBounds blocks image ↔ blocks.toNat ≤ 4096 ∨ inodeBlocksOf blocks image = 0
      ∨ blocks.toNat ≤ inodeBlocksOf blocks image + 1 := by
  constructor
  · intro hbounds
    by_contra hnot
    push Not at hnot
    obtain ⟨hlarge, hinodes, hblocks⟩ := hnot
    exact not_inBounds haccepted hlarge hinodes hblocks hbounds
  · intro hsize
    have hcovers (hpos : 0 < inodeBlocksOf blocks image) (b : Nat)
        (hge : inodeBlocksOf blocks image + 1 ≤ b) (hlt : b < blocks.toNat) : b < 4096 := by
      omega
    refine ⟨mount_ne hcovers, fun {s₀ s calls} hmount hrun => ?_⟩
    have hismount := (of_mount hmount).2
    have hm := hismount.mounted
    by_cases hentries : s₀.BitmapCovers
    · -- an entry for every data block
      have hshape := applyAll_shape hm hrun
      exact staysInside_of_covers (hm.of_shape hshape) (hentries.of_shape hshape)
    · -- a data block beyond them, and so no inode
      unfold State.BitmapCovers at hentries
      push Not at hentries
      obtain ⟨b, hb, hge⟩ := hentries
      obtain ⟨hlow, hhigh⟩ := (isDataBlock_iff_of_start hismount b).mp hb
      exact staysInside_of_no_inode hismount (by omega) (by omega) hrun

/-- A small disk. -/
theorem inBounds_small : InBounds 4 (smallImage 1) := by
  obtain ⟨s₀, hmount, -⟩ := smallDisk_mount 4 (by decide) (by decide) 1
  have haccepted : Accepted 4 (smallImage 1) := by
    intro fault hfault
    rw [hmount] at hfault
    cases hfault
  exact (inBounds_iff haccepted).mpr (Or.inl (by decide))

/-- An image with one inode block, in which inode `0` has block `4500`. -/
def farImage : Bytes.Image := fun a =>
  if a = 8 ∨ a = 4096 then 1 else if a = 4104 then 0x94 else if a = 4105 then 0x11 else 0

/-- A disk of 5000 blocks with that image. -/
def farDisk : Disk := (State.start 5000 farImage).disk

/-- Reading in the inode block, `mount` marks block `4500`. -/
theorem farDisk_mountBlock (hdisk : s.disk = farDisk.mount) (hset : s.fs.diskSet = true)
    (hfirst : s.fs.firstDataBlock = 2) : s.mountBlock 0 = .error .outOfBounds := by
  have hread : s.disk.read ((0 + 1 : Nat) : Int) = .ok (blockSize, farDisk.blockAt 1) := by
    rw [hdisk]
    exact Disk.read_ok (by decide)
  have hvalid : (decodeInodes (farDisk.blockAt 1) 0).valid > 0 := by decide
  have hdirect : ((decodeInodes (farDisk.blockAt 1) 0).direct 0).toNat = 4500 := by decide
  have hslots : List.finRange 128 = 0 :: (List.finRange 127).map Fin.succ := List.finRange_succ
  have hpointers : List.finRange 5 = 0 :: (List.finRange 4).map Fin.succ := List.finRange_succ
  have hdata : s.IsDataBlock 4500 := by
    refine ⟨?_, ?_⟩
    · show s.fs.firstDataBlock ≤ 4500
      omega
    · show 4500 < s.disk.blocks.toNat
      rw [hdisk]
      decide
  -- the pointer is that of a data block, and there is no entry
  have hmark {s' : State} (hset : s'.fs.diskSet = true) (hdata : s'.IsDataBlock 4500) :
      s'.markInode (decodeInodes (farDisk.blockAt 1) 0) = .error .outOfBounds := by
    have hover := bitmapIndex_over (p := (decodeInodes (farDisk.blockAt 1) 0).direct 0) hset
      (by rw [hdirect]; exact hdata) (by rw [hdirect]; decide)
    rw [markInode, hpointers, List.foldlM_cons, setBlockFreeStatus, hover]
    rfl
  unfold mountBlock
  rw [hread, ok_bind]
  dsimp only
  rw [hslots, List.foldlM_cons, if_pos hvalid, hmark]
  · rfl
  · exact hset
  · exact hdata

theorem farImage_mount : (State.start 5000 farImage).mount = .error .outOfBounds := by
  have hread : (State.start 5000 farImage).disk.read 0 = .ok (blockSize, farDisk.blockAt 0) :=
    Disk.read_ok (b := 0) (by decide)
  have hone : (decodeSuper (farDisk.blockAt 0)).inodeBlocks.toNat = 1 := rfl
  have hrange : List.range 1 = [0] := rfl
  unfold State.mount
  rw [hread, ok_bind]
  dsimp only
  rw [hone, if_neg (by decide), hrange, List.foldlM_cons, farDisk_mountBlock rfl rfl rfl]
  rfl

/-- **The guard with the wrong bound**: `mount` accepts the image, and runs over the bitmap. -/
theorem mount_runs_over : (State.start 5000 farImage).mount = .error .outOfBounds
    ∧ ¬ ∀ blocks image, Accepted blocks image → InBounds blocks image := by
  refine ⟨farImage_mount, fun hall => ?_⟩
  have haccepted : Accepted 5000 farImage := by
    intro fault hfault
    rw [farImage_mount] at hfault
    cases hfault
    rfl
  exact (hall 5000 farImage haccepted).mount farImage_mount

end OsLab.Sfs
