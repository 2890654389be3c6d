import OsLab.Sfs.Image

/-!
# OsLab.Sfs.Bitmap — the free-block bitmap

* **`mount_bitmap`**: on any image whose inode blocks fit, a new `FileSystem` mounts, and then
  a data block is used exactly if a valid inode of the image points to it. The pointers may be
  anything: `setBlockFreeStatus` drops those that name no data block.
* **`getNextFreeBlock_full`**: without a free block the allocator returns the number of blocks
  of the disk, and `write` takes that for a block.
* **`write_full_iff`**: so a `write` to a full disk returns only behind the fifth block;
  `write_full_throws` is one that does not.
-/

namespace OsLab.Sfs.State

open Fallible

variable {s s' : State} {n b : Nat}

/-! ## After a mount

`mount` starts from the bitmap that the constructor has made, all free, and marks the blocks to
which valid inodes of the image point. `setBlockFreeStatus` leaves out what is no data block, so
stale pointers do no harm. -/

/-- **Headline.** The bitmap after a mount by a new `FileSystem`, for any image. -/
theorem mount_bitmap {disk : Disk}
    (hfits : (decodeSuper (disk.blockAt 0)).inodeBlocks.toNat + 1 ≤ disk.size.toNat)
    (hsmall : disk.size.toNat ≤ 4096) :
    ∃ s, ({ disk, fs := .init } : State).mount = .ok (true, s)
      ∧ s.fs.inodeBlocks = imageTable disk (decodeSuper (disk.blockAt 0)).inodeBlocks.toNat
      ∧ ∀ b : UInt32, (decodeSuper (disk.blockAt 0)).inodeBlocks.toNat + 1 ≤ b.toNat → b < disk.size →
        ∃ status, s.getBlockFreeStatus b = .ok status
          ∧ (status = false
            ↔ ImageOwned disk (decodeSuper (disk.blockAt 0)).inodeBlocks.toNat b.toNat) := by
  obtain ⟨s, hmount, hismount⟩ := mount_ok (s := { disk, fs := .init }) hfits hsmall
  have htable : s.shape.tableBlocks = (decodeSuper (disk.blockAt 0)).inodeBlocks.toNat :=
    hismount.tableBlocks
  rw [← htable]
  refine ⟨s, hmount, hismount.table, fun b hge hlt => ?_⟩
  have hb : b.toNat < disk.size.toNat := UInt32.lt_iff_toNat_lt.mp hlt
  have hdata : s.IsDataBlock b.toNat := by
    rw [hismount.isDataBlock_iff, ← htable]
    exact ⟨hge, hb⟩
  have hb4096 : b.toNat < 4096 := Nat.lt_of_lt_of_le hb hsmall
  -- a new bitmap is all free
  have hstart : isFree { disk, fs := .init } b.toNat = true := dif_pos hb4096
  have hfree := hismount.free b.toNat
  rw [and_iff_right hstart, not_and, imp_iff_right hdata] at hfree
  refine ⟨_, getBlockFreeStatus_ok hismount.mounted.diskSet fun _ => hb4096, ?_⟩
  rw [decide_eq_false_iff_not, not_and, imp_iff_right hdata, hfree, not_not]

/-- An image with one inode block. Inode `0` is valid and points to block `2` and to block `9`;
inode `1` is not valid and still points to block `3`. -/
def pointingImage : Bytes.Image := fun a =>
  if a = 8 ∨ a = 4096 then 1
  else if a = 4104 then 2
  else if a = 4108 then 9
  else if a = 4136 then 3
  else 0

/-- On a disk of five blocks `2` is used after the mount. Block `3`, to which only an invalid inode
points, is free, and so is `4`; the pointer behind the disk marks nothing. -/
theorem mount_bitmap_pointing :
    ∃ s, ({ disk := (State.start 5 pointingImage).disk, fs := .init } : State).mount = .ok (true, s)
      ∧ s.fs.inodeBlocks = imageTable (State.start 5 pointingImage).disk 1
      ∧ s.getBlockFreeStatus 2 = .ok false ∧ s.getBlockFreeStatus 3 = .ok true
      ∧ s.getBlockFreeStatus 4 = .ok true := by
  have howned : ImageOwned (State.start 5 pointingImage).disk 1 2 :=
    ⟨0, by decide, 0, by decide, 0, by decide⟩
  -- no valid inode points to `3` or `4`
  have hunowned : ¬ ImageOwned (State.start 5 pointingImage).disk 1 3
      ∧ ¬ ImageOwned (State.start 5 pointingImage).disk 1 4 := by
    unfold ImageOwned
    decide +kernel
  obtain ⟨s, hmount, htable, hstatus⟩ :=
    @mount_bitmap (State.start 5 pointingImage).disk (by decide) (by decide)
  refine ⟨s, hmount, htable, ?_, ?_, ?_⟩
  · obtain ⟨status, hlookup, hiff⟩ := hstatus 2 (by decide) (by decide)
    rw [hlookup, hiff.mpr howned]
  · obtain ⟨status, hlookup, hiff⟩ := hstatus 3 (by decide) (by decide)
    rw [hlookup, Bool.of_not_eq_false fun hused => hunowned.1 (hiff.mp hused)]
  · obtain ⟨status, hlookup, hiff⟩ := hstatus 4 (by decide) (by decide)
    rw [hlookup, Bool.of_not_eq_false fun hused => hunowned.2 (hiff.mp hused)]

/-! ## A full disk

The allocator scans from the first data block to the end of the disk and returns the number where it
stopped. On a full disk this is the number of blocks, which is not a block; `write` does not ask. -/

/-- Every data block has an entry in the bitmap. -/
def BitmapCovers (s : State) : Prop := ∀ b, s.IsDataBlock b → b < 4096

/-- The scan looks up every block it passes. -/
theorem nextFreeLoop_covers {rounds : Nat} :
    ∀ {b r : Nat}, s.nextFreeLoop rounds b = .ok r → b + rounds < 4294967296 →
      ∀ c, b ≤ c → c < r → s.IsDataBlock c → c < 4096 := by
  induction rounds with
  | zero =>
    intro b r h _ c hc hcr
    cases h
    omega
  | succ rounds ih =>
    intro b r h hbound c hc hcr hdata
    obtain ⟨hlt, ⟨-, rfl⟩ | ⟨-, hrest⟩⟩ := of_nextFreeLoop_round h (by omega)
    · omega
    · by_cases hcb : c = b
      · rw [hcb] at hdata ⊢
        exact hlt hdata
      · exact ih hrest (by omega) c (by omega) hcr hdata

/-- The allocator returns if its scan stays in the bitmap. -/
theorem getNextFreeBlock_returns (hm : s.Mounted) (hcovers : s.BitmapCovers) :
    ∃ p, s.getNextFreeBlock = .ok p := by
  have hdisk : s.fs.diskSet = true := hm.diskSet
  have hsize : asInt s.disk.size = s.shape.blocks.toNat := hm.size_eq
  have hblocks : s.shape.blocks.toNat < 4294967296 := s.shape.blocks.toNat_lt
  have hfits := hm.fits
  rw [hm.size_eq] at hfits
  have hfirst : s.fs.firstDataBlock = s.shape.tableBlocks + 1 := hm.firstDataBlock
  unfold getNextFreeBlock
  rw [if_pos hdisk, hsize]
  have hscan : ∃ r, s.nextFreeLoop ((s.shape.blocks.toNat : Int) - (s.fs.firstDataBlock : Int)).toNat
      s.fs.firstDataBlock = .ok r :=
    nextFreeLoop_returns hdisk _ fun b _ _ _ => ⟨by omega, hcovers b⟩
  obtain ⟨r, hr⟩ := hscan
  dsimp only
  rw [hr]
  exact ⟨_, rfl⟩

/-- Behind the fifth block a `write` does nothing, whatever block the allocator returns. -/
theorem write_behind (hm : s.Mounted) (hcovers : s.BitmapCovers) {offset : Nat}
    (hindex : pointersPerInode ≤ offset / blockSize) (data : Block) (length : Nat) :
    s.write n data length offset = .ok (0, s) := by
  obtain ⟨p, hp⟩ := getNextFreeBlock_returns hm hcovers
  unfold State.write
  rw [hp, ok_bind]
  dsimp only
  rw [if_neg fun hand => by omega]

/-- The allocator on a full disk: it scans all data blocks, and returns the number of blocks. -/
theorem getNextFreeBlock_full (hm : s.Mounted) (hfull : ∀ b, s.IsDataBlock b → s.isFree b = false) :
    ((∃ p, s.getNextFreeBlock = .ok p) ↔ s.BitmapCovers)
      ∧ ∀ p, s.getNextFreeBlock = .ok p → p = s.shape.blocks := by
  have hdisk : s.fs.diskSet = true := hm.diskSet
  have hsize : asInt s.disk.size = s.shape.blocks.toNat := hm.size_eq
  have hfits := hm.fits
  rw [hm.size_eq] at hfits
  have hfirst : s.fs.firstDataBlock = s.shape.tableBlocks + 1 := hm.firstDataBlock
  have hblocks : s.shape.blocks.toNat < 4294967296 := s.shape.blocks.toNat_lt
  -- no data block is free, so the scan stops behind the last
  have hend : ∀ p, s.getNextFreeBlock = .ok p → p.toNat = s.shape.blocks.toNat := by
    intro p hp
    obtain ⟨-, -, -, ⟨-, hdata, hfree⟩ | hlast⟩ := of_getNextFreeBlock hm hp
    · rw [hfull _ hdata] at hfree
      cases hfree
    · exact hlast
  refine ⟨⟨fun ⟨p, hp⟩ b hdata => ?_, getNextFreeBlock_returns hm⟩,
    fun p hp => UInt32.toNat_inj.mp (hend p hp)⟩
  have hlast := hend p hp
  unfold getNextFreeBlock at hp
  rw [if_pos hdisk, hsize] at hp
  obtain ⟨r, hr, hp⟩ := of_bind_eq_ok hp
  cases hp
  have hbound : s.fs.firstDataBlock
      + ((s.shape.blocks.toNat : Int) - (s.fs.firstDataBlock : Int)).toNat < 4294967296 := by omega
  have hle := (of_nextFreeLoop hr hbound).2.1
  have hnumber : (UInt32.ofNat r).toNat = r := UInt32.toNat_ofNat_of_lt' (by
    show r < 4294967296
    omega)
  rw [hnumber] at hlast
  exact nextFreeLoop_covers hr hbound b hdata.1 (hlast ▸ hdata.2) hdata

/-- **Headline.** A `write` to a full disk does nothing and returns `0` exactly if it is behind
the fifth block and the scan of the allocator stays in the bitmap. -/
theorem write_full_iff (hm : s.Mounted) (hfull : ∀ b, s.IsDataBlock b → s.isFree b = false)
    (data : Block) (length offset : Nat) :
    s.write n data length offset = .ok (0, s)
      ↔ pointersPerInode ≤ offset / blockSize ∧ s.BitmapCovers := by
  obtain ⟨hreturns, -⟩ := getNextFreeBlock_full hm hfull
  refine ⟨fun h => ⟨?_, ?_⟩, fun ⟨hindex, hcovers⟩ => ?_⟩
  · rcases of_write hm h with ⟨p, -, -, hdata, -, hfree, -⟩ | ⟨hindex, -⟩
    · rw [hfull _ hdata] at hfree
      cases hfree
    · exact hindex
  · unfold State.write at h
    obtain ⟨p, hp, -⟩ := of_bind_eq_ok h
    exact hreturns.mp ⟨p, hp⟩
  · exact write_behind hm hcovers hindex data length

/-- Before the fifth block it throws, the pointer being set by then. -/
theorem write_full_error (hm : s.Mounted) (hfull : ∀ b, s.IsDataBlock b → s.isFree b = false)
    (hcovers : s.BitmapCovers) {inode : Inode} (hat : s.inodeAt n = some inode) {offset : Nat}
    (hindex : offset / blockSize < pointersPerInode) (data : Block) (length : Nat) :
    s.write n data length offset
      = .error (.invalidArgument (.tooBig (asInt s.shape.blocks))) := by
  obtain ⟨hreturns, hlast⟩ := getNextFreeBlock_full hm hfull
  obtain ⟨p, hp⟩ := hreturns.mpr hcovers
  obtain rfl := hlast p hp
  have hfits := hm.fits
  have hcheck : s.disk.sanityCheck (asInt s.shape.blocks) false
      = .error (.invalidArgument (.tooBig (asInt s.shape.blocks))) := by
    rw [Disk.sanityCheck, if_neg (by omega), if_pos]
    exact Int.le_refl _
  unfold State.write
  rw [hp, ok_bind]
  dsimp only
  rw [if_pos ⟨by omega, hindex⟩, getINode_ok hat, ok_bind, setINode_disk, Disk.write, hcheck]
  rfl

/-- The small disk with one data block, which a first write has taken. -/
theorem smallDisk_full : ∃ s₀ s₁, (State.start 3 (smallImage 1)).mount = .ok (true, s₀)
    ∧ s₀.write 0 (fun _ => 65) 4096 0 = .ok (4096, s₁) ∧ s₁.Mounted ∧ s₁.shape.blocks = 3
    ∧ (∀ b, s₁.IsDataBlock b → s₁.isFree b = false) ∧ ∃ inode, s₁.inodeAt 0 = some inode := by
  obtain ⟨s₀, hmount, hismount⟩ := smallDisk_mount 3 (by decide) (by decide) 1
  obtain ⟨htable, hfree⟩ := smallDisk_mounted hismount
  have hm := hismount.mounted
  have hblocks : s₀.shape.blocks = 3 := hismount.blocks
  have honly : ∀ b, s₀.IsDataBlock b ↔ b = 2 := fun b => by
    rw [smallDisk_isDataBlock hismount]
    show 2 ≤ b ∧ b < 3 ↔ b = 2
    omega
  obtain ⟨inode, hat⟩ : ∃ inode, s₀.inodeAt 0 = some inode :=
    inodeAt_eq_some_of_lt (by rw [htable]; decide)
  have hzero : 0 / blockSize < pointersPerInode := by decide
  -- one write takes the only block
  obtain ⟨s₁, hwrite⟩ := write_ok hm hat hzero
    ⟨2, (honly 2).mpr rfl, hfree 2 (by decide) (by decide)⟩ (fun _ => 65) 4096
  have hshape := write_shape hm hwrite
  refine ⟨s₀, s₁, hmount, hwrite, hm.of_shape hshape, by rw [hshape, hblocks], fun b hb => ?_, ?_⟩
  · have hb' := (honly b).mp ((isDataBlock_congr hshape b).mp hb)
    rcases of_write hm hwrite with ⟨p, inode', -, hdata, hlt, -, -, -, -, rfl⟩ | ⟨-, hzero, -⟩
    · rw [wrote_isFree hlt hdata, hb', (honly _).mp hdata, if_pos rfl]
    · cases hzero
  · exact inodeAt_eq_some_of_lt (by rw [hshape, htable]; decide)

/-- Behind the fifth block the full disk is left alone. -/
theorem write_full_behind : ∃ s₁ : State, (∀ b, s₁.IsDataBlock b → s₁.isFree b = false)
    ∧ s₁.write 0 (fun _ => 66) 4096 20480 = .ok (0, s₁) := by
  obtain ⟨-, s₁, -, -, hm, hblocks, hfull, -⟩ := smallDisk_full
  refine ⟨s₁, hfull, (write_full_iff hm hfull (fun _ => 66) 4096 20480).mpr ⟨by decide, fun b hb => ?_⟩⟩
  have hlt := hb.2
  rw [hblocks] at hlt
  exact Nat.lt_trans hlt (by decide)

/-- **The defect**: the second block of the file throws. -/
theorem write_full_throws : ∃ s₀ s₁, (State.start 3 (smallImage 1)).mount = .ok (true, s₀)
    ∧ s₀.write 0 (fun _ => 65) 4096 0 = .ok (4096, s₁)
    ∧ (∀ b, s₁.IsDataBlock b → s₁.isFree b = false) ∧ (∃ inode, s₁.inodeAt 0 = some inode)
    ∧ s₁.write 0 (fun _ => 66) 4096 4096 = .error (.invalidArgument (.tooBig 3)) := by
  obtain ⟨s₀, s₁, hmount, hwrite, hm, hblocks, hfull, inode, hat⟩ := smallDisk_full
  have hcovers : s₁.BitmapCovers := fun b hb => by
    have hlt := hb.2
    rw [hblocks] at hlt
    exact Nat.lt_trans hlt (by decide)
  have hindex : 4096 / blockSize < pointersPerInode := by decide
  have herror := write_full_error hm hfull hcovers hat hindex (fun _ => 66) 4096
  rw [hblocks] at herror
  exact ⟨s₀, s₁, hmount, hwrite, hfull, ⟨inode, hat⟩, herror⟩

end OsLab.Sfs.State
