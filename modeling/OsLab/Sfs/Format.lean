import OsLab.Sfs.Image

/-!
# OsLab.Sfs.Format — a disk made ready for use

`format` is to leave an empty file system on the disk. It clears blocks `1` to `199`, whatever
the length of the disk, and the superblock it fills in is a local variable that it does not
write: block `0` stays as it was.

* **`of_clearBlocks`**: what the clearing loop leaves, block by block.
* **`mount_blank`**: a table of blank inodes is read in on a disk of any length, since none of
  its inodes reaches the bitmap.
* **`formatsEmpty_iff`** is the headline; `format_writes_no_superBlock` is an empty disk.
-/

namespace OsLab.Sfs

open Fallible State

variable {disk disk' : Disk} {s s' : State}

/-! ## Empty file systems

What `format` is for: after it, a mount finds a superblock that describes the disk, a table without
files, and all data blocks free. -/

/-- An inode as a cleared block holds it. -/
def Inode.blank : Inode := { valid := 0, size := 0, direct := fun _ => 0, indirect := 0 }

/-- A superblock that lays out a file system on a disk of `size` blocks. -/
structure SuperBlock.Describes (super : SuperBlock) (size : UInt32) : Prop where
  room : super.inodeBlocks.toNat + 1 ≤ super.blocks.toNat
  onDisk : super.blocks.toNat ≤ size.toNat
  inodes : super.inodes.toNat = super.inodeBlocks.toNat * inodesPerBlock
  nonempty : 0 < super.inodes.toNat

/-- A mounted file system without files, all of whose data blocks are free. -/
structure State.EmptyMount (s : State) : Prop where
  describes : s.fs.superBlock.Describes s.disk.size
  blank : ∀ n < s.fs.superBlock.inodes.toNat, s.inodeAt n = some .blank
  free : ∀ b, s.fs.superBlock.inodeBlocks.toNat + 1 ≤ b → b < s.disk.size.toNat →
    s.getBlockFreeStatus (UInt32.ofNat b) = .ok true

/-- What `format` is for: it refuses and leaves the disk alone, or a new `FileSystem` finds an
empty file system on the disk. -/
def State.FormatsEmpty (s : State) : Prop :=
  ∃ formatted s', s.format = .ok (formatted, s')
    ∧ (formatted = false ∧ s'.disk = s.disk
      ∨ formatted = true ∧ ∃ s₀, (State.mk s'.disk .init).mount = .ok (true, s₀) ∧ s₀.EmptyMount)

/-- The bytes of an empty file system, the inode blocks before block `first` of the table
apart. -/
structure EmptyImage (disk : Disk) (first : Nat) : Prop where
  describes : (decodeSuper (disk.blockAt 0)).Describes disk.size
  table : (decodeSuper (disk.blockAt 0)).inodeBlocks.toNat < Disk.distinctBlocks
  /-- The bitmap has 4096 entries; without data blocks it is not used. -/
  bitmap : disk.size.toNat ≤ 4096
    ∨ disk.size.toNat = (decodeSuper (disk.blockAt 0)).inodeBlocks.toNat + 1
  blank : ∀ n, first * inodesPerBlock ≤ n → n < (decodeSuper (disk.blockAt 0)).inodes.toNat →
    imageInode disk n = .blank

/-- The disks of which `format` makes an empty file system: they have the blocks it clears,
and hold the rest already, the superblock included. -/
structure Formattable (disk : Disk) : Prop where
  long : 200 ≤ asInt disk.size
  image : EmptyImage disk 199

/-! ## Clearing

The loop writes a block of zeros to `1`, `2` and so on up to `199`. It throws at the first number
that is not a block of the disk, having cleared those before it. -/

/-- One round of the loop of `format`. -/
def clearBlock (disk : Disk) (i : Nat) : Except Fault Disk := do
  let (_, disk) ← disk.write i fun _ => 0
  .ok disk

/-- A block of the disk can be cleared. -/
theorem clearBlock_ok {i : Nat} (h : (i : Int) < asInt disk.blocks) :
    clearBlock disk i = .ok (disk.setBlock i fun _ => 0) := by
  rw [clearBlock, Disk.write_ok h]
  rfl

/-- What has been cleared is a block of the disk. -/
theorem of_clearBlock {i : Nat} (h : clearBlock disk i = .ok disk') :
    (i : Int) < asInt disk.blocks ∧ disk' = disk.setBlock i fun _ => 0 := by
  unfold clearBlock at h
  obtain ⟨r, hwrite, -⟩ := of_bind_eq_ok h
  have hlt := Disk.lt_of_write_ok hwrite
  have hok := clearBlock_ok hlt
  unfold clearBlock at hok
  rw [hok] at h
  cases h
  exact ⟨hlt, rfl⟩

/-- The blocks from `first` up to `last` are cleared, and the others are as they were. -/
structure Cleared (disk disk' : Disk) (first last : Nat) : Prop where
  blocks : disk'.blocks = disk.blocks
  mounts : disk'.mounts = disk.mounts
  inside : ∀ b, first ≤ b → b < last → disk'.blockAt b = fun _ => 0
  outside : ∀ b < Disk.distinctBlocks, b < first ∨ last ≤ b → disk'.blockAt b = disk.blockAt b

/-- The loop of `format`, from block `first` on. -/
theorem of_clearBlocks (rounds : Nat) :
    ∀ {first : Nat} {disk disk' : Disk}, first + rounds ≤ Disk.distinctBlocks →
      (List.range' first rounds).foldlM clearBlock disk = .ok disk' →
      (0 < rounds → ((first + rounds : Nat) : Int) ≤ asInt disk.blocks)
        ∧ Cleared disk disk' first (first + rounds) := by
  induction rounds with
  | zero =>
    intro first disk disk' _ h
    cases h
    exact ⟨fun h => absurd h (Nat.lt_irrefl 0), rfl, rfl, fun b _ _ => by omega, fun _ _ _ => rfl⟩
  | succ rounds ih =>
    intro first disk disk' hdistinct h
    rw [List.range'_succ, List.foldlM_cons] at h
    obtain ⟨disk₁, hround, hrest⟩ := of_bind_eq_ok h
    obtain ⟨hlt, rfl⟩ := of_clearBlock hround
    obtain ⟨hfits, hcleared⟩ := ih (by omega) hrest
    refine ⟨fun _ => ?_, hcleared.blocks, hcleared.mounts, fun b hb hb' => ?_, fun b hb hout => ?_⟩
    · -- the disk has the last of the blocks, and so the first
      cases rounds with
      | zero => omega
      | succ rounds =>
        have hrest := hfits (Nat.succ_pos _)
        rw [Disk.setBlock_blocks] at hrest
        omega
    · by_cases hfirst : b = first
      · -- the later rounds leave the first block alone
        subst hfirst
        rw [hcleared.outside b (by omega) (Or.inl (Nat.lt_succ_self b)), Disk.blockAt_setBlock_self]
      · exact hcleared.inside b (by omega) (by omega)
    · rw [hcleared.outside b hb (by omega)]
      exact Disk.blockAt_setBlock_of_ne (by omega) (by omega) hb

/-- Blocks of the disk can be cleared. -/
theorem clearBlocks_ok (first rounds : Nat)
    (h : ((first + rounds : Nat) : Int) ≤ asInt disk.blocks) :
    ∃ disk', (List.range' first rounds).foldlM clearBlock disk = .ok disk' := by
  have hround : ∀ {disk₁ : Disk} {i}, i ∈ List.range' first rounds → disk₁.blocks = disk.blocks →
      ∃ disk₂, clearBlock disk₁ i = .ok disk₂ ∧ disk₂.blocks = disk.blocks := by
    intro disk₁ i hmem hblocks
    have hi := (List.mem_range'_1.mp hmem).2
    exact ⟨_, clearBlock_ok (by rw [hblocks]; omega), hblocks⟩
  obtain ⟨disk', hclear, -⟩ := foldlM_returns clearBlock hround rfl
  exact ⟨disk', hclear⟩

/-- `format` is the loop, on a disk that is not mounted. -/
theorem format_eq (h : s.disk.mounted = false) :
    s.format
      = (List.range' 1 199).foldlM clearBlock s.disk >>= fun disk => .ok (true, { s with disk }) := by
  rw [State.format, if_neg (by rw [h]; exact Bool.false_ne_true)]
  rfl

/-- **`format`** of a disk that is not mounted. -/
theorem of_format (hnot : s.disk.mounted = false) {formatted : Bool}
    (h : s.format = .ok (formatted, s')) :
    formatted = true ∧ 200 ≤ asInt s.disk.blocks ∧ Cleared s.disk s'.disk 1 200 := by
  rw [format_eq hnot] at h
  obtain ⟨disk', hclear, h⟩ := of_bind_eq_ok h
  cases h
  obtain ⟨hfits, hcleared⟩ := of_clearBlocks 199 (by decide) hclear
  exact ⟨rfl, hfits (by decide), hcleared⟩

/-- On 200 blocks it comes to its end. -/
theorem format_ok (hnot : s.disk.mounted = false) (hlong : 200 ≤ asInt s.disk.blocks) :
    ∃ s', s.format = .ok (true, s') := by
  obtain ⟨disk', hclear⟩ := clearBlocks_ok 1 199 hlong
  rw [format_eq hnot, hclear]
  exact ⟨_, rfl⟩

/-! ## Mounting an empty image

A table of inodes that are not valid can be read in without a bitmap. What is found then depends on
the superblock, which `format` has not written. -/

/-- A round of `mount` over invalid inodes marks nothing. -/
theorem mountBlock_blank {i : Nat} (hi : ((i + 1 : Nat) : Int) < asInt s.disk.blocks)
    (hinvalid : ∀ j, (decodeInodes (s.disk.blockAt (i + 1)) j).valid = 0) :
    ∃ s', s.mountBlock i = .ok s' ∧ s'.disk = s.disk := by
  unfold mountBlock
  rw [Disk.read_ok hi, ok_bind]
  refine foldlM_returns (P := fun s' : State => s'.disk = s.disk) _
    (fun {s' j} _ hs' => ⟨s', ?_, hs'⟩) rfl
  rw [hinvalid j]
  rfl

/-- An inode by its block and its place there. -/
theorem imageInode_slot (i : Nat) (j : Fin 128) :
    imageInode disk (i * inodesPerBlock + j) = decodeInodes (disk.blockAt (i + 1)) j := by
  have hdiv : (i * inodesPerBlock + j) / inodesPerBlock = i := by
    unfold inodesPerBlock
    omega
  have hmod :
      (⟨(i * inodesPerBlock + j) % inodesPerBlock, Nat.mod_lt _ inodesPerBlock_pos⟩ : Fin 128) = j :=
    Fin.ext (by show (i * 128 + (j : Nat)) % 128 = j; omega)
  rw [imageInode, hdiv, hmod]

/-- A mount reads in blank inodes and marks nothing. -/
theorem mount_blank (hzero : 0 < asInt s.disk.blocks) (himage : EmptyImage s.disk 0) :
    ∃ s', s.mount = .ok (true, s') ∧ IsMount s s' := by
  refine mount_of_rounds (P := fun s' => s'.disk = s.disk.mount) hzero himage.table
    (fun _ _ => rfl) fun {s' i} hi hs' => ?_
  have hsize : asInt s.disk.blocks = s.disk.size.toNat := asInt_of_pos hzero
  have hroom := himage.describes.room
  have hon := himage.describes.onDisk
  have hread : ((i + 1 : Nat) : Int) < asInt s'.disk.blocks := by
    rw [hs']
    show _ < asInt s.disk.blocks
    omega
  -- no inode of the block is valid
  have hinvalid : ∀ j, (decodeInodes (s'.disk.blockAt (i + 1)) j).valid = 0 := by
    intro j
    have hinodes := himage.describes.inodes
    have hblank : imageInode s.disk (i * inodesPerBlock + j) = .blank :=
      himage.blank _ (by omega) (by unfold inodesPerBlock at *; omega)
    rw [imageInode_slot] at hblank
    rw [hs']
    exact congrArg Inode.valid hblank
  obtain ⟨s'', hblock, hdisk⟩ := mountBlock_blank hread hinvalid
  exact ⟨s'', hblock, hdisk.trans hs'⟩

section NewFileSystem

variable {s₀ : State}

/-- The number of a block of the disk fits. -/
theorem toNat_ofNat_of_lt_size {b : Nat} (hb : b < disk.size.toNat) : (UInt32.ofNat b).toNat = b :=
  UInt32.toNat_ofNat_of_lt' (Nat.lt_trans hb disk.size.toNat_lt)

/-- What a mount finds empty was empty on the disk. -/
theorem State.EmptyMount.emptyImage (h : s₀.EmptyMount) (hmount : IsMount (State.mk disk .init) s₀) :
    EmptyImage disk 0 := by
  have hsuper : s₀.fs.superBlock = decodeSuper (disk.blockAt 0) := hmount.superBlock
  have hsize : s₀.disk.size = disk.size := hmount.blocks
  obtain ⟨hdescribes, hblank, hfree⟩ := h
  rw [hsuper, hsize] at hdescribes hfree
  rw [hsuper] at hblank
  have htable : (decodeSuper (disk.blockAt 0)).inodeBlocks.toNat = s₀.shape.tableBlocks :=
    hmount.tableBlocks.symm
  refine ⟨hdescribes, ?_, ?_, fun n _ hn => ?_⟩
  · rw [htable]
    exact hmount.mounted.distinct
  · by_cases hend : disk.size.toNat = (decodeSuper (disk.blockAt 0)).inodeBlocks.toNat + 1
    · exact Or.inr hend
    · -- the last block is a data block
      have hroom := hdescribes.room
      have hon := hdescribes.onDisk
      have hlast : disk.size.toNat - 1 < disk.size.toNat := by omega
      have hdata : s₀.IsDataBlock (disk.size.toNat - 1) := (hmount.isDataBlock_iff _).mpr
        ⟨show (decodeSuper (disk.blockAt 0)).inodeBlocks.toNat + 1 ≤ _ by omega, hlast⟩
      have hstatus := (of_getBlockFreeStatus (hfree _ (by omega) hlast)).1
      rw [toNat_ofNat_of_lt_size hlast] at hstatus
      have hsmall := hstatus hdata
      exact Or.inl (by omega)
  · -- what the mount has read in was there
    have hat := hmount.inodeAt (n := n) (by rw [← htable, ← hdescribes.inodes]; exact hn)
    rw [hblank n hn, Option.some.injEq] at hat
    exact hat.symm

/-- And an empty image is found empty. -/
theorem EmptyImage.emptyMount (h : EmptyImage disk 0) (hmount : IsMount (State.mk disk .init) s₀) :
    s₀.EmptyMount := by
  have hsuper : s₀.fs.superBlock = decodeSuper (disk.blockAt 0) := hmount.superBlock
  have hsize : s₀.disk.size = disk.size := hmount.blocks
  have hinodes := h.describes.inodes
  have hat (n : Nat) (hn : n < (decodeSuper (disk.blockAt 0)).inodes.toNat) :
      s₀.inodeAt n = some .blank := by
    rw [hmount.inodeAt (by rw [hmount.tableBlocks]; exact hinodes ▸ hn)]
    exact congrArg some (h.blank n (by omega) hn)
  refine ⟨?_, ?_, fun b hlow hhigh => ?_⟩
  · rw [hsuper, hsize]
    exact h.describes
  · rw [hsuper]
    exact hat
  · rw [hsuper] at hlow
    rw [hsize] at hhigh
    have hb := toNat_ofNat_of_lt_size hhigh
    have hdata : s₀.IsDataBlock b := (hmount.isDataBlock_iff b).mpr ⟨hlow, hhigh⟩
    have hsmall : b < 4096 := by
      have hbitmap := h.bitmap
      omega
    -- no inode is valid, so none owns the block
    have hfree : s₀.isFree b = true := by
      refine (hmount.free b).mpr ⟨dif_pos hsmall, fun ⟨_, howned⟩ => ?_⟩
      obtain ⟨n, inode, k, hn, hvalid, -⟩ := (hmount.imageOwned_iff b).mp howned
      have hlt := lt_of_inodeAt hn
      rw [hmount.tableBlocks] at hlt
      rw [hat n (hinodes ▸ hlt)] at hn
      cases hn
      exact hvalid rfl
    rw [getBlockFreeStatus_ok hmount.mounted.diskSet fun _ => hb.symm ▸ hsmall, hb,
      decide_eq_true ⟨hdata, hfree⟩]

/-- A new `FileSystem` finds an empty file system exactly on an empty image. -/
theorem emptyMount_iff (hzero : 0 < asInt disk.size) :
    (∃ s₀, (State.mk disk .init).mount = .ok (true, s₀) ∧ s₀.EmptyMount) ↔ EmptyImage disk 0 := by
  constructor
  · rintro ⟨s₀, hreturns, hempty⟩
    exact hempty.emptyImage (of_mount hreturns).2
  · intro himage
    obtain ⟨s₀, hreturns, hmount⟩ := mount_blank (s := State.mk disk .init) hzero himage
    exact ⟨s₀, hreturns, himage.emptyMount hmount⟩

end NewFileSystem

/-! ## The headline

`format` and a mount give an empty file system exactly if block `0` holds a fitting superblock
already, and the table that it describes is blank behind the blocks that are cleared. -/

/-- Clearing makes the first 199 inode blocks blank and leaves the rest to what the disk
held. -/
theorem Cleared.emptyImage_iff (h : Cleared disk disk' 1 200) :
    EmptyImage disk' 0 ↔ EmptyImage disk 199 := by
  have hsuper : decodeSuper (disk'.blockAt 0) = decodeSuper (disk.blockAt 0) :=
    congrArg decodeSuper (h.outside 0 (by decide) (Or.inl (by decide)))
  have hsize : disk'.size = disk.size := h.blocks
  -- inodes behind the blocks cleared are as they were
  have hbehind : (decodeSuper (disk.blockAt 0)).Describes disk.size →
      (decodeSuper (disk.blockAt 0)).inodeBlocks.toNat < Disk.distinctBlocks →
      ∀ n, 199 * inodesPerBlock ≤ n → n < (decodeSuper (disk.blockAt 0)).inodes.toNat →
        imageInode disk' n = imageInode disk n := by
    intro hdescribes htable n hlow hn
    rw [hdescribes.inodes] at hn
    have hlt : n / inodesPerBlock < (decodeSuper (disk.blockAt 0)).inodeBlocks.toNat :=
      (Nat.div_lt_iff_lt_mul inodesPerBlock_pos).mpr hn
    have hge : 199 ≤ n / inodesPerBlock := (Nat.le_div_iff_mul_le inodesPerBlock_pos).mpr hlow
    rw [imageInode, h.outside _ (by omega) (Or.inr (by omega)), imageInode]
  constructor
  · intro himage
    have hdescribes := himage.describes
    have htable := himage.table
    have hbitmap := himage.bitmap
    have hblank := himage.blank
    rw [hsuper, hsize] at hdescribes hbitmap
    rw [hsuper] at htable hblank
    refine ⟨hdescribes, htable, hbitmap, fun n hlow hn => ?_⟩
    rw [← hbehind hdescribes htable n hlow hn]
    exact hblank n (by omega) hn
  · rintro ⟨hdescribes, htable, hbitmap, hblank⟩
    refine ⟨by rw [hsuper, hsize]; exact hdescribes, by rw [hsuper]; exact htable,
      by rw [hsuper, hsize]; exact hbitmap, fun n _ hn => ?_⟩
    rw [hsuper] at hn
    by_cases hlow : 199 * inodesPerBlock ≤ n
    · rw [hbehind hdescribes htable n hlow hn]
      exact hblank n hlow hn
    · have hlt : n / inodesPerBlock < 199 :=
        (Nat.div_lt_iff_lt_mul inodesPerBlock_pos).mpr (Nat.lt_of_not_le hlow)
      rw [imageInode, h.inside _ (Nat.le_add_left 1 _) (by omega)]
      rfl

/-- A disk without a superblock is not made one. -/
theorem State.FormatsEmpty.formattable (hnot : s.disk.mounted = false) (h : s.FormatsEmpty) :
    Formattable s.disk := by
  obtain ⟨formatted, s', hformat, hcase⟩ := h
  obtain ⟨rfl, hlong, hcleared⟩ := of_format hnot hformat
  rcases hcase with ⟨hfalse, -⟩ | ⟨-, hempty⟩
  · cases hfalse
  · have hzero : 0 < asInt s'.disk.size := by
      show 0 < asInt s'.disk.blocks
      rw [hcleared.blocks]
      omega
    exact ⟨hlong, hcleared.emptyImage_iff.mp ((emptyMount_iff hzero).mp hempty)⟩

/-- **Headline.** `format` makes an empty file system of exactly the formattable disks. -/
theorem formatsEmpty_iff (hnot : s.disk.mounted = false) : s.FormatsEmpty ↔ Formattable s.disk := by
  refine ⟨fun h => h.formattable hnot, fun ⟨hlong, himage⟩ => ?_⟩
  obtain ⟨s', hformat⟩ := format_ok hnot hlong
  obtain ⟨-, -, hcleared⟩ := of_format hnot hformat
  have hzero : 0 < asInt s'.disk.size := by
    show 0 < asInt s'.disk.blocks
    rw [hcleared.blocks]
    have hlong' : 200 ≤ asInt s.disk.blocks := hlong
    omega
  have hempty := (emptyMount_iff hzero).mpr (hcleared.emptyImage_iff.mpr himage)
  exact ⟨true, s', hformat, Or.inr ⟨rfl, hempty⟩⟩

/-- Block `0` of an image with the superblock `format` fills in: 200 blocks, 20 inode blocks,
2560 inodes. -/
def superBlockImage : Bytes.Image := fun a =>
  if a = 4 then 200 else if a = 8 then 20 else if a = 13 then 10 else 0

/-- With that superblock in place a disk of 200 blocks is formatted. -/
theorem formatsEmpty_superBlock : (State.start 200 superBlockImage).FormatsEmpty := by
  have hsuper : decodeSuper ((State.start 200 superBlockImage).disk.blockAt 0)
      = { magicNumber := 0, blocks := 200, inodeBlocks := 20, inodes := 2560 } := by decide
  refine (formatsEmpty_iff rfl).mpr ⟨by decide, ?_, ?_, Or.inl (by decide), fun n hlow hn => ?_⟩
  · rw [hsuper]
    exact ⟨by decide, by decide, by decide, by decide⟩
  · rw [hsuper]
    decide
  · rw [hsuper] at hn
    exact absurd (Nat.lt_of_le_of_lt hlow hn) (by decide)

/-- **The defect**: on a new disk of 200 blocks, all zero, no superblock is written. -/
theorem format_writes_no_superBlock : (State.start 200 fun _ => 0).disk.mounted = false
    ∧ ¬ (State.start 200 fun _ => 0).FormatsEmpty := by
  refine ⟨rfl, fun h => ?_⟩
  have hinodes := (h.formattable rfl).image.describes.nonempty
  exact absurd hinodes (by decide)

end OsLab.Sfs
