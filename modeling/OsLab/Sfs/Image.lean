import OsLab.Sfs.Progress

/-!
# OsLab.Sfs.Image — disk images

* **`CleanImage`**: the images on which the file system keeps its books, stated on the bytes.
* **`smallDisk`**: a disk with one inode block and empty files. It is clean, and all its data
  blocks are free after a mount (`smallDisk_mounted`).
-/

namespace OsLab.Sfs

/-! ## Clean images

What a disk must be like for a mount to be safe: a table that fits, a bitmap that covers, and valid
inodes that share no block. -/

/-- An image whose valid inodes own disjoint data blocks and whose invalid inodes are blank,
on a disk the bitmap covers. -/
structure CleanImage (disk : Disk) : Prop where
  fits : (decodeSuper (disk.blockAt 0)).inodeBlocks.toNat + 1 ≤ disk.size.toNat
  small : disk.size.toNat ≤ 4096
  blank : ∀ n < (decodeSuper (disk.blockAt 0)).inodeBlocks.toNat * inodesPerBlock,
    (State.imageInode disk n).valid = 0 →
      (State.imageInode disk n).size = 0 ∧ ∀ k, (State.imageInode disk n).direct k = 0
  region : ∀ n < (decodeSuper (disk.blockAt 0)).inodeBlocks.toNat * inodesPerBlock,
    (State.imageInode disk n).valid ≠ 0 → ∀ k, (State.imageInode disk n).direct k ≠ 0 →
      (decodeSuper (disk.blockAt 0)).inodeBlocks.toNat + 1 ≤ ((State.imageInode disk n).direct k).toNat
        ∧ ((State.imageInode disk n).direct k).toNat < disk.size.toNat
  disjoint : ∀ n < (decodeSuper (disk.blockAt 0)).inodeBlocks.toNat * inodesPerBlock,
    ∀ n' < (decodeSuper (disk.blockAt 0)).inodeBlocks.toNat * inodesPerBlock, ∀ k k',
      (State.imageInode disk n).valid ≠ 0 → (State.imageInode disk n').valid ≠ 0 →
      (State.imageInode disk n).direct k ≠ 0 →
      (State.imageInode disk n).direct k = (State.imageInode disk n').direct k' → n = n' ∧ k = k'

/-! ## A small image

One inode block and some data blocks. Inode `0` is valid or not, and no inode has a block. -/

/-- An image with one inode block. Every inode in it is empty, and only inode `0` may be
valid. -/
def smallImage (valid : UInt8) : Bytes.Image := fun a =>
  if a = 8 then 1 else if a = 4096 then valid else 0

/-- A disk with that image. -/
def smallDisk (blocks : UInt32) (valid : UInt8) : Disk := (State.start blocks (smallImage valid)).disk

theorem smallDisk_inodeBlocks (blocks : UInt32) (valid : UInt8) :
    (decodeSuper ((smallDisk blocks valid).blockAt 0)).inodeBlocks.toNat = 1 := rfl

theorem smallDisk_empty (blocks : UInt32) (valid : UInt8) {n : Nat} (hn : n < 1 * inodesPerBlock) :
    (State.imageInode (smallDisk blocks valid) n).size = 0
      ∧ ∀ k, (State.imageInode (smallDisk blocks valid) n).direct k = 0 := by
  have hblock : n / inodesPerBlock + 1 = 1 := by
    unfold inodesPerBlock at *
    omega
  have hword : ∀ i : Fin 8, 1 ≤ (i : Nat) →
      wordsOfBlock ((smallDisk blocks valid).blockAt 1) ⟨8 * (n % 128) + i, by omega⟩ = 0 := by
    intro i hi
    have hbytes : (fun r : Fin 4 => smallImage valid (4096 + (4 * (8 * (n % 128) + i) + r)))
        = fun _ => 0 := by
      funext r
      rw [smallImage, if_neg (by omega), if_neg (by omega)]
    show Bytes.wordOf (fun r : Fin 4 => smallImage valid (4096 + (4 * (8 * (n % 128) + i) + r))) = 0
    rw [hbytes]
    rfl
  unfold State.imageInode
  rw [hblock]
  exact ⟨hword 1 (Nat.le_refl _), fun k => hword ⟨k + 2, by omega⟩ (by show 1 ≤ (k : Nat) + 2; omega)⟩

theorem smallDisk_clean {blocks : UInt32} (hlow : 2 ≤ blocks.toNat) (hhigh : blocks.toNat ≤ 4096)
    (valid : UInt8) : CleanImage (smallDisk blocks valid) where
  fits := by
    rw [smallDisk_inodeBlocks]
    exact hlow
  small := hhigh
  blank n hn _ := smallDisk_empty blocks valid (smallDisk_inodeBlocks blocks valid ▸ hn)
  region n hn _ k hk :=
    absurd ((smallDisk_empty blocks valid (smallDisk_inodeBlocks blocks valid ▸ hn)).2 k) hk
  disjoint n hn _ _ k _ _ _ hk :=
    absurd ((smallDisk_empty blocks valid (smallDisk_inodeBlocks blocks valid ▸ hn)).2 k) hk

theorem smallDisk_mount (blocks : UInt32) (hlow : 2 ≤ blocks.toNat) (hhigh : blocks.toNat ≤ 4096)
    (valid : UInt8) : ∃ s₀, (State.start blocks (smallImage valid)).mount = .ok (true, s₀)
      ∧ State.IsMount (State.start blocks (smallImage valid)) s₀ :=
  State.mount_ok (smallDisk_clean hlow hhigh valid).fits hhigh

/-- The state after mounting it. -/
theorem smallDisk_mounted {blocks : UInt32} {valid : UInt8} {s₀ : State}
    (h : State.IsMount (State.start blocks (smallImage valid)) s₀) :
    s₀.shape.tableBlocks = 1 ∧ ∀ c, 0 < c → c < 4096 → s₀.isFree c = true := by
  have htable : s₀.shape.tableBlocks = 1 := h.tableBlocks
  refine ⟨htable, fun c hpos hc => (h.free c).mpr ⟨dif_pos hc, fun ⟨_, howned⟩ => ?_⟩⟩
  obtain ⟨n, inode, k, hat, -, hk⟩ := (h.imageOwned_iff c).mp howned
  have hn := State.lt_of_inodeAt hat
  rw [h.inodeAt hn] at hat
  cases hat
  have hk' : ((State.imageInode (smallDisk blocks valid) n).direct k).toNat = c := hk
  rw [(smallDisk_empty blocks valid (htable ▸ hn)).2 k] at hk'
  exact absurd hk' (Nat.ne_of_lt hpos)

/-- Its data blocks. -/
theorem smallDisk_isDataBlock {blocks : UInt32} {valid : UInt8} {s₀ : State}
    (h : State.IsMount (State.start blocks (smallImage valid)) s₀) (c : Nat) :
    s₀.IsDataBlock c ↔ 2 ≤ c ∧ c < blocks.toNat := by
  exact h.isDataBlock_iff c

/-- Each of its inodes can be removed, whatever else has happened that keeps the shape. -/
theorem smallDisk_remove {blocks : UInt32} {valid : UInt8} {s₀ s : State}
    (h : State.IsMount (State.start blocks (smallImage valid)) s₀) (hhigh : blocks.toNat ≤ 4096)
    (hshape : s.shape = s₀.shape) {n : Nat} (hn : n < 128) : ∃ s', s.remove n = .ok (true, s') := by
  have hm : s.Mounted := h.mounted.of_shape hshape
  obtain ⟨inode, hat⟩ : ∃ inode, s.inodeAt n = some inode := by
    refine State.inodeAt_eq_some_of_lt ?_
    rw [hshape, (smallDisk_mounted h).1]
    exact hn
  refine State.remove_ok ⟨hm.diskSet, ?_⟩ hat
  rw [hshape, h.blocks]
  exact hhigh

end OsLab.Sfs
