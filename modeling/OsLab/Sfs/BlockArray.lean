import OsLab.Lib.Fallible
import OsLab.Sfs.Disk

/-!
# OsLab.Sfs.BlockArray — the disk as an array of blocks

`sanity_check` lets every block number below `Blocks` through, and `read` and `write` position
the file at `blocknum * BLOCK_SIZE` in a field of 32 bits. So two blocks share their bytes
exactly if their numbers agree modulo `distinctBlocks`.

* **`readsAsArray_iff`**: what a write to one block does to a read of another.
* **`blockArray_iff`** is the headline; `blockArray_wraps` is a disk with one block too many.
-/

namespace OsLab.Sfs

open Bytes Fallible

namespace Disk

/-- The disk after `open(path, nblocks)`, on a file that holds `image`. -/
def opened (nblocks : UInt32) (image : Image) : Disk := { blocks := nblocks, mounts := 0, image }

/-- Writes, in order. -/
def writeAll (disk : Disk) : List (Int × Block) → Except Fault Disk
  | [] => .ok disk
  | (blocknum, data) :: rest => do
    let (_, disk) ← disk.write blocknum data
    disk.writeAll rest

/-- `sanity_check` lets the block number through. -/
abbrev Accepts (disk : Disk) (blocknum : Int) : Prop := disk.sanityCheck blocknum false = .ok ()

/-- What a block array does: after `write(b, data)`, `read(a)` delivers `data` if `a` is `b`, and
what it delivered before if not. -/
def ReadsAsArray (disk : Disk) (a b : Int) : Prop :=
  ∀ data : Block, ∃ before disk', disk.read a = .ok (blockSize, before)
    ∧ disk.write b data = .ok (blockSize, disk')
    ∧ disk'.read a = .ok (blockSize, if a = b then data else before)

/-! ## Positions

Block `b` starts at `b * blockSize`, but only the lower 32 bits of this go to `SetFilePointerEx`. So
two blocks lie in one place when they agree modulo `distinctBlocks`. -/

variable {disk : Disk} {a b : Int}

/-- The lower half of a position is the position of a block. -/
theorem lowPart_eq (b : Nat) : lowPart b = b % distinctBlocks * blockSize := by
  show (Int.toNat b * blockSize) % 4294967296 = _
  rw [Int.toNat_natCast]
  unfold distinctBlocks blockSize
  omega

/-- Blocks that agree modulo `distinctBlocks` share their bytes. -/
theorem blockAt_setBlock_of_mod_eq {b c : Nat} (h : c % distinctBlocks = b % distinctBlocks)
    (data : Block) : (disk.setBlock b data).blockAt c = data := by
  have hpos : lowPart c = lowPart b := by rw [lowPart_eq, lowPart_eq, h]
  rw [blockAt, hpos]
  exact load_store _ _ _

/-- The others lie beside each other. -/
theorem blockAt_setBlock_of_mod_ne {b c : Nat} (h : c % distinctBlocks ≠ b % distinctBlocks)
    (data : Block) : (disk.setBlock b data).blockAt c = disk.blockAt c := by
  refine load_store_of_disjoint _ _ ?_
  rw [lowPart_eq, lowPart_eq]
  unfold blockSize
  omega

/-! ## One write

A write to one block and a read of another: what is read has changed if the two lie in one place,
and it is what it was if not. -/

/-- What the check lets through, as a range. -/
theorem accepts_iff : disk.Accepts a ↔ 0 ≤ a ∧ a < asInt disk.blocks := by
  refine ⟨of_sanityCheck, fun ⟨hnonneg, hlt⟩ => ?_⟩
  obtain ⟨n, rfl⟩ := Int.eq_ofNat_of_zero_le hnonneg
  exact sanityCheck_ok hlt

/-- A block unlike any other. -/
theorem exists_ne (block : Block) : ∃ data : Block, data ≠ block := by
  refine ⟨fun i => block i + 1, fun heq => ?_⟩
  have hsame : block 0 + 1 = block 0 := congrFun heq 0
  simp at hsame

/-- **One write**, for all data: the two blocks are the same or lie beside each other. -/
theorem readsAsArray_iff (ha : disk.Accepts a) (hb : disk.Accepts b) :
    disk.ReadsAsArray a b ↔ a = b ∨ a % distinctBlocks ≠ b % distinctBlocks := by
  obtain ⟨hnonnegA, hltA⟩ := accepts_iff.mp ha
  obtain ⟨hnonnegB, hltB⟩ := accepts_iff.mp hb
  obtain ⟨m, rfl⟩ := Int.eq_ofNat_of_zero_le hnonnegA
  obtain ⟨n, rfl⟩ := Int.eq_ofNat_of_zero_le hnonnegB
  have hbefore : disk.read m = .ok (blockSize, disk.blockAt m) := read_ok hltA
  have hwrite : ∀ data, disk.write n data = .ok (blockSize, disk.setBlock n data) := write_ok hltB
  have hafter : ∀ data, (disk.setBlock n data).read m
      = .ok (blockSize, (disk.setBlock n data).blockAt m) := fun _ => read_ok hltA
  have hmod : ((m : Int) % distinctBlocks ≠ (n : Int) % distinctBlocks)
      ↔ m % distinctBlocks ≠ n % distinctBlocks := by omega
  rw [Int.ofNat_inj, hmod]
  constructor
  · intro h
    by_contra hshared
    obtain ⟨hne, hsame⟩ := not_or.mp hshared
    -- other data than block `m` holds would have to stay invisible there
    obtain ⟨data, hdata⟩ := exists_ne (disk.blockAt m)
    obtain ⟨before, disk', hread, hwritten, hread'⟩ := h data
    rw [hbefore] at hread
    cases hread
    rw [hwrite] at hwritten
    cases hwritten
    rw [hafter, blockAt_setBlock_of_mod_eq (not_not.mp hsame),
      if_neg fun heq => hne (Int.ofNat_inj.mp heq)] at hread'
    cases hread'
    exact hdata rfl
  · intro h data
    refine ⟨_, _, hbefore, hwrite data, ?_⟩
    rw [hafter]
    rcases h with rfl | hdiffer
    · rw [if_pos rfl, blockAt_setBlock_self]
    · have hne : (m : Int) ≠ n := fun heq =>
        hdiffer (congrArg (· % distinctBlocks) (Int.ofNat_inj.mp heq))
      rw [if_neg hne, blockAt_setBlock_of_mod_ne hdiffer]

/-! ## The headline

After any writes there are as many blocks as there were, so the same numbers are accepted. -/

/-- Writes do not change the number of blocks. -/
theorem writeAll_blocks (writes : List (Int × Block)) :
    ∀ {disk disk' : Disk}, disk.writeAll writes = .ok disk' → disk'.blocks = disk.blocks := by
  induction writes with
  | nil =>
    intro disk disk' h
    cases h
    rfl
  | cons w rest ih =>
    intro disk disk' h
    obtain ⟨⟨total, disk₁⟩, hwrite, h⟩ := of_bind_eq_ok h
    obtain ⟨_, -, hwrite⟩ := of_bind_eq_ok hwrite
    cases hwrite
    have hrest := ih h
    exact hrest

/-- **Headline.** On a disk of any number of blocks, after any writes: a write and a read of two
accepted blocks are those of an array exactly if the blocks are the same or differ modulo
`distinctBlocks`, and all are so exactly if there are at most `distinctBlocks` blocks. -/
theorem blockArray_iff {nblocks : UInt32} {image : Image} {writes : List (Int × Block)}
    (hnonneg : 0 ≤ asInt nblocks) (hwrites : (opened nblocks image).writeAll writes = .ok disk) :
    (∀ a b, disk.Accepts a → disk.Accepts b →
        (disk.ReadsAsArray a b ↔ a = b ∨ a % distinctBlocks ≠ b % distinctBlocks))
      ∧ ((∀ a b, disk.Accepts a → disk.Accepts b → disk.ReadsAsArray a b)
        ↔ asInt nblocks ≤ distinctBlocks) := by
  have hblocks : disk.blocks = nblocks := writeAll_blocks writes hwrites
  refine ⟨fun a b ha hb => readsAsArray_iff ha hb, fun hall => ?_, fun hsmall a b ha hb => ?_⟩
  · -- block `0` and block `distinctBlocks` would lie in one place
    by_contra hlarge
    have hzero : disk.Accepts 0 := accepts_iff.mpr ⟨Int.le_refl 0, by rw [hblocks]; omega⟩
    have hwrapped : disk.Accepts distinctBlocks :=
      accepts_iff.mpr ⟨by decide, by rw [hblocks]; exact Int.not_le.mp hlarge⟩
    rcases (readsAsArray_iff hzero hwrapped).mp (hall _ _ hzero hwrapped) with heq | hne
    · exact absurd heq (by decide)
    · exact hne (by decide)
  · obtain ⟨hnonnegA, hltA⟩ := accepts_iff.mp ha
    obtain ⟨hnonnegB, hltB⟩ := accepts_iff.mp hb
    rw [hblocks] at hltA hltB
    refine (readsAsArray_iff ha hb).mpr ?_
    rw [Int.emod_eq_of_lt hnonnegA (by omega), Int.emod_eq_of_lt hnonnegB (by omega)]
    exact Decidable.em (a = b)

/-- The bundled number of blocks, after one write. -/
theorem blockArray_200 :
    (opened 200 fun _ => 0).writeAll [(7, fun _ => 65)]
        = .ok ((opened 200 fun _ => 0).setBlock 7 fun _ => 65)
      ∧ ((opened 200 fun _ => 0).setBlock 7 fun _ => 65).ReadsAsArray 3 7 := by
  have hrun : (opened 200 fun _ => 0).writeAll [(7, fun _ => 65)]
      = .ok ((opened 200 fun _ => 0).setBlock 7 fun _ => 65) := rfl
  have hnonneg : 0 ≤ asInt 200 := by decide
  exact ⟨hrun, ((blockArray_iff hnonneg hrun).1 3 7 rfl rfl).mpr (Or.inr (by decide))⟩

/-- **The defect**: on a disk of `distinctBlocks + 1` blocks the last one is the first. -/
theorem blockArray_wraps :
    (opened 1048577 fun _ => 0).Accepts 0 ∧ (opened 1048577 fun _ => 0).Accepts 1048576
      ∧ ¬ (opened 1048577 fun _ => 0).ReadsAsArray 0 1048576 := by
  refine ⟨rfl, rfl, fun h => ?_⟩
  obtain ⟨before, disk', hbefore, hwrite, hafter⟩ := h fun _ => 65
  cases hbefore
  cases hwrite
  rw [if_neg (by decide)] at hafter
  -- the bytes just written are delivered, not those of before
  have hblocks := congrArg Prod.snd (Except.ok.inj hafter)
  exact absurd (congrFun hblocks 0) (by decide)

end Disk

end OsLab.Sfs
