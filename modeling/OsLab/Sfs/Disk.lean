import OsLab.Lib.Bytes

/-!
# OsLab.Sfs.Disk — the disk emulator

`Disk`: an image file read and written in blocks of `BLOCK_SIZE` bytes. The file is taken to
be long enough for every block, so positioning and transfers succeed; what can fail is
`sanity_check`, which throws.

The byte position of a block is an unsigned 32-bit product. `blockAt_setBlock_of_ne` says that
blocks below `distinctBlocks` do not overlap; beyond it the positions repeat.
-/

namespace OsLab.Sfs

open Bytes

/-- `Disk::BLOCK_SIZE`. -/
abbrev blockSize : Nat := 4096

/-- `Block::Data`, `BLOCK_SIZE` bytes. -/
abbrev Block := Fin 4096 → UInt8

/-- A `uint32_t`, or a `size_t` of the 32-bit build, as an `int`. -/
def asInt (w : UInt32) : Int :=
  if w.toNat < 2147483648 then w.toNat else (w.toNat : Int) - 4294967296

/-- A number that is positive as an `int` is what it is. -/
theorem asInt_of_pos {w : UInt32} (h : 0 < asInt w) : asInt w = w.toNat := by
  unfold asInt at h ⊢
  split
  · rfl
  · next hge =>
    have hlt : w.toNat < 4294967296 := w.toNat_lt
    rw [if_neg hge] at h
    omega

/-! ## Faults

An exception, a null pointer and an access outside an array are different ends of a call, and only
the first is one that the program has in mind. -/

/-- What `sanity_check` throws as `std::invalid_argument`. -/
inductive InvalidArgument where
  | negative (blocknum : Int)
  | tooBig (blocknum : Int)
  | nullData
  deriving DecidableEq, Repr

def InvalidArgument.what : InvalidArgument → String
  | .negative blocknum => s!"blocknum ({blocknum}) is negative!"
  | .tooBig blocknum => s!"blocknum ({blocknum}) is too big!"
  | .nullData => "null data pointer!"

/-- Why a call does not return. -/
inductive Fault where
  | invalidArgument (why : InvalidArgument)
  /-- `new[]` of more bytes than the address space holds. -/
  | badAlloc
  /-- `m_disk` is followed while it is null. -/
  | nullDisk
  /-- An array is indexed outside its bounds. -/
  | outOfBounds
  deriving DecidableEq, Repr

/-! ## The disk

A file on the host, in blocks. `sanity_check` throws before anything is read or written. -/

/-- `Disk`, without its counters of reads and writes. -/
structure Disk where
  blocks : UInt32
  mounts : Nat
  image : Image

namespace Disk

def size (disk : Disk) : UInt32 := disk.blocks

def mounted (disk : Disk) : Bool := disk.mounts > 0

def mount (disk : Disk) : Disk := { disk with mounts := disk.mounts + 1 }

/-- `sanity_check(blocknum, data)`. -/
def sanityCheck (disk : Disk) (blocknum : Int) (dataIsNull : Bool) : Except Fault Unit :=
  if blocknum < 0 then .error (.invalidArgument (.negative blocknum))
  else if blocknum ≥ asInt disk.blocks then .error (.invalidArgument (.tooBig blocknum))
  else if dataIsNull then .error (.invalidArgument .nullData)
  else .ok ()

/-- `LowPart`: `blocknum * BLOCK_SIZE` in 32 bits. -/
def lowPart (blocknum : Int) : Nat := (blocknum.toNat * blockSize) % 4294967296

/-- `read(blocknum, data)`: the bytes read and the caller's buffer afterwards. -/
def read (disk : Disk) (blocknum : Int) : Except Fault (Nat × Block) := do
  disk.sanityCheck blocknum false
  .ok (blockSize, load disk.image (lowPart blocknum) blockSize)

/-- `write(blocknum, data)`: the bytes written and the disk afterwards. -/
def write (disk : Disk) (blocknum : Int) (data : Block) : Except Fault (Nat × Disk) := do
  disk.sanityCheck blocknum false
  .ok (blockSize, { disk with image := store disk.image (lowPart blocknum) data })

/-! ## Blocks by number

What `read` and `write` do on the numbers that pass the check, with the bytes of the file in the
units of blocks. -/

/-- The block at a number, whether or not `sanity_check` accepts it. -/
def blockAt (disk : Disk) (b : Nat) : Block := load disk.image (lowPart b) blockSize

def setBlock (disk : Disk) (b : Nat) (data : Block) : Disk :=
  { disk with image := store disk.image (lowPart b) data }

/-- How many blocks have byte positions of their own. -/
abbrev distinctBlocks : Nat := 1048576

variable {disk : Disk} {b b' : Nat} {data : Block}

/-- A write does not change the number of blocks. -/
@[simp] theorem setBlock_blocks : (disk.setBlock b data).blocks = disk.blocks := rfl
@[simp] theorem setBlock_mounts : (disk.setBlock b data).mounts = disk.mounts := rfl

/-- A block of the disk passes the check, so it can be read and written. -/
theorem sanityCheck_ok (h : (b : Int) < asInt disk.blocks) :
    disk.sanityCheck b false = .ok () := by
  have hneg : ¬ (b : Int) < 0 := by omega
  have hbig : ¬ (b : Int) ≥ asInt disk.blocks := by omega
  rw [sanityCheck, if_neg hneg, if_neg hbig]
  rfl

/-- What passed `sanity_check` is a block number of the disk. -/
theorem of_sanityCheck {blocknum : Int} (h : disk.sanityCheck blocknum false = .ok ()) :
    0 ≤ blocknum ∧ blocknum < asInt disk.blocks := by
  unfold sanityCheck at h
  split at h
  · cases h
  · split at h
    · cases h
    · exact ⟨by omega, by omega⟩

theorem read_ok (h : (b : Int) < asInt disk.blocks) :
    disk.read b = .ok (blockSize, disk.blockAt b) := by
  rw [read, sanityCheck_ok h]
  rfl

theorem write_ok (h : (b : Int) < asInt disk.blocks) (data : Block) :
    disk.write b data = .ok (blockSize, disk.setBlock b data) := by
  rw [write, sanityCheck_ok h]
  rfl

/-- What could be read is a block of the disk, and so is what could be written. -/
theorem lt_of_read_ok {r : Nat × Block} (h : disk.read b = .ok r) : (b : Int) < asInt disk.blocks := by
  unfold read at h
  cases hcheck : disk.sanityCheck b false with
  | error _ => rw [hcheck] at h; cases h
  | ok _ => exact (of_sanityCheck hcheck).2

theorem lt_of_write_ok {r : Nat × Disk} (h : disk.write b data = .ok r) :
    (b : Int) < asInt disk.blocks := by
  unfold write at h
  cases hcheck : disk.sanityCheck b false with
  | error _ => rw [hcheck] at h; cases h
  | ok _ => exact (of_sanityCheck hcheck).2

@[simp] theorem blockAt_setBlock_self : (disk.setBlock b data).blockAt b = data :=
  load_store _ _ _

/-- Below `distinctBlocks` a write reaches no other block. -/
theorem blockAt_setBlock_of_ne (hne : b' ≠ b) (hb : b < distinctBlocks) (hb' : b' < distinctBlocks) :
    (disk.setBlock b data).blockAt b' = disk.blockAt b' := by
  have hlow : ∀ c : Nat, c < distinctBlocks → lowPart c = c * blockSize := by
    intro c hc
    show (Int.toNat c * blockSize) % 4294967296 = _
    rw [Int.toNat_natCast]
    unfold distinctBlocks at hc
    exact Nat.mod_eq_of_lt (by unfold blockSize; omega)
  refine load_store_of_disjoint _ _ ?_
  rw [hlow b hb, hlow b' hb']
  unfold blockSize
  omega

end Disk

end OsLab.Sfs
