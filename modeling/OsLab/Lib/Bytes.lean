import Mathlib.Algebra.Group.Nat.Defs
import Mathlib.Data.Fin.Basic

/-!
# Bytes

Byte images of any extent, ranges of them, and little-endian 32-bit words.

* **`load_store`**, **`load_store_of_disjoint`**: a range reads back what was stored in it, and
  does not see what is stored beside it.
* **`copy_apply`**, **`copy_copy`**: a block copy, byte by byte; copying a part of a block first
  makes no difference.
* **`wordsOf_bytesOf`**: words written as bytes read back as the same words.
-/

namespace Bytes

/-! ## Ranges

A memory, a file or a disk is a function from positions to bytes. A range of it is read and written
as a function on `Fin n`, so that its length is in its type. -/

/-- The byte at each position. -/
abbrev Image := Nat → UInt8

variable {n : Nat}

def load (image : Image) (address n : Nat) : Fin n → UInt8 := fun i => image (address + i)

def store (image : Image) (address : Nat) (data : Fin n → UInt8) : Image := fun a =>
  if h : address ≤ a ∧ a < address + n then data ⟨a - address, by omega⟩ else image a

theorem load_store (image : Image) (address : Nat) (data : Fin n → UInt8) :
    load (store image address data) address n = data := by
  funext i
  have hin : address ≤ address + i ∧ address + i < address + n := ⟨by omega, by omega⟩
  rw [load, store, dif_pos hin]
  congr 1
  exact Fin.ext (Nat.add_sub_cancel_left _ _)

/-- A range that does not meet the one stored to is as it was. -/
theorem load_store_of_disjoint (image : Image) {address address' m : Nat} (data : Fin n → UInt8)
    (h : address' + m ≤ address ∨ address + n ≤ address') :
    load (store image address data) address' m = load image address' m := by
  funext i
  have hout : ¬ (address ≤ address' + i ∧ address' + i < address + n) := by omega
  rw [load, load, store, dif_neg hout]

/-! ## Block copies

The bytes are read before any is written, so the copy is right on blocks that overlap, too; where
the program leaves that undefined, its model says so. -/

/-- `n` bytes from `source` to `destination`, all read before any is written. -/
def copy (image : Image) (source destination n : Nat) : Image :=
  store image destination (load image source n)

/-- The byte at a position, after the copy. -/
theorem copy_apply (image : Image) (source destination n a : Nat) :
    copy image source destination n a
      = if destination ≤ a ∧ a < destination + n then image (source + (a - destination))
        else image a := by
  rw [copy, store]
  split <;> rfl

/-- In the destination it comes from the source, elsewhere it has stayed. -/
theorem copy_of_mem (image : Image) {source destination n a : Nat}
    (h : destination ≤ a ∧ a < destination + n) :
    copy image source destination n a = image (source + (a - destination)) := by
  rw [copy_apply, if_pos h]

theorem copy_of_notMem (image : Image) {source destination n a : Nat}
    (h : ¬ (destination ≤ a ∧ a < destination + n)) :
    copy image source destination n a = image a := by
  rw [copy_apply, if_neg h]

/-- What a part of the block was copied to before, the block overwrites with the same bytes. -/
theorem copy_copy (image : Image) {source destination n j k : Nat} (hpart : j + k ≤ n)
    (hapart : source + n ≤ destination ∨ destination + n ≤ source) :
    copy (copy image (source + j) (destination + j) k) source destination n
      = copy image source destination n := by
  funext a
  by_cases ha : destination ≤ a ∧ a < destination + n
  · rw [copy_of_mem _ ha, copy_of_mem _ ha]
    exact copy_of_notMem image (by omega)
  · rw [copy_of_notMem _ ha, copy_of_notMem _ ha]
    exact copy_of_notMem image (by omega)

/-! ## Words

A word of 32 bits as it lies in memory, the least significant byte first. To take words apart and
put them together again loses nothing. -/

/-- Byte `i` of a word, the least significant first. -/
def byteOf (w : UInt32) (i : Fin 4) : UInt8 := UInt8.ofNat (w.toNat / 256 ^ (i : Nat))

def wordOf (b : Fin 4 → UInt8) : UInt32 :=
  UInt32.ofNat ((b 0).toNat + 256 * (b 1).toNat + 65536 * (b 2).toNat + 16777216 * (b 3).toNat)

/-- A byte is a digit to the base `256`. -/
theorem toNat_byteOf (w : UInt32) (i : Fin 4) :
    (byteOf w i).toNat = w.toNat / 256 ^ (i : Nat) % 256 := UInt8.toNat_ofNat'

/-- A word is put together from its own bytes. -/
theorem wordOf_byteOf (w : UInt32) : wordOf (byteOf w) = w := by
  have h0 : (byteOf w 0).toNat = w.toNat / 1 % 256 := toNat_byteOf w 0
  have h1 : (byteOf w 1).toNat = w.toNat / 256 % 256 := toNat_byteOf w 1
  have h2 : (byteOf w 2).toNat = w.toNat / 65536 % 256 := toNat_byteOf w 2
  have h3 : (byteOf w 3).toNat = w.toNat / 16777216 % 256 := toNat_byteOf w 3
  have hlt : w.toNat < 4294967296 := w.toNat_lt
  rw [← UInt32.toNat_inj, wordOf, UInt32.toNat_ofNat', h0, h1, h2, h3]
  omega

/-- The words of a range of bytes. -/
def wordsOf (b : Fin (4 * n) → UInt8) : Fin n → UInt32 := fun k =>
  wordOf fun i => b ⟨4 * k + i, by omega⟩

/-- The bytes of a range of words. -/
def bytesOf (ws : Fin n → UInt32) : Fin (4 * n) → UInt8 := fun a =>
  byteOf (ws ⟨a / 4, by omega⟩) ⟨a % 4, by omega⟩

theorem wordsOf_bytesOf (ws : Fin n → UInt32) : wordsOf (bytesOf ws) = ws := by
  funext k
  have hbytes : (fun i : Fin 4 => bytesOf ws ⟨4 * k + i, by omega⟩) = byteOf (ws k) := by
    funext i
    have hdiv : (⟨(4 * k + i) / 4, by omega⟩ : Fin n) = k :=
      Fin.ext (by show (4 * (k : Nat) + i) / 4 = k; omega)
    have hmod : (⟨(4 * k + i) % 4, by omega⟩ : Fin 4) = i :=
      Fin.ext (by show (4 * (k : Nat) + i) % 4 = i; omega)
    show byteOf (ws ⟨(4 * k + i) / 4, _⟩) ⟨(4 * k + i) % 4, _⟩ = byteOf (ws k) i
    rw [hdiv, hmod]
  rw [wordsOf, hbytes, wordOf_byteOf]

end Bytes
