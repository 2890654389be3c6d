import Mathlib.Algebra.Group.Nat.Defs
import Mathlib.Data.Nat.Bitwise

/-!
# Paged addresses

A 32-bit address refers to a position among `2 ^ 16` bytes, the address modulo `2 ^ 16`:
a page of 256 bytes and an offset in it. Negative addresses wrap around.

* **`position_eq`**: page and offset make up the position.
* **`toNat_pageByte`**, **`toNat_offsetByte`**: as bytes of the word.
* **`toInt_maskShift`**, **`toInt_mask`**: by mask and shift on the signed address.
-/

namespace PagedAddress

/-- The address modulo `2 ^ 16`. -/
def position (address : Int32) : Nat := (address.toInt % 65536).toNat

def page (address : Int32) : Nat := position address / 256

def offset (address : Int32) : Nat := position address % 256

theorem position_lt (address : Int32) : position address < 65536 := by
  unfold position
  omega

theorem page_lt (address : Int32) : page address < 256 := by
  have hlt := position_lt address
  unfold page
  omega

theorem offset_lt (address : Int32) : offset address < 256 := Nat.mod_lt _ (by decide)

/-- The position is the page and the offset in it. -/
theorem position_eq (address : Int32) : page address * 256 + offset address = position address := by
  unfold page offset
  omega

/-- The position is given by the low half of the word, whatever the sign. -/
theorem position_eq_toNat_mod (address : Int32) :
    position address = address.toUInt32.toNat % 65536 := by
  show (address.toBitVec.toInt % 65536).toNat = address.toBitVec.toNat % 65536
  rw [BitVec.toInt_eq_toNat_cond]
  split <;> omega

/-! ## Bytes of the word

The page and the offset are the second and the first byte of the word, as a program reads them
through a pointer to bytes. -/

theorem toNat_pageByte (address : Int32) : (address.toUInt32 >>> 8).toUInt8.toNat = page address := by
  rw [page, position_eq_toNat_mod, UInt32.toNat_toUInt8, UInt32.toNat_shiftRight]
  show address.toUInt32.toNat >>> (8 : Nat) % 256 = _
  rw [Nat.shiftRight_eq_div_pow]
  omega

theorem toNat_offsetByte (address : Int32) : address.toUInt32.toUInt8.toNat = offset address := by
  rw [offset, position_eq_toNat_mod, UInt32.toNat_toUInt8]
  omega

/-! ## Mask and shift

A mask of fewer than 32 ones clears the sign bit, so the result is not negative. -/

/-- A mask of `k` ones leaves the lowest `k` bits. -/
theorem toInt_and_low (address : Int32) {mask : Int32} {k : Nat} (hk : k < 32)
    (hmask : mask.toBitVec.toNat = 2 ^ k - 1) :
    (address &&& mask).toInt = (address.toUInt32.toNat % 2 ^ k : Nat) := by
  have hand : (address &&& mask).toBitVec.toNat = address.toUInt32.toNat % 2 ^ k := by
    rw [Int32.toBitVec_and, BitVec.toNat_and, hmask]
    exact Nat.and_two_pow_sub_one_eq_mod _ k
  have hpow : 2 ^ k ≤ 2 ^ 31 := Nat.pow_le_pow_right (by decide) (by omega)
  have hlt : address.toUInt32.toNat % 2 ^ k < 2 ^ k := Nat.mod_lt _ (Nat.two_pow_pos k)
  show (address &&& mask).toBitVec.toInt = _
  rw [BitVec.toInt_eq_toNat_cond, hand, if_pos (by omega)]

theorem toInt_mask (address : Int32) : (address &&& 0xff).toInt = offset address := by
  rw [toInt_and_low address (k := 8) (by decide) (by decide), offset, position_eq_toNat_mod]
  congr 1
  omega

/-- Masked with `0xffff` and shifted, the page. -/
theorem toInt_maskShift (address : Int32) : ((address &&& 0xffff) >>> 8).toInt = page address := by
  show ((address &&& 0xffff).toBitVec.sshiftRight 8).toInt = _
  rw [BitVec.toInt_sshiftRight]
  show (address &&& 0xffff).toInt >>> (8 : Nat) = _
  rw [toInt_and_low address (k := 16) (by decide) (by decide), page, position_eq_toNat_mod,
    Int.shiftRight_eq_div_pow]
  norm_cast

end PagedAddress
