import OsLab.Lib.Bytes
import OsLab.Twitter.MsgList

/-!
# OsLab.Twitter.MessageBytes — a message in memory

`CopyTo` and `CopyFrom` assign the fields of a `MailBoxFormat` one by one and then copy a block
from `Buffer` to `Buffer`. The block is `GetFormatSize()` bytes long, the size of the whole
structure, and `Buffer` begins behind `FROM`: it ends `sizeof(int)` bytes behind the structure.

* **`copyFormat_apply`**: what each byte of the memory is afterwards.
* **`copies_iff`**: nothing but the destination changes exactly if the bytes behind it are those
  the block brings along.
* **`formatAt_copyTo`**, **`formatAt_copyFrom`**: as messages, source and destination agree
  whatever the memory is.
* **`delivered_bytes`**: a message that goes through a node of the list arrives byte for byte.
-/

namespace OsLab.Twitter

open Bytes

/-! ## Layout

A message is its sender and then the data: 96 wide characters and four numbers. The pointers of the
program are addresses in one memory. -/

/-- `sizeof(int)`. -/
abbrev intSize : Nat := 4

/-- `sizeof(wchar_t)`. -/
abbrev wcharSize : Nat := 2

/-! Offsets of the fields in a `MailBoxFormat`, which has no padding. -/

namespace Offset

def FROM : Nat := 0
def buffer : Nat := FROM + intSize
def id : Nat := buffer + wcharSize * bufferLength
def index : Nat := id + intSize
def nextSize : Nat := index + intSize
def messageCount : Nat := nextSize + intSize

end Offset

/-- `GetFormatSize()`: `sizeof(MailBoxFormat)`. -/
def getFormatSize : Nat := Offset.messageCount + intSize

/-- Four bytes of sender, 192 of characters and 16 of numbers. -/
theorem getFormatSize_eq : getFormatSize = 212 := rfl

/-- Two messages with no byte in common. -/
def Apart (source destination : Nat) : Prop :=
  source + getFormatSize ≤ destination ∨ destination + getFormatSize ≤ source

/-- It does not matter which of the two is copied to which. -/
theorem Apart.symm {source destination : Nat} (h : Apart source destination) :
    Apart destination source :=
  Or.symm h

namespace MessageBytes

/-! ## The copies

`CopyTo` and `CopyFrom` assign the five numbers and then copy a block to the wide characters. The
length they give for it is that of the whole message, while only 208 bytes of it are left from there
on: the last four bytes copied are not the message's. -/

/-- `CopyMemory(destination, source, length)`, which is undefined on blocks that overlap. -/
def copyMemory (memory : Image) (destination source length : Nat) : Option Image :=
  if source + length ≤ destination ∨ destination + length ≤ source then
    some (copy memory source destination length)
  else
    none

/-- `destination.field = source.field` for an `int` field at `offset`. -/
def assignInt (memory : Image) (destination source offset : Nat) : Image :=
  copy memory (source + offset) (destination + offset) intSize

/-- The statements that `CopyTo` and `CopyFrom` share, on the messages at two addresses. -/
def copyFormat (memory : Image) (destination source : Nat) : Option Image :=
  let memory := assignInt memory destination source Offset.FROM
  let memory := assignInt memory destination source Offset.id
  let memory := assignInt memory destination source Offset.index
  let memory := assignInt memory destination source Offset.nextSize
  let memory := assignInt memory destination source Offset.messageCount
  copyMemory memory (destination + Offset.buffer) (source + Offset.buffer) getFormatSize

/-- `CopyTo(msg)` of the object whose message is at `data`. -/
def copyTo (memory : Image) (data msg : Nat) : Option Image := copyFormat memory msg data

/-- `CopyFrom(msg)` of the object whose message is at `data`. -/
def copyFrom (memory : Image) (data msg : Nat) : Option Image := copyFormat memory data msg

/-- What a copy is for: the destination has the bytes of the source, and every other byte is as it
was. -/
structure CopiesOnly (memory memory' : Image) (source destination : Nat) : Prop where
  copied : load memory' destination getFormatSize = load memory source getFormatSize
  others : ∀ a, ¬ (destination ≤ a ∧ a < destination + getFormatSize) → memory' a = memory a

/-- Byte `i` behind the source when the block copy reads it. The destination may begin there, and
then `FROM` has been assigned already. -/
def byteBehind (memory : Image) (source destination i : Nat) : UInt8 :=
  let a := source + getFormatSize + i
  if destination ≤ a ∧ a < destination + intSize then memory (source + (a - destination))
  else memory a

/-- The bytes behind the destination are those that the block copy puts there. -/
def BehindAgrees (memory : Image) (source destination : Nat) : Prop :=
  ∀ i < intSize, memory (destination + getFormatSize + i) = byteBehind memory source destination i

variable {memory memory' : Image} {source destination data msg : Nat}

/-! ## What a copy does

Two copies of four numbers are all that is left to look at, since the block overwrites the numbers
behind the wide characters. What the block puts behind the destination is read from behind the
source. -/

/-- The block copy overwrites every field that has been assigned before, except `FROM`. -/
theorem copyFormat_eq (memory : Image) (h : Apart source destination) :
    copyFormat memory destination source
      = some (copy (copy memory source destination intSize) (source + Offset.buffer)
          (destination + Offset.buffer) getFormatSize) := by
  have hblocks : source + Offset.buffer + getFormatSize ≤ destination + Offset.buffer
      ∨ destination + Offset.buffer + getFormatSize ≤ source + Offset.buffer := by
    rcases h with h | h
    · exact Or.inl (by omega)
    · exact Or.inr (by omega)
  -- a number assigned inside the block is overwritten by it
  have hfield (image : Image) {offset j : Nat} (hoffset : offset = Offset.buffer + j)
      (hj : j + intSize ≤ getFormatSize) :
      copy (assignInt image destination source offset) (source + Offset.buffer)
          (destination + Offset.buffer) getFormatSize
        = copy image (source + Offset.buffer) (destination + Offset.buffer) getFormatSize := by
    rw [assignInt, hoffset, ← Nat.add_assoc, ← Nat.add_assoc]
    exact copy_copy image hj hblocks
  have hid : Offset.id = Offset.buffer + 192 := rfl
  have hindex : Offset.index = Offset.buffer + 196 := rfl
  have hnextSize : Offset.nextSize = Offset.buffer + 200 := rfl
  have hmessageCount : Offset.messageCount = Offset.buffer + 204 := rfl
  rw [copyFormat, copyMemory, if_pos hblocks, hfield _ hmessageCount (by decide),
    hfield _ hnextSize (by decide), hfield _ hindex (by decide), hfield _ hid (by decide)]
  rfl

/-- **What each byte is afterwards**: in the destination, behind it, and elsewhere. -/
theorem copyFormat_apply (memory : Image) (h : Apart source destination) :
    ∃ memory', copyFormat memory destination source = some memory'
      ∧ (∀ i < getFormatSize, memory' (destination + i) = memory (source + i))
      ∧ (∀ i < intSize, memory' (destination + getFormatSize + i)
          = byteBehind memory source destination i)
      ∧ ∀ a, ¬ (destination ≤ a ∧ a < destination + getFormatSize + intSize) →
          memory' a = memory a := by
  have hsize := getFormatSize_eq
  have hbuffer : Offset.buffer = 4 := rfl
  have hint : intSize = 4 := rfl
  refine ⟨_, copyFormat_eq memory h, fun i hi => ?_, fun i hi => ?_, fun a ha => ?_⟩
  · -- `FROM` comes from its assignment, the rest from the block
    by_cases hFROM : i < intSize
    · rw [copy_of_notMem _ (by omega), copy_of_mem _ (by omega), Nat.add_sub_cancel_left]
    · -- the source of the block is still the one of the message
      rw [copy_of_mem _ (by omega), copy_of_notMem _ (by rcases h with h | h <;> omega)]
      congr 1
      omega
  · -- the block reads on behind the source, where the destination may begin
    have hread : source + Offset.buffer + (destination + getFormatSize + i
        - (destination + Offset.buffer)) = source + getFormatSize + i := by omega
    rw [copy_of_mem _ (by omega), hread]
    exact copy_apply memory source destination intSize _
  · rw [copy_of_notMem _ (by omega), copy_of_notMem _ (by omega)]

/-- The destination of a copy, byte for byte. -/
theorem load_copyFormat (h : Apart source destination)
    (hcopy : copyFormat memory destination source = some memory') :
    load memory' destination getFormatSize = load memory source getFormatSize := by
  obtain ⟨memory'', hcopy', hinside, -⟩ := copyFormat_apply memory h
  obtain rfl : memory'' = memory' := Option.some.inj (hcopy'.symm.trans hcopy)
  funext i
  exact hinside i i.isLt

/-- Nothing but the destination changes exactly if nothing changes behind it. -/
theorem copyFormat_iff (memory : Image) (h : Apart source destination) :
    (∃ memory', copyFormat memory destination source = some memory'
        ∧ CopiesOnly memory memory' source destination)
      ↔ BehindAgrees memory source destination := by
  obtain ⟨memory', hcopy, -, hbehind, hbeside⟩ := copyFormat_apply memory h
  constructor
  · rintro ⟨memory'', hcopy', honly⟩
    obtain rfl : memory' = memory'' := Option.some.inj (hcopy.symm.trans hcopy')
    intro i hi
    rw [← hbehind i hi, honly.others _ (by omega)]
  · refine fun hagrees => ⟨memory', hcopy, load_copyFormat h hcopy, fun a ha => ?_⟩
    by_cases hin : destination ≤ a ∧ a < destination + getFormatSize + intSize
    · obtain ⟨i, rfl⟩ : ∃ i, a = destination + getFormatSize + i :=
        ⟨a - (destination + getFormatSize), by omega⟩
      rw [hbehind i (by omega), hagrees i (by omega)]
    · exact hbeside a hin

/-- **The message copies.** They change nothing but the destination exactly if the bytes behind
the destination are already those that the block copy puts there. -/
theorem copies_iff (memory : Image) (data msg : Nat) (h : Apart data msg) :
    ((∃ memory', copyFrom memory data msg = some memory' ∧ CopiesOnly memory memory' msg data)
        ↔ BehindAgrees memory msg data)
      ∧ ((∃ memory', copyTo memory data msg = some memory' ∧ CopiesOnly memory memory' data msg)
        ↔ BehindAgrees memory data msg) :=
  ⟨copyFormat_iff memory h.symm, copyFormat_iff memory h⟩

/-- Two different messages, one of bytes `65` at `0x1000` and one of bytes `66` at `0x2000`, with the
same bytes behind them: `CopyFrom` and `CopyTo` each change the one and nothing else. -/
theorem copies_iff_alike :
    let memory : Image := fun a =>
      if 0x1000 ≤ a ∧ a < 0x10D4 then 65 else if 0x2000 ≤ a ∧ a < 0x20D4 then 66 else 7
    (∃ memory', copyFrom memory 0x1000 0x2000 = some memory' ∧ CopiesOnly memory memory' 0x2000 0x1000)
      ∧ ∃ memory', copyTo memory 0x1000 0x2000 = some memory'
        ∧ CopiesOnly memory memory' 0x1000 0x2000 := by
  intro memory
  have hbehind : BehindAgrees memory 0x2000 0x1000 ∧ BehindAgrees memory 0x1000 0x2000 := by
    unfold BehindAgrees
    decide
  obtain ⟨hfrom, hto⟩ := copies_iff memory 0x1000 0x2000 (Or.inl (by decide))
  exact ⟨hfrom.mpr hbehind.1, hto.mpr hbehind.2⟩

/-- **The block is too long.** The message of an object at `0x1000` ends at `0x10D4` and the one of
the caller, at `0x2000`, ends at `0x20D4`; either copy changes the byte that comes next. -/
theorem copy_writes_behind :
    let memory : Image := fun a => if a < 0x2000 then 0 else 1
    (∃ memory', copyFrom memory 0x1000 0x2000 = some memory'
        ∧ memory 0x10D4 = 0 ∧ memory' 0x10D4 = 1)
      ∧ (∃ memory', copyTo memory 0x1000 0x2000 = some memory'
        ∧ memory 0x20D4 = 1 ∧ memory' 0x20D4 = 0)
      ∧ ¬ ∀ (memory : Image) (data msg : Nat), Apart data msg →
        (∃ memory', copyFrom memory data msg = some memory' ∧ CopiesOnly memory memory' msg data)
          ∧ ∃ memory', copyTo memory data msg = some memory'
            ∧ CopiesOnly memory memory' data msg := by
  intro memory
  -- both copies write their four bytes, and these differ
  have hapart : Apart 0x1000 0x2000 := Or.inl (by decide)
  obtain ⟨afterFrom, hfrom, -, hbehindFrom, -⟩ := copyFormat_apply memory hapart.symm
  obtain ⟨afterTo, hto, -, hbehindTo, -⟩ := copyFormat_apply memory hapart
  have hchanged : afterFrom 0x10D4 = 1 := (hbehindFrom 0 (by decide)).trans rfl
  refine ⟨⟨afterFrom, hfrom, rfl, hchanged⟩,
    ⟨afterTo, hto, rfl, (hbehindTo 0 (by decide)).trans rfl⟩, fun hall => ?_⟩
  obtain ⟨⟨memory', hfrom', honly⟩, -⟩ := hall memory _ _ hapart
  obtain rfl : afterFrom = memory' := Option.some.inj (hfrom.symm.trans hfrom')
  exact absurd (hchanged.symm.trans (honly.others 0x10D4 (by decide))) (by decide)

/-! ## The messages

The copies of `MsgList` assign fields. Here these are compared with the copies of bytes: a message
that has been copied in memory reads the same. -/

/-- The `int` at an address. -/
def intAt (memory : Image) (address : Nat) : Int32 :=
  (wordOf (load memory address intSize)).toInt32

/-- The `wchar_t` at an address. -/
def wcharAt (memory : Image) (address : Nat) : UInt16 :=
  UInt16.ofNat ((memory address).toNat + 256 * (memory (address + 1)).toNat)

/-- The `MailBoxFormat` at an address. -/
def formatAt (memory : Image) (address : Nat) : MailBoxFormat where
  FROM := intAt memory (address + Offset.FROM)
  pData :=
    { buffer := Vector.ofFn fun k => wcharAt memory (address + (Offset.buffer + wcharSize * k))
      id := intAt memory (address + Offset.id)
      index := intAt memory (address + Offset.index)
      nextSize := intAt memory (address + Offset.nextSize)
      messageCount := intAt memory (address + Offset.messageCount) }

/-- Equal bytes are equal messages. -/
theorem formatAt_congr {address address' : Nat}
    (h : load memory' address' getFormatSize = load memory address getFormatSize) :
    formatAt memory' address' = formatAt memory address := by
  -- every field is some bytes of the message
  have hbyte (i : Nat) (hi : i < getFormatSize) : memory' (address' + i) = memory (address + i) :=
    congrFun h ⟨i, hi⟩
  have hint (offset : Nat) (hoffset : offset + intSize ≤ getFormatSize) :
      intAt memory' (address' + offset) = intAt memory (address + offset) := by
    have hload : load memory' (address' + offset) intSize
        = load memory (address + offset) intSize := by
      funext i
      rw [load, load, Nat.add_assoc, Nat.add_assoc]
      exact hbyte _ (by omega)
    rw [intAt, intAt, hload]
  have hwchar (k : Fin bufferLength) :
      wcharAt memory' (address' + (Offset.buffer + wcharSize * k))
        = wcharAt memory (address + (Offset.buffer + wcharSize * k)) := by
    have hend : Offset.buffer + wcharSize * k + 1 < getFormatSize := by
      have hk : (k : Nat) < 96 := k.isLt
      show 4 + 2 * (k : Nat) + 1 < 212
      omega
    rw [wcharAt, wcharAt, hbyte _ (Nat.lt_of_succ_lt hend)]
    rw [Nat.add_assoc address', Nat.add_assoc address _ 1, hbyte _ hend]
  rw [formatAt, formatAt, hint _ (by decide), hint _ (by decide), hint _ (by decide),
    hint _ (by decide), hint _ (by decide)]
  simp only [hwchar]

/-- On messages, `CopyTo` in memory is the assignment of the fields. -/
theorem formatAt_copyTo (h : Apart data msg) (hcopy : copyTo memory data msg = some memory') :
    formatAt memory' msg
      = MailBoxMessage.copyTo { data := formatAt memory data } (formatAt memory msg) :=
  formatAt_congr (load_copyFormat h hcopy)

/-- On messages, `CopyFrom` in memory is the assignment of the fields. -/
theorem formatAt_copyFrom (h : Apart data msg) (hcopy : copyFrom memory data msg = some memory') :
    { data := formatAt memory' data }
      = MailBoxMessage.copyFrom { data := formatAt memory data } (formatAt memory msg) :=
  congrArg MailBoxMessage.mk (formatAt_congr (load_copyFormat h.symm hcopy))

/-- **Through the list.** A message is copied into a node by `Put` and out of it by `Get`; if the
node's bytes are left alone in between, it arrives byte for byte. -/
theorem delivered_bytes {memory₁ memory₂ memory₃ : Image} {node lpBuffer : Nat}
    (hnode : Apart node msg) (hbuffer : Apart node lpBuffer)
    (hput : copyFrom memory node msg = some memory₁)
    (hkept : load memory₂ node getFormatSize = load memory₁ node getFormatSize)
    (hget : copyTo memory₂ node lpBuffer = some memory₃) :
    load memory₃ lpBuffer getFormatSize = load memory msg getFormatSize := by
  rw [load_copyFormat hbuffer hget, hkept]
  exact load_copyFormat hnode.symm hput

end MessageBytes

end OsLab.Twitter
