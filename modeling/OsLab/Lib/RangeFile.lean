import Mathlib.Data.Fin.Basic
import Mathlib.Logic.Nontrivial.Defs

/-!
# Files written in ranges

A file is written range by range, and a position has the byte of the last write that covers it
(`written`). A device that transfers whole blocks keeps, of all the writes to a block, the
buffer of the last one.

* **`last`**: the last element with a property, and how it follows a list that grows.
* **`covers_iff`**: the positions of a range inside one block.
* **`lastBufferShows_iff`**: for all contents, the last buffer shows what was written to its block if
  and only if that write starts the block and reaches as far as any of the others.
-/

namespace RangeFile

universe u v

/-! ## The last of a list

What was written last at a position is what a file has there. So the last element with a property is
looked for, from the end. -/

section Last

variable {β : Type u} {γ : Type v} {P Q : β → Prop} [DecidablePred P] [DecidablePred Q]
variable {xs : List β} {x : β}

/-- The last element with the property. -/
def last (P : β → Prop) [DecidablePred P] (xs : List β) : Option β :=
  xs.reverse.find? fun x => decide (P x)

/-- The last element, if it has the property. -/
theorem last_append_singleton (xs : List β) (x : β) :
    last P (xs ++ [x]) = if P x then some x else last P xs := by
  rw [last, List.reverse_append, List.reverse_singleton, List.singleton_append, List.find?_cons]
  by_cases h : P x
  · rw [decide_eq_true h, if_pos h]
  · rw [decide_eq_false h, if_neg h]
    rfl

/-- To look after a map is to look before it. -/
theorem last_map (f : γ → β) (xs : List γ) :
    last P (xs.map f) = (last (fun x => P (f x)) xs).map f := by
  rw [last, ← List.map_reverse, List.find?_map]
  rfl

/-- There is none if no element has it. -/
theorem last_eq_none_iff : last P xs = none ↔ ∀ x ∈ xs, ¬ P x := by
  simp [last]

/-- Nothing behind it has the property. -/
theorem last_eq_some_iff :
    last P xs = some x ↔ P x ∧ ∃ before after, xs = before ++ x :: after ∧ ∀ y ∈ after, ¬ P y := by
  rw [last, List.find?_eq_some_iff_append, decide_eq_true_iff]
  apply and_congr_right
  intro _
  constructor
  · rintro ⟨after, before, heq, hnot⟩
    refine ⟨before.reverse, after.reverse, ?_, fun y hy => ?_⟩
    · rw [← List.reverse_reverse xs, heq]
      simp
    · simpa using hnot y (List.mem_reverse.mp hy)
  · rintro ⟨before, after, heq, hnot⟩
    refine ⟨after.reverse, before.reverse, ?_, fun y hy => ?_⟩
    · rw [heq]
      simp
    · simpa using hnot y (List.mem_reverse.mp hy)

theorem last_mem (h : last P xs = some x) : x ∈ xs ∧ P x := by
  obtain ⟨hP, before, after, rfl, -⟩ := last_eq_some_iff.mp h
  exact ⟨List.mem_append_right _ List.mem_cons_self, hP⟩

/-- If one has it, there is a last one. -/
theorem exists_last (hx : x ∈ xs) (hP : P x) : ∃ y, last P xs = some y := by
  cases h : last P xs with
  | none => exact absurd hP (last_eq_none_iff.mp h x hx)
  | some y => exact ⟨y, rfl⟩

/-- The last element with a property is also the last with any stronger one it has. -/
theorem last_of_imp (h : last P xs = some x) (hx : Q x) (himp : ∀ y ∈ xs, Q y → P y) :
    last Q xs = some x := by
  obtain ⟨-, before, after, rfl, hnot⟩ := last_eq_some_iff.mp h
  refine last_eq_some_iff.mpr ⟨hx, before, after, rfl, fun y hy hQ => hnot y hy (himp y ?_ hQ)⟩
  exact List.mem_append_right _ (List.mem_cons_of_mem x hy)

end Last

/-! ## Ranges

A range of positions, in a file that is made of blocks of `B` positions. A range that stays inside
its block is known by the block, the place where it starts there and the place where it ends. -/

structure Range where
  offset : Nat
  length : Nat
  deriving DecidableEq

namespace Range

variable {r : Range} {B k p i : Nat}

def Covers (r : Range) (p : Nat) : Prop := r.offset ≤ p ∧ p < r.offset + r.length

instance (p : Nat) : DecidablePred fun r : Range => r.Covers p := fun _ =>
  inferInstanceAs (Decidable (_ ∧ _))

/-- The block the range starts in, of blocks of `B` positions. -/
def block (r : Range) (B : Nat) : Nat := r.offset / B

/-- Where in its block the range ends. -/
def stop (r : Range) (B : Nat) : Nat := r.offset % B + r.length

/-- The range does not leave its block. -/
def Inside (r : Range) (B : Nat) : Prop := r.stop B ≤ B

instance : Decidable (r.Inside B) := inferInstanceAs (Decidable (_ ≤ _))

/-- Where it starts is its block and the place in it. -/
theorem offset_eq (r : Range) (B : Nat) : r.offset = r.block B * B + r.offset % B := by
  rw [block, Nat.mul_comm]
  exact (Nat.div_add_mod r.offset B).symm

/-- A range inside one block covers positions of that block only. -/
theorem covers_iff (hr : r.Inside B) (hi : i < B) :
    r.Covers (k * B + i) ↔ r.block B = k ∧ r.offset % B ≤ i ∧ i < r.stop B := by
  have hoffset := r.offset_eq B
  have hstop : r.stop B = r.offset % B + r.length := rfl
  have hinside : r.stop B ≤ B := hr
  generalize r.block B = q at *
  generalize r.offset % B = d at *
  unfold Covers
  constructor
  · rintro ⟨hlow, hhigh⟩
    have hq : q = k := by
      -- positions of different blocks are apart
      rcases Nat.lt_trichotomy q k with hlt | heq | hgt
      · have hle : (q + 1) * B ≤ k * B := Nat.mul_le_mul_right B hlt
        rw [Nat.succ_mul] at hle
        omega
      · exact heq
      · have hle : (k + 1) * B ≤ q * B := Nat.mul_le_mul_right B hgt
        rw [Nat.succ_mul] at hle
        omega
    subst hq
    exact ⟨rfl, by omega, by omega⟩
  · rintro ⟨rfl, hlow, hhigh⟩
    exact ⟨by omega, by omega⟩

end Range

/-! ## Writes

A write takes its bytes from the front of a buffer as long as a block, whatever place of the block
they go to. -/

/-- A write of the first bytes of a buffer of one block. -/
structure Write (B : Nat) (α : Type u) where
  range : Range
  buffer : Fin B → α

variable {B k : Nat} {α : Type u} {ranges : List Range}

/-- The byte a write puts at a position it covers. -/
def Write.byteAt (w : Write B α) (p : Nat) : Option α :=
  if h : p - w.range.offset < B then some (w.buffer ⟨p - w.range.offset, h⟩) else none

/-- Inside its block a write has a byte for each position. -/
theorem Write.byteAt_of_covers {w : Write B α} {p : Nat} (hinside : w.range.Inside B)
    (hcovers : w.range.Covers p) :
    ∃ i : Fin B, (i : Nat) = p - w.range.offset ∧ w.byteAt p = some (w.buffer i) := by
  have hlt : p - w.range.offset < B := by
    unfold Range.Inside Range.stop at hinside
    unfold Range.Covers at hcovers
    omega
  exact ⟨⟨p - w.range.offset, hlt⟩, rfl, dif_pos hlt⟩

/-- The byte most recently written at a position. -/
def written (writes : List (Write B α)) (p : Nat) : Option α :=
  (last (fun w : Write B α => w.range.Covers p) writes).bind fun w => w.byteAt p

/-- The last write to a block. -/
def lastWrite (k : Nat) (writes : List (Write B α)) : Option (Write B α) :=
  last (fun w : Write B α => w.range.block B = k) writes

/-- Which write is the last to a block goes by the ranges. -/
theorem lastWrite_map {writes : List (Write B α)} (hranges : writes.map Write.range = ranges) :
    (lastWrite k writes).map Write.range = last (fun r : Range => r.block B = k) ranges := by
  rw [← hranges, last_map, lastWrite]

/-- Writes to given ranges, all with the same byte but for the last one to a block. -/
theorem exists_writes {L : Range} (hlast : last (fun r : Range => r.block B = k) ranges = some L)
    (buffer : Fin B → α) (byte : α) :
    ∃ writes : List (Write B α), writes.map Write.range = ranges
      ∧ lastWrite k writes = some ⟨L, buffer⟩
      ∧ ∀ w ∈ writes, w = ⟨L, buffer⟩ ∨ w.buffer = fun _ => byte := by
  obtain ⟨hL, before, after, rfl, hafter⟩ := last_eq_some_iff.mp hlast
  -- all writes have one byte, but for the last
  let fill : Range → Write B α := fun r => ⟨r, fun _ => byte⟩
  have hfill : ∀ rs : List Range, (rs.map fill).map Write.range = rs := by
    intro rs
    rw [List.map_map]
    exact List.map_id rs
  refine ⟨before.map fill ++ ⟨L, buffer⟩ :: after.map fill, ?_, ?_, fun w hw => ?_⟩
  · rw [List.map_append, List.map_cons, hfill, hfill]
  · refine last_eq_some_iff.mpr ⟨hL, before.map fill, after.map fill, rfl, fun w hw => ?_⟩
    obtain ⟨r, hr, rfl⟩ := List.mem_map.mp hw
    exact hafter r hr
  · rcases List.mem_append.mp hw with hw | hw
    · obtain ⟨r, -, rfl⟩ := List.mem_map.mp hw
      exact Or.inr rfl
    · rcases List.mem_cons.mp hw with rfl | hw
      · exact Or.inl rfl
      · obtain ⟨r, -, rfl⟩ := List.mem_map.mp hw
        exact Or.inr rfl

/-! ## Whole blocks

When a block is stored as it is in the buffer of the last write, the bytes of the writes before it
are lost, and its own bytes stand at the front of the block. This does no harm exactly when the last
write starts the block and reaches as far as any other. -/

/-- The last buffer shows what was written to its block, whatever was written. -/
def LastBufferShows (B : Nat) (α : Type u) (k : Nat) (ranges : List Range) : Prop :=
  ∀ writes : List (Write B α), writes.map Write.range = ranges → ∀ w, lastWrite k writes = some w →
    ∀ (i : Fin B) byte, written writes (k * B + i) = some byte → w.buffer i = byte

/-- A last write that starts the block and covers all the others. -/
theorem lastBufferShows_of_covered {L : Range} (hinside : ∀ r ∈ ranges, r.Inside B)
    (hlast : last (fun r : Range => r.block B = k) ranges = some L)
    (hcovered : ∀ r ∈ ranges, r.block B = k → r.length = 0 ∨ L.offset % B = 0 ∧ r.stop B ≤ L.stop B) :
    LastBufferShows B α k ranges := by
  intro writes hranges w hw i byte hbyte
  have hmem : ∀ {v}, v ∈ writes → v.range ∈ ranges := fun hv => hranges ▸ List.mem_map_of_mem hv
  have hwL : w.range = L := by
    have hmap := lastWrite_map (k := k) hranges
    rw [hw, hlast] at hmap
    exact Option.some.inj hmap
  obtain ⟨v, hv, hvbyte⟩ := Option.bind_eq_some_iff.mp hbyte
  obtain ⟨hvmem, hvcovers⟩ := last_mem hv
  have hvinside := hinside _ (hmem hvmem)
  obtain ⟨hvblock, hvlow, hvhigh⟩ := (Range.covers_iff hvinside i.isLt).mp hvcovers
  obtain ⟨hstart, hstop⟩ : L.offset % B = 0 ∧ v.range.stop B ≤ L.stop B := by
    rcases hcovered _ (hmem hvmem) hvblock with hempty | hand
    · unfold Range.stop at hvhigh
      omega
    · exact hand
  -- so the last write to the block covers the position too, and is the last that does
  have hwmem := (last_mem hw).1
  have hwinside := hinside _ (hmem hwmem)
  have hwcovers : w.range.Covers (k * B + i) := by
    refine (Range.covers_iff hwinside i.isLt).mpr ⟨(last_mem hw).2, ?_, ?_⟩
    · rw [hwL]
      omega
    · rw [hwL]
      omega
  have hsame : last (fun w : Write B α => w.range.Covers (k * B + i)) writes = some w :=
    last_of_imp hw hwcovers fun y hy hcovers =>
      ((Range.covers_iff (hinside _ (hmem hy)) i.isLt).mp hcovers).1
  rw [hsame, Option.some.injEq] at hv
  subst hv
  have hoffset : w.range.offset = k * B := by
    rw [w.range.offset_eq B, hvblock, hwL, hstart, Nat.add_zero]
  obtain ⟨j, hj, hbyteAt⟩ := Write.byteAt_of_covers hwinside hwcovers
  have hij : j = i := Fin.ext (by rw [hj, hoffset]; omega)
  rw [hbyteAt, Option.some.injEq, hij] at hvbyte
  exact hvbyte

section Shown

variable {L : Range} {x y : α}

/-- The last write covers whatever was written to its block: a position it left out would still
hold an earlier byte. -/
theorem LastBufferShows.covers (h : LastBufferShows B α k ranges) (hxy : x ≠ y)
    (hinside : ∀ r ∈ ranges, r.Inside B)
    (hlast : last (fun r : Range => r.block B = k) ranges = some L) {r : Range} (hr : r ∈ ranges)
    {i : Nat} (hi : i < B) (hri : r.Covers (k * B + i)) : L.Covers (k * B + i) := by
  by_contra hLi
  obtain ⟨writes, hranges, hw, hbuffers⟩ := exists_writes (B := B) hlast (fun _ => y) x
  obtain ⟨v, hv, rfl⟩ := List.mem_map.mp (hranges ▸ hr)
  obtain ⟨v', hv'⟩ := exists_last (P := fun w : Write B α => w.range.Covers (k * B + i)) hv hri
  obtain ⟨hmem, hcovers⟩ := last_mem hv'
  have hv'inside : v'.range.Inside B := hinside _ (hranges ▸ List.mem_map_of_mem hmem)
  obtain ⟨j, -, hbyteAt⟩ := Write.byteAt_of_covers hv'inside hcovers
  have hwritten : written writes (k * B + i) = some x := by
    rw [written, hv', Option.bind_some, hbyteAt]
    rcases hbuffers v' hmem with rfl | hconst
    · exact absurd hcovers hLi
    · rw [hconst]
  exact hxy (h writes hranges _ hw ⟨i, hi⟩ x hwritten).symm

/-- The last write starts its block: its first byte is shown at the start of the block. -/
theorem LastBufferShows.starts (h : LastBufferShows B α k ranges) (hxy : x ≠ y)
    (hinside : ∀ r ∈ ranges, r.Inside B)
    (hlast : last (fun r : Range => r.block B = k) ranges = some L)
    (hcovers : L.Covers (k * B + L.offset % B)) (hd : L.offset % B < B) : L.offset % B = 0 := by
  -- a buffer with another byte in front than behind tells the two places apart
  by_contra hstart
  obtain ⟨hmem, hblock⟩ := last_mem hlast
  obtain ⟨writes, hranges, hw, -⟩ :=
    exists_writes hlast (fun i : Fin B => if (i : Nat) = 0 then x else y) y
  have hsame : last (fun w : Write B α => w.range.Covers (k * B + L.offset % B)) writes = some _ :=
    last_of_imp hw hcovers fun v hv hvcovers =>
      ((Range.covers_iff (hinside _ (hranges ▸ List.mem_map_of_mem hv)) hd).mp hvcovers).1
  have hoffset : k * B + L.offset % B = L.offset := by
    rw [← hblock]
    exact (L.offset_eq B).symm
  obtain ⟨j, hj, hbyteAt⟩ := Write.byteAt_of_covers
    (w := ⟨L, fun i : Fin B => if (i : Nat) = 0 then x else y⟩) (hinside L hmem) hcovers
  have hwritten : written writes (k * B + L.offset % B) = some x := by
    rw [written, hsame, Option.bind_some, hbyteAt]
    apply congrArg some
    apply if_pos
    rw [hj, hoffset]
    exact Nat.sub_self _
  have hshown := h writes hranges _ hw ⟨L.offset % B, hd⟩ x hwritten
  dsimp only at hshown
  rw [if_neg hstart] at hshown
  exact hxy hshown.symm

end Shown

/-- And no other, where there are two bytes to tell apart. -/
theorem covered_of_lastBufferShows [Nontrivial α] {L : Range} (hinside : ∀ r ∈ ranges, r.Inside B)
    (hlast : last (fun r : Range => r.block B = k) ranges = some L)
    (hshows : LastBufferShows B α k ranges) :
    ∀ r ∈ ranges, r.block B = k → r.length = 0 ∨ L.offset % B = 0 ∧ r.stop B ≤ L.stop B := by
  intro r hr hblock
  by_cases hempty : r.length = 0
  · exact Or.inl hempty
  right
  obtain ⟨x, y, hxy⟩ := exists_pair_ne α
  obtain ⟨hLmem, hLblock⟩ := last_mem hlast
  have hLinside := hinside L hLmem
  have hrinside : r.stop B ≤ B := hinside r hr
  have hstop : r.stop B = r.offset % B + r.length := rfl
  have hcovers (i : Nat) (hlow : r.offset % B ≤ i) (hhigh : i < r.stop B) :
      L.offset % B ≤ i ∧ i < L.stop B := by
    have hi : i < B := by omega
    have hri : r.Covers (k * B + i) := (Range.covers_iff hrinside hi).mpr ⟨hblock, hlow, hhigh⟩
    exact ((Range.covers_iff hLinside hi).mp (hshows.covers hxy hinside hlast hr hi hri)).2
  -- so `L` reaches from the first position of `r` to the last
  have hfirst := hcovers (r.offset % B) (Nat.le_refl _) (by omega)
  have hfinal := hcovers (r.stop B - 1) (by omega) (by omega)
  have hd : L.offset % B < B := by omega
  have hLcovers : L.Covers (k * B + L.offset % B) :=
    (Range.covers_iff hLinside hd).mpr ⟨hLblock, Nat.le_refl _, by omega⟩
  exact ⟨hshows.starts hxy hinside hlast hLcovers hd, by omega⟩

/-- **Whole blocks.** The last buffer shows what was written exactly if the last write starts
the block and ends behind all the others, empty ones apart. -/
theorem lastBufferShows_iff [Nontrivial α] {L : Range} (hinside : ∀ r ∈ ranges, r.Inside B)
    (hlast : last (fun r : Range => r.block B = k) ranges = some L) :
    LastBufferShows B α k ranges
      ↔ ∀ r ∈ ranges, r.block B = k → r.length = 0 ∨ L.offset % B = 0 ∧ r.stop B ≤ L.stop B :=
  ⟨covered_of_lastBufferShows hinside hlast, lastBufferShows_of_covered hinside hlast⟩

end RangeFile
