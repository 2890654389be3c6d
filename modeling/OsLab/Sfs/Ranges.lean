import OsLab.Lib.RangeFile
import OsLab.Sfs.RoundTrip
import Mathlib.Data.Finset.Card
import Mathlib.Data.Finset.Range

/-!
# OsLab.Sfs.Ranges — `read` and `write` by range

`read` and `write` are declared for any range of bytes, and compute with whole blocks: neither
looks at its length or at the offset inside the block, and every write goes to a block of its
own. The file of bytes they stand for is the one of `RangeFile`.

* **`freeBlocks`**: a write takes exactly one of them.
* **`Follows`**: after any writes, the pointer of a block holds the buffer of the last write to
  it, and the pointers of the other blocks are what they were (`writeAll_ok`).
* **`readsBack_iff`** is the headline; `readsBack_overlap` is two bytes written one by one.
-/

namespace OsLab.Sfs

open Fallible State RangeFile

variable {s s' s₀ : State} {n : Nat} {inode : Inode}

/-! ## Free blocks

Each write takes a free block, so there must be as many as there are writes. -/

/-- The data blocks that can still be allocated. -/
def State.freeBlocks (s : State) : Finset Nat :=
  (Finset.range 4096).filter fun b => s.IsDataBlock b ∧ s.isFree b = true

theorem mem_freeBlocks {b : Nat} : b ∈ s.freeBlocks ↔ s.IsDataBlock b ∧ s.isFree b = true := by
  rw [freeBlocks, Finset.mem_filter, Finset.mem_range]
  exact and_iff_right_of_imp fun h => lt_of_isFree h.2

theorem wrote_freeBlocks {index : Nat} {p : UInt32} {data : Block} (hp : p.toNat < 4096)
    (hdata : s.IsDataBlock p.toNat) :
    (s.wrote n inode index p data).freeBlocks = s.freeBlocks.erase p.toNat := by
  ext b
  rw [Finset.mem_erase, mem_freeBlocks, mem_freeBlocks, isDataBlock_congr wrote_shape,
    wrote_isFree hp hdata]
  by_cases hb : b = p.toNat
  · simp [hb]
  · simp [hb]

/-- A write of one of the five blocks takes a free block. -/
theorem write_freeBlocks (hm : s.Mounted) {data : Block} {length offset total : Nat}
    (hindex : offset / blockSize < pointersPerInode)
    (h : s.write n data length offset = .ok (total, s')) :
    s.freeBlocks.card = s'.freeBlocks.card + 1 := by
  rcases of_write hm h with ⟨p, inode, -, hdata, hlt, hpfree, -, -, -, rfl⟩ | ⟨hout, -, -⟩
  · rw [wrote_freeBlocks hlt hdata, Finset.card_erase_add_one (mem_freeBlocks.mpr ⟨hdata, hpfree⟩)]
  · exact absurd hindex (Nat.not_lt.mpr hout)

/-! ## Writing

The writes go to the blocks of one inode. What counts is the last write to each block: the block
taken for it has its whole buffer, and the blocks taken for the others are lost. -/

/-- Writes of one inode, in order. -/
def State.writeAll (s : State) (inumber : Nat) : List (Write blockSize UInt8) → Except Fault State
  | [] => .ok s
  | w :: rest => do
    let (_, s) ← s.write inumber w.buffer w.range.length w.range.offset
    s.writeAll inumber rest

/-- What is left of the writes `done`, begun in the state `s₀` with the pointers of `inode`. -/
structure Follows (s₀ : State) (n : Nat) (inode : Inode) (done : List (Write blockSize UInt8))
    (s : State) : Prop where
  shape : s.shape = s₀.shape
  pointers : ∃ inode', s.inodeAt n = some inode' ∧ ∀ k : Fin 5,
    (∀ w, lastWrite k done = some w → HoldsChunk s (inode'.direct k) (List.ofFn w.buffer))
      ∧ (lastWrite k done = none → inode'.direct k = inode.direct k)

variable {done writes : List (Write blockSize UInt8)} {w : Write blockSize UInt8}

/-- A write of an inode with a free block at hand. -/
theorem Follows.write (h : Follows s₀ n inode done s) (hm : s₀.Mounted)
    (hblock : w.range.block blockSize < 5) (hfree : 0 < s.freeBlocks.card) :
    ∃ total s', s.write n w.buffer w.range.length w.range.offset = .ok (total, s')
      ∧ Follows s₀ n inode (done ++ [w]) s' ∧ s.freeBlocks.card = s'.freeBlocks.card + 1 := by
  have hms : s.Mounted := hm.of_shape h.shape
  obtain ⟨inode', hat, hpointers⟩ := h.pointers
  obtain ⟨b, hb⟩ := Finset.card_pos.mp hfree
  obtain ⟨s', hwrite⟩ := write_ok hms hat hblock ⟨b, mem_freeBlocks.mp hb⟩ w.buffer w.range.length
  refine ⟨_, s', hwrite, ?_, write_freeBlocks hms hblock hwrite⟩
  -- the block is written, since it is one of the five
  rcases of_write hms hwrite with ⟨p, inode₁, -, hdata, hlt, hpfree, -, hat₁, -, rfl⟩ | ⟨hout, -, -⟩
  · rw [hat] at hat₁
    cases hat₁
    refine ⟨wrote_shape.trans h.shape, _, setINode_inodeAt_self (lt_of_inodeAt hat), fun k => ?_⟩
    have hlast : lastWrite (k : Nat) (done ++ [w])
        = if w.range.block blockSize = k then some w else lastWrite k done :=
      last_append_singleton done w
    show (∀ v, _ → HoldsChunk _
        (if (k : Nat) = w.range.block blockSize then p else inode'.direct k) _)
      ∧ (_ → (if (k : Nat) = w.range.block blockSize then p else inode'.direct k) = _)
    rw [hlast]
    by_cases hk : w.range.block blockSize = k
    · rw [if_pos hk, if_pos hk.symm]
      refine ⟨fun v hv => ?_, fun hnone => absurd hnone (Option.some_ne_none w)⟩
      cases hv
      exact holdsChunk_wrote hlt hdata
    · -- the other blocks keep what they hold, since `p` was free
      rw [if_neg hk, if_neg (Ne.symm hk)]
      exact ⟨fun v hv => ((hpointers k).1 v hv).wrote hlt hdata hpfree, (hpointers k).2⟩
  · exact absurd hblock (Nat.not_lt.mpr hout)

/-- **Writes** return while there are free blocks. Induction on the writes to come. -/
theorem Follows.writeAll (hm : s₀.Mounted) (writes : List (Write blockSize UInt8)) :
    ∀ {done s}, Follows s₀ n inode done s → (∀ w ∈ writes, w.range.block blockSize < 5) →
      writes.length ≤ s.freeBlocks.card →
      ∃ s', s.writeAll n writes = .ok s' ∧ Follows s₀ n inode (done ++ writes) s' := by
  induction writes with
  | nil => exact fun {done s} h _ _ => ⟨s, rfl, by rw [List.append_nil]; exact h⟩
  | cons w rest ih =>
    intro done s h hblocks henough
    rw [List.length_cons] at henough
    obtain ⟨total, s₁, hwrite, h₁, hcard⟩ :=
      h.write hm (hblocks w List.mem_cons_self) (by omega)
    obtain ⟨s', hrest, h'⟩ :=
      ih h₁ (fun v hv => hblocks v (List.mem_cons_of_mem w hv)) (by omega)
    refine ⟨s', ?_, by rw [List.append_assoc] at h'; exact h'⟩
    rw [State.writeAll, hwrite]
    exact hrest

/-- With blocks enough all the writes return. -/
theorem writeAll_ok (hm : s.Mounted) (hat : s.inodeAt n = some inode)
    (hblocks : ∀ w ∈ writes, w.range.block blockSize < 5)
    (henough : writes.length ≤ s.freeBlocks.card) :
    ∃ s', s.writeAll n writes = .ok s' ∧ Follows s n inode writes s' := by
  have hstart : Follows s n inode [] s :=
    ⟨rfl, inode, hat, fun _ => ⟨fun _ hw => (by cases hw), fun _ => rfl⟩⟩
  exact hstart.writeAll hm writes hblocks henough

/-! ## Reading back

`read` loads `Direct[direct_pointer_index]` before it tests the index, so for an offset behind the
fifth block it reads memory past the end of the array, up to 4 MB of it. A byte-array file has no
such reads; here they are a fault. -/

/-- `read(inumber, data, length, offset)`, with a load from behind `Direct` as a fault. -/
def State.readWithin (s : State) (inumber : Nat) (data : Block) (length offset : Nat) :
    Except Fault (Nat × Block × State) :=
  if offset / blockSize < pointersPerInode then s.read inumber data length offset
  else .error .outOfBounds

/-- Before the sixth block nothing is added. -/
theorem readWithin_eq {data : Block} {length offset : Nat}
    (hblock : offset / blockSize < pointersPerInode) :
    s.readWithin n data length offset = s.read n data length offset :=
  if_pos hblock

/-- A read that returns stays before it. -/
theorem of_readWithin {data : Block} {length offset : Nat} {r : Nat × Block × State}
    (h : s.readWithin n data length offset = .ok r) :
    offset / blockSize < pointersPerInode ∧ s.read n data length offset = .ok r := by
  unfold State.readWithin at h
  split at h
  · next hblock => exact ⟨hblock, h⟩
  · cases h

/-- A byte-array file, for any bytes: the writes return, and a read returns, delivers at every
position written before the byte written last, and leaves the buffer alone behind its length. -/
def State.ReadsBack (s : State) (n : Nat) (ranges : List Range) (read : Range) : Prop :=
  ∀ (writes : List (Write blockSize UInt8)) (buffer : Block), writes.map Write.range = ranges →
    ∃ s₁ total buffer' s₂, s.writeAll n writes = .ok s₁
      ∧ s₁.readWithin n buffer read.length read.offset = .ok (total, buffer', s₂)
      ∧ (∀ i : Fin blockSize, (i : Nat) < read.length → ∀ byte,
          written writes (read.offset + i) = some byte → buffer' i = byte)
      ∧ ∀ i : Fin blockSize, read.length ≤ i → buffer' i = buffer i

/-- The condition. Behind a write to its block, a read asks for the whole block, and the last
write starts the block and ends behind all the others. Without one, the block is one of the five,
and its pointer is not positive or a read of the whole block can follow it. -/
def State.WholeBlocks (s : State) (inode : Inode) (ranges : List Range) (read : Range) : Prop :=
  match last (fun r : Range => r.block blockSize = read.block blockSize) ranges with
  | some lastRange =>
    read.length = blockSize ∧ ∀ r ∈ ranges, r.block blockSize = read.block blockSize →
      r.length = 0 ∨ lastRange.offset % blockSize = 0 ∧ r.stop blockSize ≤ lastRange.stop blockSize
  | none =>
    read.block blockSize < pointersPerInode
      ∧ (0 < asInt (directAt inode (read.block blockSize)) →
        read.length = blockSize ∧ s.CanFollow (directAt inode (read.block blockSize)))

variable {ranges : List Range} {read : Range}

/-- A read of a block written to delivers the buffer of the last write. -/
theorem Follows.read_last (h : Follows s₀ n inode writes s) (hm : s₀.Mounted)
    (hw : lastWrite (read.block blockSize) writes = some w) (hblock : read.block blockSize < 5)
    (buffer : Block) :
    ∃ s', s.read n buffer read.length read.offset = .ok (blockSize, w.buffer, s') := by
  obtain ⟨inode', hat, hpointers⟩ := h.pointers
  have hchunk := (hpointers ⟨read.block blockSize, hblock⟩).1 w hw
  have hread := hchunk.read (hm.of_shape h.shape) hat rfl buffer read.length
  rw [List.ofFn_injective hchunk.content] at hread
  exact ⟨_, hread⟩

/-- The pointer to a block not written to is the one from before. -/
theorem Follows.directAt (h : Follows s₀ n inode writes s)
    (hnone : lastWrite (read.block blockSize) writes = none) :
    ∃ inode', s.inodeAt n = some inode'
      ∧ directAt inode' (read.block blockSize) = directAt inode (read.block blockSize) := by
  obtain ⟨inode', hat, hpointers⟩ := h.pointers
  refine ⟨inode', hat, ?_⟩
  unfold State.directAt
  split
  · next hblock => exact (hpointers ⟨_, hblock⟩).2 hnone
  · rfl

/-- A read inside one block that leaves every buffer alone behind its length, and always
delivers the same block, asks for the whole block. -/
theorem length_eq_of_preserves (hread : read.Inside blockSize) {data : Block}
    (h : ∀ buffer : Block, ∀ i : Fin blockSize, read.length ≤ i → data i = buffer i) :
    read.length = blockSize := by
  have hinside : read.offset % blockSize + read.length ≤ blockSize := hread
  by_contra hne
  have hlt : read.length < blockSize := by omega
  have hsame := h (fun i => data i + 1) ⟨read.length, hlt⟩ (Nat.le_refl _)
  exact absurd hsame.symm (by simp)

/-- A read of a whole block starts where the block starts. -/
theorem offset_eq_of_whole (hread : read.Inside blockSize) (hwhole : read.length = blockSize) :
    read.offset = read.block blockSize * blockSize := by
  have hinside : read.offset % blockSize + read.length ≤ blockSize := hread
  have hstart : read.offset % blockSize = 0 := by omega
  have hoffset := read.offset_eq blockSize
  rw [hstart, Nat.add_zero] at hoffset
  exact hoffset

/-- Positions of a block not written to have no byte. -/
theorem written_eq_none (hread : read.Inside blockSize)
    (hinside : ∀ w ∈ writes, w.range.Inside blockSize)
    (hnone : lastWrite (read.block blockSize) writes = none) {i : Nat} (hi : i < read.length) :
    written writes (read.offset + i) = none := by
  have hstop : read.offset % blockSize + read.length ≤ blockSize := hread
  have hoffset := read.offset_eq blockSize
  have hposition :
      read.offset + i = read.block blockSize * blockSize + (read.offset % blockSize + i) := by
    omega
  rw [written, last_eq_none_iff.mpr fun w hw hcovers => ?_]
  · rfl
  · rw [hposition] at hcovers
    exact last_eq_none_iff.mp hnone w hw ((Range.covers_iff (hinside w hw) (by omega)).mp hcovers).1

/-! ## The headline

Where something has been written to the block of a read, the two agree only on whole blocks: the
read must be one, and the last write to the block must start it and reach as far as any other. -/

section Runs

variable (hm : s.Mounted) (hat : s.inodeAt n = some inode)
variable (hblocks : ∀ r ∈ ranges, r.block blockSize < 5)
variable (henough : ranges.length ≤ s.freeBlocks.card)

include hm hat hblocks henough

/-- The writes to these ranges, of any bytes, return. -/
theorem runs_of_enough (hwrites : writes.map Write.range = ranges) :
    ∃ s₁, s.writeAll n writes = .ok s₁ ∧ Follows s n inode writes s₁ := by
  subst hwrites
  rw [List.length_map] at henough
  exact writeAll_ok hm hat (fun w hw => hblocks _ (List.mem_map_of_mem hw)) henough

/-- Behind a write to its block, a read delivers the buffer of the last one. -/
theorem reads_of_last (hwrites : writes.map Write.range = ranges)
    (hw : lastWrite (read.block blockSize) writes = some w) (buffer : Block) :
    ∃ s₁ s₂, s.writeAll n writes = .ok s₁
      ∧ s₁.readWithin n buffer read.length read.offset = .ok (blockSize, w.buffer, s₂) := by
  obtain ⟨s₁, hrun, hfollows⟩ := runs_of_enough hm hat hblocks henough hwrites
  have hblock : read.block blockSize < 5 := by
    obtain ⟨hmem, heq⟩ := last_mem hw
    rw [← heq]
    exact hblocks _ (hwrites ▸ List.mem_map_of_mem hmem)
  obtain ⟨s₂, hreads⟩ := hfollows.read_last hm hw hblock buffer
  exact ⟨s₁, s₂, hrun, (readWithin_eq hblock).trans hreads⟩

/-- Then it asks for the whole block, and the last buffer shows all that was written. -/
theorem whole_of_readsBack (h : s.ReadsBack n ranges read) (hread : read.Inside blockSize)
    {lastRange : Range}
    (hlast : last (fun r : Range => r.block blockSize = read.block blockSize) ranges
      = some lastRange) :
    read.length = blockSize ∧ LastBufferShows blockSize UInt8 (read.block blockSize) ranges := by
  have hshown {writes : List (Write blockSize UInt8)} {w : Write blockSize UInt8}
      (hwrites : writes.map Write.range = ranges)
      (hw : lastWrite (read.block blockSize) writes = some w) (buffer : Block) :
      (∀ i : Fin blockSize, (i : Nat) < read.length → ∀ byte,
          written writes (read.offset + i) = some byte → w.buffer i = byte)
        ∧ ∀ i : Fin blockSize, read.length ≤ i → w.buffer i = buffer i := by
    -- the read delivers the buffer of the last write
    obtain ⟨s₁, s₂, hrun, hreads⟩ := reads_of_last hm hat hblocks henough hwrites hw buffer
    obtain ⟨s₁', total, buffer', s₂', hrun', hreads', hdelivers, hkeeps⟩ := h writes buffer hwrites
    rw [hrun] at hrun'
    cases hrun'
    rw [hreads] at hreads'
    cases hreads'
    exact ⟨hdelivers, hkeeps⟩
  obtain ⟨writes₀, hwrites₀, hw₀, -⟩ :=
    exists_writes (B := blockSize) hlast (fun _ => (0 : UInt8)) 0
  have hwhole := length_eq_of_preserves hread fun buffer => (hshown hwrites₀ hw₀ buffer).2
  refine ⟨hwhole, fun writes hwrites w hw i byte hbyte => ?_⟩
  rw [← offset_eq_of_whole hread hwhole] at hbyte
  exact (hshown hwrites hw (fun _ => 0)).1 i (by rw [hwhole]; exact i.isLt) byte hbyte

/-- A block written to: the read shows the last buffer. -/
theorem readsBack_iff_of_last (hread : read.Inside blockSize) {lastRange : Range}
    (hlast : last (fun r : Range => r.block blockSize = read.block blockSize) ranges
      = some lastRange) :
    s.ReadsBack n ranges read
      ↔ read.length = blockSize ∧ LastBufferShows blockSize UInt8 (read.block blockSize) ranges := by
  constructor
  · exact fun h => whole_of_readsBack hm hat hblocks henough h hread hlast
  · rintro ⟨hwhole, hshows⟩ writes buffer hwrites
    obtain ⟨w, hw, -⟩ := Option.map_eq_some_iff.mp ((lastWrite_map hwrites).trans hlast)
    obtain ⟨s₁, s₂, hrun, hreads⟩ := reads_of_last hm hat hblocks henough hwrites hw buffer
    refine ⟨s₁, _, _, s₂, hrun, hreads, fun i _ byte hbyte => ?_, fun i hi => ?_⟩
    · rw [offset_eq_of_whole hread hwhole] at hbyte
      exact hshows writes hwrites w hw i byte hbyte
    · rw [hwhole] at hi
      exact absurd i.isLt (Nat.not_lt.mpr hi)

/-- Without a write to its block, a read meets the pointer from before. -/
theorem runs_of_none (hwrites : writes.map Write.range = ranges)
    (hnone : lastWrite (read.block blockSize) writes = none) :
    ∃ s₁ inode', s.writeAll n writes = .ok s₁ ∧ s₁.shape = s.shape ∧ s₁.inodeAt n = some inode'
      ∧ directAt inode' (read.block blockSize) = directAt inode (read.block blockSize) := by
  obtain ⟨s₁, hrun, hfollows⟩ := runs_of_enough hm hat hblocks henough hwrites
  obtain ⟨inode', hat', hsame⟩ := hfollows.directAt hnone
  exact ⟨s₁, inode', hrun, hfollows.shape, hat', hsame⟩

/-- Then its block is one of the five; and if that pointer is positive, it asks for the whole block,
and can follow it. -/
theorem canFollow_of_readsBack (h : s.ReadsBack n ranges read) (hread : read.Inside blockSize)
    (hlast : last (fun r : Range => r.block blockSize = read.block blockSize) ranges = none) :
    read.block blockSize < pointersPerInode
      ∧ (0 < asInt (directAt inode (read.block blockSize)) →
        read.length = blockSize ∧ s.CanFollow (directAt inode (read.block blockSize))) := by
  have hwrites : (ranges.map fun r => (⟨r, fun _ => 0⟩ : Write blockSize UInt8)).map Write.range
      = ranges := by
    rw [List.map_map]
    exact List.map_id ranges
  have hnone := Option.map_eq_none_iff.mp ((lastWrite_map hwrites).trans hlast)
  obtain ⟨s₁, inode', hrun, hshape, hat', hsame⟩ :=
    runs_of_none hm hat hblocks henough hwrites hnone
  have hreads (buffer : Block) : read.block blockSize < pointersPerInode ∧ ∃ total buffer' s₂,
      s₁.read n buffer read.length read.offset = .ok (total, buffer', s₂)
        ∧ ∀ i : Fin blockSize, read.length ≤ i → buffer' i = buffer i := by
    obtain ⟨s₁', total, buffer', s₂, hrun', hreads, -, hkeeps⟩ := h _ buffer hwrites
    rw [hrun] at hrun'
    cases hrun'
    obtain ⟨hblock, hreads⟩ := of_readWithin hreads
    exact ⟨hblock, total, buffer', s₂, hreads, hkeeps⟩
  obtain ⟨hblock, _, _, _, hreturns, -⟩ := hreads fun _ => 0
  refine ⟨hblock, fun hpos => ?_⟩
  rw [← hsame] at hpos ⊢
  have hfollow := canFollow_of_read hat' hpos hreturns
  have hdisk : s₁.fs.diskSet = true := (hm.of_shape hshape).diskSet
  -- every buffer ends up as the block behind the pointer
  have hpreserves (buffer : Block) : ∀ i : Fin blockSize, read.length ≤ i →
      s₁.disk.blockAt (directAt inode' (read.block blockSize)).toNat i = buffer i := by
    obtain ⟨-, _, _, _, hreturns, hkeeps⟩ := hreads buffer
    have hblock : s₁.read n buffer read.length read.offset = _ :=
      read_block hdisk hat' hpos hfollow buffer read.length
    rw [hreturns] at hblock
    cases hblock
    exact hkeeps
  exact ⟨length_eq_of_preserves hread hpreserves, hfollow.of_shape hshape.symm⟩

/-- A block not written to: what counts is that there is a pointer, and the one the inode had. -/
theorem readsBack_iff_of_none (hinside : ∀ r ∈ ranges, r.Inside blockSize)
    (hread : read.Inside blockSize)
    (hlast : last (fun r : Range => r.block blockSize = read.block blockSize) ranges = none) :
    s.ReadsBack n ranges read
      ↔ read.block blockSize < pointersPerInode
        ∧ (0 < asInt (directAt inode (read.block blockSize)) →
          read.length = blockSize ∧ s.CanFollow (directAt inode (read.block blockSize))) := by
  constructor
  · exact fun h => canFollow_of_readsBack hm hat hblocks henough h hread hlast
  · rintro ⟨hblock, h⟩ writes buffer hwrites
    have hnone := Option.map_eq_none_iff.mp ((lastWrite_map hwrites).trans hlast)
    obtain ⟨s₁, inode', hrun, hshape, hat', hsame⟩ :=
      runs_of_none hm hat hblocks henough hwrites hnone
    -- nothing has been written to the block, so nothing is promised for it
    have hblank : ∀ i : Fin blockSize, (i : Nat) < read.length → ∀ byte,
        written writes (read.offset + i) ≠ some byte := by
      intro i hi byte hbyte
      rw [written_eq_none hread (fun w hw => hinside _ (hwrites ▸ List.mem_map_of_mem hw)) hnone hi]
        at hbyte
      cases hbyte
    rw [← hsame] at h
    by_cases hpos : 0 < asInt (directAt inode' (read.block blockSize))
    · obtain ⟨hwhole, hfollow⟩ := h hpos
      have hdisk : s₁.fs.diskSet = true := (hm.of_shape hshape).diskSet
      refine ⟨s₁, _, _, _, hrun,
        (readWithin_eq hblock).trans
          (read_block hdisk hat' hpos (hfollow.of_shape hshape) buffer read.length),
        fun i hi byte hbyte => absurd hbyte (hblank i hi byte), fun i hi => ?_⟩
      rw [hwhole] at hi
      exact absurd i.isLt (Nat.not_lt.mpr hi)
    · exact ⟨s₁, _, _, _, hrun,
        (readWithin_eq hblock).trans (read_nothing hat' (Int.not_lt.mp hpos) buffer read.length),
        fun i hi byte hbyte => absurd hbyte (hblank i hi byte), fun _ _ => rfl⟩

end Runs

/-- **Headline.** For an inode of the table, ranges each inside one of the five blocks and as
many free blocks: after writes to the ranges, of any bytes, a read inside one block is that of a
byte-array file if and only if it and the writes come down to whole blocks. -/
theorem readsBack_iff (hm : s.Mounted) (hat : s.inodeAt n = some inode)
    (hranges : ∀ r ∈ ranges, r.Inside blockSize ∧ r.block blockSize < 5)
    (henough : ranges.length ≤ s.freeBlocks.card) (hread : read.Inside blockSize) :
    s.ReadsBack n ranges read ↔ s.WholeBlocks inode ranges read := by
  have hinside : ∀ r ∈ ranges, r.Inside blockSize := fun r hr => (hranges r hr).1
  have hblocks : ∀ r ∈ ranges, r.block blockSize < 5 := fun r hr => (hranges r hr).2
  unfold WholeBlocks
  split
  · next lastRange hlast =>
    have hbytes : Nontrivial UInt8 := ⟨0, 1, by decide⟩
    rw [readsBack_iff_of_last hm hat hblocks henough hread hlast, lastBufferShows_iff hinside hlast]
  · next hlast => exact readsBack_iff_of_none hm hat hblocks henough hinside hread hlast

/-- A small disk of four blocks, mounted: inode `0` is valid and empty, and two blocks are free. -/
theorem smallDisk_ready : ∃ s₀ inode, (State.start 4 (smallImage 1)).mount = .ok (true, s₀)
    ∧ s₀.Mounted ∧ s₀.disk.size = 4 ∧ s₀.inodeAt 0 = some inode ∧ inode.valid ≠ 0
    ∧ (∀ k, inode.direct k = 0) ∧ 2 ≤ s₀.freeBlocks.card := by
  obtain ⟨s₀, hmount, hismount⟩ := smallDisk_mount 4 (by decide) (by decide) 1
  obtain ⟨htable, hfree⟩ := smallDisk_mounted hismount
  have hm := hismount.mounted
  have hblocks : s₀.shape.blocks = 4 := hismount.blocks
  have hmem : ∀ b, 2 ≤ b → b < 4 → b ∈ s₀.freeBlocks := fun b hlow hhigh =>
    mem_freeBlocks.mpr ⟨(smallDisk_isDataBlock hismount b).mpr ⟨hlow, hhigh⟩,
      hfree b (by omega) (by omega)⟩
  have hpair : ({2, 3} : Finset Nat) ⊆ s₀.freeBlocks := by
    intro b hb
    rcases Finset.mem_insert.mp hb with rfl | hb
    · exact hmem 2 (by decide) (by decide)
    · rw [Finset.mem_singleton.mp hb]
      exact hmem 3 (by decide) (by decide)
  exact ⟨s₀, imageInode (smallDisk 4 1) 0, hmount, hm, hblocks,
    hismount.inodeAt (by rw [htable]; decide), by decide, (smallDisk_empty 4 1 (by decide)).2,
    Finset.card_le_card hpair⟩

/-- A byte and then the whole block around it are read back. -/
theorem readsBack_whole : ∃ s₀, (State.start 4 (smallImage 1)).mount = .ok (true, s₀)
    ∧ s₀.ReadsBack 0 [⟨0, 1⟩, ⟨0, 4096⟩] ⟨0, 4096⟩ := by
  obtain ⟨s₀, inode, hmount, hm, -, hat, -, -, henough⟩ := smallDisk_ready
  have hranges : ∀ r ∈ [(⟨0, 1⟩ : Range), ⟨0, 4096⟩], r.Inside blockSize ∧ r.block blockSize < 5 := by
    intro r hr
    rcases List.mem_pair.mp hr with rfl | rfl <;> decide
  refine ⟨s₀, hmount, (readsBack_iff hm hat hranges henough (by decide)).mpr ⟨rfl, ?_⟩⟩
  intro r hr _
  rcases List.mem_pair.mp hr with rfl | rfl <;> exact Or.inr (by decide)

/-- Two bytes, one after the other, in writes of their own. -/
def twoBytes : List (Write blockSize UInt8) := [⟨⟨0, 1⟩, fun _ => 65⟩, ⟨⟨1, 1⟩, fun _ => 66⟩]

/-- **The defect**: the second byte takes the place of the first as well. -/
theorem readsBack_overlap : ∃ s₀ inode s₁ s₂, (State.start 4 (smallImage 1)).mount = .ok (true, s₀)
    ∧ s₀.inodeAt 0 = some inode ∧ inode.valid ≠ 0 ∧ twoBytes.length ≤ s₀.freeBlocks.card
    ∧ s₀.writeAll 0 twoBytes = .ok s₁
    ∧ s₁.readWithin 0 zeroBuffer 4096 0 = .ok (4096, (fun _ => 66), s₂)
    ∧ written twoBytes 0 = some 65 ∧ ¬ s₀.ReadsBack 0 (twoBytes.map Write.range) ⟨0, 4096⟩ := by
  obtain ⟨s₀, inode, hmount, hm, -, hat, hvalid, -, henough⟩ := smallDisk_ready
  have hblocks : ∀ w ∈ twoBytes, w.range.block blockSize < 5 := by
    intro w hw
    rcases List.mem_pair.mp hw with rfl | rfl <;> decide
  obtain ⟨s₁, hrun, hfollows⟩ := writeAll_ok hm hat hblocks henough
  have hlast : lastWrite (Range.block ⟨0, 4096⟩ blockSize) twoBytes = some ⟨⟨1, 1⟩, fun _ => 66⟩ := rfl
  obtain ⟨s₂, hread⟩ := hfollows.read_last hm hlast (by decide) zeroBuffer
  have hread : s₁.readWithin 0 zeroBuffer 4096 0 = .ok (4096, (fun _ => 66), s₂) :=
    (readWithin_eq (by decide)).trans hread
  -- the byte at `0` was written first, and is gone
  have hfirst : written twoBytes 0 = some 65 := rfl
  refine ⟨s₀, inode, s₁, s₂, hmount, hat, hvalid, henough, hrun, hread, hfirst, fun h => ?_⟩
  obtain ⟨s₁', total, buffer', s₂', hrun', hread', hdelivers, -⟩ := h twoBytes zeroBuffer rfl
  rw [hrun] at hrun'
  cases hrun'
  rw [hread] at hread'
  cases hread'
  exact absurd (hdelivers ⟨0, by decide⟩ (by decide) 65 hfirst) (by decide)

end OsLab.Sfs
