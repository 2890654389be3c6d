import OsLab.Lib.FirstFit
import OsLab.Sfs.Bitmap
import OsLab.Sfs.Numbers
import OsLab.Sfs.Ranges

/-!
# OsLab.Sfs.CopyIn — what `copyin` stores

`copyin` reads its stream in blocks into one buffer, and every block goes to the lowest free
block of the disk. A short block leaves the rest of the buffer as the block before it had it.

* **`Storing`**: the state of the loop, after the blocks `taken`. A round takes the first free
  block (`Storing.round`), so `taken` is the beginning of the free blocks (`FirstFit.Lowest`).
* **`copyin_stores`** is the headline: `copyin` into an empty inode returns, and the file is
  stored as `StoresFile` says.
* **`copyinFailed_iff`**: when a `copyin` command that reports failure has changed nothing;
  `copyin_leaks` is one that leaves an inode behind.
-/

namespace OsLab.Sfs

open Fallible FirstFit State

variable {s s' s₀ : State} {n : Nat} {old : Inode} {file : List UInt8}

/-! ## The buffer

`fread` fills the same buffer again and again. After the last call its first bytes are the rest of
the file, and behind them are still those of the call before. -/

/-- The buffer of `copyin` when `fread` has been called `k` times. -/
def bufferAfter (file : List UInt8) : Nat → Block
  | 0 => zeroBuffer
  | k + 1 => fillBuffer (bufferAfter file k) (file.drop (k * blockSize))

/-- The bytes of the file in the buffer. -/
theorem bufferAfter_eq_getElem? (k : Nat) {r : Fin 4096} (h : k * blockSize + r < file.length) :
    file[k * blockSize + (r : Nat)]? = some (bufferAfter file (k + 1) r) := by
  have hr : (r : Nat) < (file.drop (k * blockSize)).length := by
    rw [List.length_drop]
    omega
  rw [bufferAfter, fillBuffer, dif_pos hr, List.getElem_drop, List.getElem?_eq_getElem h]

/-! ## The loop

What a round has done: block `k` of the file is in the `k`-th block taken, and each block taken was
the first that was free. The invariant is about the state before the loop, so that it says at the
end what has changed. -/

/-- `copyin` of `file` into inode `n`, which had been `old` in the state `s₀`, with the blocks `taken`
filled so far. -/
structure Storing (s₀ : State) (n : Nat) (old : Inode) (file : List UInt8) (taken : List Nat)
    (s : State) (buffer : Block) (offset : Nat) (stream : List UInt8) : Prop where
  shape : s.shape = s₀.shape
  few : taken.length ≤ pointersPerInode
  needed : taken = [] ∨ (taken.length - 1) * blockSize < file.length
  offset_eq : offset = min (taken.length * blockSize) file.length
  rest : stream = file.drop (taken.length * blockSize)
  buffer_eq : buffer = bufferAfter file taken.length
  lowest : Lowest s₀.freeBlocks taken
  free : ∀ b, s.isFree b = if b ∈ taken then false else s₀.isFree b
  inode : ∃ inode, s.inodeAt n = some inode ∧ inode.valid = old.valid
    ∧ ∀ k : Fin 5, (inode.direct k).toNat = taken[(k : Nat)]?.getD (old.direct k).toNat
  others : ∀ m, m ≠ n → s.inodeAt m = s₀.inodeAt m
  content : ∀ k b, taken[k]? = some b → s.disk.blockAt b = bufferAfter file (k + 1)

theorem Storing.start (hat : s.inodeAt n = some old) : Storing s n old file [] s zeroBuffer 0 file where
  shape := rfl
  few := Nat.zero_le _
  needed := Or.inl rfl
  offset_eq := (Nat.zero_min _).symm
  rest := rfl
  buffer_eq := rfl
  lowest := .nil _
  free _ := rfl
  inode := ⟨old, hat, rfl, fun _ => rfl⟩
  others _ _ := rfl
  content k b h := by cases h

variable {taken : List Nat} {buffer : Block} {offset : Nat} {stream : List UInt8}

/-- While there is something left to read, all blocks so far are full. -/
theorem Storing.offset_of_ne_nil (h : Storing s₀ n old file taken s buffer offset stream)
    (hne : stream ≠ []) :
    offset = taken.length * blockSize ∧ taken.length * blockSize < file.length := by
  have hpos := List.length_pos_iff.mpr hne
  have hoffset := h.offset_eq
  rw [h.rest, List.length_drop] at hpos
  unfold blockSize at *
  omega

/-- The list of blocks taken grows at its end. -/
theorem getElem?_append_singleton {p : Nat} (k : Nat) :
    (taken ++ [p])[k]? = if k = taken.length then some p else taken[k]? := by
  by_cases hk : k = taken.length
  · rw [if_pos hk, hk, List.getElem?_concat_length]
  · rw [if_neg hk, List.getElem?_append]
    split
    · rfl
    · next hge =>
      have hbehind : [p].length ≤ k - taken.length := by
        rw [List.length_singleton]
        omega
      rw [List.getElem?_eq_none hbehind, List.getElem?_eq_none (Nat.le_of_not_lt hge)]

section Round

variable {p : Nat} (h : Storing s₀ n old file taken s buffer offset stream)
include h

/-- A block that is free was free from the start, and is not one of those taken. -/
theorem Storing.fresh (hfree : s.isFree p = true) : p ∉ taken ∧ s₀.isFree p = true := by
  rw [h.free] at hfree
  by_cases hmem : p ∈ taken
  · rw [if_pos hmem] at hfree
    cases hfree
  · rw [if_neg hmem] at hfree
    exact ⟨hmem, hfree⟩

variable (hfree : s.isFree p = true)
include hfree

/-- Writing to it leaves the blocks filled before as they are. -/
theorem Storing.content_append {k b : Nat} (hk : (taken ++ [p])[k]? = some b) :
    (s.disk.setBlock p (bufferAfter file (taken.length + 1))).blockAt b = bufferAfter file (k + 1) := by
  rw [getElem?_append_singleton] at hk
  by_cases hself : k = taken.length
  · rw [if_pos hself] at hk
    cases hk
    rw [Disk.blockAt_setBlock_self, hself]
  · rw [if_neg hself] at hk
    have hmem : b ∈ taken := List.mem_of_getElem? hk
    have hne : b ≠ p := fun heq => (h.fresh hfree).1 (heq ▸ hmem)
    have hb4096 := lt_of_isFree (mem_freeBlocks.mp (h.lowest.wasFree b hmem)).2
    have hp4096 := lt_of_isFree hfree
    rw [Disk.blockAt_setBlock_of_ne hne (by unfold Disk.distinctBlocks; omega)
      (by unfold Disk.distinctBlocks; omega)]
    exact h.content k b hk

/-- The first free block is the next one in order. -/
theorem Storing.lowest_append (hdata : s.IsDataBlock p)
    (hfirst : ∀ b, b < p → ¬ (s.IsDataBlock b ∧ s.isFree b = true)) :
    Lowest s₀.freeBlocks (taken ++ [p]) := by
  obtain ⟨hfresh, hfree₀⟩ := h.fresh hfree
  have hdata₀ := (isDataBlock_congr h.shape p).mp hdata
  refine h.lowest.append (mem_freeBlocks.mpr ⟨hdata₀, hfree₀⟩) hfresh fun b hb hbp => ?_
  obtain ⟨hbdata, hbfree⟩ := mem_freeBlocks.mp hb
  by_contra hbtaken
  refine hfirst b hbp ⟨(isDataBlock_congr h.shape b).mpr hbdata, ?_⟩
  rw [h.free, if_neg hbtaken, hbfree]

end Round

/-- **A round** of the loop. -/
theorem Storing.round (hm : s₀.Mounted) (h : Storing s₀ n old file taken s buffer offset stream)
    (hne : stream ≠ []) (hindex : offset / blockSize < pointersPerInode)
    (hwrite : s.write n (fillBuffer buffer stream) (min blockSize stream.length) offset
      = .ok (blockSize, s')) :
    ∃ p, Storing s₀ n old file (taken ++ [p]) s' (fillBuffer buffer stream)
      (offset + min blockSize stream.length) (stream.drop blockSize) := by
  obtain ⟨hoffset, hmore⟩ := h.offset_of_ne_nil hne
  have hat5 : offset / blockSize = taken.length := by
    rw [hoffset]
    exact Nat.mul_div_cancel _ (by decide)
  rw [hat5] at hindex
  -- the write took a block, since its slot is one of the five
  rcases of_write (hm.of_shape h.shape) hwrite with
    ⟨p, inode', -, hdata, hlt, hfree, hfirst, hat, -, hs'⟩ | ⟨hout, -, -⟩
  · obtain ⟨inode, hat', hvalid, hpointers⟩ := h.inode
    rw [hat] at hat'
    cases hat'
    have hbuffer : fillBuffer buffer stream = bufferAfter file (taken.length + 1) := by
      rw [bufferAfter, ← h.buffer_eq, ← h.rest]
    have hlength : (taken ++ [p.toNat]).length = taken.length + 1 := List.length_append
    have hstream : stream.length = file.length - taken.length * blockSize := by
      rw [h.rest, List.length_drop]
    rw [hat5, hbuffer] at hs'
    subst hs'
    -- the parts of the invariant, one by one
    refine ⟨p.toNat, ?_, ?_, ?_, ?_, ?_, ?_, h.lowest_append hfree hdata hfirst, fun b => ?_, ?_,
      fun m hmn => ?_, fun k b hk => h.content_append hfree hk⟩
    · exact wrote_shape.trans h.shape
    · rw [hlength]
      exact hindex
    · right
      rw [hlength]
      exact hmore
    · rw [hlength, hoffset, hstream]
      unfold blockSize at *
      omega
    · rw [hlength, h.rest, List.drop_drop, Nat.succ_mul]
    · rw [hlength]
      exact hbuffer
    · rw [wrote_isFree hlt hdata, h.free]
      by_cases hb : b = p.toNat
      · simp [hb]
      · simp [hb]
    · refine ⟨_, setINode_inodeAt_self (lt_of_inodeAt hat), hvalid, fun k => ?_⟩
      show (if (k : Nat) = taken.length then p else inode'.direct k).toNat = _
      rw [getElem?_append_singleton]
      by_cases hk : (k : Nat) = taken.length
      · rw [if_pos hk, if_pos hk]
        rfl
      · rw [if_neg hk, if_neg hk]
        exact hpointers k
    · rw [← h.others m hmn]
      exact setINode_inodeAt_of_ne hmn
  · omega

/-! ## The whole file

After the loop the size is set. What is stored is the file, or its first five blocks, and nothing
else in the table has changed. -/

/-- How much of a stream is stored: five blocks at most. -/
def storedLength (file : List UInt8) : Nat := min file.length (pointersPerInode * blockSize)

/-- How many blocks it takes. -/
def storedBlocks (file : List UInt8) : Nat := (storedLength file + (blockSize - 1)) / blockSize

/-- The loop ends where the stream does, or behind the fifth block. -/
theorem Storing.finish (h : Storing s₀ n old file taken s buffer offset stream)
    (hend : stream = [] ∨ pointersPerInode ≤ offset / blockSize) :
    offset = storedLength file ∧ taken.length = storedBlocks file := by
  have hoffset := h.offset_eq
  have hfew := h.few
  have hneeded : taken.length = 0 ∨ (taken.length - 1) * blockSize < file.length :=
    h.needed.imp_left fun hnil => by rw [hnil]; rfl
  have hread : file.length ≤ taken.length * blockSize ∨ pointersPerInode ≤ offset / blockSize := by
    refine hend.imp_left fun hnil => ?_
    have hrest := congrArg List.length (h.rest.symm.trans hnil)
    rw [List.length_drop, List.length_nil] at hrest
    omega
  unfold storedBlocks storedLength blockSize pointersPerInode at *
  omega

/-- A round that writes stores one block more. -/
theorem Storing.kept (hm : s.Mounted) : KeptByRounds n fun s' buffer offset stream =>
    ∃ taken, Storing s n old file taken s' buffer offset stream where
  mounted := fun ⟨_, hstoring⟩ => hm.of_shape hstoring.shape
  round := fun ⟨_, hstoring⟩ hne hindex hwrite => by
    obtain ⟨p, hnext⟩ := hstoring.round hm hne hindex hwrite
    exact ⟨_, hnext⟩

/-- **The loop of `copyin`**, once it has returned. -/
theorem copyinLoop_storing (hm : s.Mounted) (hat : s.inodeAt n = some old)
    {printed : List Message} (h : copyinLoop n s zeroBuffer 0 file = .ok (offset, printed, s')) :
    offset = storedLength file ∧ ∃ taken buffer rest, taken.length = storedBlocks file
      ∧ Storing s n old file taken s' buffer offset rest := by
  obtain ⟨buffer, rest, ⟨taken, hstoring⟩, hend⟩ :=
    copyinLoop_run (Storing.kept hm) file ⟨[], .start hat⟩ h
  obtain ⟨hoffset, hlength⟩ := hstoring.finish (hend.imp And.left fun hand => hand.2.1)
  exact ⟨hoffset, taken, buffer, rest, hlength, hstoring⟩

/-- A block is left for the next round while the file is not stored. -/
theorem Storing.exists_free (h : Storing s₀ n old file taken s buffer offset stream)
    (hshort : taken.length < s₀.freeBlocks.card) : ∃ b, s.IsDataBlock b ∧ s.isFree b = true := by
  have hcard : taken.toFinset.card < s₀.freeBlocks.card :=
    Nat.lt_of_le_of_lt taken.toFinset_card_le hshort
  obtain ⟨b, hb, hfresh⟩ := Finset.exists_mem_notMem_of_card_lt_card hcard
  obtain ⟨hdata, hfree⟩ := mem_freeBlocks.mp hb
  refine ⟨b, (isDataBlock_congr h.shape b).mpr hdata, ?_⟩
  rw [h.free, if_neg fun hmem => hfresh (List.mem_toFinset.mpr hmem), hfree]

/-- It returns if there are blocks enough. -/
theorem copyinLoop_ok (hm : s.Mounted) (hcovers : s.BitmapCovers) (hat : s.inodeAt n = some old)
    (henough : storedBlocks file ≤ s.freeBlocks.card) :
    ∃ r, copyinLoop n s zeroBuffer 0 file = .ok r := by
  refine copyinLoop_returns (Storing.kept hm)
    (fun {s' buffer offset stream} ⟨taken, hstoring⟩ hne => ?_) file ⟨[], .start hat⟩
  have hm' := hm.of_shape hstoring.shape
  have hcovers' : s'.BitmapCovers := fun b hb =>
    hcovers b ((isDataBlock_congr hstoring.shape b).mp hb)
  by_cases hindex : offset / blockSize < pointersPerInode
  · obtain ⟨hoffset, hmore⟩ := hstoring.offset_of_ne_nil hne
    obtain ⟨inode, hat', -⟩ := hstoring.inode
    have hshort : taken.length < storedBlocks file := by
      unfold storedBlocks storedLength blockSize pointersPerInode at *
      omega
    obtain ⟨s'', hwrite⟩ := write_ok hm' hat' hindex
      (hstoring.exists_free (Nat.lt_of_lt_of_le hshort henough))
      (fillBuffer buffer stream) (min blockSize stream.length)
    exact ⟨_, hwrite⟩
  · exact ⟨_, write_behind hm' hcovers' (Nat.le_of_not_lt hindex) _ _⟩

/-- The file is stored in inode `n`, which was empty. -/
structure StoresFile (s s' : State) (n : Nat) (file : List UInt8) : Prop where
  size : s'.stat n = .ok (storedLength file)
  others : ∀ m, m ≠ n → s'.inodeAt m = s.inodeAt m
  pointers : ∃ inode, s'.inodeAt n = some inode
    ∧ (∀ i : Fin 5, inode.direct i ≠ 0 ↔ (i : Nat) < storedBlocks file)
    ∧ (∀ i j : Fin 5, i < j → (j : Nat) < storedBlocks file → inode.direct i < inode.direct j)
    ∧ (List.ofFn fun i => (inode.direct i).toNat).take (storedBlocks file)
      = s.freeBlocks.sort.take (storedBlocks file)
    ∧ (∀ b, s'.isFree b ≠ s.isFree b ↔ ∃ i : Fin 5, (i : Nat) < storedBlocks file
      ∧ (inode.direct i).toNat = b)
    ∧ ∀ i : Fin 5, (i : Nat) < storedBlocks file →
      ∀ r : Fin 4096, i * blockSize + r < storedLength file →
      file[i * blockSize + (r : Nat)]? = some (s'.disk.blockAt (inode.direct i).toNat r)

section Pointers

variable {inode : Inode} (hempty : ∀ k, old.direct k = 0)
variable (hpointers : ∀ k : Fin 5, (inode.direct k).toNat = taken[(k : Nat)]?.getD (old.direct k).toNat)
include hpointers

/-- The first pointers of the file are the blocks taken, in order. -/
theorem Storing.pointer {i : Fin 5} (hi : (i : Nat) < taken.length) :
    taken[(i : Nat)]? = some (inode.direct i).toNat := by
  have hpointer := hpointers i
  rw [List.getElem?_eq_getElem hi, Option.getD_some] at hpointer
  rw [hpointer, List.getElem?_eq_getElem hi]

/-- A block taken is behind one of the first pointers. -/
theorem Storing.index_of_mem (hfew : taken.length ≤ 5) {b : Nat} (hb : b ∈ taken) :
    ∃ i : Fin 5, (i : Nat) < taken.length ∧ (inode.direct i).toNat = b := by
  obtain ⟨i, hi, rfl⟩ := List.getElem_of_mem hb
  have hi5 : i < 5 := Nat.lt_of_lt_of_le hi hfew
  have hfound := Storing.pointer hpointers (i := ⟨i, hi5⟩) hi
  rw [List.getElem?_eq_getElem hi, Option.some.injEq] at hfound
  exact ⟨⟨i, hi5⟩, hi, hfound.symm⟩

/-- As lists, the first pointers are the blocks taken. -/
theorem Storing.take_pointers (hfew : taken.length ≤ 5) :
    (List.ofFn fun i => (inode.direct i).toNat).take taken.length = taken := by
  refine List.ext_getElem? fun k => ?_
  rw [List.getElem?_take]
  split
  · next hk =>
    have hk5 : k < 5 := Nat.lt_of_lt_of_le hk hfew
    rw [List.getElem?_ofFn, dif_pos hk5]
    exact (Storing.pointer hpointers (i := ⟨k, hk5⟩) hk).symm
  · next hk => rw [List.getElem?_eq_none (Nat.le_of_not_lt hk)]

include hempty

/-- The pointers behind them are `0`, as before. -/
theorem Storing.pointer_eq_zero {i : Fin 5} (hi : taken.length ≤ i) : inode.direct i = 0 := by
  have hpointer := hpointers i
  rw [List.getElem?_eq_none hi, Option.getD_none, hempty i] at hpointer
  exact UInt32.toNat_inj.mp hpointer

end Pointers

/-- What the loop and `updateSize` leave of a file copied into an empty inode. -/
theorem Storing.storesFile (hm : s₀.Mounted) (h : Storing s₀ n old file taken s buffer offset stream)
    (hempty : ∀ k, old.direct k = 0) (hoffset : offset = storedLength file)
    (hlength : taken.length = storedBlocks file) (hsize : s.updateSize n offset = .ok s') :
    StoresFile s₀ s' n file := by
  obtain ⟨inode, hat, -, hpointers⟩ := h.inode
  obtain ⟨inode', hat', rfl⟩ := of_updateSize hsize
  rw [hat] at hat'
  cases hat'
  have hself : (s.setINode n { inode with size := UInt32.ofNat offset }).inodeAt n
      = some { inode with size := UInt32.ofNat offset } := setINode_inodeAt_self (lt_of_inodeAt hat)
  -- the pointers are the blocks taken, in the order of the file
  have hpointer : ∀ {i : Fin 5}, (i : Nat) < taken.length →
      taken[(i : Nat)]? = some (inode.direct i).toNat := Storing.pointer hpointers
  have hmem : ∀ {i : Fin 5}, (i : Nat) < taken.length → (inode.direct i).toNat ∈ taken :=
    fun hi => List.mem_of_getElem? (hpointer hi)
  refine ⟨?_, fun m hmn => ?_, _, hself, ?_⟩
  · rw [stat, getINode_ok hself, hoffset]
    show Except.ok (UInt32.ofNat (storedLength file)).toNat = _
    rw [UInt32.toNat_ofNat_of_lt']
    show storedLength file < 4294967296
    unfold storedLength blockSize pointersPerInode
    omega
  · rw [setINode_inodeAt_of_ne hmn, h.others m hmn]
  rw [← hlength]
  refine ⟨fun i => ⟨fun hne => ?_, fun hi hzero => ?_⟩, fun i j hij hj => ?_, ?_, fun b => ?_,
    fun i hi r hr => ?_⟩
  · by_contra hi
    exact hne (Storing.pointer_eq_zero hempty hpointers (Nat.le_of_not_lt hi))
  · obtain ⟨hdata, -⟩ := mem_freeBlocks.mp (h.lowest.wasFree _ (hmem hi))
    refine IsDataBlock.ne_zero hm hdata ?_
    have hdirect : inode.direct i = 0 := hzero
    rw [hdirect]
    rfl
  · have hi : (i : Nat) < taken.length := Nat.lt_trans hij hj
    obtain ⟨hilt, hieq⟩ := List.getElem?_eq_some_iff.mp (hpointer hi)
    obtain ⟨hjlt, hjeq⟩ := List.getElem?_eq_some_iff.mp (hpointer hj)
    refine UInt32.lt_iff_toNat_lt.mpr ?_
    show (inode.direct i).toNat < (inode.direct j).toNat
    rw [← hieq, ← hjeq]
    exact List.pairwise_iff_getElem.mp h.lowest.increasing i j hilt hjlt hij
  · rw [h.lowest.take_sort]
    exact Storing.take_pointers hpointers h.few
  · rw [setINode_isFree, h.free]
    constructor
    · intro hne
      refine Storing.index_of_mem hpointers h.few ?_
      by_contra hb
      exact hne (if_neg hb)
    · rintro ⟨i, hi, rfl⟩
      have hb := hmem hi
      rw [if_pos hb, (mem_freeBlocks.mp (h.lowest.wasFree _ hb)).2]
      decide
  · have hcontent := h.content i _ (hpointer hi)
    have hin : i * blockSize + r < file.length := Nat.lt_of_lt_of_le hr (Nat.min_le_left _ _)
    rw [bufferAfter_eq_getElem? (i : Nat) hin, ← hcontent]
    rfl

/-- **Headline.** On a disk the bitmap covers, with blocks enough: `copyin` of any stream into an
inode without pointers returns, and stores the file. -/
theorem copyin_stores (hm : s.Mounted) (hsmall : s.disk.size.toNat ≤ 4096)
    (hat : s.inodeAt n = some old) (hempty : ∀ k, old.direct k = 0)
    (henough : storedBlocks file ≤ s.freeBlocks.card) :
    ∃ printed s', copyin s (some file) n = .ok (true, printed, s') ∧ StoresFile s s' n file := by
  have hcovers : s.BitmapCovers := fun b hb => Nat.lt_of_lt_of_le hb.2 hsmall
  obtain ⟨⟨offset, printed, s₁⟩, hloop⟩ := copyinLoop_ok hm hcovers hat henough
  obtain ⟨hoffset, taken, buffer, rest, hlength, hstoring⟩ := copyinLoop_storing hm hat hloop
  obtain ⟨inode, hat₁, -⟩ := hstoring.inode
  have hsize : s₁.updateSize n offset = _ := updateSize_ok hat₁
  exact ⟨printed ++ [.bytesCopied offset], _, copyin_of_loop (Mounted.isDiskMounted hm) hloop hsize,
    hstoring.storesFile hm hempty hoffset hlength hsize⟩

/-- A file of two blocks in an empty inode of the small disk. -/
theorem copyin_stores_two_blocks : ∃ s₀ printed s',
    (State.start 4 (smallImage 1)).mount = .ok (true, s₀)
    ∧ copyin s₀ (some (List.replicate 5000 65)) 0 = .ok (true, printed, s')
    ∧ StoresFile s₀ s' 0 (List.replicate 5000 65) := by
  obtain ⟨s₀, inode, hmount, hm, hsize, hat, -, hempty, henough⟩ := smallDisk_ready
  have hneeded : storedBlocks (List.replicate 5000 65) ≤ s₀.freeBlocks.card := by
    rw [storedBlocks, storedLength, List.length_replicate]
    exact henough
  obtain ⟨printed, s', hcopyin, hstores⟩ :=
    copyin_stores hm (by rw [hsize]; decide) hat hempty hneeded
  exact ⟨s₀, printed, s', hmount, hcopyin, hstores⟩

/-! ## A command that fails

`copyin` takes its inode before it looks whether the source can be opened, and does not give it
back. So a failure leaves the state alone only when there was no inode to take. -/

/-- The `copyin` command leaves the state alone when it reports failure. -/
def State.FailsUnchanged (s : State) (source : Option (List UInt8)) : Prop :=
  ∀ n printed s', doCopyin s source = .ok (n, printed, s') → Message.copyinFailed ∈ printed → s' = s

/-- An inode taken by `create` is not undone. -/
theorem created_ne {inode : Inode} (hat : s.inodeAt n = some inode) (hvalid : inode.valid = 0) :
    s.created n inode ≠ s := by
  intro heq
  have hself := created_inodeAt_self hat
  rw [heq, hat, Option.some.injEq] at hself
  have hone : (1 : UInt32) = 0 := (congrArg Inode.valid hself).symm.trans hvalid
  exact absurd hone (by decide)

/-- It fails if the inode is rejected or the source cannot be opened; the inode is taken by
then. -/
theorem doCopyin_fails (hm : s.Mounted) {inode : Inode}
    (hnext : s.getNextFreeINode = .ok (some (n, inode))) {source : Option (List UInt8)}
    (hfails : s.fs.superBlock.inodeBlocks.toNat ≤ n ∨ source = none) :
    ∃ printed, doCopyin s source = .ok (n, printed, s.created n inode)
      ∧ Message.copyinFailed ∈ printed := by
  rw [doCopyin_eq hm hnext]
  by_cases hn : n < s.fs.superBlock.inodeBlocks.toNat
  · obtain rfl := hfails.resolve_left (Nat.not_le.mpr hn)
    rw [if_pos hn]
    exact ⟨_, rfl, List.mem_append_right _ (List.mem_singleton_self _)⟩
  · rw [if_neg hn]
    exact ⟨_, rfl, List.mem_cons_of_mem _ (List.mem_singleton_self _)⟩

/-- It does not fail otherwise. -/
theorem doCopyin_succeeds (hm : s.Mounted) {inode : Inode}
    (hnext : s.getNextFreeINode = .ok (some (n, inode))) (hn : n < s.fs.superBlock.inodeBlocks.toNat)
    {m : Nat} {printed : List Message} (h : doCopyin s (some file) = .ok (m, printed, s')) :
    Message.copyinFailed ∉ printed := by
  have hm' : (s.created n inode).Mounted := hm.of_shape created_shape
  rw [doCopyin_eq hm hnext, if_pos hn] at h
  obtain ⟨⟨success, more, s₂⟩, hcopyin, h⟩ := of_bind_eq_ok h
  obtain ⟨⟨offset, looped, s₁⟩, hloop, hcopyin⟩ :=
    of_bind_eq_ok ((if_pos (Mounted.isDiskMounted hm')).symm.trans hcopyin)
  obtain ⟨s₃, -, hcopyin⟩ := of_bind_eq_ok hcopyin
  cases hcopyin
  cases h
  -- the loop itself prints no such message
  obtain ⟨rest, -, hend⟩ := copyinLoop_rule (Q := fun s _ _ => s.Mounted) (fun hQ => hQ)
    (fun hQ _ _ hwrite => hQ.of_shape (write_shape hQ hwrite)) file hm' hloop
  rcases hend with ⟨-, rfl⟩ | ⟨-, -, rfl⟩
  · simp
  · simp

/-- **Headline.** In any session with a mounted disk: a `copyin` command that reports failure has
changed nothing exactly if no inode is free, or the source can be opened and an inode below the
number of inode blocks is free, so that the command does not fail. -/
theorem copyinFailed_iff {blocks : UInt32} {image : Bytes.Image} {commands : List Command}
    (hreach : execAll (State.start blocks image) commands = .ok s)
    (hmounted : s.isDiskMounted = true) (source : Option (List UInt8)) :
    s.FailsUnchanged source ↔ s.IsFull
      ∨ source ≠ none ∧ s.FreeBelow s.fs.superBlock.inodeBlocks.toNat := by
  have hm := reachable_mounted hreach hmounted
  rcases of_create hm with ⟨n, inode, -, hat, hvalid, hnext, hbefore⟩ | ⟨-, hfull⟩
  · have hnot : ¬ s.IsFull := fun hfull => hfull n inode hat hvalid
    rw [or_iff_right hnot, freeBelow_iff hat hvalid hbefore]
    constructor
    · -- a free inode is taken, and then the command must not fail
      intro h
      by_contra hout
      have hfails : s.fs.superBlock.inodeBlocks.toNat ≤ n ∨ source = none := by
        by_cases hsource : source = none
        · exact Or.inr hsource
        · exact Or.inl (Nat.le_of_not_lt fun hn => hout ⟨hsource, hn⟩)
      obtain ⟨printed, hcopyin, hfailed⟩ := doCopyin_fails hm hnext hfails
      exact created_ne hat hvalid (h n printed _ hcopyin hfailed)
    · rintro ⟨hsource, hn⟩ m printed s' hcopyin hfailed
      obtain ⟨stream, rfl⟩ := Option.ne_none_iff_exists'.mp hsource
      exact absurd hfailed (doCopyin_succeeds hm hnext hn hcopyin)
  · -- no inode is free, and nothing is done
    refine iff_of_true (fun n printed s' hcopyin _ => ?_) (Or.inl hfull)
    rcases of_doCopyin hm hcopyin with ⟨inode, hat, hvalid, -⟩ | ⟨rfl, -⟩
    · exact absurd hvalid (hfull n inode hat)
    · rfl

/-- The small disk, mounted at the prompt. -/
theorem smallDisk_session : ∃ s₀ inode, execAll (State.start 4 (smallImage 0)) [.mount] = .ok s₀
    ∧ s₀.Mounted ∧ s₀.fs.superBlock.inodeBlocks.toNat = 1
    ∧ s₀.getNextFreeINode = .ok (some (0, inode)) ∧ s₀.inodeAt 0 = some inode ∧ inode.valid = 0 := by
  obtain ⟨s₀, hmount, hismount⟩ := smallDisk_mount 4 (by decide) (by decide) 0
  obtain ⟨inode, hnext⟩ := smallDisk_nextFreeINode hismount
  have hm := hismount.mounted
  have hblocks : s₀.fs.superBlock.inodeBlocks.toNat = 1 :=
    hm.inodeBlocks.trans (smallDisk_mounted hismount).1
  obtain ⟨r, hr, hsome, -⟩ := of_getNextFreeINode hm
  rw [hnext] at hr
  cases hr
  obtain ⟨hat, hvalid, -⟩ := hsome 0 inode rfl
  refine ⟨s₀, inode, ?_, hm, hblocks, hnext, hat, hvalid⟩
  rw [execAll, exec, doMount, hmount]
  rfl

/-- An image with one inode block, in which all 128 inodes are valid. -/
def fullTable : Bytes.Image := fun a =>
  if a = 8 ∨ (4096 ≤ a ∧ a < 8192 ∧ a % 32 = 0) then 1 else 0

/-- On the full table the command fails, and the state it leaves is the one it found. -/
theorem copyin_fails_unchanged : ∃ s₀, execAll (State.start 4 fullTable) [.mount] = .ok s₀
    ∧ s₀.IsFull ∧ s₀.FailsUnchanged (some [65])
    ∧ ∃ printed s', doCopyin s₀ (some [65]) = .ok (invalideReturn, printed, s')
      ∧ Message.copyinFailed ∈ printed ∧ s' = s₀ := by
  obtain ⟨s₀, hmount, hismount⟩ := mount_ok (s := State.start 4 fullTable) (by decide) (by decide)
  have hm := hismount.mounted
  have hrun : execAll (State.start 4 fullTable) [.mount] = .ok s₀ := by
    rw [execAll, exec, doMount, hmount]
    rfl
  -- all 128 inodes are valid, so there is none to take
  have hvalid : ∀ n < 128, (imageInode (State.start 4 fullTable).disk n).valid ≠ 0 := by
    decide +kernel
  have hfull : s₀.IsFull := by
    intro n inode hat
    have hlt := lt_of_inodeAt hat
    rw [hismount.inodeAt hlt] at hat
    cases hat
    rw [hismount.tableBlocks] at hlt
    exact hvalid n hlt
  have hunchanged : s₀.FailsUnchanged (some [65]) :=
    (copyinFailed_iff hrun (Mounted.isDiskMounted hm) _).mpr (Or.inl hfull)
  obtain ⟨printed, s', hcopyin, hfailed⟩ : ∃ printed s',
      doCopyin s₀ (some [65]) = .ok (invalideReturn, printed, s') ∧ Message.copyinFailed ∈ printed := by
    rcases of_create hm with ⟨n, inode, -, hat, hinvalid, -⟩ | ⟨hcreate, -⟩
    · exact absurd hinvalid (hfull n inode hat)
    · exact ⟨_, s₀, doCopyin_full hm hcreate _, by simp⟩
  exact ⟨s₀, hrun, hfull, hunchanged, printed, s', hcopyin, hfailed,
    hunchanged _ printed s' hcopyin hfailed⟩

/-- **The defect**: a file that cannot be opened, and inode `0` is in use all the same. -/
theorem copyin_leaks : ∃ s₀ printed s', execAll (State.start 4 (smallImage 0)) [.mount] = .ok s₀
    ∧ s₀.isDiskMounted = true ∧ doCopyin s₀ none = .ok (0, printed, s')
    ∧ Message.copyinFailed ∈ printed
    ∧ (∃ inode, s₀.inodeAt 0 = some inode ∧ inode.valid = 0)
    ∧ (∃ inode, s'.inodeAt 0 = some inode ∧ inode.valid = 1) ∧ ¬ s₀.FailsUnchanged none := by
  obtain ⟨s₀, inode, hrun, hm, -, hnext, hat, hvalid⟩ := smallDisk_session
  obtain ⟨printed, hcopyin, hfailed⟩ := doCopyin_fails hm hnext (Or.inr rfl)
  exact ⟨s₀, printed, _, hrun, Mounted.isDiskMounted hm, hcopyin, hfailed, ⟨inode, hat, hvalid⟩,
    ⟨_, created_inodeAt_self hat, rfl⟩, fun h => created_ne hat hvalid (h 0 printed _ hcopyin hfailed)⟩

end OsLab.Sfs
