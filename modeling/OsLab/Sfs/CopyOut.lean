import OsLab.Sfs.RoundTrip

/-!
# OsLab.Sfs.CopyOut — the reads of `copyout`

The loop of `copyout` has no bound of its own: it stops when `read` delivers nothing. `read` looks
at `Direct[direct_pointer_index]` before it tests the index, so the read that ends the loop on a
file of five blocks looks at `Direct[5]`.

Nor does `setBlockFreeStatus` test its index against the bitmap. `State.read` takes a store behind
the bitmap for a fault; the machine stores there and goes on. Which pointers the loop looks at is
therefore asked of **`readOn`**, where the store is let pass (`readOn_of_read`: where `read`
returns, it does the same).

* **`copyoutReads`**: the reads of the loop, each with its index and what it delivers;
  `copyoutReads_of_loop` says that they are those of `copyoutLoop`.
* **`delivering_le`**: at most five of them deliver something.
* **`staysWithin_iff`**: their indices are those of `Direct` exactly if the loop ends before the
  sixth read, that is if a pointer is `0`.
-/

namespace OsLab.Sfs

open Fallible State

/-! ## A read that goes on

The store behind the bitmap is taken to change nothing that the loop reads: neither the inode
table nor the superblock nor the disk. -/

/-- `setBlockFreeStatus(block_number, free)`, with a store behind the bitmap let pass. -/
def State.storeFreeStatus (s : State) (blockNumber : UInt32) (free : Bool) : Except Fault State :=
  match s.setBlockFreeStatus blockNumber free with
  | .ok s' => .ok s'
  -- `free_block.Bitmap[block_number] = free` with `block_number` past the bitmap's last entry
  | .error .outOfBounds => .ok s
  | .error fault => .error fault

/-- `read(inumber, data, length, offset)` with that store. -/
def State.readOn (s : State) (inumber : Nat) (data : Block) (offset : Nat) :
    Except Fault (Nat × Block × State) := do
  let directPointerIndex := offset / blockSize
  let pInode ← s.getINode inumber
  let dataBlockNumber := directAt pInode directPointerIndex
  if asInt dataBlockNumber > 0 ∧ directPointerIndex < pointersPerInode then
    let (totalRead, data) ← s.disk.read (asInt dataBlockNumber)
    let s ← s.storeFreeStatus dataBlockNumber false
    .ok (totalRead, data, s)
  else
    .ok (0, data, s)

/-- **Where `read` returns, the read goes on alike.** -/
theorem readOn_of_read {s : State} {inumber length offset : Nat} {data : Block}
    {r : Nat × Block × State} (h : s.read inumber data length offset = .ok r) :
    s.readOn inumber data offset = .ok r := by
  unfold State.read at h
  obtain ⟨pInode, hat, h⟩ := of_bind_eq_ok h
  unfold State.readOn
  rw [hat, ok_bind]
  dsimp only at h ⊢
  split at h
  · next hguard =>
    obtain ⟨⟨totalRead, data'⟩, hread, h⟩ := of_bind_eq_ok h
    obtain ⟨s', hstore, h⟩ := of_bind_eq_ok h
    rw [if_pos hguard, hread, ok_bind]
    dsimp only
    rw [State.storeFreeStatus, hstore]
    exact h
  · next hguard =>
    rw [if_neg hguard]
    exact h

/-- A read that delivers something is of one of the five blocks, and delivers a block. -/
theorem of_readOn_pos {s s' : State} {inumber offset total : Nat} {data data' : Block}
    (h : s.readOn inumber data offset = .ok (total, data', s')) (hpos : total ≠ 0) :
    offset / blockSize < pointersPerInode ∧ total = blockSize := by
  unfold State.readOn at h
  obtain ⟨pInode, -, h⟩ := of_bind_eq_ok h
  dsimp only at h
  split at h
  · next hguard =>
    obtain ⟨⟨totalRead, data''⟩, hread, h⟩ := of_bind_eq_ok h
    obtain ⟨s'', -, h⟩ := of_bind_eq_ok h
    obtain ⟨_, -, hread⟩ := of_bind_eq_ok hread
    cases hread
    cases h
    exact ⟨hguard.2, rfl⟩
  · cases h
    exact absurd rfl hpos

/-! ## The loop

`copyout` reads block after block until a read delivers nothing. The model has the loop with the
reads it makes, each with its index and with what came of it. -/

/-- A call of `read`: the index of the pointer it looks at, and the bytes it delivers. -/
structure ReadMade where
  directPointerIndex : Nat
  result : Except Fault Nat

/-- It delivers something, and the loop goes on. -/
def ReadMade.delivers (made : ReadMade) : Bool :=
  match made.result with
  | .ok result => result != 0
  | .error _ => false

/-- The reads of the loop of `copyout`. A read that does not return is the last one. -/
def copyoutReads (inumber : Nat) (s : State) (buffer : Block) (offset : Nat) : List ReadMade :=
  match _hread : s.readOn inumber buffer offset with
  | .error fault => [⟨offset / blockSize, .error fault⟩]
  | .ok (result, buffer, s') =>
    if _hpos : result = 0 then [⟨offset / blockSize, .ok result⟩]
    else ⟨offset / blockSize, .ok result⟩ :: copyoutReads inumber s' buffer (offset + result)
termination_by pointersPerInode * blockSize - offset
decreasing_by
  obtain ⟨hindex, hresult⟩ := of_readOn_pos _hread _hpos
  unfold blockSize pointersPerInode at *
  omega

/-- The loop makes at most five reads that deliver something, and every read looks at a pointer of
the inode. -/
structure StaysWithin (reads : List ReadMade) : Prop where
  delivering : reads.countP ReadMade.delivers ≤ pointersPerInode
  indices : ∀ made ∈ reads, made.directPointerIndex < pointersPerInode

variable {s s' : State} {n : Nat} {inode : Inode}

/-! ## The loop and its reads

One equation of `copyoutReads` for each of the ways in which a read can come out. -/

theorem delivers_block (index : Nat) : ReadMade.delivers ⟨index, .ok blockSize⟩ = true :=
  bne_iff_ne.mpr (by decide)

/-- A read that delivers a block: the loop goes on behind it. -/
theorem copyoutReads_step {buffer buffer' : Block} {offset : Nat}
    (hread : s.readOn n buffer offset = .ok (blockSize, buffer', s')) :
    copyoutReads n s buffer offset
      = ⟨offset / blockSize, .ok blockSize⟩ :: copyoutReads n s' buffer' (offset + blockSize) := by
  rw [copyoutReads]
  split
  · next fault he =>
    rw [hread] at he
    cases he
  · next total buffer₁ s₁ he =>
    rw [hread] at he
    cases he
    rw [dif_neg (by decide)]

/-- A read that delivers nothing: the loop is left. -/
theorem copyoutReads_done {buffer buffer' : Block} {offset : Nat}
    (hread : s.readOn n buffer offset = .ok (0, buffer', s')) :
    copyoutReads n s buffer offset = [⟨offset / blockSize, .ok 0⟩] := by
  rw [copyoutReads]
  split
  · next fault he =>
    rw [hread] at he
    cases he
  · next total buffer₁ s₁ he =>
    rw [hread] at he
    cases he
    rw [dif_pos rfl]

/-- A read that does not return. -/
theorem copyoutReads_fault {buffer : Block} {offset : Nat} {fault : Fault}
    (hread : s.readOn n buffer offset = .error fault) :
    copyoutReads n s buffer offset = [⟨offset / blockSize, .error fault⟩] := by
  rw [copyoutReads]
  split
  · next fault' he =>
    rw [hread] at he
    cases he
    rfl
  · next total buffer₁ s₁ he =>
    rw [hread] at he
    cases he

/-- Where the next read stands. -/
theorem next_index (offset : Nat) : (offset + blockSize) / blockSize = offset / blockSize + 1 :=
  Nat.add_div_right offset (by decide)

/-- What a read can be: a whole block behind one of the five pointers, nothing, or a fault. -/
theorem readOn_cases (n : Nat) (s : State) (buffer : Block) (offset : Nat) :
    (∃ buffer' s', s.readOn n buffer offset = .ok (blockSize, buffer', s')
        ∧ offset / blockSize < pointersPerInode)
      ∨ (∃ buffer' s', s.readOn n buffer offset = .ok (0, buffer', s'))
      ∨ ∃ fault, s.readOn n buffer offset = .error fault := by
  cases hread : s.readOn n buffer offset with
  | error fault => exact Or.inr (Or.inr ⟨fault, rfl⟩)
  | ok r =>
    obtain ⟨total, buffer', s'⟩ := r
    by_cases hzero : total = 0
    · subst hzero
      exact Or.inr (Or.inl ⟨buffer', s', rfl⟩)
    · obtain ⟨hindex, rfl⟩ := of_readOn_pos hread hzero
      exact Or.inl ⟨buffer', s', rfl, hindex⟩

/-- **The reads are those of the loop**: a block written for each one that delivers. -/
theorem copyoutReads_of_loop (left : Nat) :
    ∀ {s s' : State} {buffer : Block} {offset offset' : Nat} {written : List UInt8},
      pointersPerInode - offset / blockSize = left →
      copyoutLoop n s buffer offset = .ok (written, offset', s') →
      written.length = blockSize * (copyoutReads n s buffer offset).countP ReadMade.delivers
        ∧ offset' = offset + written.length := by
  induction left using Nat.strong_induction_on with
  | _ left ih =>
    intro s s' buffer offset offset' written hleft h
    cases hread : s.read n buffer blockSize offset with
    | error fault =>
      -- then the loop would not have returned
      rw [copyoutLoop] at h
      split at h
      · cases h
      · next he =>
        rw [hread] at he
        cases he
    | ok r =>
      obtain ⟨total, buffer', s₁⟩ := r
      by_cases hzero : total = 0
      · subst hzero
        rw [copyoutLoop_done hread] at h
        cases h
        rw [copyoutReads_done (readOn_of_read hread)]
        exact ⟨rfl, rfl⟩
      · obtain ⟨hindex, rfl⟩ := of_read_pos hread hzero
        rw [copyoutLoop_step hread] at h
        obtain ⟨⟨rest, offset₁, s₂⟩, hloop, h⟩ := of_bind_eq_ok h
        simp only [Except.ok.injEq, Prod.mk.injEq] at h
        obtain ⟨rfl, rfl, rfl⟩ := h
        obtain ⟨hlength, hoffset⟩ := ih _ (by rw [next_index]; omega) rfl hloop
        have hblock : (List.ofFn buffer').length = blockSize := List.length_ofFn
        rw [copyoutReads_step (readOn_of_read hread), List.countP_cons_of_pos (delivers_block _),
          List.length_append, Nat.mul_succ]
        generalize (copyoutReads n s₁ buffer' (offset + blockSize)).countP ReadMade.delivers = q at *
        omega

/-! ## Five blocks

Five reads deliver the five blocks of a full file; nothing in the loop counts them, so a sixth read
follows. -/

/-- Every read that delivers something is of another block of the five. -/
theorem delivering_le (left : Nat) :
    ∀ {s : State} {buffer : Block} {offset : Nat}, pointersPerInode - offset / blockSize = left →
      (copyoutReads n s buffer offset).countP ReadMade.delivers ≤ left := by
  induction left using Nat.strong_induction_on with
  | _ left ih =>
    intro s buffer offset hleft
    rcases readOn_cases n s buffer offset with ⟨buffer', s', hread, hindex⟩ |
      ⟨buffer', s', hread⟩ | ⟨fault, hread⟩
    · have hrest : (copyoutReads n s' buffer' (offset + blockSize)).countP ReadMade.delivers
          ≤ pointersPerInode - (offset + blockSize) / blockSize := ih _ (by rw [next_index]; omega) rfl
      rw [next_index] at hrest
      rw [copyoutReads_step hread, List.countP_cons_of_pos (delivers_block _)]
      omega
    · rw [copyoutReads_done hread]
      exact Nat.zero_le _
    · rw [copyoutReads_fault hread]
      exact Nat.zero_le _

/-! ## The indices

The loop goes through the pointers in order. At `0` it ends; behind a data block, be it one that
the bitmap has an entry for or not, the read delivers a block and the loop goes on. -/

/-- The pointers of an inode that `copyout` can meet: `0`, or a data block. -/
def PointsToData (s : State) (inode : Inode) : Prop :=
  ∀ k, inode.direct k = 0 ∨ s.IsDataBlock (inode.direct k).toNat

/-- A pointer that is not positive as an `int`: the read delivers nothing. -/
theorem readOn_nothing (hat : s.inodeAt n = some inode) {offset : Nat}
    (hend : asInt (directAt inode (offset / blockSize)) ≤ 0) (data : Block) :
    s.readOn n data offset = .ok (0, data, s) :=
  readOn_of_read (read_nothing hat hend data blockSize)

/-- The store takes effect, or it is let pass. -/
theorem storeFreeStatus_ok (hm : s.Mounted) {p : UInt32} (hdata : s.IsDataBlock p.toNat) :
    s.storeFreeStatus p false = .ok (s.mark p.toNat false)
      ∨ s.storeFreeStatus p false = .ok s := by
  by_cases hsmall : p.toNat < 4096
  · left
    rw [State.storeFreeStatus, setBlockFreeStatus_ok hm.diskSet fun _ => hsmall]
  · right
    have hindex := bitmapIndex_over hm.diskSet hdata (Nat.le_of_not_lt hsmall)
    rw [State.storeFreeStatus, setBlockFreeStatus, hindex]
    rfl

/-- **Behind a data block** a read delivers a block, and leaves the table and the disk alone. -/
theorem readOn_block (hm : s.Mounted) (hat : s.inodeAt n = some inode) {offset : Nat}
    (hdata : s.IsDataBlock (directAt inode (offset / blockSize)).toNat) (data : Block) :
    ∃ data' s', s.readOn n data offset = .ok (blockSize, data', s') ∧ s'.shape = s.shape
      ∧ s'.inodeAt n = some inode := by
  set p := directAt inode (offset / blockSize) with hp
  have hpos : 0 < asInt p := Mounted.asInt_pos hm hdata
  have hindex : offset / blockSize < pointersPerInode := directAt_of_pos hpos
  have hdisk : (p.toNat : Int) < asInt s.disk.blocks := by
    have hsize : asInt s.disk.blocks = s.shape.blocks.toNat := hm.size_eq
    have hend := hdata.2
    omega
  -- the mark goes into the bitmap, or behind it
  obtain ⟨s', hstore, hshape, hat'⟩ : ∃ s', s.storeFreeStatus p false = .ok s'
      ∧ s'.shape = s.shape ∧ s'.inodeAt n = some inode := by
    rcases storeFreeStatus_ok hm hdata with hmark | hpass
    · exact ⟨_, hmark, mark_shape, hat⟩
    · exact ⟨s, hpass, rfl, hat⟩
  refine ⟨s.disk.blockAt p.toNat, s', ?_, hshape, hat'⟩
  unfold State.readOn
  rw [getINode_ok hat, ok_bind]
  dsimp only
  rw [← hp, if_pos ⟨hpos, hindex⟩, asInt_of_pos hpos, Disk.read_ok hdisk, ok_bind]
  dsimp only
  rw [hstore, ok_bind]

/-- **One round.** At a pointer that is not `0` there is another round, at one that is there is
none. -/
theorem copyoutReads_index (hm : s.Mounted) (hat : s.inodeAt n = some inode)
    (hpoints : PointsToData s inode) (buffer : Block) (k : Fin 5) :
    (inode.direct k = 0 ∧ copyoutReads n s buffer (k * blockSize) = [⟨k, .ok 0⟩])
      ∨ (inode.direct k ≠ 0 ∧ ∃ buffer' s', s'.Mounted ∧ s'.inodeAt n = some inode
        ∧ PointsToData s' inode
        ∧ copyoutReads n s buffer (k * blockSize)
          = ⟨k, .ok blockSize⟩ :: copyoutReads n s' buffer' ((k + 1 : Nat) * blockSize)) := by
  have hindex : (k : Nat) * blockSize / blockSize = k := Nat.mul_div_cancel _ (by decide)
  have hdirect : directAt inode ((k : Nat) * blockSize / blockSize) = inode.direct k := by
    rw [hindex]
    exact dif_pos k.isLt
  -- the file ends here, or has a block here
  by_cases hzero : inode.direct k = 0
  · have hend : asInt (directAt inode ((k : Nat) * blockSize / blockSize)) ≤ 0 := by
      rw [hdirect, hzero]
      decide
    refine Or.inl ⟨hzero, ?_⟩
    rw [copyoutReads_done (readOn_nothing hat hend buffer), hindex]
  · have hdata : s.IsDataBlock (directAt inode ((k : Nat) * blockSize / blockSize)).toNat := by
      rw [hdirect]
      exact (hpoints k).resolve_left hzero
    obtain ⟨buffer', s', hread, hshape, hat'⟩ := readOn_block hm hat hdata buffer
    refine Or.inr ⟨hzero, buffer', s', hm.of_shape hshape, hat',
      fun j => (hpoints j).imp_right (isDataBlock_congr hshape _).mpr, ?_⟩
    rw [copyoutReads_step hread, hindex, Nat.succ_mul]

/-- Behind the fifth pointer the read looks at `Direct[5]`, and ends the loop. -/
theorem copyoutReads_behind (hat : s.inodeAt n = some inode) (buffer : Block) :
    copyoutReads n s buffer (pointersPerInode * blockSize) = [⟨pointersPerInode, .ok 0⟩] := by
  have hindex : pointersPerInode * blockSize / blockSize = pointersPerInode :=
    Nat.mul_div_cancel _ (by decide)
  have hend : asInt (directAt inode (pointersPerInode * blockSize / blockSize)) ≤ 0 := by
    rw [hindex, directAt, dif_neg (by decide)]
    decide
  rw [copyoutReads_done (readOn_nothing hat hend buffer), hindex]

/-- From pointer `q` on. Induction on the pointers that are left. -/
theorem indices_iff (left : Nat) :
    ∀ {s : State} {buffer : Block} {q : Nat}, q + left = pointersPerInode → s.Mounted →
      s.inodeAt n = some inode → PointsToData s inode →
      ((∀ made ∈ copyoutReads n s buffer (q * blockSize), made.directPointerIndex < pointersPerInode)
        ↔ ∃ k : Fin 5, q ≤ k ∧ inode.direct k = 0) := by
  induction left with
  | zero =>
    intro s buffer q hq _ hat _
    obtain rfl : q = pointersPerInode := hq
    rw [copyoutReads_behind hat]
    -- the read that looks at `Direct[5]`, and no pointer left that could end the loop
    refine iff_of_false (fun hall => ?_) ?_
    · exact Nat.lt_irrefl _ (hall _ (List.mem_singleton_self _))
    · rintro ⟨k, hk, -⟩
      exact absurd k.isLt (Nat.not_lt.mpr hk)
  | succ left ih =>
    intro s buffer q hq hm hat hpoints
    have hlt : q < 5 := by
      unfold pointersPerInode at hq
      omega
    rcases copyoutReads_index hm hat hpoints buffer ⟨q, hlt⟩ with
      ⟨hzero, hreads⟩ | ⟨hgoes, buffer', s', hm', hat', hpoints', hreads⟩
    · rw [hreads]
      refine iff_of_true (fun made hmade => ?_) ⟨⟨q, hlt⟩, Nat.le_refl q, hzero⟩
      rw [List.mem_singleton.mp hmade]
      exact hlt
    · have hnext : q + 1 + left = pointersPerInode := by omega
      rw [hreads, List.forall_mem_cons, ih hnext hm' hat' hpoints']
      constructor
      · rintro ⟨-, k, hk, hzero⟩
        exact ⟨k, Nat.le_of_succ_le hk, hzero⟩
      · rintro ⟨k, hk, hzero⟩
        refine ⟨hlt, k, Nat.lt_of_le_of_ne hk fun heq => hgoes ?_, hzero⟩
        obtain rfl : k = ⟨q, hlt⟩ := Fin.ext heq.symm
        exact hzero

/-- **Headline.** `copyout` of an inode stays within its pointers exactly if one of them is `0`. -/
theorem staysWithin_iff (hm : s.Mounted) (hat : s.inodeAt n = some inode)
    (hpoints : PointsToData s inode) (buffer : Block) :
    StaysWithin (copyoutReads n s buffer 0) ↔ ∃ k, inode.direct k = 0 := by
  have hindices : (∀ made ∈ copyoutReads n s buffer (0 * blockSize),
      made.directPointerIndex < pointersPerInode)
        ↔ ∃ k : Fin 5, 0 ≤ (k : Nat) ∧ inode.direct k = 0 :=
    indices_iff pointersPerInode (Nat.zero_add _) hm hat hpoints
  rw [Nat.zero_mul] at hindices
  constructor
  · intro hstays
    obtain ⟨k, -, hzero⟩ := hindices.mp hstays.indices
    exact ⟨k, hzero⟩
  · rintro ⟨k, hzero⟩
    exact ⟨delivering_le pointersPerInode rfl, hindices.mpr ⟨k, Nat.zero_le _, hzero⟩⟩

/-! ## A full file

An image with a file that has all five pointers. The sixth read looks behind them, at what the inode
has there. -/

/-- An image with one inode block, in which inode `0` has the blocks `2`, …, `count + 1`. -/
def filledImage (count : Nat) : Bytes.Image := fun a =>
  if a = 8 ∨ a = 4096 then 1
  else if 4104 ≤ a ∧ a < 4104 + 4 * count ∧ a % 4 = 0 then UInt8.ofNat ((a - 4104) / 4 + 2)
  else 0

/-- The disk of seven blocks with that image. -/
def filledDisk (count : Nat) : Disk := (State.start 7 (filledImage count)).disk

theorem filledDisk_inodeBlocks (count : Nat) :
    (decodeSuper ((filledDisk count).blockAt 0)).inodeBlocks.toNat = 1 := rfl

theorem filledImage_mount (count : Nat) :
    ∃ s₀, (State.start 7 (filledImage count)).mount = .ok (true, s₀) ∧ s₀.Mounted
      ∧ (∀ b, s₀.IsDataBlock b ↔ 2 ≤ b ∧ b < 7)
      ∧ s₀.inodeAt 0 = some (imageInode (filledDisk count) 0) := by
  have hfits : (decodeSuper ((filledDisk count).blockAt 0)).inodeBlocks.toNat + 1
      ≤ (filledDisk count).size.toNat := by
    rw [filledDisk_inodeBlocks]
    show 1 + 1 ≤ (7 : UInt32).toNat
    decide
  have hsmall : (filledDisk count).size.toNat ≤ 4096 := by
    show (7 : UInt32).toNat ≤ 4096
    decide
  obtain ⟨s₀, hmount, hismount⟩ := mount_ok (s := State.start 7 (filledImage count)) hfits hsmall
  have htable : s₀.shape.tableBlocks = 1 := hismount.tableBlocks
  refine ⟨s₀, hmount, hismount.mounted, hismount.isDataBlock_iff, hismount.inodeAt ?_⟩
  rw [htable]
  decide

/-- Its pointers are those of data blocks. -/
theorem filledImage_pointsToData {s₀ : State} (hdata : ∀ b, s₀.IsDataBlock b ↔ 2 ≤ b ∧ b < 7)
    {count : Nat} (hcount : count = 1 ∨ count = 5) :
    PointsToData s₀ (imageInode (filledDisk count) 0) := by
  intro k
  rw [hdata]
  rcases hcount with rfl | rfl
  · revert k
    decide
  · revert k
    decide

/-- A file of one block. -/
theorem staysWithin_iff_one : ∃ s₀, (State.start 7 (filledImage 1)).mount = .ok (true, s₀)
    ∧ StaysWithin (copyoutReads 0 s₀ zeroBuffer 0) := by
  obtain ⟨s₀, hmount, hm, hdata, hat⟩ := filledImage_mount 1
  have hpoints := filledImage_pointsToData hdata (Or.inl rfl)
  exact ⟨s₀, hmount, (staysWithin_iff hm hat hpoints zeroBuffer).mpr ⟨1, by decide⟩⟩

/-- **The index tested too late**: `copyout` of a file of five blocks looks behind `Direct`. -/
theorem copyout_looks_behind :
    (∃ s₀, (State.start 7 (filledImage 5)).mount = .ok (true, s₀)
        ∧ ∃ made ∈ copyoutReads 0 s₀ zeroBuffer 0, pointersPerInode ≤ made.directPointerIndex)
      ∧ ¬ ∀ (s : State) (n : Nat) (inode : Inode) (buffer : Block), s.Mounted →
        s.inodeAt n = some inode → PointsToData s inode → StaysWithin (copyoutReads n s buffer 0) := by
  obtain ⟨s₀, hmount, hm, hdata, hat⟩ := filledImage_mount 5
  have hpoints := filledImage_pointsToData hdata (Or.inr rfl)
  have hfull : ¬ ∃ k, (imageInode (filledDisk 5) 0).direct k = 0 := by
    decide
  -- the reads stay within the five only if a pointer is `0`
  have hindices : (∀ made ∈ copyoutReads 0 s₀ zeroBuffer (0 * blockSize),
        made.directPointerIndex < pointersPerInode)
      ↔ ∃ k : Fin 5, 0 ≤ (k : Nat) ∧ (imageInode (filledDisk 5) 0).direct k = 0 :=
    indices_iff pointersPerInode (Nat.zero_add _) hm hat hpoints
  rw [Nat.zero_mul] at hindices
  have hbehind : ¬ ∀ made ∈ copyoutReads 0 s₀ zeroBuffer 0,
      made.directPointerIndex < pointersPerInode := by
    rw [hindices]
    rintro ⟨k, -, hzero⟩
    exact hfull ⟨k, hzero⟩
  refine ⟨⟨s₀, hmount, ?_⟩, fun hall => ?_⟩
  · push Not at hbehind
    exact hbehind
  · exact hbehind (hall s₀ 0 _ zeroBuffer hm hat hpoints).indices

end OsLab.Sfs
