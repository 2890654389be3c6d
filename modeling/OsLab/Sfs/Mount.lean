import OsLab.Sfs.Spec

/-!
# OsLab.Sfs.Mount — the start and the end of a session

* **`MarksUsed`**: a change of the bitmap alone that marks some data blocks used; it composes
  over loops (`MarksUsed.foldlM`), and both loops of `mount` are instances.
* **`of_mount`**: after a completed `mount` the table is the one on the disk, no block is
  dirty, and of the blocks that were free just those a valid inode points to are used.
* **`destroy_spec`**: `~FileSystem` writes the dirty inode blocks and nothing else.
-/

namespace OsLab.Sfs.State

open Fallible

/-! ## Marking

`mount` does nothing to the bitmap but mark blocks used. So its loops are described by the set of
blocks that they mark, and the sets of their rounds add up. -/

/-- Only the bitmap changed, and there the data blocks `P` are used from then on. -/
structure MarksUsed (s s' : State) (P : Nat → Prop) : Prop where
  same : s' = { s with fs := { s.fs with freeBlock := s'.fs.freeBlock } }
  free : ∀ c, s'.isFree c = true ↔ s.isFree c = true ∧ ¬ (s.IsDataBlock c ∧ P c)

variable {s s' : State}

/-- The bitmap is not part of the shape. -/
theorem MarksUsed.shape {P : Nat → Prop} (h : MarksUsed s s' P) : s'.shape = s.shape := by
  rw [h.same]
  rfl

theorem MarksUsed.refl (s : State) : MarksUsed s s fun _ => False :=
  ⟨rfl, fun _ => by simp⟩

/-- One after the other marks what either does. -/
theorem MarksUsed.trans {s'' : State} {P Q : Nat → Prop} (h : MarksUsed s s' P)
    (h' : MarksUsed s' s'' Q) : MarksUsed s s'' fun c => P c ∨ Q c := by
  refine ⟨?_, fun c => ?_⟩
  · rw [h'.same, h.same]
  · have hdata : s'.IsDataBlock c ↔ s.IsDataBlock c := by
      unfold IsDataBlock
      rw [h.shape]
    rw [h'.free, h.free, hdata]
    tauto

/-- The set, described in another way. -/
theorem MarksUsed.congr {P Q : Nat → Prop} (h : MarksUsed s s' P) (hPQ : ∀ c, P c ↔ Q c) :
    MarksUsed s s' Q :=
  ⟨h.same, fun c => by rw [h.free, hPQ]⟩

/-- A loop whose rounds each mark something. Induction on the rounds. -/
theorem MarksUsed.foldlM {α : Type} {round : State → α → Except Fault State} {P : α → Nat → Prop}
    (hround : ∀ {s s' x}, round s x = .ok s' → MarksUsed s s' (P x)) (xs : List α) :
    ∀ {s s' : State}, xs.foldlM round s = .ok s' → MarksUsed s s' fun c => ∃ x ∈ xs, P x c := by
  induction xs with
  | nil =>
    intro s s' h
    cases h
    exact (MarksUsed.refl s).congr fun c => by simp
  | cons x xs ih =>
    intro s s' h
    rw [List.foldlM_cons] at h
    obtain ⟨s₁, hx, h⟩ := of_bind_eq_ok h
    exact ((hround hx).trans (ih h)).congr fun c => by simp

theorem setBlockFreeStatus_marksUsed {p : UInt32} (h : s.setBlockFreeStatus p false = .ok s') :
    MarksUsed s s' fun c => p.toNat = c := by
  obtain ⟨rfl, hlt⟩ := setBlockFreeStatus_eq h
  refine ⟨rfl, fun c => ?_⟩
  rw [mark_isFree hlt]
  by_cases hc : c = p.toNat
  · subst hc
    by_cases hdata : s.IsDataBlock p.toNat <;> simp [hdata]
  · simp [hc, Ne.symm hc]

theorem markInode_marksUsed {inode : Inode} (h : s.markInode inode = .ok s') :
    MarksUsed s s' fun c => ∃ k, (inode.direct k).toNat = c :=
  (MarksUsed.foldlM (P := fun k c => (inode.direct k).toNat = c)
    (fun h => setBlockFreeStatus_marksUsed h) _ h).congr fun c => by simp

/-! ## Mounting

The table grows by one block a round, and the round marks the blocks to which the valid inodes of
that block point. -/

/-- An inode as the disk has it. -/
def imageInode (disk : Disk) (n : Nat) : Inode :=
  decodeInodes (disk.blockAt (n / inodesPerBlock + 1))
    ⟨n % inodesPerBlock, Nat.mod_lt _ inodesPerBlock_pos⟩

/-- The inode table on the disk. -/
def imageTable (disk : Disk) (inodeBlocks : Nat) : List InodeBlock :=
  (List.range inodeBlocks).map fun i => decodeInodes (disk.blockAt (i + 1))

/-- Some valid inode of the first `inodeBlocks` blocks of the disk points to the block. -/
def ImageOwned (disk : Disk) (inodeBlocks b : Nat) : Prop :=
  ∃ i < inodeBlocks, ∃ j, (decodeInodes (disk.blockAt (i + 1)) j).valid > 0
    ∧ ∃ k, ((decodeInodes (disk.blockAt (i + 1)) j).direct k).toNat = b

theorem of_mountBlock {i : Nat} (h : s.mountBlock i = .ok s') :
    ((i + 1 : Nat) : Int) < asInt s.disk.blocks
      ∧ ∃ s₁, s₁ = { s with fs := { s.fs with
          inodeBlocks := s.fs.inodeBlocks ++ [decodeInodes (s.disk.blockAt (i + 1))] } }
        ∧ MarksUsed s₁ s' fun c => ∃ j, (decodeInodes (s.disk.blockAt (i + 1)) j).valid > 0
          ∧ ∃ k, ((decodeInodes (s.disk.blockAt (i + 1)) j).direct k).toNat = c := by
  unfold mountBlock at h
  obtain ⟨⟨total, data⟩, hread, h⟩ := of_bind_eq_ok h
  have hlt := Disk.lt_of_read_ok hread
  rw [Disk.read_ok hlt] at hread
  cases hread
  refine ⟨hlt, _, rfl, ?_⟩
  refine (MarksUsed.foldlM (P := fun j c => (decodeInodes (s.disk.blockAt (i + 1)) j).valid > 0
    ∧ ∃ k, ((decodeInodes (s.disk.blockAt (i + 1)) j).direct k).toNat = c)
    (fun {s s' j} hj => ?_) _ h).congr fun c => by simp
  -- an inode that is not valid marks nothing
  split at hj
  · next hvalid => exact (markInode_marksUsed hj).congr fun c => (and_iff_right hvalid).symm
  · next hvalid =>
    cases hj
    exact (MarksUsed.refl s).congr fun c => (iff_false_intro fun hand => hvalid hand.1).symm

/-- The loop of `mount`, after `k` rounds on an empty table. -/
theorem of_mountBlocks {k : Nat} (hempty : s.fs.inodeBlocks = []) :
    ∀ {s' : State}, (List.range k).foldlM mountBlock s = .ok s' →
      (∀ i < k, ((i + 1 : Nat) : Int) < asInt s.disk.blocks)
        ∧ s' = { s with fs := { s.fs with
            inodeBlocks := imageTable s.disk k, freeBlock := s'.fs.freeBlock } }
        ∧ ∀ c, s'.isFree c = true
          ↔ s.isFree c = true ∧ ¬ (s.IsDataBlock c ∧ ImageOwned s.disk k c) := by
  induction k with
  | zero =>
    intro s' h
    cases h
    refine ⟨fun i hi => by omega, ?_, fun c => ?_⟩
    · rw [imageTable, List.range_zero, List.map_nil, ← hempty]
    · have hnone : ¬ ImageOwned s.disk 0 c := fun ⟨i, hi, _⟩ => by omega
      simp [hnone]
  | succ k ih =>
    intro s' h
    rw [List.range_succ, List.foldlM_append] at h
    obtain ⟨s₁, hfirst, h⟩ := of_bind_eq_ok h
    obtain ⟨hread, hs₁, hfree⟩ := ih hfirst
    rw [List.foldlM_cons] at h
    obtain ⟨s₂, hlast, h⟩ := of_bind_eq_ok h
    cases h
    -- the last round, on the table of those before
    obtain ⟨hlt, s₃, hs₃, hmarks⟩ := of_mountBlock hlast
    have hdisk : s₁.disk = s.disk := by rw [hs₁]
    rw [hdisk] at hlt hmarks
    have hfree₃ : ∀ c, s₃.isFree c = s₁.isFree c := fun c => by rw [hs₃]; rfl
    have hdata₃ : ∀ c, s₃.IsDataBlock c ↔ s.IsDataBlock c := fun c => by rw [hs₃, hs₁]; rfl
    refine ⟨fun i hi => ?_, ?_, fun c => ?_⟩
    · rcases Nat.lt_succ_iff_lt_or_eq.mp hi with hi | rfl
      · exact hread i hi
      · exact hlt
    · rw [hmarks.same, hs₃, hs₁]
      simp [imageTable, List.range_succ]
    · -- the last block read in adds the blocks its inodes own
      have howned : ImageOwned s.disk (k + 1) c ↔ ImageOwned s.disk k c
          ∨ ∃ j, (decodeInodes (s.disk.blockAt (k + 1)) j).valid > 0
            ∧ ∃ k', ((decodeInodes (s.disk.blockAt (k + 1)) j).direct k').toNat = c := by
        refine ⟨fun ⟨i, hi, hj⟩ => ?_, fun h => h.elim (fun ⟨i, hi, hj⟩ => ⟨i, by omega, hj⟩)
          fun hj => ⟨k, by omega, hj⟩⟩
        rcases Nat.lt_succ_iff_lt_or_eq.mp hi with hi | rfl
        · exact Or.inl ⟨i, hi, hj⟩
        · exact Or.inr hj
      rw [hmarks.free, hfree₃, hdata₃, hfree, howned, and_assoc, ← not_or, ← and_or_left]

/-- What a completed `mount` has done. -/
structure IsMount (s s' : State) : Prop where
  mounted : s'.Mounted
  disk : s'.disk = s.disk.mount
  superBlock : s'.fs.superBlock = decodeSuper (s.disk.blockAt 0)
  table : s'.fs.inodeBlocks = imageTable s.disk s'.shape.tableBlocks
  clean : ∀ i, s'.isDirty i = false
  free : ∀ c, s'.isFree c = true
    ↔ s.isFree c = true ∧ ¬ (s'.IsDataBlock c ∧ ImageOwned s.disk s'.shape.tableBlocks c)

/-- **`mount`.** -/
theorem of_mount {r : Bool} (h : s.mount = .ok (r, s')) : r = true ∧ IsMount s s' := by
  unfold State.mount at h
  obtain ⟨⟨total, data⟩, hread, h⟩ := of_bind_eq_ok h
  have hzero : ((0 : Nat) : Int) < asInt s.disk.blocks := Disk.lt_of_read_ok hread
  have hdata : s.disk.read 0 = .ok (blockSize, s.disk.blockAt 0) := Disk.read_ok hzero
  rw [hdata] at hread
  cases hread
  dsimp only at h
  split at h
  · cases h
  · next halloc =>
    obtain ⟨s₁, hloop, h⟩ := of_bind_eq_ok h
    cases h
    generalize hn : (decodeSuper (s.disk.blockAt 0)).inodeBlocks.toNat = tableBlocks at *
    obtain ⟨hread, hs', hfree⟩ := of_mountBlocks rfl hloop
    have htable : s'.shape.tableBlocks = tableBlocks := by
      rw [hs']
      simp [shape, imageTable]
    have hdisk : s'.disk = s.disk.mount := by rw [hs']
    refine ⟨rfl, ⟨?_, ?_, ?_, ?_, ?_, ?_, ?_⟩, hdisk, ?_, ?_, fun i => ?_, fun c => ?_⟩
    · rw [hs']
      exact Nat.succ_pos _
    · rw [hs']
      rfl
    · rw [htable, hs']
      rfl
    · rw [htable, hs']
      exact hn
    · rw [htable, hs']
      exact List.length_replicate
    · rw [htable]
      have hblocks : s'.shape.blocks = s.disk.blocks := by rw [hs']; rfl
      rw [hblocks]
      cases tableBlocks with
      | zero => exact hzero
      | succ k => exact hread k (Nat.lt_succ_self k)
    · rw [htable]
      unfold blockSize at halloc
      unfold Disk.distinctBlocks
      omega
    · rw [hs']
    · rw [htable, hs']
      rfl
    · rw [hs', isDirty, List.getElem?_replicate]
      split <;> rfl
    · rw [htable, hfree]
      have hdata' : s'.IsDataBlock c ↔ tableBlocks + 1 ≤ c ∧ c < s.disk.blocks.toNat := by
        rw [hs']
        rfl
      rw [hdata']
      rfl

variable {n : Nat}

/-- A mount keeps the number of blocks. -/
theorem IsMount.blocks (h : IsMount s s') : s'.shape.blocks = s.disk.blocks := by
  show s'.disk.blocks = s.disk.blocks
  rw [h.disk]
  rfl

/-- The table is as long as the superblock on the disk says. -/
theorem IsMount.tableBlocks (h : IsMount s s') :
    s'.shape.tableBlocks = (decodeSuper (s.disk.blockAt 0)).inodeBlocks.toNat := by
  rw [← h.superBlock]
  exact h.mounted.inodeBlocks.symm

/-- The data blocks after a mount. -/
theorem IsMount.isDataBlock_iff (h : IsMount s s') (b : Nat) :
    s'.IsDataBlock b
      ↔ (decodeSuper (s.disk.blockAt 0)).inodeBlocks.toNat + 1 ≤ b ∧ b < s.disk.size.toNat := by
  show _ ≤ b ∧ b < s'.shape.blocks.toNat ↔ _
  rw [h.blocks, h.mounted.firstDataBlock, h.tableBlocks]
  rfl

/-- The table after a mount, inode by inode. -/
theorem IsMount.inodeAt (h : IsMount s s') (hn : n < s'.shape.tableBlocks * inodesPerBlock) :
    s'.inodeAt n = some (imageInode s.disk n) := by
  have hlt : n / inodesPerBlock < s'.shape.tableBlocks := (Nat.div_lt_iff_lt_mul (by decide)).mpr hn
  rw [State.inodeAt, h.table, imageTable, List.getElem?_map, List.getElem?_range hlt]
  rfl

/-- The owners on the disk are the owners in the table. -/
theorem IsMount.imageOwned_iff (h : IsMount s s') (c : Nat) :
    ImageOwned s.disk s'.shape.tableBlocks c
      ↔ ∃ n inode k, s'.inodeAt n = some inode ∧ inode.valid ≠ 0 ∧ (inode.direct k).toNat = c := by
  have hpos : ∀ w : UInt32, w > 0 ↔ w ≠ 0 := fun w => by
    rw [gt_iff_lt, UInt32.lt_iff_toNat_lt, Ne, ← UInt32.toNat_inj]
    exact Nat.pos_iff_ne_zero
  refine ⟨fun ⟨i, hi, j, hvalid, k, hk⟩ => ?_, fun ⟨n, inode, k, hat, hvalid, hk⟩ => ?_⟩
  · have hblock : s'.fs.inodeBlocks[i]? = some (decodeInodes (s.disk.blockAt (i + 1))) := by
      rw [h.table, imageTable, List.getElem?_map, List.getElem?_range hi]
      rfl
    exact ⟨_, _, k, inodeAt_slot hblock j, (hpos _).mp hvalid, hk⟩
  · have hn := lt_of_inodeAt hat
    rw [h.inodeAt hn] at hat
    cases hat
    exact ⟨n / inodesPerBlock, (Nat.div_lt_iff_lt_mul (by decide)).mpr hn,
      ⟨n % inodesPerBlock, Nat.mod_lt _ inodesPerBlock_pos⟩, (hpos _).mpr hvalid, k, hk⟩

/-! ## Exiting

The destructor goes through the table and writes the blocks that are flagged. Where a block goes is
told by its place in the table, so no two go to one place. -/

/-- The loop of `~FileSystem` from inode block `a` on. -/
theorem foldlM_saveBlock (entries : List (InodeBlock × Bool)) :
    ∀ (a : Nat) (disk : Disk), ((a + entries.length : Nat) : Int) < asInt disk.blocks →
      a + entries.length < Disk.distinctBlocks →
      ∃ disk', (entries.zipIdx a).foldlM saveBlock disk = .ok disk'
        ∧ disk'.blocks = disk.blocks ∧ disk'.mounts = disk.mounts
        ∧ (∀ b < Disk.distinctBlocks, b ≤ a ∨ a + entries.length < b →
            disk'.blockAt b = disk.blockAt b)
        ∧ ∀ i entry, entries[i]? = some entry → disk'.blockAt (a + i + 1)
          = if entry.2 then encodeInodes entry.1 else disk.blockAt (a + i + 1) := by
  induction entries with
  | nil => exact fun _ _ _ _ => ⟨_, rfl, rfl, rfl, fun _ _ _ => rfl, by simp⟩
  | cons entry rest ih =>
    intro a disk hfits hdistinct
    obtain ⟨inodes, dirty⟩ := entry
    rw [List.length_cons] at hfits hdistinct
    -- this round writes block `a + 1` or nothing, and the later rounds leave that block alone
    obtain ⟨disk₁, hsave, hblocks₁, hmounts₁, hat₁⟩ : ∃ disk₁,
        saveBlock disk ((inodes, dirty), a) = .ok disk₁
        ∧ disk₁.blocks = disk.blocks ∧ disk₁.mounts = disk.mounts
        ∧ ∀ b < Disk.distinctBlocks, disk₁.blockAt b
          = if b = a + 1 ∧ dirty = true then encodeInodes inodes else disk.blockAt b := by
      cases dirty with
      | true =>
        refine ⟨disk.setBlock (a + 1) (encodeInodes inodes), ?_, rfl, rfl, fun b hb => ?_⟩
        · show (disk.write ((a + 1 : Nat) : Int) (encodeInodes inodes) >>= _) = _
          rw [Disk.write_ok (by omega)]
          rfl
        · by_cases hba : b = a + 1
          · rw [hba, Disk.blockAt_setBlock_self, if_pos ⟨rfl, rfl⟩]
          · rw [Disk.blockAt_setBlock_of_ne hba (by omega) hb, if_neg fun hand => hba hand.1]
      | false => exact ⟨disk, rfl, rfl, rfl, fun b _ => by simp⟩
    obtain ⟨disk', hrest, hblocks', hmounts', hothers, hentries⟩ :=
      ih (a + 1) disk₁ (by rw [hblocks₁]; omega) (by omega)
    refine ⟨disk', ?_, hblocks'.trans hblocks₁, hmounts'.trans hmounts₁, fun b hb hout => ?_,
      fun i entry hentry => ?_⟩
    · rw [List.zipIdx_cons, List.foldlM_cons, hsave, ok_bind, hrest]
    · rw [List.length_cons] at hout
      rw [hothers b hb (by omega), hat₁ b hb, if_neg (by omega)]
    · cases i with
      | zero =>
        rw [List.getElem?_cons_zero] at hentry
        cases hentry
        rw [Nat.add_zero, hothers (a + 1) (by omega) (Or.inl (Nat.le_refl _)), hat₁ (a + 1) (by omega)]
        simp
      | succ i =>
        rw [List.getElem?_cons_succ] at hentry
        have hi : i < rest.length := (List.getElem?_eq_some_iff.mp hentry).1
        have hrec := hentries i entry hentry
        have hindex : a + 1 + i + 1 = a + (i + 1) + 1 := by omega
        rw [hindex] at hrec
        have hne : ¬ (a + (i + 1) + 1 = a + 1 ∧ dirty = true) := by
          rintro ⟨heq, -⟩
          omega
        rw [hrec, hat₁ (a + (i + 1) + 1) (by omega), if_neg hne]

/-- **`~FileSystem`** returns, having written the dirty inode blocks. -/
theorem destroy_spec (hm : s.Mounted) :
    ∃ disk', s.destroy = .ok disk' ∧ disk'.blocks = s.disk.blocks ∧ disk'.mounts = s.disk.mounts
      ∧ disk'.blockAt 0 = s.disk.blockAt 0
      ∧ ∀ i block, s.fs.inodeBlocks[i]? = some block → disk'.blockAt (i + 1)
        = if s.isDirty i then encodeInodes block else s.disk.blockAt (i + 1) := by
  have hdirty : s.fs.inodeBlocksDirty.length = s.fs.inodeBlocks.length := hm.dirtyBlocks
  have hlength : (s.fs.inodeBlocks.zip s.fs.inodeBlocksDirty).length = s.shape.tableBlocks := by
    rw [List.length_zip, hdirty, Nat.min_self]
    rfl
  obtain ⟨disk', hsave, hblocks, hmounts, hothers, hentries⟩ :=
    foldlM_saveBlock (s.fs.inodeBlocks.zip s.fs.inodeBlocksDirty) 0 s.disk
      (by rw [hlength, Nat.zero_add]; exact hm.fits)
      (by rw [hlength, Nat.zero_add]; exact hm.distinct)
  refine ⟨disk', hsave, hblocks, hmounts, hothers 0 (by decide) (Or.inl (Nat.le_refl _)),
    fun i block hblock => ?_⟩
  obtain ⟨hi, -⟩ := List.getElem?_eq_some_iff.mp hblock
  have hflag : s.fs.inodeBlocksDirty[i]? = some (s.isDirty i) := by
    have hi' : i < s.fs.inodeBlocksDirty.length := by omega
    rw [isDirty, List.getElem?_eq_getElem hi']
    rfl
  -- the block and its flag stand at one place
  have hentry : (s.fs.inodeBlocks.zip s.fs.inodeBlocksDirty)[i]? = some (block, s.isDirty i) :=
    List.getElem?_zip_eq_some.mpr ⟨hblock, hflag⟩
  have hrec := hentries i _ hentry
  rw [Nat.zero_add] at hrec
  exact hrec

end OsLab.Sfs.State
