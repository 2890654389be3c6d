import OsLab.Sfs.Mount

/-!
# OsLab.Sfs.Progress — what returns

A member function that follows a pointer returns if that is a block of the disk and the bitmap
has an entry for it (`read_block`); on a disk of at most 4096 blocks every data block has one
(`remove_ok`, `mount_ok`). A `write` needs a free data block (`write_ok`).
-/

namespace OsLab.Sfs.State

open Fallible

/-- The bitmap covers the disk. -/
structure Shape.Covered (shape : Shape) : Prop where
  diskSet : shape.diskSet = true
  small : shape.blocks.toNat ≤ 4096

variable {s : State} {n : Nat} {inode : Inode} {free : Bool} {p : UInt32}

/-! ## The bitmap

The only thing that can go wrong with the bitmap is a data block without an entry. -/

/-- The index of a data block that has an entry, and of anything that is no data block. -/
theorem bitmapIndex_ok (hdisk : s.fs.diskSet = true) (h : s.IsDataBlock p.toNat → p.toNat < 4096) :
    ∃ r, s.bitmapIndex p = .ok r := by
  unfold bitmapIndex
  by_cases hfirst : p.toNat ≥ s.fs.firstDataBlock
  · by_cases hsize : p < s.disk.size
    · have hlt := h ⟨hfirst, UInt32.lt_iff_toNat_lt.mp hsize⟩
      rw [if_pos hfirst, if_pos hdisk, if_pos hsize, dif_pos hlt]
      exact ⟨_, rfl⟩
    · rw [if_pos hfirst, if_pos hdisk, if_neg hsize]
      exact ⟨_, rfl⟩
  · rw [if_neg hfirst]
    exact ⟨_, rfl⟩

/-- A data block past the bitmap's last entry. -/
theorem bitmapIndex_over (hdisk : s.fs.diskSet = true) (hdata : s.IsDataBlock p.toNat)
    (hge : 4096 ≤ p.toNat) : s.bitmapIndex p = .error .outOfBounds := by
  have hfirst : p.toNat ≥ s.fs.firstDataBlock := hdata.1
  have hsize : p < s.disk.size := UInt32.lt_iff_toNat_lt.mpr hdata.2
  unfold bitmapIndex
  rw [if_pos hfirst, if_pos hdisk, if_pos hsize, dif_neg (Nat.not_lt.mpr hge)]

theorem setBlockFreeStatus_ok (hdisk : s.fs.diskSet = true)
    (h : s.IsDataBlock p.toNat → p.toNat < 4096) :
    s.setBlockFreeStatus p free = .ok (s.mark p.toNat free) := by
  obtain ⟨r, hr⟩ := bitmapIndex_ok hdisk h
  have hok : ∃ s', s.setBlockFreeStatus p free = .ok s' := by
    unfold setBlockFreeStatus
    rw [hr]
    cases r <;> exact ⟨_, rfl⟩
  obtain ⟨s', hs'⟩ := hok
  rw [hs', (setBlockFreeStatus_eq hs').1]

/-- On a disk that is covered, always. -/
theorem Shape.Covered.setBlockFreeStatus (h : s.shape.Covered) :
    s.setBlockFreeStatus p free = .ok (s.mark p.toNat free) :=
  setBlockFreeStatus_ok h.diskSet fun hdata => Nat.lt_of_lt_of_le hdata.2 h.small

theorem getBlockFreeStatus_ok (hdisk : s.fs.diskSet = true)
    (h : s.IsDataBlock p.toNat → p.toNat < 4096) :
    s.getBlockFreeStatus p = .ok (decide (s.IsDataBlock p.toNat ∧ s.isFree p.toNat = true)) := by
  obtain ⟨r, hr⟩ := bitmapIndex_ok hdisk h
  have hok : ∃ status, s.getBlockFreeStatus p = .ok status := by
    unfold getBlockFreeStatus
    rw [hr]
    cases r <;> exact ⟨_, rfl⟩
  obtain ⟨status, hstatus⟩ := hok
  have hiff := (of_getBlockFreeStatus hstatus).2
  rw [hstatus, ← Bool.decide_coe status, decide_eq_decide.mpr hiff]

theorem lt_of_isFree {b : Nat} (h : s.isFree b = true) : b < 4096 := by
  by_contra hge
  rw [isFree, dif_neg hge] at h
  cases h

/-- The scan returns if every block it can come to has an entry in the bitmap. It comes to a block
past others that are not free. -/
theorem nextFreeLoop_returns (hdisk : s.fs.diskSet = true) (rounds : Nat) :
    ∀ {b : Nat}, (∀ c, b ≤ c → c < b + rounds →
        (∀ c', b ≤ c' → c' < c → ¬ (s.IsDataBlock c' ∧ s.isFree c' = true)) →
        c < 4294967296 ∧ (s.IsDataBlock c → c < 4096)) →
      ∃ r, s.nextFreeLoop rounds b = .ok r := by
  induction rounds with
  | zero => exact fun {b} _ => ⟨b, rfl⟩
  | succ rounds ih =>
    intro b hentries
    obtain ⟨hlt, hentry⟩ := hentries b (Nat.le_refl _) (by omega) fun c' _ _ => by omega
    have hnumber : (UInt32.ofNat b).toNat = b := UInt32.toNat_ofNat_of_lt' hlt
    rw [nextFreeLoop, getBlockFreeStatus_ok hdisk (by rw [hnumber]; exact hentry), hnumber, ok_bind]
    by_cases hstop : s.IsDataBlock b ∧ s.isFree b = true
    · rw [decide_eq_true hstop]
      exact ⟨b, rfl⟩
    · rw [decide_eq_false hstop]
      -- `b` is not free, and the scan goes on
      refine ih fun c hc hlast hpassed => hentries c (by omega) (by omega) fun c' hc' hlt' => ?_
      by_cases hfirst : c' = b
      · rw [hfirst]
        exact hstop
      · exact hpassed c' (by omega) hlt'

/-- The scan ends at a free data block. -/
theorem getNextFreeBlock_ok (hdisk : s.fs.diskSet = true)
    (hfree : ∃ c, s.IsDataBlock c ∧ s.isFree c = true) : ∃ p, s.getNextFreeBlock = .ok p := by
  obtain ⟨c, hdata, hc⟩ := hfree
  have hsmall := lt_of_isFree hc
  -- the scan does not come past a free block
  have hscan : ∃ r, s.nextFreeLoop (asInt s.disk.size - s.fs.firstDataBlock).toNat s.fs.firstDataBlock
      = .ok r := nextFreeLoop_returns hdisk _ fun b _ _ hpassed => by
    have hle : b ≤ c := Nat.le_of_not_lt fun hlt => hpassed c hdata.1 hlt ⟨hdata, hc⟩
    omega
  obtain ⟨r, hr⟩ := hscan
  unfold getNextFreeBlock
  rw [if_pos hdisk]
  dsimp only
  rw [hr]
  exact ⟨_, rfl⟩

/-! ## Member functions

What each needs in order to return: an inode of the table, and entries for the blocks it marks. A
pointer that cannot be followed throws in `Disk`. -/

theorem create_ok (hm : s.Mounted) : ∃ r, s.create = .ok r := by
  rcases of_create hm with ⟨n, inode, heq, -⟩ | ⟨heq, -⟩
  · exact ⟨_, heq⟩
  · exact ⟨_, heq⟩

/-- A pointer that `read` can follow: to a block of the disk, with an entry in the bitmap if it
is a data block. -/
structure CanFollow (s : State) (p : UInt32) : Prop where
  onDisk : (p.toNat : Int) < asInt s.shape.blocks
  small : s.IsDataBlock p.toNat → p.toNat < 4096

theorem CanFollow.of_shape {s' : State} (h : s.CanFollow p) (hshape : s'.shape = s.shape) :
    s'.CanFollow p where
  onDisk := by
    rw [hshape]
    exact h.onDisk
  small := fun hdata => h.small ((isDataBlock_congr hshape _).mp hdata)

/-- A data block can be followed, if the bitmap reaches it. -/
theorem CanFollow.of_isDataBlock (hm : s.Mounted) (hdata : s.IsDataBlock p.toNat)
    (hlt : p.toNat < 4096) : s.CanFollow p := by
  have hsize := hm.size_eq
  have hend := hdata.2
  exact ⟨by omega, fun _ => hlt⟩

/-- The number of a data block is positive as an `int`. -/
theorem Mounted.asInt_pos (hm : s.Mounted) (hdata : s.IsDataBlock p.toNat) : 0 < asInt p := by
  have hfirst := hm.firstDataBlock
  have hsize := hm.size_eq
  have hlow := hdata.1
  have hhigh := hdata.2
  have hlt := s.shape.blocks.toNat_lt
  have hsmall : s.shape.blocks.toNat < 2147483648 := by
    by_contra hlarge
    rw [asInt, if_neg hlarge] at hsize
    omega
  rw [asInt, if_pos (by omega)]
  omega

/-- Behind the five pointers there is none to follow. -/
theorem directAt_of_pos {index : Nat} (h : 0 < asInt (directAt inode index)) :
    index < pointersPerInode := by
  by_contra hindex
  rw [directAt, dif_neg hindex] at h
  exact absurd h (by decide)

/-- A read behind a positive pointer delivers a block, and marks it used. -/
theorem read_block (hdisk : s.fs.diskSet = true) (hat : s.inodeAt n = some inode) {offset : Nat}
    (hpos : 0 < asInt (directAt inode (offset / blockSize)))
    (hfollow : s.CanFollow (directAt inode (offset / blockSize))) (data : Block) (length : Nat) :
    s.read n data length offset
      = .ok (blockSize, s.disk.blockAt (directAt inode (offset / blockSize)).toNat,
          s.mark (directAt inode (offset / blockSize)).toNat false) := by
  unfold State.read
  rw [getINode_ok hat, ok_bind]
  dsimp only
  rw [if_pos ⟨hpos, directAt_of_pos hpos⟩, asInt_of_pos hpos, Disk.read_ok hfollow.onDisk, ok_bind]
  dsimp only
  rw [setBlockFreeStatus_ok hdisk hfollow.small, ok_bind]

/-- A read behind another pointer delivers nothing. -/
theorem read_nothing (hat : s.inodeAt n = some inode) {offset : Nat}
    (hend : asInt (directAt inode (offset / blockSize)) ≤ 0) (data : Block) (length : Nat) :
    s.read n data length offset = .ok (0, data, s) := by
  unfold State.read
  rw [getINode_ok hat, ok_bind]
  dsimp only
  rw [if_neg fun hand => by omega]

/-- A read that has returned could follow its pointer. -/
theorem canFollow_of_read (hat : s.inodeAt n = some inode) {offset length : Nat} {data : Block}
    (hpos : 0 < asInt (directAt inode (offset / blockSize))) {r : Nat × Block × State}
    (h : s.read n data length offset = .ok r) : s.CanFollow (directAt inode (offset / blockSize)) := by
  unfold State.read at h
  rw [getINode_ok hat, ok_bind] at h
  dsimp only at h
  rw [if_pos ⟨hpos, directAt_of_pos hpos⟩, asInt_of_pos hpos] at h
  obtain ⟨_, hread, h⟩ := of_bind_eq_ok h
  obtain ⟨_, hmark, -⟩ := of_bind_eq_ok h
  exact ⟨Disk.lt_of_read_ok hread, (setBlockFreeStatus_eq hmark).2⟩

/-- A read of an inode of the table, whose pointer there is a data block or `0`. -/
theorem read_ok (hm : s.Mounted) (hat : s.inodeAt n = some inode) {offset : Nat}
    (hpointer : s.IsDataBlock (directAt inode (offset / blockSize)).toNat
        ∧ (directAt inode (offset / blockSize)).toNat < 4096
      ∨ directAt inode (offset / blockSize) = 0)
    (data : Block) (length : Nat) :
    ∃ r, s.read n data length offset = .ok r := by
  by_cases hpos : 0 < asInt (directAt inode (offset / blockSize))
  · rcases hpointer with ⟨hdata, hlt⟩ | hzero
    · exact ⟨_, read_block hm.diskSet hat hpos (.of_isDataBlock hm hdata hlt) data length⟩
    · rw [hzero] at hpos
      exact absurd hpos (by decide)
  · exact ⟨_, read_nothing hat (Int.not_lt.mp hpos) data length⟩

/-- A write of a block, while there is a free one. -/
theorem write_ok (hm : s.Mounted) (hat : s.inodeAt n = some inode) {offset : Nat}
    (hindex : offset / blockSize < pointersPerInode)
    (hfree : ∃ c, s.IsDataBlock c ∧ s.isFree c = true) (data : Block) (length : Nat) :
    ∃ s', s.write n data length offset = .ok (blockSize, s') := by
  obtain ⟨p, hp⟩ := getNextFreeBlock_ok hm.diskSet hfree
  obtain ⟨hpos, hlt, hfirst, -⟩ := of_getNextFreeBlock hm hp
  obtain ⟨c, hdata, hc⟩ := hfree
  have hint : asInt p = p.toNat := by rw [asInt, if_pos hlt]
  -- the block found is not behind the free one
  have hle : p.toNat ≤ c := Nat.le_of_not_lt fun hcp => hfirst c hcp ⟨hdata, hc⟩
  have hin : (p.toNat : Int) < asInt s.disk.blocks := by
    have hsize : asInt s.disk.blocks = s.shape.blocks.toNat := hm.size_eq
    have hcb := hdata.2
    omega
  have hsmall : p.toNat < 4096 := Nat.lt_of_le_of_lt hle (lt_of_isFree hc)
  have hmark : ∀ s' : State, s'.shape = s.shape →
      s'.setBlockFreeStatus p false = .ok (s'.mark p.toNat false) := by
    intro s' hshape
    exact setBlockFreeStatus_ok (hm.of_shape hshape).diskSet fun _ => hsmall
  unfold State.write
  rw [hp, ok_bind]
  dsimp only
  rw [if_pos ⟨by omega, hindex⟩, getINode_ok hat, ok_bind, hint, setINode_disk, Disk.write_ok hin,
    ok_bind]
  show ∃ s', (((s.setINode n (setPointer inode (offset / blockSize) p)).setBlock p.toNat
    data).setBlockFreeStatus p false >>= _) = _
  rw [hmark _ (setBlock_shape.trans setINode_shape)]
  exact ⟨_, rfl⟩

/-- A `remove` on a disk that is covered. -/
theorem remove_ok (h : s.shape.Covered) (hat : s.inodeAt n = some inode) :
    ∃ s', s.remove n = .ok (true, s') := by
  have hround : ∀ {s' k}, k ∈ List.finRange 5 → s'.shape = s.shape →
      ∃ s'', removePointer n s' k = .ok s'' ∧ s''.shape = s.shape := by
    intro s' k _ hshape
    obtain ⟨inode', hat'⟩ := inodeAt_eq_some_of_lt (s := s') (hshape ▸ lt_of_inodeAt hat)
    refine ⟨(s'.mark (inode'.direct k).toNat true).setINode n (clearPointer inode' k), ?_,
      setINode_shape.trans hshape⟩
    unfold removePointer
    rw [getINode_ok hat', ok_bind, Shape.Covered.setBlockFreeStatus (hshape ▸ h)]
    rfl
  obtain ⟨s', hs', -⟩ := foldlM_returns (removePointer n) hround rfl
  refine ⟨s', ?_⟩
  rw [remove, hs']
  rfl

/-! ## Mounting

A mount on a disk that is covered comes to its end if the table is on the disk. -/

theorem markInode_ok (h : s.shape.Covered) :
    ∃ s', s.markInode inode = .ok s' ∧ s'.shape.Covered ∧ s'.disk = s.disk :=
  foldlM_returns (P := fun s' : State => s'.shape.Covered ∧ s'.disk = s.disk) _
    (fun _ hs' => ⟨_, hs'.1.setBlockFreeStatus, hs'⟩) ⟨h, rfl⟩

theorem mountBlock_ok (h : s.shape.Covered) {i : Nat}
    (hi : ((i + 1 : Nat) : Int) < asInt s.disk.blocks) :
    ∃ s', s.mountBlock i = .ok s' ∧ s'.shape.Covered ∧ s'.disk = s.disk := by
  unfold mountBlock
  rw [Disk.read_ok hi, ok_bind]
  refine foldlM_returns (P := fun s' : State => s'.shape.Covered ∧ s'.disk = s.disk) _
    (fun {s' j} _ hs' => ?_) ⟨⟨h.diskSet, h.small⟩, rfl⟩
  split
  · obtain ⟨s'', hmark, hcovered, hdisk⟩ := markInode_ok hs'.1
    exact ⟨s'', hmark, hcovered, hdisk.trans hs'.2⟩
  · exact ⟨s', rfl, hs'⟩

/-- `mount` returns if its table can be allocated and every round of its loop returns, `P`
being what the rounds keep. -/
theorem mount_of_rounds {P : State → Prop} (hzero : 0 < asInt s.disk.blocks)
    (hdistinct : (decodeSuper (s.disk.blockAt 0)).inodeBlocks.toNat < Disk.distinctBlocks)
    (hstart : ∀ fs : FileSystem, fs.diskSet = true → P { disk := s.disk.mount, fs })
    (hround : ∀ {s' : State} {i}, i < (decodeSuper (s.disk.blockAt 0)).inodeBlocks.toNat → P s' →
      ∃ s'', s'.mountBlock i = .ok s'' ∧ P s'') :
    ∃ s', s.mount = .ok (true, s') ∧ IsMount s s' := by
  have hreturns : ∃ s', s.mount = .ok (true, s') := by
    have hread : s.disk.read 0 = .ok (blockSize, s.disk.blockAt 0) := Disk.read_ok (b := 0) hzero
    unfold State.mount
    rw [hread, ok_bind]
    dsimp only
    rw [if_neg (by unfold blockSize Disk.distinctBlocks at *; omega)]
    generalize hfs : FileSystem.mk true _ _ [] _ _ = fs
    obtain ⟨s', hs', -⟩ := foldlM_returns mountBlock
      (fun hmem hs' => hround (List.mem_range.mp hmem) hs') (hstart fs (by rw [← hfs]))
    rw [hs']
    exact ⟨s', rfl⟩
  obtain ⟨s', hs'⟩ := hreturns
  exact ⟨s', hs', (of_mount hs').2⟩

/-- **`mount`** accepts an image whose inode blocks fit on the disk. -/
theorem mount_ok (hfits : (decodeSuper (s.disk.blockAt 0)).inodeBlocks.toNat + 1 ≤ s.disk.size.toNat)
    (hsmall : s.disk.size.toNat ≤ 4096) : ∃ s', s.mount = .ok (true, s') ∧ IsMount s s' := by
  have hsize : asInt s.disk.blocks = s.disk.size.toNat := by
    rw [asInt, if_pos]
    · rfl
    · show s.disk.size.toNat < 2147483648
      omega
  refine mount_of_rounds (P := fun s' => s'.shape.Covered ∧ s'.disk = s.disk.mount)
    (by rw [hsize]; omega) (by unfold Disk.distinctBlocks; omega)
    (fun fs hset => ⟨⟨hset, hsmall⟩, rfl⟩) fun {s' i} hi hs' => ?_
  have hread : ((i + 1 : Nat) : Int) < asInt s'.disk.blocks := by
    rw [hs'.2]
    show _ < asInt s.disk.blocks
    rw [hsize]
    omega
  obtain ⟨s'', hblock, hcovered, hdisk⟩ := mountBlock_ok hs'.1 hread
  exact ⟨s'', hblock, hcovered, hdisk.trans hs'.2⟩

end OsLab.Sfs.State
