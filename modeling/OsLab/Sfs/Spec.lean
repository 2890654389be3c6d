import OsLab.Sfs.Shell
import Mathlib.Data.List.FinRange

/-!
# OsLab.Sfs.Spec — what each member function does

Every member function, once it has returned, has made a few elementary changes to the state.
Each gets one lemma that says which, and later modules use only these.

* **elementary changes**: `setINode`, `setDirty`, `mark`, `setBlock`, seen through `inodeAt`,
  `isDirty`, `isFree` and `Disk.blockAt`; none of them touches the `shape`.
* **`Mounted`**: the shape of a state after a completed `mount`.
* **`setBlockFreeStatus_eq`**, **`of_getNextFreeBlock`**, **`of_getNextFreeINode`**,
  **`of_create`**, **`of_remove`**, **`of_read`**, **`of_write`**, **`of_updateSize`**: the
  member functions.
-/

namespace OsLab.Sfs.State

open Fallible

/-! ## Observations

A state has many parts, and a statement about a file needs few of them. These are the ways in which
a state is looked at from here on. -/

/-- The inode of a number, `none` outside the table. -/
def inodeAt (s : State) (n : Nat) : Option Inode :=
  s.fs.inodeBlocks[n / inodesPerBlock]?.map fun block =>
    block ⟨n % inodesPerBlock, Nat.mod_lt _ inodesPerBlock_pos⟩

/-- A pointer of an inode. -/
abbrev Slot := Nat × Fin 5

/-- A slot of a valid inode holds the block. -/
def Holds (s : State) (slot : Slot) (b : Nat) : Prop :=
  ∃ inode, s.inodeAt slot.1 = some inode ∧ inode.valid ≠ 0 ∧ (inode.direct slot.2).toNat = b

def isDirty (s : State) (i : Nat) : Bool := s.fs.inodeBlocksDirty[i]?.getD false

def isFree (s : State) (b : Nat) : Bool := if h : b < 4096 then s.fs.freeBlock ⟨b, h⟩ else false

/-- What no member function but `mount` changes. -/
structure Shape where
  blocks : UInt32
  mounts : Nat
  diskSet : Bool
  firstDataBlock : Nat
  superBlock : SuperBlock
  tableBlocks : Nat
  dirtyBlocks : Nat

def shape (s : State) : Shape :=
  { blocks := s.disk.blocks
    mounts := s.disk.mounts
    diskSet := s.fs.diskSet
    firstDataBlock := s.fs.firstDataBlock
    superBlock := s.fs.superBlock
    tableBlocks := s.fs.inodeBlocks.length
    dirtyBlocks := s.fs.inodeBlocksDirty.length }

/-- A block that may hold file data. -/
def Shape.IsDataBlock (shape : Shape) (b : Nat) : Prop :=
  shape.firstDataBlock ≤ b ∧ b < shape.blocks.toNat

instance (shape : Shape) (b : Nat) : Decidable (shape.IsDataBlock b) :=
  inferInstanceAs (Decidable (_ ∧ _))

/-- The shape of a state after a completed `mount`. -/
structure Shape.Mounted (shape : Shape) : Prop where
  mounts : 0 < shape.mounts
  diskSet : shape.diskSet = true
  firstDataBlock : shape.firstDataBlock = shape.tableBlocks + 1
  inodeBlocks : shape.superBlock.inodeBlocks.toNat = shape.tableBlocks
  dirtyBlocks : shape.dirtyBlocks = shape.tableBlocks
  fits : (shape.tableBlocks : Int) < asInt shape.blocks
  distinct : shape.tableBlocks < Disk.distinctBlocks

abbrev Mounted (s : State) : Prop := s.shape.Mounted

abbrev IsDataBlock (s : State) (b : Nat) : Prop := s.shape.IsDataBlock b

/-! ## Elementary changes

Every member function changes the state in these four ways only. What each of them leaves alone is
said here once, for every way to look at a state. -/

/-- The bitmap entry of a data block. -/
def mark (s : State) (b : Nat) (free : Bool) : State :=
  { s with fs := { s.fs with
      freeBlock := fun j => if (j : Nat) = b ∧ s.IsDataBlock b then free else s.fs.freeBlock j } }

def setBlock (s : State) (b : Nat) (data : Block) : State := { s with disk := s.disk.setBlock b data }

variable {s : State} {n m b i : Nat} {inode : Inode} {free : Bool} {data : Block}

@[simp] theorem setINode_shape : (s.setINode n inode).shape = s.shape := by
  simp [shape, setINode]
@[simp] theorem setDirty_shape : (s.setDirty i).shape = s.shape := by
  simp [shape, setDirty]
@[simp] theorem mark_shape : (s.mark b free).shape = s.shape := rfl
@[simp] theorem setBlock_shape : (s.setBlock b data).shape = s.shape := rfl

@[simp] theorem setINode_disk : (s.setINode n inode).disk = s.disk := rfl
@[simp] theorem setDirty_disk : (s.setDirty i).disk = s.disk := rfl
@[simp] theorem mark_disk : (s.mark b free).disk = s.disk := rfl
@[simp] theorem setBlock_disk : (s.setBlock b data).disk = s.disk.setBlock b data := rfl

@[simp] theorem setINode_isFree : (s.setINode n inode).isFree b = s.isFree b := rfl
@[simp] theorem setDirty_isFree : (s.setDirty i).isFree b = s.isFree b := rfl
@[simp] theorem setBlock_isFree {c : Nat} : (s.setBlock b data).isFree c = s.isFree c := rfl

@[simp] theorem setDirty_inodeAt : (s.setDirty i).inodeAt n = s.inodeAt n := rfl
@[simp] theorem mark_inodeAt : (s.mark b free).inodeAt n = s.inodeAt n := rfl
@[simp] theorem setBlock_inodeAt : (s.setBlock b data).inodeAt n = s.inodeAt n := rfl

@[simp] theorem setINode_isDirty : (s.setINode n inode).isDirty i = s.isDirty i := rfl
@[simp] theorem mark_isDirty : (s.mark b free).isDirty i = s.isDirty i := rfl
@[simp] theorem setBlock_isDirty : (s.setBlock b data).isDirty i = s.isDirty i := rfl

/-- A mark shows on its own block, if that is a data block the bitmap has an entry for. -/
theorem mark_isFree (hb : s.IsDataBlock b → b < 4096) (c : Nat) :
    (s.mark b free).isFree c = if c = b ∧ s.IsDataBlock b then free else s.isFree c := by
  unfold isFree
  split
  · rfl
  · next hc =>
    rw [if_neg]
    rintro ⟨rfl, hdata⟩
    exact hc (hb hdata)

/-- A flag that is set, and the others as they are. -/
theorem setDirty_isDirty (hi : i < s.shape.dirtyBlocks) (j : Nat) :
    (s.setDirty i).isDirty j = (decide (j = i) || s.isDirty j) := by
  have hlen : i < s.fs.inodeBlocksDirty.length := hi
  unfold isDirty
  show (s.fs.inodeBlocksDirty.set i true)[j]?.getD false = _
  rw [List.getElem?_set]
  by_cases hij : i = j
  · subst hij
    simp [hlen]
  · simp [hij, Ne.symm hij]

/-- Every number within the table has an inode, what has one is within the table, and behind the
table there is none. -/
theorem inodeAt_eq_some_of_lt (h : n < s.shape.tableBlocks * inodesPerBlock) :
    ∃ inode, s.inodeAt n = some inode := by
  have hlt : n / inodesPerBlock < s.fs.inodeBlocks.length := (Nat.div_lt_iff_lt_mul (by decide)).mpr h
  rw [inodeAt, List.getElem?_eq_getElem hlt]
  exact ⟨_, rfl⟩

theorem lt_of_inodeAt (h : s.inodeAt n = some inode) : n < s.shape.tableBlocks * inodesPerBlock := by
  unfold inodeAt at h
  obtain ⟨block, hblock, -⟩ := Option.map_eq_some_iff.mp h
  obtain ⟨hlt, -⟩ := List.getElem?_eq_some_iff.mp hblock
  exact (Nat.div_lt_iff_lt_mul (by decide)).mp hlt

theorem inodeAt_eq_none (h : ¬ n < s.shape.tableBlocks * inodesPerBlock) : s.inodeAt n = none := by
  cases hat : s.inodeAt n with
  | none => rfl
  | some inode => exact absurd (lt_of_inodeAt hat) h

/-- The inode put there, and the others as they are. -/
@[simp] theorem setINode_inodeAt_self (h : n < s.shape.tableBlocks * inodesPerBlock) :
    (s.setINode n inode).inodeAt n = some inode := by
  have hlt : n / inodesPerBlock < s.fs.inodeBlocks.length := (Nat.div_lt_iff_lt_mul (by decide)).mpr h
  rw [inodeAt, setINode]
  simp [List.getElem?_eq_getElem hlt]

theorem setINode_inodeAt_of_ne (hne : m ≠ n) : (s.setINode n inode).inodeAt m = s.inodeAt m := by
  rw [inodeAt, setINode, inodeAt, List.getElem?_modify]
  cases s.fs.inodeBlocks[m / inodesPerBlock]? with
  | none => rfl
  | some block =>
    refine congrArg some ?_
    dsimp only
    by_cases hblock : n / inodesPerBlock = m / inodesPerBlock
    · -- the same block, another slot
      have hslot : m % inodesPerBlock ≠ n % inodesPerBlock := by
        unfold inodesPerBlock at *
        omega
      rw [if_pos hblock]
      exact if_neg hslot
    · rw [if_neg hblock]

/-- A mounted disk is small enough to be counted with `int`. -/
theorem Shape.Mounted.size_eq {shape : Shape} (h : shape.Mounted) :
    asInt shape.blocks = shape.blocks.toNat :=
  asInt_of_pos (by have := h.fits; omega)

/-- Only the shape matters. -/
theorem Mounted.of_shape {s' : State} (h : s.Mounted) (hshape : s'.shape = s.shape) : s'.Mounted := by
  show s'.shape.Mounted
  rw [hshape]
  exact h

/-- Where the data blocks are is a matter of the shape. -/
theorem isDataBlock_congr {s' : State} (hshape : s'.shape = s.shape) (b : Nat) :
    s'.IsDataBlock b ↔ s.IsDataBlock b := by
  show s'.shape.IsDataBlock b ↔ _
  rw [hshape]

/-- The file system takes a mounted disk for one. -/
theorem Mounted.isDiskMounted (h : s.Mounted) : s.isDiskMounted = true := by
  have hdisk : s.fs.diskSet = true := h.diskSet
  have hmounts : 0 < s.disk.mounts := h.mounts
  simp [State.isDiskMounted, hdisk, Disk.mounted, hmounts]

/-! ## Inodes

`getINode` looks an inode up, and throws behind the table. -/

theorem getINode_eq : s.getINode n = (s.inodeAt n).elim (.error .outOfBounds) .ok := by
  rw [getINode, getINodeAt, inodeAt]
  cases s.fs.inodeBlocks[n / inodesPerBlock]? <;> rfl

/-- An inode returned is there, and one that is there is returned. -/
theorem of_getINode (h : s.getINode n = .ok inode) : s.inodeAt n = some inode := by
  rw [getINode_eq] at h
  cases hinode : s.inodeAt n with
  | none => rw [hinode] at h; cases h
  | some _ => rw [hinode] at h; cases h; rfl

theorem getINode_ok (h : s.inodeAt n = some inode) : s.getINode n = .ok inode := by
  rw [getINode_eq, h]
  rfl

/-! ## The bitmap

The bitmap has 4096 entries, and the disk may have more blocks. `setBlockFreeStatus` and
`getBlockFreeStatus` ask whether a number is that of a data block, and not whether it has an entry.
-/

/-- The index of a data block; of no other. -/
theorem of_bitmapIndex {p : UInt32} {r : Option (Fin 4096)} (h : s.bitmapIndex p = .ok r) :
    (∃ i, r = some i ∧ (i : Nat) = p.toNat ∧ s.IsDataBlock p.toNat)
      ∨ r = none ∧ ¬ s.IsDataBlock p.toNat := by
  unfold bitmapIndex at h
  split at h
  · next hfirst =>
    split at h
    · split at h
      · next hsize =>
        split at h
        · next hlt =>
          cases h
          exact Or.inl ⟨_, rfl, rfl, hfirst, UInt32.lt_iff_toNat_lt.mp hsize⟩
        · cases h
      · next hsize =>
        cases h
        exact Or.inr ⟨rfl, fun hdata => hsize (UInt32.lt_iff_toNat_lt.mpr hdata.2)⟩
    · cases h
  · next hfirst =>
    cases h
    exact Or.inr ⟨rfl, fun hdata => hfirst hdata.1⟩

/-- `setBlockFreeStatus` marks a data block, and only a data block. -/
theorem setBlockFreeStatus_eq {s' : State} {p : UInt32}
    (h : s.setBlockFreeStatus p free = .ok s') :
    s' = s.mark p.toNat free ∧ (s.IsDataBlock p.toNat → p.toNat < 4096) := by
  unfold setBlockFreeStatus at h
  obtain ⟨r, hr, h⟩ := of_bind_eq_ok h
  rcases of_bitmapIndex hr with ⟨i, rfl, hi, hdata⟩ | ⟨rfl, hdata⟩
  · cases h
    refine ⟨?_, fun _ => hi ▸ i.isLt⟩
    have hiff : ∀ j : Fin 4096, j = i ↔ (j : Nat) = p.toNat ∧ s.IsDataBlock p.toNat := by
      intro j
      rw [Fin.ext_iff, hi]
      exact ⟨fun heq => ⟨heq, hdata⟩, fun hand => hand.1⟩
    simp only [mark, hiff]
  · cases h
    refine ⟨?_, fun hd => absurd hd hdata⟩
    unfold mark
    simp [hdata]

/-- A block is free if it is a data block and marked so. -/
theorem of_getBlockFreeStatus {p : UInt32} {r : Bool} (h : s.getBlockFreeStatus p = .ok r) :
    (s.IsDataBlock p.toNat → p.toNat < 4096)
      ∧ (r = true ↔ s.IsDataBlock p.toNat ∧ s.isFree p.toNat = true) := by
  unfold getBlockFreeStatus at h
  obtain ⟨i, hi, h⟩ := of_bind_eq_ok h
  rcases of_bitmapIndex hi with ⟨i, rfl, hip, hdata⟩ | ⟨rfl, hdata⟩
  · cases h
    have hlt : p.toNat < 4096 := hip ▸ i.isLt
    have hindex : (⟨p.toNat, hlt⟩ : Fin 4096) = i := Fin.ext hip.symm
    refine ⟨fun _ => hlt, ?_⟩
    rw [isFree, dif_pos hlt, hindex]
    exact ⟨fun hfree => ⟨hdata, hfree⟩, fun hand => hand.2⟩
  · cases h
    exact ⟨fun hd => absurd hd hdata, iff_of_false Bool.false_ne_true fun hand => hdata hand.1⟩

/-- One round of the scan looks `b` up in the bitmap, and goes on unless it is a free data block. -/
theorem of_nextFreeLoop_round {rounds b r : Nat} (h : s.nextFreeLoop (rounds + 1) b = .ok r)
    (hbound : b < 4294967296) :
    (s.IsDataBlock b → b < 4096)
      ∧ ((s.IsDataBlock b ∧ s.isFree b = true) ∧ r = b
        ∨ ¬ (s.IsDataBlock b ∧ s.isFree b = true) ∧ s.nextFreeLoop rounds (b + 1) = .ok r) := by
  unfold nextFreeLoop at h
  obtain ⟨status, hstatus, h⟩ := of_bind_eq_ok h
  obtain ⟨hlt, hiff⟩ := of_getBlockFreeStatus hstatus
  rw [UInt32.toNat_ofNat_of_lt' hbound] at hlt hiff
  refine ⟨hlt, ?_⟩
  cases status with
  | true =>
    cases h
    exact Or.inl ⟨hiff.mp rfl, rfl⟩
  | false => exact Or.inr ⟨fun hand => Bool.false_ne_true (hiff.mpr hand), h⟩

/-- The scan stops at the first free data block, or after its last round. -/
theorem of_nextFreeLoop {rounds : Nat} :
    ∀ {b r : Nat}, s.nextFreeLoop rounds b = .ok r → b + rounds < 4294967296 →
      b ≤ r ∧ r ≤ b + rounds
        ∧ (∀ c, b ≤ c → c < r → ¬ (s.IsDataBlock c ∧ s.isFree c = true))
        ∧ (r < b + rounds → r < 4096 ∧ s.IsDataBlock r ∧ s.isFree r = true) := by
  induction rounds with
  | zero =>
    intro b r h _
    cases h
    exact ⟨Nat.le_refl _, Nat.le_refl _, by omega, by omega⟩
  | succ rounds ih =>
    intro b r h hbound
    obtain ⟨hlt, ⟨⟨hdata, hfree⟩, rfl⟩ | ⟨hpassed, hrest⟩⟩ := of_nextFreeLoop_round h (by omega)
    · exact ⟨Nat.le_refl _, by omega, by omega, fun _ => ⟨hlt hdata, hdata, hfree⟩⟩
    · obtain ⟨hle, hge, hnone, hfound⟩ := ih hrest (by omega)
      refine ⟨by omega, by omega, fun c hc hcr => ?_, fun hr => hfound (by omega)⟩
      by_cases hcb : c = b
      · rw [hcb]
        exact hpassed
      · exact hnone c (by omega) hcr

/-- `getNextFreeBlock` gives the first free data block, or the number of blocks of the disk. -/
theorem of_getNextFreeBlock (hm : s.Mounted) {p : UInt32} (h : s.getNextFreeBlock = .ok p) :
    0 < p.toNat ∧ p.toNat < 2147483648
      ∧ (∀ c, c < p.toNat → ¬ (s.IsDataBlock c ∧ s.isFree c = true))
      ∧ (p.toNat < 4096 ∧ s.IsDataBlock p.toNat ∧ s.isFree p.toNat = true
          ∨ p.toNat = s.shape.blocks.toNat) := by
  have hdisk : s.fs.diskSet = true := hm.diskSet
  have hsize : asInt s.disk.size = s.shape.blocks.toNat := hm.size_eq
  have hfits := hm.fits
  -- the loop counts with `int`, and a mounted disk is not too large for that
  have hsmall : asInt s.shape.blocks < 2147483648 := by
    unfold asInt
    split
    · omega
    · have hlt : s.shape.blocks.toNat < 4294967296 := s.shape.blocks.toNat_lt
      omega
  rw [hm.size_eq] at hfits hsmall
  have hfirst : s.fs.firstDataBlock = s.shape.tableBlocks + 1 := hm.firstDataBlock
  unfold getNextFreeBlock at h
  rw [if_pos hdisk] at h
  obtain ⟨r, hr, h⟩ := of_bind_eq_ok h
  cases h
  rw [hsize] at hr
  obtain ⟨hle, hge, hnone, hfound⟩ := of_nextFreeLoop hr (by omega)
  have hrlt : r < 4294967296 := by omega
  have hrr : (UInt32.ofNat r).toNat = r := UInt32.toNat_ofNat_of_lt' hrlt
  rw [hrr]
  refine ⟨by omega, by omega, fun c hc hand => ?_, ?_⟩
  · have hcfirst : s.fs.firstDataBlock ≤ c := hand.1.1
    exact hnone c hcfirst hc hand
  · -- the loop stopped at a free block, or ran to the end
    by_cases hend : r < s.fs.firstDataBlock
        + ((s.shape.blocks.toNat : Int) - (s.fs.firstDataBlock : Int)).toNat
    · exact Or.inl (hfound hend)
    · exact Or.inr (by omega)

/-! ## Finding an inode

`getNextFreeINode` goes through the blocks of the table, and in each through its 128 inodes. The two
loops together are one search over the inode numbers. -/

/-- The loop over the inodes of one block is a search. -/
theorem nextFreeSlot_eq {block : InodeBlock} (h : s.fs.inodeBlocks[i]? = some block)
    (slots : List (Fin 128)) :
    s.nextFreeSlot i slots = .ok ((slots.find? fun j => (block j).valid = 0).map
      fun j : Fin 128 => (i * inodesPerBlock + (j : Nat), block j)) := by
  induction slots with
  | nil => rfl
  | cons j rest ih =>
    have hget : s.getINodeAt i j = .ok (block j) := by rw [getINodeAt, h]
    rw [nextFreeSlot, hget, ok_bind, List.find?_cons]
    by_cases hvalid : (block j).valid = 0
    · simp [hvalid]
    · simp [hvalid, ih]

/-- The slots of a block, as inode numbers. -/
theorem inodeAt_slot {block : InodeBlock} (h : s.fs.inodeBlocks[i]? = some block) (j : Fin 128) :
    s.inodeAt (i * inodesPerBlock + j) = some (block j) := by
  have hdiv : (i * inodesPerBlock + j) / inodesPerBlock = i := by unfold inodesPerBlock; omega
  have hmod : (i * inodesPerBlock + j) % inodesPerBlock = j := by unfold inodesPerBlock; omega
  simp only [inodeAt, hdiv, hmod, h, Option.map_some]

/-- An inode number of block `i` is one of its slots. -/
theorem exists_slot {block : InodeBlock} (h : s.fs.inodeBlocks[i]? = some block)
    (hlow : i * inodesPerBlock ≤ m) (hhigh : m < (i + 1) * inodesPerBlock) {inode : Inode}
    (hat : s.inodeAt m = some inode) :
    ∃ j : Fin 128, m = i * inodesPerBlock + j ∧ inode = block j := by
  unfold inodesPerBlock at hlow hhigh
  have hj : m = i * inodesPerBlock + (⟨m - i * 128, by omega⟩ : Fin 128) := by
    show m = i * 128 + (m - i * 128)
    omega
  refine ⟨_, hj, ?_⟩
  rw [hj, inodeAt_slot h] at hat
  exact (Option.some.inj hat).symm

/-- The scan over the blocks `a`, `a + 1`, … finds the first invalid inode from `a` on. -/
theorem nextFreeInBlocks_spec {k : Nat} :
    ∀ {a : Nat}, a + k ≤ s.shape.tableBlocks →
      ∃ r, s.nextFreeInBlocks (List.range' a k) = .ok r
        ∧ (∀ n inode, r = some (n, inode) → s.inodeAt n = some inode ∧ inode.valid = 0
            ∧ ∀ m inode', a * inodesPerBlock ≤ m → m < n → s.inodeAt m = some inode' →
              inode'.valid ≠ 0)
        ∧ (r = none → ∀ m inode', a * inodesPerBlock ≤ m → m < (a + k) * inodesPerBlock →
            s.inodeAt m = some inode' → inode'.valid ≠ 0) := by
  induction k with
  | zero =>
    intro a _
    refine ⟨none, rfl, fun _ _ h => (by cases h), fun _ m _ hm hlt _ => ?_⟩
    rw [Nat.add_zero] at hlt
    omega
  | succ k ih =>
    intro a hk
    have hlt : a < s.fs.inodeBlocks.length := by
      have hk' : a + (k + 1) ≤ s.fs.inodeBlocks.length := hk
      omega
    have hblock := List.getElem?_eq_getElem hlt
    generalize s.fs.inodeBlocks[a] = block at hblock
    rw [List.range'_succ, nextFreeInBlocks, nextFreeSlot_eq hblock, ok_bind,
      ← Fin.find?_eq_find?_finRange]
    cases hfind : Fin.find? fun j : Fin 128 => decide ((block j).valid = 0) with
    | some j =>
      -- found in block `a`
      obtain ⟨hvalid, hbefore⟩ := Fin.find?_eq_some_iff.mp hfind
      refine ⟨some (a * inodesPerBlock + j, block j), rfl, ?_, fun h => (by cases h)⟩
      rintro n inode ⟨⟩
      refine ⟨inodeAt_slot hblock j, of_decide_eq_true hvalid, fun m inode' hm hmn hat => ?_⟩
      obtain ⟨j', rfl, rfl⟩ := exists_slot hblock hm (by unfold inodesPerBlock at *; omega) hat
      exact of_decide_eq_false (hbefore j' (Fin.lt_def.mpr (by omega)))
    | none =>
      -- block `a` is full of valid inodes, and the scan goes on behind it
      obtain ⟨r, hr, hsome, hnone⟩ := ih (a := a + 1) (by omega)
      have hall : ∀ m inode', a * inodesPerBlock ≤ m → m < (a + 1) * inodesPerBlock →
          s.inodeAt m = some inode' → inode'.valid ≠ 0 := by
        intro m inode' hm hm' hat
        obtain ⟨j, rfl, rfl⟩ := exists_slot hblock hm hm' hat
        exact of_decide_eq_false (Fin.find?_eq_none_iff.mp hfind j)
      refine ⟨r, hr, fun n inode hrn => ?_, fun hrn m inode' hm hm' hat => ?_⟩
      · obtain ⟨hat, hvalid, hbefore⟩ := hsome n inode hrn
        refine ⟨hat, hvalid, fun m inode' hm hmn hat' => ?_⟩
        by_cases hcase : m < (a + 1) * inodesPerBlock
        · exact hall m inode' hm hcase hat'
        · exact hbefore m inode' (by omega) hmn hat'
      · by_cases hcase : m < (a + 1) * inodesPerBlock
        · exact hall m inode' hm hcase hat
        · refine hnone hrn m inode' (by omega) ?_ hat
          rw [Nat.add_assoc, Nat.add_comm 1 k]
          exact hm'

/-- `getNextFreeINode` finds the first invalid inode, if there is one. -/
theorem of_getNextFreeINode (hm : s.Mounted) :
    ∃ r, s.getNextFreeINode = .ok r
      ∧ (∀ n inode, r = some (n, inode) → s.inodeAt n = some inode ∧ inode.valid = 0
          ∧ ∀ m inode', m < n → s.inodeAt m = some inode' → inode'.valid ≠ 0)
      ∧ (r = none → ∀ m inode', s.inodeAt m = some inode' → inode'.valid ≠ 0) := by
  have htotal : (asInt s.fs.superBlock.inodeBlocks).toNat = s.shape.tableBlocks := by
    have hblocks : s.fs.superBlock.inodeBlocks.toNat = s.shape.tableBlocks := hm.inodeBlocks
    have hdistinct := hm.distinct
    unfold Disk.distinctBlocks at hdistinct
    -- the loop counts with `int`, and the table is short enough
    rw [asInt, if_pos (by omega), hblocks, Int.toNat_natCast]
  obtain ⟨r, hr, hsome, hnone⟩ :=
    nextFreeInBlocks_spec (s := s) (k := s.shape.tableBlocks) (a := 0) (by omega)
  refine ⟨r, ?_, fun n inode hrn => ?_, fun hrn m inode' hat => ?_⟩
  · rw [getNextFreeINode, htotal, List.range_eq_range', hr]
  · obtain ⟨hat, hvalid, hbefore⟩ := hsome n inode hrn
    exact ⟨hat, hvalid, fun m inode' hmn => hbefore m inode' (by omega) hmn⟩
  · refine hnone hrn m inode' (by omega) ?_ hat
    rw [Nat.zero_add]
    exact lt_of_inodeAt hat

/-- The state after `create` has taken inode `n`. -/
def created (s : State) (n : Nat) (inode : Inode) : State :=
  (s.setINode n { inode with valid := 1 }).setDirty (n / inodesPerBlock)

/-- `create` takes what the search finds. -/
theorem create_of_next (hnext : s.getNextFreeINode = .ok (some (n, inode))) :
    s.create = .ok (n, s.created n inode) := by
  unfold create
  rw [hnext]
  rfl

/-- `create` takes the first invalid inode, if there is one, and then marks its block dirty. -/
theorem of_create (hm : s.Mounted) :
    (∃ n inode, s.create = .ok (n, s.created n inode)
        ∧ s.inodeAt n = some inode ∧ inode.valid = 0
        ∧ s.getNextFreeINode = .ok (some (n, inode))
        ∧ ∀ m inode', m < n → s.inodeAt m = some inode' → inode'.valid ≠ 0)
      ∨ s.create = .ok (invalideReturn, s)
        ∧ ∀ m inode', s.inodeAt m = some inode' → inode'.valid ≠ 0 := by
  obtain ⟨r, hr, hsome, hnone⟩ := of_getNextFreeINode hm
  cases r with
  | none =>
    refine Or.inr ⟨?_, hnone rfl⟩
    unfold create
    rw [hr]
    rfl
  | some found =>
    obtain ⟨hat, hvalid, hfirst⟩ := hsome found.1 found.2 rfl
    exact Or.inl ⟨found.1, found.2, create_of_next hr, hat, hvalid, hr, hfirst⟩

@[simp] theorem created_shape : (s.created n inode).shape = s.shape := by
  rw [created, setDirty_shape, setINode_shape]

/-- The inode taken is valid, and the others are as they were. -/
theorem created_inodeAt_self (hat : s.inodeAt n = some inode) :
    (s.created n inode).inodeAt n = some { inode with valid := 1 } :=
  setINode_inodeAt_self (lt_of_inodeAt hat)

theorem created_inodeAt_of_ne (hne : m ≠ n) : (s.created n inode).inodeAt m = s.inodeAt m :=
  setINode_inodeAt_of_ne hne

@[simp] theorem created_isFree : (s.created n inode).isFree b = s.isFree b := rfl

/-! ## Removing

`remove` goes through the five pointers, and looks the inode up in every round. It frees what a
pointer names without asking whose it is. -/

/-- A removed inode. -/
def clear (inode : Inode) : Inode := { inode with valid := 0, size := 0, direct := fun _ => 0 }

theorem foldl_clearPointer (inode : Inode) :
    (List.finRange 5).foldl clearPointer inode = clear inode := by
  have hfin : List.finRange 5 = [0, 1, 2, 3, 4] := by decide
  rw [hfin]
  simp only [List.foldl_cons, List.foldl_nil, clearPointer, clear, Inode.mk.injEq, true_and, and_true]
  funext k
  match k with
  | 0 | 1 | 2 | 3 | 4 => rfl

/-- The rounds of `remove` for the pointers `ks`. Each one reads its pointer before any other
round has cleared it. -/
theorem of_removePointers {ks : List (Fin 5)} (hks : ks.Nodup) :
    ∀ {s s' : State} {inode : Inode}, s.inodeAt n = some inode →
      ks.foldlM (removePointer n) s = .ok s' →
      s'.shape = s.shape ∧ s'.disk = s.disk ∧ (∀ i, s'.isDirty i = s.isDirty i)
        ∧ s'.inodeAt n = some (ks.foldl clearPointer inode)
        ∧ (∀ m, m ≠ n → s'.inodeAt m = s.inodeAt m)
        ∧ ∀ c, s'.isFree c
          = if s.IsDataBlock c ∧ ∃ k ∈ ks, (inode.direct k).toNat = c then true else s.isFree c := by
  induction ks with
  | nil =>
    intro s s' inode hat h
    cases h
    exact ⟨rfl, rfl, fun _ => rfl, hat, fun _ _ => rfl, fun c => by simp⟩
  | cons k ks ih =>
    intro s s' inode hat h
    obtain ⟨hk, hks⟩ := List.nodup_cons.mp hks
    rw [List.foldlM_cons] at h
    obtain ⟨s₁, hround, h⟩ := of_bind_eq_ok h
    unfold removePointer at hround
    rw [getINode_ok hat, ok_bind] at hround
    obtain ⟨s₂, hmark, hround⟩ := of_bind_eq_ok hround
    cases hround
    obtain ⟨rfl, hlt⟩ := setBlockFreeStatus_eq hmark
    have hrange := lt_of_inodeAt hat
    have hcleared : ((s.mark (inode.direct k).toNat true).setINode n
        (clearPointer inode k)).inodeAt n = some (clearPointer inode k) :=
      setINode_inodeAt_self hrange
    -- the rounds to come, on the inode with this pointer cleared
    obtain ⟨hshape, hdisk, hdirty, hself, hothers, hfree⟩ := ih hks hcleared h
    refine ⟨hshape.trans setINode_shape, hdisk, hdirty, hself, fun m hm => ?_, fun c => ?_⟩
    · rw [hothers m hm, setINode_inodeAt_of_ne hm, mark_inodeAt]
    · -- the pointers still to come are those of the inode as it was
      have hsame : ∀ k' ∈ ks, (clearPointer inode k).direct k' = inode.direct k' := by
        intro k' hk'
        have hne : k' ≠ k := fun heq => hk (heq ▸ hk')
        exact if_neg hne
      have hlater : (∃ k' ∈ ks, ((clearPointer inode k).direct k').toNat = c)
          ↔ ∃ k' ∈ ks, (inode.direct k').toNat = c :=
        exists_congr fun k' => and_congr_right fun hk' => by rw [hsame k' hk']
      have hdata' : ((s.mark (inode.direct k).toNat true).setINode n
          (clearPointer inode k)).IsDataBlock c ↔ s.IsDataBlock c :=
        isDataBlock_congr (setINode_shape.trans mark_shape) c
      simp only [hfree, hdata', hlater, setINode_isFree, mark_isFree hlt]
      by_cases hdata : s.IsDataBlock c
      · by_cases hc : c = (inode.direct k).toNat
        · subst hc
          simp [hdata]
        · simp [hdata, hc, Ne.symm hc]
      · have hc : ¬ (c = (inode.direct k).toNat ∧ s.IsDataBlock (inode.direct k).toNat) := by
          rintro ⟨rfl, hd⟩
          exact hdata hd
        rw [if_neg hc, if_neg fun hand => hdata hand.1, if_neg fun hand => hdata hand.1]

/-- `remove` clears the inode and frees the data blocks its pointers name. -/
theorem of_remove {s' : State} {r : Bool} (h : s.remove n = .ok (r, s')) :
    r = true ∧ ∃ inode, s.inodeAt n = some inode
      ∧ s'.shape = s.shape ∧ s'.disk = s.disk ∧ (∀ i, s'.isDirty i = s.isDirty i)
      ∧ s'.inodeAt n = some (clear inode)
      ∧ (∀ m, m ≠ n → s'.inodeAt m = s.inodeAt m)
      ∧ ∀ c, s'.isFree c
        = if s.IsDataBlock c ∧ ∃ k, (inode.direct k).toNat = c then true else s.isFree c := by
  unfold remove at h
  obtain ⟨s₁, hloop, h⟩ := of_bind_eq_ok h
  cases h
  cases hat : s.inodeAt n with
  | none =>
    -- the first round already needs the inode
    have hget : s.getINode n = .error .outOfBounds := by rw [getINode_eq, hat]; rfl
    have hfin : List.finRange 5 = 0 :: [1, 2, 3, 4] := by decide
    rw [hfin, List.foldlM_cons, removePointer, hget, error_bind, error_bind] at hloop
    cases hloop
  | some inode =>
    obtain ⟨hshape, hdisk, hdirty, hself, hothers, hfree⟩ :=
      of_removePointers (List.nodup_finRange 5) hat hloop
    rw [foldl_clearPointer] at hself
    refine ⟨rfl, inode, rfl, hshape, hdisk, hdirty, hself, hothers, fun c => ?_⟩
    rw [hfree]
    simp

/-! ## Data

`read` and `write` move one block each. Neither looks at the size, and `write` takes a new block
even where the pointer has one. -/

/-- `read` delivers the block a positive pointer names, and marks it used. -/
theorem of_read {s' : State} {data' : Block} {length offset total : Nat}
    (h : s.read n data length offset = .ok (total, data', s')) :
    ∃ inode, s.inodeAt n = some inode
      ∧ (0 < asInt (directAt inode (offset / blockSize)) ∧ offset / blockSize < pointersPerInode
          ∧ total = blockSize
          ∧ data' = s.disk.blockAt (directAt inode (offset / blockSize)).toNat
          ∧ s' = s.mark (directAt inode (offset / blockSize)).toNat false
          ∧ (s.IsDataBlock (directAt inode (offset / blockSize)).toNat →
              (directAt inode (offset / blockSize)).toNat < 4096)
        ∨ ¬ (0 < asInt (directAt inode (offset / blockSize)) ∧ offset / blockSize < pointersPerInode)
          ∧ total = 0 ∧ data' = data ∧ s' = s) := by
  unfold State.read at h
  obtain ⟨inode, hget, h⟩ := of_bind_eq_ok h
  refine ⟨inode, of_getINode hget, ?_⟩
  dsimp only at h
  split at h
  · next hguard =>
    obtain ⟨⟨totalRead, data''⟩, hread, h⟩ := of_bind_eq_ok h
    -- a read marks the block as used
    obtain ⟨s'', hmark, h⟩ := of_bind_eq_ok h
    rw [asInt_of_pos hguard.1] at hread
    rw [Disk.read_ok (Disk.lt_of_read_ok hread)] at hread
    cases hread
    cases h
    obtain ⟨hs', hlt⟩ := setBlockFreeStatus_eq hmark
    exact Or.inl ⟨hguard.1, hguard.2, rfl, rfl, hs', hlt⟩
  · next hguard =>
    cases h
    exact Or.inr ⟨hguard, rfl, rfl, rfl⟩

/-- The state after `write` has put a block on `p` and the pointer to it in a slot. -/
def wrote (s : State) (n : Nat) (inode : Inode) (index : Nat) (p : UInt32) (data : Block) : State :=
  ((s.setINode n (setPointer inode index p)).setBlock p.toNat data).mark p.toNat false

@[simp] theorem wrote_shape {p : UInt32} {index : Nat} :
    (s.wrote n inode index p data).shape = s.shape := by
  rw [wrote, mark_shape, setBlock_shape, setINode_shape]

theorem wrote_isFree {p : UInt32} {index : Nat} (hp : p.toNat < 4096)
    (hdata : s.IsDataBlock p.toNat) (c : Nat) :
    (s.wrote n inode index p data).isFree c = if c = p.toNat then false else s.isFree c := by
  have hdata' : ((s.setINode n (setPointer inode index p)).setBlock p.toNat data).IsDataBlock
      p.toNat :=
    (isDataBlock_congr (setBlock_shape.trans setINode_shape) _).mpr hdata
  rw [wrote, mark_isFree fun _ => hp, setBlock_isFree, setINode_isFree]
  simp [hdata']

/-- `write` puts the data on a free data block and points the inode to it; past the fifth
block it does nothing. -/
theorem of_write (hm : s.Mounted) {s' : State} {length offset total : Nat}
    (h : s.write n data length offset = .ok (total, s')) :
    (∃ (p : UInt32) (inode : Inode), offset / blockSize < pointersPerInode
        ∧ s.IsDataBlock p.toNat ∧ p.toNat < 4096 ∧ s.isFree p.toNat = true
        ∧ (∀ c, c < p.toNat → ¬ (s.IsDataBlock c ∧ s.isFree c = true))
        ∧ s.inodeAt n = some inode ∧ total = blockSize
        ∧ s' = s.wrote n inode (offset / blockSize) p data)
      ∨ pointersPerInode ≤ offset / blockSize ∧ total = 0 ∧ s' = s := by
  unfold State.write at h
  obtain ⟨p, hp, h⟩ := of_bind_eq_ok h
  obtain ⟨hpos, hsmall, hfirst, hfound⟩ := of_getNextFreeBlock hm hp
  have hint : asInt p = p.toNat := by rw [asInt, if_pos hsmall]
  dsimp only at h
  split at h
  · next hguard =>
    obtain ⟨inode, hget, h⟩ := of_bind_eq_ok h
    obtain ⟨⟨totalWrite, disk⟩, hwrite, h⟩ := of_bind_eq_ok h
    obtain ⟨s₁, hmark, h⟩ := of_bind_eq_ok h
    rw [hint] at hwrite
    have hlt : (p.toNat : Int) < asInt s.shape.blocks := Disk.lt_of_write_ok hwrite
    rw [Disk.write_ok (Disk.lt_of_write_ok hwrite)] at hwrite
    cases hwrite
    cases h
    obtain ⟨hs', -⟩ := setBlockFreeStatus_eq hmark
    rcases hfound with ⟨hlt', hdata, hfree⟩ | hfull
    · exact Or.inl ⟨p, inode, hguard.2, hdata, hlt', hfree, hfirst, of_getINode hget, rfl, hs'⟩
    · -- a full disk: its number of blocks is no block number
      rw [hm.size_eq, hfull] at hlt
      omega
  · next hguard =>
    cases h
    refine Or.inr ⟨?_, rfl, rfl⟩
    by_contra hlt
    exact hguard ⟨by omega, by omega⟩

theorem read_shape {s' : State} {data' : Block} {length offset total : Nat}
    (h : s.read n data length offset = .ok (total, data', s')) : s'.shape = s.shape := by
  obtain ⟨inode, -, ⟨-, -, -, -, rfl, -⟩ | ⟨-, -, -, rfl⟩⟩ := of_read h
  · exact mark_shape
  · rfl

theorem write_shape (hm : s.Mounted) {s' : State} {length offset total : Nat}
    (h : s.write n data length offset = .ok (total, s')) : s'.shape = s.shape := by
  rcases of_write hm h with ⟨p, inode, -, -, -, -, -, -, -, rfl⟩ | ⟨-, -, rfl⟩
  · exact wrote_shape
  · rfl

/-- A write changes pointers of its own inode only. -/
theorem write_inodeAt (hm : s.Mounted) {s' : State} {length offset total : Nat}
    (h : s.write n data length offset = .ok (total, s')) :
    (∀ m, m ≠ n → s'.inodeAt m = s.inodeAt m)
      ∧ ∀ inode, s.inodeAt n = some inode → ∃ inode', s'.inodeAt n = some inode'
          ∧ inode'.valid = inode.valid := by
  rcases of_write hm h with ⟨p, inode, -, -, -, -, -, hat, -, rfl⟩ | ⟨-, -, rfl⟩
  · refine ⟨fun m hmn => setINode_inodeAt_of_ne hmn, fun inode' hat' => ?_⟩
    rw [hat] at hat'
    cases hat'
    exact ⟨_, setINode_inodeAt_self (lt_of_inodeAt hat), rfl⟩
  · exact ⟨fun _ _ => rfl, fun inode hat => ⟨inode, hat, rfl⟩⟩

theorem write_isDirty (hm : s.Mounted) {s' : State} {length offset total : Nat}
    (h : s.write n data length offset = .ok (total, s')) (i : Nat) : s'.isDirty i = s.isDirty i := by
  rcases of_write hm h with ⟨p, inode, -, -, -, -, -, -, -, rfl⟩ | ⟨-, -, rfl⟩
  · rfl
  · rfl

/-- File data never goes to the superblock or the inode blocks. -/
theorem write_tables (hm : s.Mounted) {s' : State} {length offset total : Nat}
    (h : s.write n data length offset = .ok (total, s')) (hb : b ≤ s.shape.tableBlocks) :
    s'.disk.blockAt b = s.disk.blockAt b := by
  rcases of_write hm h with ⟨p, inode, -, hdata, hlt, -, -, -, -, rfl⟩ | ⟨-, -, rfl⟩
  · have hfirst : s.shape.firstDataBlock = s.shape.tableBlocks + 1 := hm.firstDataBlock
    have hge := hdata.1
    exact Disk.blockAt_setBlock_of_ne (by omega) (by unfold Disk.distinctBlocks; omega)
      (by unfold Disk.distinctBlocks; omega)
  · rfl

theorem of_updateSize {s' : State} {size : Nat} (h : s.updateSize n size = .ok s') :
    ∃ inode, s.inodeAt n = some inode
      ∧ s' = s.setINode n { inode with size := UInt32.ofNat size } := by
  unfold updateSize at h
  obtain ⟨inode, hget, h⟩ := of_bind_eq_ok h
  cases h
  exact ⟨inode, of_getINode hget, rfl⟩

theorem updateSize_ok {size : Nat} (hat : s.inodeAt n = some inode) :
    s.updateSize n size = .ok (s.setINode n { inode with size := UInt32.ofNat size }) := by
  rw [updateSize, getINode_ok hat]
  rfl

end OsLab.Sfs.State
