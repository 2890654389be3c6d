import OsLab.Lib.Ownership
import OsLab.Sfs.Image

/-!
# OsLab.Sfs.Isolation — files do not touch each other

Calls of the `FileSystem` interface in any order. A slot, valid or not, owns
the block it names.

* **`Separate`**: no block is in two slots, and every block in a slot is marked used. It holds
  after a mount of a clean image (`IsMount.separate`) and every call keeps it: `write` only
  takes blocks that are not marked, and `remove` only takes marks off the blocks of its own
  slots. A block overwritten in its slot keeps its mark.
* **`view`**: what each slot holds. A call changes the view of the inode it names and of no
  other (`apply_afterCall`).
* **`observe_eq_view`**: `read` delivers the view, and **`isolation`** is the headline.
-/

namespace OsLab.Sfs

open Fallible Ownership

namespace State

/-! ## Slots

A slot is an inode and one of its five pointers. What is kept apart are slots, not files: the slots
of an inode that is not valid count too. -/

/-- The block in a slot; the pointer `0` is none. -/
def ownerOf (s : State) (slot : Slot) : Option Nat :=
  (s.inodeAt slot.1).bind fun inode =>
    if inode.direct slot.2 = 0 then none else some (inode.direct slot.2).toNat

abbrev IsUsed (s : State) (b : Nat) : Prop := s.isFree b = false

variable {s s' : State} {n : Nat} {k : Fin 5} {b : Nat}

theorem ownerOf_eq_some_iff :
    s.ownerOf (n, k) = some b
      ↔ ∃ inode, s.inodeAt n = some inode ∧ inode.direct k ≠ 0 ∧ (inode.direct k).toNat = b := by
  unfold ownerOf
  cases s.inodeAt n with
  | none => simp
  | some inode => by_cases hzero : inode.direct k = 0 <;> simp [hzero]

/-- Only the pointers of an inode matter. -/
theorem ownerOf_congr
    (h : (s'.inodeAt n).map Inode.direct = (s.inodeAt n).map Inode.direct) (k : Fin 5) :
    s'.ownerOf (n, k) = s.ownerOf (n, k) := by
  unfold ownerOf
  cases hs : s.inodeAt n with
  | none =>
    rw [hs, Option.map_none, Option.map_eq_none_iff] at h
    simp only [h]
  | some inode =>
    rw [hs] at h
    obtain ⟨inode', hs', hdirect⟩ := Option.map_eq_some_iff.mp h
    simp only [hs', Option.bind_some, hdirect]

/-- An inode replaced by one with the same pointers. -/
theorem ownerOf_setINode {inode : Inode} (inode' : Inode) (hat : s.inodeAt n = some inode)
    (hdirect : inode'.direct = inode.direct) (slot : Slot) :
    (s.setINode n inode').ownerOf slot = s.ownerOf slot := by
  obtain ⟨m, k⟩ := slot
  refine ownerOf_congr ?_ k
  by_cases hmn : m = n
  · subst hmn
    rw [setINode_inodeAt_self (lt_of_inodeAt hat), hat, Option.map_some, Option.map_some, hdirect]
  · rw [setINode_inodeAt_of_ne hmn]

/-- A pointer set. -/
theorem ownerOf_setPointer {inode : Inode} {p : UInt32} {index : Nat} (hat : s.inodeAt n = some inode)
    (hp : p ≠ 0) (hindex : index < 5) :
    (s.setINode n (setPointer inode index p)).ownerOf (n, ⟨index, hindex⟩) = some p.toNat
      ∧ ∀ slot, slot ≠ (n, ⟨index, hindex⟩) →
        (s.setINode n (setPointer inode index p)).ownerOf slot = s.ownerOf slot := by
  have hself : (s.setINode n (setPointer inode index p)).inodeAt n = some (setPointer inode index p) :=
    setINode_inodeAt_self (lt_of_inodeAt hat)
  refine ⟨ownerOf_eq_some_iff.mpr ⟨_, hself, ?_, ?_⟩, fun ⟨m, k⟩ hne => ?_⟩
  · rw [setPointer]
    simpa using hp
  · simp [setPointer]
  · unfold ownerOf
    -- the other pointers of the inode, and the other inodes
    by_cases hmn : m = n
    · subst hmn
      have hk : (k : Nat) ≠ index := by
        rintro rfl
        exact hne rfl
      rw [hself, hat]
      simp [setPointer, hk]
    · rw [setINode_inodeAt_of_ne hmn]

/-! ## The invariant

No two slots own one block, and what a slot owns is a data block that is marked. So the allocator
never hands out a block that is in a slot. -/

/-- No block in two slots, every block in a slot a marked data block. -/
structure Separate (s : State) : Prop where
  mounted : s.Mounted
  small : s.shape.blocks.toNat ≤ 4096
  owners : Sound s.ownerOf s.IsUsed s.IsDataBlock

/-- After a step that keeps the shape, the owners are left to show. -/
theorem Separate.of_shape (h : s.Separate) (hshape : s'.shape = s.shape)
    (howners : Sound s'.ownerOf s'.IsUsed s.IsDataBlock) : s'.Separate where
  mounted := h.mounted.of_shape hshape
  small := by
    rw [hshape]
    exact h.small
  owners := by
    show Sound _ _ s'.shape.IsDataBlock
    rw [hshape]
    exact howners

/-- A data block has an entry in the bitmap. -/
theorem Separate.lt_of_isDataBlock (h : s.Separate) (hb : s.IsDataBlock b) : b < 4096 :=
  Nat.lt_of_lt_of_le hb.2 h.small

theorem IsDataBlock.ne_zero (hm : s.Mounted) (hb : s.IsDataBlock b) : b ≠ 0 := by
  have hfirst := hm.firstDataBlock
  have hle := hb.1
  omega

/-- A block in a slot is named by a positive pointer. -/
theorem Separate.pointer_pos (h : s.Separate) {p : UInt32} (hp : s.IsDataBlock p.toNat) :
    0 < asInt p ∧ p ≠ 0 := by
  refine ⟨Mounted.asInt_pos h.mounted hp, ?_⟩
  rintro rfl
  exact IsDataBlock.ne_zero h.mounted hp rfl

/-- **After a mount** of a clean image. -/
theorem IsMount.separate {s₀ : State} (h : IsMount s₀ s) (hclean : CleanImage s₀.disk) :
    s.Separate ∧ ∀ n inode, s.inodeAt n = some inode → inode.valid = 0 →
      inode.size = 0 ∧ ∀ k, inode.direct k = 0 := by
  have htable : (decodeSuper (s₀.disk.blockAt 0)).inodeBlocks.toNat = s.shape.tableBlocks :=
    h.tableBlocks.symm
  have hblocks : s.shape.blocks = s₀.disk.size := h.blocks
  have hat : ∀ {n inode}, s.inodeAt n = some inode →
      n < (decodeSuper (s₀.disk.blockAt 0)).inodeBlocks.toNat * inodesPerBlock
        ∧ imageInode s₀.disk n = inode := by
    intro n inode hn
    have hlt := lt_of_inodeAt hn
    rw [h.inodeAt hlt] at hn
    exact ⟨htable ▸ hlt, Option.some.inj hn⟩
  have hblank : ∀ n inode, s.inodeAt n = some inode → inode.valid = 0 →
      inode.size = 0 ∧ ∀ k, inode.direct k = 0 := by
    intro n inode hn hvalid
    obtain ⟨hlt, rfl⟩ := hat hn
    exact hclean.blank n hlt hvalid
  have hvalid : ∀ {n inode k}, s.inodeAt n = some inode → inode.direct k ≠ 0 → inode.valid ≠ 0 :=
    fun {n inode k} hn hne hzero => hne ((hblank n inode hn hzero).2 k)
  have hregion : ∀ {n inode k}, s.inodeAt n = some inode → inode.direct k ≠ 0 →
      s.IsDataBlock (inode.direct k).toNat := by
    intro n inode k hn hne
    have hv := hvalid hn hne
    obtain ⟨hlt, rfl⟩ := hat hn
    exact (h.isDataBlock_iff _).mpr (hclean.region n hlt hv k hne)
  refine ⟨⟨h.mounted, hblocks ▸ hclean.small, ?_, ?_, ?_⟩, hblank⟩
  · -- no block is owned twice: a slot that holds something is one of a valid inode
    rintro ⟨n, k⟩ ⟨n', k'⟩ b hown hown'
    obtain ⟨inode, hn, hne, hb⟩ := ownerOf_eq_some_iff.mp hown
    obtain ⟨inode', hn', hne', hb'⟩ := ownerOf_eq_some_iff.mp hown'
    have hv := hvalid hn hne
    have hv' := hvalid hn' hne'
    obtain ⟨hlt, rfl⟩ := hat hn
    obtain ⟨hlt', rfl⟩ := hat hn'
    obtain ⟨rfl, rfl⟩ := hclean.disjoint n hlt n' hlt' k k' hv hv' hne
      (UInt32.toNat_inj.mp (hb.trans hb'.symm))
    rfl
  · rintro ⟨n, k⟩ b hown
    obtain ⟨inode, hn, hne, rfl⟩ := ownerOf_eq_some_iff.mp hown
    exact hregion hn hne
  · rintro ⟨n, k⟩ b hown
    obtain ⟨inode, hn, hne, rfl⟩ := ownerOf_eq_some_iff.mp hown
    refine Bool.eq_false_iff.mpr fun hfree => ?_
    -- `mount` has marked what the valid inodes of the image own
    refine ((h.free _).mp hfree).2 ⟨hregion hn hne, ?_⟩
    exact (h.imageOwned_iff _).mpr ⟨n, inode, k, hn, hvalid hn hne, rfl⟩

/-! ## The calls

`write` takes a free block for one slot, `remove` gives up the blocks of one inode, and the others
touch no slot. -/

/-- Calls of the `FileSystem` interface on a mounted file system. -/
inductive ApiCall where
  | create
  | write (inumber : Nat) (data : Block) (length offset : Nat)
  | read (inumber : Nat) (data : Block) (length offset : Nat)
  | remove (inumber : Nat)
  | updateSize (inumber size : Nat)

/-- The inode a call names. -/
def ApiCall.target : ApiCall → Option Nat
  | .create => none
  | .write inumber .. => some inumber
  | .read inumber .. => some inumber
  | .remove inumber => some inumber
  | .updateSize inumber _ => some inumber

/-- The state a call leaves, if it returns. -/
def apply (s : State) : ApiCall → Except Fault State
  | .create => do
    let (_, s) ← s.create
    .ok s
  | .write inumber data length offset => do
    let (_, s) ← s.write inumber data length offset
    .ok s
  | .read inumber data length offset => do
    let (_, _, s) ← s.read inumber data length offset
    .ok s
  | .remove inumber => do
    let (_, s) ← s.remove inumber
    .ok s
  | .updateSize inumber size => s.updateSize inumber size

def applyAll (s : State) : List ApiCall → Except Fault State
  | [] => .ok s
  | call :: rest => do
    let s ← s.apply call
    s.applyAll rest

/-- The call returns, and `s'` is what it leaves. -/
def ApiCall.Leaves (s s' : State) : ApiCall → Prop
  | .create => ∃ inumber, s.create = .ok (inumber, s')
  | .write inumber data length offset =>
    ∃ total, s.write inumber data length offset = .ok (total, s')
  | .read inumber data length offset =>
    ∃ total data', s.read inumber data length offset = .ok (total, data', s')
  | .remove inumber => ∃ removed, s.remove inumber = .ok (removed, s')
  | .updateSize inumber size => s.updateSize inumber size = .ok s'

/-- What a call that returned has done is told by its member function. -/
theorem of_apply {call : ApiCall} (h : s.apply call = .ok s') : call.Leaves s s' := by
  cases call with
  | create | write | remove =>
    obtain ⟨⟨result, _⟩, hcall, heq⟩ := of_bind_eq_ok h
    cases heq
    exact ⟨result, hcall⟩
  | read =>
    obtain ⟨⟨total, data', _⟩, hcall, heq⟩ := of_bind_eq_ok h
    cases heq
    exact ⟨total, data', hcall⟩
  | updateSize => exact h

theorem applyAll_eq (s : State) (calls : List ApiCall) : s.applyAll calls = calls.foldlM apply s := by
  induction calls generalizing s with
  | nil => rfl
  | cons call rest ih =>
    rw [applyAll, List.foldlM_cons]
    exact congrArg (s.apply call >>= ·) (funext ih)

/-- What is in a slot. -/
def view (s : State) (slot : Slot) : Option Block := (s.ownerOf slot).map s.disk.blockAt

/-- After a call that names inode `target`, or none. -/
structure AfterCall (s s' : State) (target : Option Nat) : Prop where
  separate : s'.Separate
  shape : s'.shape = s.shape
  view : ∀ m k, target ≠ some m → s'.view (m, k) = s.view (m, k)

/-- Nothing about slots, marks and data changed. -/
structure SameSlots (s s' : State) : Prop where
  shape : s'.shape = s.shape
  disk : s'.disk = s.disk
  owners : ∀ slot, s'.ownerOf slot = s.ownerOf slot
  free : ∀ b, s'.isFree b = s.isFree b

/-- A call that touches no slot changes no view. -/
theorem SameSlots.afterCall (h : SameSlots s s') (hs : s.Separate) (target : Option Nat) :
    AfterCall s s' target where
  separate := hs.of_shape h.shape (hs.owners.mono h.owners fun b hb => (h.free b).trans hb)
  shape := h.shape
  view m k _ := by rw [State.view, State.view, h.owners, h.disk]

theorem created_sameSlots {inode : Inode} (hat : s.inodeAt n = some inode) :
    SameSlots s (s.created n inode) :=
  ⟨created_shape, rfl, ownerOf_setINode { inode with valid := 1 } hat rfl, fun _ => rfl⟩

theorem create_sameSlots (hm : s.Mounted) {inumber : Nat} (h : s.create = .ok (inumber, s')) :
    SameSlots s s' := by
  rcases of_create hm with ⟨n, inode, heq, hat, -⟩ | ⟨heq, -⟩
  · rw [heq] at h
    cases h
    exact created_sameSlots hat
  · rw [heq] at h
    cases h
    exact ⟨rfl, rfl, fun _ => rfl, fun _ => rfl⟩

theorem updateSize_sameSlots {size : Nat} (h : s.updateSize n size = .ok s') : SameSlots s s' := by
  obtain ⟨inode, hat, rfl⟩ := of_updateSize h
  exact ⟨setINode_shape, rfl, ownerOf_setINode { inode with size := UInt32.ofNat size } hat rfl,
    fun _ => rfl⟩

/-- A read marks a block that is marked already. -/
theorem read_sameSlots (hs : s.Separate) {data data' : Block} {length offset total : Nat}
    (h : s.read n data length offset = .ok (total, data', s')) : SameSlots s s' := by
  obtain ⟨inode, hat, ⟨hpos, hindex, -, -, rfl, hlt⟩ | ⟨-, -, -, rfl⟩⟩ := of_read h
  · refine ⟨rfl, rfl, fun _ => rfl, fun b => ?_⟩
    rw [mark_isFree hlt]
    split
    · next hand =>
      obtain ⟨rfl, hdata⟩ := hand
      have hindex' : offset / blockSize < 5 := hindex
      rw [directAt, dif_pos hindex'] at hdata hpos ⊢
      have hne : inode.direct ⟨offset / blockSize, hindex'⟩ ≠ 0 := (hs.pointer_pos hdata).2
      have hown : s.ownerOf (n, ⟨offset / blockSize, hindex'⟩)
          = some (inode.direct ⟨offset / blockSize, hindex'⟩).toNat :=
        ownerOf_eq_some_iff.mpr ⟨inode, hat, hne, rfl⟩
      exact (hs.owners.marked hown).symm
    · rfl
  · exact ⟨rfl, rfl, fun _ => rfl, fun _ => rfl⟩

/-- **`write`** puts one fresh data block into one slot. -/
theorem write_assigns (hs : s.Separate) {data : Block} {length offset total : Nat}
    (h : s.write n data length offset = .ok (total, s')) :
    (∃ (hindex : offset / blockSize < 5) (b : Nat), s'.shape = s.shape
        ∧ s'.disk = s.disk.setBlock b data ∧ s.IsDataBlock b ∧ ¬ s.IsUsed b
        ∧ s'.ownerOf (n, ⟨offset / blockSize, hindex⟩) = some b
        ∧ (∀ slot, slot ≠ (n, ⟨offset / blockSize, hindex⟩) → s'.ownerOf slot = s.ownerOf slot)
        ∧ ∀ c, s'.IsUsed c ↔ c = b ∨ s.IsUsed c)
      ∨ 5 ≤ offset / blockSize ∧ s' = s := by
  rcases of_write hs.mounted h with
    ⟨p, inode, hindex, hdata, hlt, hfree, -, hat, -, rfl⟩ | ⟨hindex, -, rfl⟩
  · -- the allocator has found a free block
    have hnot : ¬ s.IsUsed p.toNat := fun hused => by
      rw [hused] at hfree
      cases hfree
    obtain ⟨hself, hothers⟩ := ownerOf_setPointer hat (hs.pointer_pos hdata).2 hindex
    refine Or.inl ⟨hindex, p.toNat, wrote_shape, rfl, hdata, hnot, hself, hothers, fun c => ?_⟩
    unfold IsUsed
    rw [wrote_isFree hlt hdata]
    by_cases hc : c = p.toNat
    · simp [hc]
    · simp [hc]
  · exact Or.inr ⟨hindex, rfl⟩

/-- A write changes one slot, and the block that it takes is in no other. -/
theorem write_afterCall (hs : s.Separate) {data : Block} {length offset total : Nat}
    (h : s.write n data length offset = .ok (total, s')) : AfterCall s s' (some n) := by
  rcases write_assigns hs h with
    ⟨hindex, b, hshape, hdisk, hdata, hfresh, hself, hothers, hused⟩ | ⟨-, rfl⟩
  · refine ⟨?_, hshape, fun m k hmn => ?_⟩
    · exact hs.of_shape hshape (hs.owners.assign hfresh hdata hself hothers hused)
    · have hown : s'.ownerOf (m, k) = s.ownerOf (m, k) :=
        hothers (m, k) fun heq => hmn (congrArg some (congrArg Prod.fst heq).symm)
      rw [view, view, hown, hdisk]
      cases hc : s.ownerOf (m, k) with
      | none => rfl
      | some c =>
        -- the block of another slot is not the one just written
        have hne : c ≠ b := by
          rintro rfl
          exact hfresh (hs.owners.marked hc)
        have hb4096 := hs.lt_of_isDataBlock hdata
        have hc4096 := hs.lt_of_isDataBlock (hs.owners.inRegion hc)
        refine congrArg some ?_
        exact Disk.blockAt_setBlock_of_ne hne (by unfold Disk.distinctBlocks; omega)
          (by unfold Disk.distinctBlocks; omega)
  · exact ⟨hs, rfl, fun _ _ _ => rfl⟩

/-- **`remove`** empties the slots of its inode and takes off the marks of their blocks. -/
theorem remove_releases (hs : s.Separate) {r : Bool} (h : s.remove n = .ok (r, s')) :
    s'.shape = s.shape ∧ s'.disk = s.disk
      ∧ (∀ slot : Slot, slot.1 = n → s'.ownerOf slot = none)
      ∧ (∀ slot : Slot, ¬ slot.1 = n → s'.ownerOf slot = s.ownerOf slot)
      ∧ ∀ c, s'.IsUsed c ↔ s.IsUsed c ∧ ¬ ∃ slot : Slot, slot.1 = n ∧ s.ownerOf slot = some c := by
  obtain ⟨-, inode, hat, hshape, hdisk, -, hself, hothers, hfree⟩ := of_remove h
  refine ⟨hshape, hdisk, ?_, ?_, fun c => ?_⟩
  · rintro ⟨m, k⟩ rfl
    rw [ownerOf, hself]
    rfl
  · rintro ⟨m, k⟩ hmn
    exact ownerOf_congr (by rw [hothers m hmn]) k
  · -- the blocks whose marks are taken off are those of the inode
    have howned : (∃ slot : Slot, slot.1 = n ∧ s.ownerOf slot = some c)
        ↔ s.IsDataBlock c ∧ ∃ k, (inode.direct k).toNat = c := by
      refine ⟨?_, ?_⟩
      · rintro ⟨⟨m, k⟩, rfl, hown⟩
        obtain ⟨inode', hat', -, hk⟩ := ownerOf_eq_some_iff.mp hown
        rw [hat] at hat'
        cases hat'
        exact ⟨hs.owners.inRegion hown, k, hk⟩
      · rintro ⟨hdata, k, rfl⟩
        exact ⟨(n, k), rfl, ownerOf_eq_some_iff.mpr ⟨inode, hat, (hs.pointer_pos hdata).2, rfl⟩⟩
    rw [howned]
    unfold IsUsed
    rw [hfree]
    split <;> simp_all

/-- The blocks given up were in no other slot. -/
theorem remove_afterCall (hs : s.Separate) {r : Bool} (h : s.remove n = .ok (r, s')) :
    AfterCall s s' (some n) := by
  obtain ⟨hshape, hdisk, hcleared, hkept, hused⟩ := remove_releases hs h
  refine ⟨?_, hshape, fun m k hmn => ?_⟩
  · exact hs.of_shape hshape
      (hs.owners.release hcleared hkept fun c hc hnot => (hused c).mpr ⟨hc, hnot⟩)
  · rw [view, view, hkept (m, k) fun heq => hmn (congrArg some heq.symm), hdisk]

/-- **Every call** keeps the slots separate and the view of the other inodes. -/
theorem apply_afterCall (hs : s.Separate) {call : ApiCall} (h : s.apply call = .ok s') :
    AfterCall s s' call.target := by
  cases call with
  | create =>
    obtain ⟨_, hcreate⟩ := of_apply h
    exact (create_sameSlots hs.mounted hcreate).afterCall hs none
  | write inumber data length offset =>
    obtain ⟨_, hwrite⟩ := of_apply h
    exact write_afterCall hs hwrite
  | read inumber data length offset =>
    obtain ⟨_, _, hread⟩ := of_apply h
    exact (read_sameSlots hs hread).afterCall hs (some inumber)
  | remove inumber =>
    obtain ⟨_, hremove⟩ := of_apply h
    exact remove_afterCall hs hremove
  | updateSize inumber size => exact (updateSize_sameSlots (of_apply h)).afterCall hs (some inumber)

/-- All the calls, one after the other. -/
theorem applyAll_separate {calls : List ApiCall} (hs : s.Separate)
    (h : s.applyAll calls = .ok s') : s'.Separate ∧ s'.shape = s.shape := by
  rw [applyAll_eq] at h
  refine foldlM_keeps (P := fun s' : State => s'.Separate ∧ s'.shape = s.shape)
    (fun {s₁ s₂ call} _ hs₁ hcall => ?_) ⟨hs, rfl⟩ h
  have hafter := apply_afterCall hs₁.1 hcall
  exact ⟨hafter.separate, hafter.shape.trans hs₁.2⟩

/-! ## Reading

`read` follows the pointer and delivers the block, which is what the slot holds. -/

/-- What `read(inumber, data, length, offset)` delivers: the byte count and the buffer. -/
def observe (s : State) (inumber : Nat) (data : Block) (length offset : Nat) :
    Except Fault (Nat × Block) := do
  let (total, data, _) ← s.read inumber data length offset
  .ok (total, data)

/-- A read of an inode of the table returns. -/
theorem Separate.read_ok (hs : s.Separate) {inode : Inode} (hat : s.inodeAt n = some inode)
    (data : Block) (length offset : Nat) : ∃ r, s.read n data length offset = .ok r := by
  refine State.read_ok hs.mounted hat ?_ data length
  by_cases hzero : directAt inode (offset / blockSize) = 0
  · exact Or.inr hzero
  · have hindex : offset / blockSize < 5 := by
      by_contra hout
      exact hzero (dif_neg hout)
    have hdirect : directAt inode (offset / blockSize) = inode.direct ⟨offset / blockSize, hindex⟩ :=
      dif_pos hindex
    rw [hdirect] at hzero ⊢
    have hdata := hs.owners.inRegion (ownerOf_eq_some_iff.mpr ⟨inode, hat, hzero, rfl⟩)
    exact Or.inl ⟨hdata, hs.lt_of_isDataBlock hdata⟩

/-- **Reading** delivers the view. -/
theorem observe_eq_view (hs : s.Separate) (hn : n < s.shape.tableBlocks * inodesPerBlock)
    {offset : Nat} (hindex : offset / blockSize < 5) (data : Block) (length : Nat) :
    s.observe n data length offset
      = .ok (((s.view (n, ⟨offset / blockSize, hindex⟩)).map fun block => (blockSize, block)).getD
          (0, data)) := by
  obtain ⟨inode, hat⟩ := inodeAt_eq_some_of_lt hn
  obtain ⟨⟨total, data', s'⟩, hread⟩ := hs.read_ok hat data length offset
  have hdirect : directAt inode (offset / blockSize) = inode.direct ⟨offset / blockSize, hindex⟩ :=
    dif_pos hindex
  generalize hp : inode.direct ⟨offset / blockSize, hindex⟩ = p at hdirect
  -- what the slot owns is what its pointer names
  have hown : s.ownerOf (n, ⟨offset / blockSize, hindex⟩) = if p = 0 then none else some p.toNat := by
    rw [ownerOf, hat, Option.bind_some, hp]
  rw [observe, hread, view, hown]
  obtain ⟨inode', hat', hcase⟩ := of_read hread
  rw [hat] at hat'
  cases hat'
  rw [hdirect] at hcase
  by_cases hzero : p = 0
  · rcases hcase with ⟨hpos, -⟩ | ⟨-, rfl, rfl, -⟩
    · rw [hzero] at hpos
      exact absurd hpos (by decide)
    · rw [if_pos hzero]
      rfl
  · rcases hcase with ⟨-, -, rfl, rfl, -⟩ | ⟨hnot, -⟩
    · rw [if_neg hzero]
      rfl
    · have hdata := hs.owners.inRegion (hown.trans (if_neg hzero))
      exact absurd ⟨(hs.pointer_pos hdata).1, hindex⟩ hnot

/-! ## The headline

A call that does not name an inode changes nothing that can be read from it. -/

/-- **Headline.** From a mounted clean image, after any calls: a call that does not name inode
`n` changes neither the byte count nor the bytes that `read` delivers from it. -/
theorem isolation {blocks : UInt32} {image : Bytes.Image} {s₀ s s' : State} {calls : List ApiCall}
    {call : ApiCall} {n offset : Nat}
    (hclean : CleanImage (State.start blocks image).disk)
    (hmount : (State.start blocks image).mount = .ok (true, s₀))
    (hrun : s₀.applyAll calls = .ok s) (hcall : s.apply call = .ok s')
    (hn : n < s₀.fs.superBlock.inodeBlocks.toNat * inodesPerBlock) (hother : call.target ≠ some n)
    (hoffset : offset < 5 * blockSize) (data : Block) (length : Nat) :
    ∃ r, s.observe n data length offset = .ok r ∧ s'.observe n data length offset = .ok r := by
  have hismount := (of_mount hmount).2
  obtain ⟨hs, hshape⟩ := applyAll_separate (hismount.separate hclean).1 hrun
  have hafter := apply_afterCall hs hcall
  have hn' : n < s.shape.tableBlocks * inodesPerBlock := by
    rw [hshape, ← hismount.mounted.inodeBlocks]
    exact hn
  have hindex : offset / blockSize < 5 := Nat.div_lt_of_lt_mul (by omega)
  refine ⟨_, observe_eq_view hs hn' hindex data length, ?_⟩
  rw [observe_eq_view hafter.separate (hafter.shape ▸ hn') hindex, hafter.view n _ hother]

/-- Two files written one after the other. -/
theorem isolation_two_writes : ∃ s₀ s s' r,
    (State.start 4 (smallImage 0)).mount = .ok (true, s₀)
      ∧ s₀.applyAll [.create, .write 0 (fun _ => 65) 4096 0] = .ok s
      ∧ s.apply (.write 1 (fun _ => 66) 4096 0) = .ok s'
      ∧ s.observe 0 zeroBuffer 4096 0 = .ok r ∧ s'.observe 0 zeroBuffer 4096 0 = .ok r := by
  have hclean : CleanImage (State.start 4 (smallImage 0)).disk :=
    smallDisk_clean (by decide) (by decide) 0
  obtain ⟨s₀, hmount, hismount⟩ := mount_ok hclean.fits hclean.small
  obtain ⟨htable, hfree⟩ := smallDisk_mounted hismount
  have hs₀ := (hismount.separate hclean).1
  have hdata : ∀ c, 2 ≤ c → c < 4 → s₀.IsDataBlock c := fun c hge hlt =>
    (smallDisk_isDataBlock hismount c).mpr ⟨hge, hlt⟩
  obtain ⟨⟨inumber, s₁⟩, hcreate⟩ := create_ok hs₀.mounted
  have hsame := create_sameSlots hs₀.mounted hcreate
  have hs₁ := (hsame.afterCall hs₀ none).separate
  have hat : ∀ {s : State}, s.shape = s₀.shape → ∀ n < 2, ∃ inode, s.inodeAt n = some inode := by
    intro s hshape n hn
    refine inodeAt_eq_some_of_lt ?_
    rw [hshape, htable]
    unfold inodesPerBlock
    omega
  obtain ⟨inode, hinode⟩ := hat hsame.shape 0 (by decide)
  have hdata' : ∀ {s : State}, s.shape = s₀.shape → ∀ c, 2 ≤ c → c < 4 → s.IsDataBlock c :=
    fun hshape c hge hlt => (isDataBlock_congr hshape c).mpr (hdata c hge hlt)
  have hfree₁ : ∀ c, 2 ≤ c → c < 4 → s₁.IsDataBlock c ∧ s₁.isFree c = true := fun c hge hlt =>
    ⟨hdata' hsame.shape c hge hlt, (hsame.free c).trans (hfree c (by omega) (by omega))⟩
  have hzero : 0 / blockSize < pointersPerInode := by decide
  obtain ⟨s, hwrite⟩ := write_ok hs₁.mounted hinode hzero
    ⟨2, hfree₁ 2 (by decide) (by decide)⟩ (fun _ => 65) 4096
  have hafter := write_afterCall hs₁ hwrite
  -- the first write has taken block 2
  have hfree₂ : s.isFree 3 = true := by
    rcases of_write hs₁.mounted hwrite with
      ⟨p, inode', -, hdata₂, hlt, -, hfirst, -, -, rfl⟩ | ⟨-, hzero, -⟩
    · have hle : p.toNat ≤ 2 :=
        Nat.le_of_not_lt fun hlt => hfirst 2 hlt (hfree₁ 2 (by decide) (by decide))
      rw [wrote_isFree hlt hdata₂, if_neg (by omega)]
      exact (hfree₁ 3 (by decide) (by decide)).2
    · cases hzero
  have hshape : s.shape = s₀.shape := hafter.shape.trans hsame.shape
  obtain ⟨inode', hinode'⟩ := hat hshape 1 (by decide)
  obtain ⟨s', hwrite'⟩ := write_ok hafter.separate.mounted hinode'
    hzero ⟨3, hdata' hshape 3 (by decide) (by decide), hfree₂⟩ (fun _ => 66) 4096
  have hrun : s₀.applyAll [.create, .write 0 (fun _ => 65) 4096 0] = .ok s := by
    simp only [applyAll, apply, hcreate, hwrite, ok_bind]
  have hcall : s.apply (.write 1 (fun _ => 66) 4096 0) = .ok s' := by
    simp only [apply, hwrite', ok_bind]
  have hn : 0 < s₀.fs.superBlock.inodeBlocks.toNat * inodesPerBlock := by
    have htable' : s₀.fs.superBlock.inodeBlocks.toNat = 1 := hs₀.mounted.inodeBlocks.trans htable
    rw [htable']
    decide
  have hoffset : 0 < 5 * blockSize := by decide
  obtain ⟨r, hobserve, hobserve'⟩ :=
    isolation hclean hmount hrun hcall hn (by decide) hoffset zeroBuffer 4096
  exact ⟨s₀, s, s', r, hmount, hrun, hcall, hobserve, hobserve'⟩

end State

end OsLab.Sfs
