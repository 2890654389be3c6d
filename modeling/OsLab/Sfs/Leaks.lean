import OsLab.Lib.GuardedRun
import OsLab.Sfs.Accounting
import OsLab.Sfs.Ranges
import Mathlib.Data.Finset.Prod
import Mathlib.Data.Fintype.Basic

/-!
# OsLab.Sfs.Leaks — blocks lost by rewriting

`write` allocates on every call and puts the new block over the pointer, whatever that was. The
block it was stays marked, and no inode has it.

* **`LeaksNothing`**: as many data blocks are marked used as valid inodes have pointers, and
  removing all inodes frees them all.
* **`apply_firstWrite`**, **`apply_lost`**, **`apply_overwrites`**: one call. A write to a pointer
  that is `0` keeps the books, a block once lost stays lost, a write over a pointer loses a block.
* **`leaksNothing_iff`**: so nothing leaks exactly if no write of the run is over a pointer.
-/

namespace OsLab.Sfs

open Fallible Ownership State GuardedRun

variable {s s' : State} {n b : Nat} {call : ApiCall} {calls : List ApiCall}

/-! ## The books

A block is lost when it is marked and in no slot. If nothing is lost, all the marks are paid for by
slots, and removing every inode frees every block. -/

/-- The data blocks marked used. -/
def State.usedBlocks (s : State) : Finset Nat :=
  (Finset.range s.shape.blocks.toNat).filter fun b => s.IsDataBlock b ∧ s.isFree b = false

/-- The pointers of valid inodes that are not `0`. -/
def State.heldSlots (s : State) : Finset Slot :=
  (Finset.range (s.shape.tableBlocks * inodesPerBlock) ×ˢ Finset.univ).filter fun slot =>
    (s.inodeAt slot.1).any (fun inode => inode.valid != 0 && inode.direct slot.2 != 0) = true

/-- The numbers of all inodes of the table, to be removed. -/
def State.removals (s : State) : List ApiCall :=
  (List.range (s.shape.tableBlocks * inodesPerBlock)).map .remove

/-- As many used blocks as pointers; and removing every inode makes every data block free. -/
structure State.LeaksNothing (s : State) : Prop where
  count : s.usedBlocks.card = s.heldSlots.card
  removable : ∃ s', s.applyAll s.removals = .ok s' ∧ ∀ b, s'.IsDataBlock b → s'.isFree b = true

/-- `create`, a `write` to a valid inode, `remove`. -/
def State.ApiCall.OnFiles (s : State) : ApiCall → Prop
  | .create => True
  | .write inumber .. => ∃ inode, s.inodeAt inumber = some inode ∧ inode.valid ≠ 0
  | .remove _ => True
  | .read .. => False
  | .updateSize .. => False

/-- A `write` is behind the fifth block, or to a pointer that is `0`. -/
def State.ApiCall.FirstWrite (s : State) : ApiCall → Prop
  | .write inumber _ _ offset => ∀ inode, s.inodeAt inumber = some inode →
      ∀ hindex : offset / blockSize < 5, inode.direct ⟨offset / blockSize, hindex⟩ = 0
  | _ => True

theorem mem_usedBlocks : b ∈ s.usedBlocks ↔ s.IsDataBlock b ∧ s.IsUsed b := by
  rw [usedBlocks, Finset.mem_filter, Finset.mem_range]
  exact and_iff_right_of_imp fun h => h.1.2

/-- Where inodes that are not valid are empty, the pointers of valid inodes are those that own. -/
theorem mem_heldSlots (hempty : s.InvalidEmpty) (slot : Slot) :
    slot ∈ s.heldSlots ↔ s.ownerOf slot ≠ none := by
  rw [heldSlots, Finset.mem_filter, Finset.mem_product, Finset.mem_range, ownerOf]
  cases hat : s.inodeAt slot.1 with
  | none => simp
  | some inode =>
    have hlt := lt_of_inodeAt hat
    by_cases hzero : inode.direct slot.2 = 0
    · simp [hzero]
    · have hvalid : inode.valid ≠ 0 := fun hvalid => hzero ((hempty _ inode hat hvalid).2 slot.2)
      simp [hzero, hvalid, hlt]

/-- A data block that is marked used and that no inode has. -/
abbrev State.IsLost (s : State) (b : Nat) : Prop := Lost s.ownerOf s.IsUsed s.IsDataBlock b

/-- With a lost block the books do not balance. -/
theorem State.LeaksNothing.not_isLost (h : s.LeaksNothing) (hs : s.Separate)
    (hempty : s.InvalidEmpty) (b : Nat) : ¬ s.IsLost b :=
  ((hs.owners.exact_iff_card (mem_heldSlots hempty) fun _ => mem_usedBlocks).mpr h.count).not_lost b

/-! ## Removing every inode

That is how it shows: what is still marked after every inode has been removed is in no slot, and
never will be. -/

/-- Inodes of the table can be removed, one after the other. -/
theorem removeAll_ok (inumbers : List Nat) :
    ∀ {s : State}, s.Accounted → (∀ n ∈ inumbers, n < s.shape.tableBlocks * inodesPerBlock) →
      ∃ s', s.applyAll (inumbers.map .remove) = .ok s' ∧ s'.Accounted ∧ s'.shape = s.shape
        ∧ ∀ slot : Slot, slot.1 ∈ inumbers ∨ s.ownerOf slot = none → s'.ownerOf slot = none := by
  induction inumbers with
  | nil => exact fun {s} hs _ => ⟨s, rfl, hs, rfl, fun slot h => h.resolve_left List.not_mem_nil⟩
  | cons n rest ih =>
    intro s hs hin
    obtain ⟨inode, hat⟩ := inodeAt_eq_some_of_lt (hin n List.mem_cons_self)
    obtain ⟨s₁, hremove⟩ := remove_ok ⟨hs.mounted.diskSet, hs.small⟩ hat
    obtain ⟨hshape, -, hcleared, hkept, -⟩ := remove_releases hs.separate hremove
    obtain ⟨s', hrun, hs', hshape', hnone⟩ := ih (remove_accounted hs hremove) fun m hm => by
      rw [hshape]
      exact hin m (List.mem_cons_of_mem n hm)
    refine ⟨s', ?_, hs', hshape'.trans hshape, fun slot hslot => hnone slot ?_⟩
    · rw [List.map_cons, applyAll, apply, hremove]
      exact hrun
    · -- the slots of the inode just removed are empty, and stay so
      by_cases hslotn : slot.1 = n
      · exact Or.inr (hcleared slot hslotn)
      · rw [hkept slot hslotn]
        exact hslot.imp_left fun hmem => (List.mem_cons.mp hmem).resolve_left hslotn

/-- **Balanced books** leak nothing. -/
theorem State.Accounted.leaksNothing (hs : s.Accounted) : s.LeaksNothing where
  count :=
    (hs.owners.toSound.exact_iff_card (mem_heldSlots hs.empty) fun _ => mem_usedBlocks).mp hs.owners
  removable := by
    obtain ⟨s', hrun, hs', hshape, hnone⟩ :=
      removeAll_ok (List.range (s.shape.tableBlocks * inodesPerBlock)) hs fun n => List.mem_range.mp
    refine ⟨s', hrun, fun b hdata => Bool.eq_true_of_not_eq_false fun hused => ?_⟩
    obtain ⟨⟨n, k⟩, hown⟩ := hs'.owners.owned hdata hused
    obtain ⟨inode, hat, -⟩ := ownerOf_eq_some_iff.mp hown
    have hlt := lt_of_inodeAt hat
    rw [hshape] at hlt
    rw [hnone (n, k) (Or.inl (List.mem_range.mpr hlt))] at hown
    cases hown

/-! ## One call

A `write` to a slot that owns a block loses that block. Nothing else does, and nothing finds a lost
block again. -/

/-- The calls on files leave invalid inodes empty. -/
theorem apply_invalidEmpty (hm : s.Mounted) (hempty : s.InvalidEmpty) (hcall : call.OnFiles s)
    (h : s.apply call = .ok s') : s'.InvalidEmpty := by
  cases call with
  | create =>
    obtain ⟨_, hcreate⟩ := of_apply h
    rcases of_create hm with ⟨n, inode, heq, hat, -⟩ | ⟨heq, -⟩
    · rw [heq] at hcreate
      cases hcreate
      exact created_invalidEmpty hempty hat
    · rw [heq] at hcreate
      cases hcreate
      exact hempty
  | write n data length offset =>
    obtain ⟨_, hwrite⟩ := of_apply h
    obtain ⟨inode, hat, hvalid⟩ := hcall
    exact write_invalidEmpty hm hempty hat hvalid hwrite
  | remove n =>
    obtain ⟨_, hremove⟩ := of_apply h
    exact remove_invalidEmpty hempty hremove
  | read | updateSize => exact hcall.elim

/-- **A first write** keeps the books. -/
theorem apply_firstWrite (hs : s.Accounted) (hcall : call.OnFiles s) (hfirst : call.FirstWrite s)
    (h : s.apply call = .ok s') : s'.Accounted := by
  cases call with
  | create =>
    obtain ⟨_, hcreate⟩ := of_apply h
    exact (create_sameSlots hs.mounted hcreate).accounted hs
      (apply_invalidEmpty hs.mounted hs.empty hcall h)
  | write n data length offset =>
    obtain ⟨_, hwrite⟩ := of_apply h
    obtain ⟨inode, hat, hvalid⟩ := hcall
    refine write_accounted hs hat hvalid (fun hindex => ?_) hwrite
    rw [ownerOf, hat, Option.bind_some, if_pos (hfirst inode hat hindex)]
  | remove n =>
    obtain ⟨_, hremove⟩ := of_apply h
    exact remove_accounted hs hremove
  | read | updateSize => exact hcall.elim

/-- **A lost block** stays lost. -/
theorem apply_lost (hs : s.Separate) (hcall : call.OnFiles s) (h : s.apply call = .ok s')
    (hlost : s.IsLost b) : s'.IsLost b := by
  have hshape := (apply_afterCall hs h).shape
  -- the data blocks are the same as before
  have hregion : Lost s'.ownerOf s'.IsUsed s.IsDataBlock b → s'.IsLost b := fun hlost =>
    ⟨(isDataBlock_congr hshape b).mpr hlost.inRegion, hlost.marked, hlost.unowned⟩
  apply hregion
  cases call with
  | create =>
    obtain ⟨_, hcreate⟩ := of_apply h
    have hsame := create_sameSlots hs.mounted hcreate
    exact hlost.mono hsame.owners fun hused => (hsame.free b).trans hused
  | write n data length offset =>
    obtain ⟨_, hwrite⟩ := of_apply h
    rcases write_assigns hs hwrite with ⟨hindex, c, -, -, -, hfresh, hself, hothers, hused⟩ | ⟨-, rfl⟩
    · exact hlost.assign hfresh hself hothers hused
    · exact hlost
  | remove n =>
    obtain ⟨_, hremove⟩ := of_apply h
    obtain ⟨-, -, hcleared, hkept, hused⟩ := remove_releases hs hremove
    exact hlost.release hcleared hkept hused
  | read | updateSize => exact hcall.elim

/-- **A write over a pointer** loses the block it was to. -/
theorem apply_overwrites (hs : s.Separate) (hover : ¬ call.FirstWrite s)
    (h : s.apply call = .ok s') : ∃ b, s'.IsLost b := by
  have hshape := (apply_afterCall hs h).shape
  cases call with
  | write n data length offset =>
    obtain ⟨_, hwrite⟩ := of_apply h
    unfold ApiCall.FirstWrite at hover
    push Not at hover
    obtain ⟨inode, hat, hindex, hne⟩ := hover
    have hold : s.ownerOf (n, ⟨offset / blockSize, hindex⟩)
        = some (inode.direct ⟨offset / blockSize, hindex⟩).toNat :=
      ownerOf_eq_some_iff.mpr ⟨inode, hat, hne, rfl⟩
    rcases write_assigns hs hwrite with ⟨_, c, -, -, -, hfresh, hself, hothers, hused⟩ | ⟨hout, -⟩
    · have hlost := Lost.of_assign hs.owners hold hfresh hself hothers hused
      exact ⟨_, (isDataBlock_congr hshape _).mpr hlost.inRegion, hlost.marked, hlost.unowned⟩
    · exact absurd hindex (Nat.not_lt.mpr hout)
  | create | read | remove | updateSize => exact absurd trivial hover

/-! ## A run

So a run leaks nothing exactly if each of its writes is the first to its slot. -/

/-- What is lost on the way is lost at the end. -/
theorem applyAll_lost (hs : s.Separate) (hcalls : Permitted apply ApiCall.OnFiles s calls)
    (h : s.applyAll calls = .ok s') (hlost : s.IsLost b) : s'.IsLost b := by
  rw [applyAll_eq] at h
  refine (hcalls.keeps (P := fun s' : State => s'.Separate ∧ s'.IsLost b)
    (fun {s₁ call s₂} hcall hs₁ hreturns => ?_) ⟨hs, hlost⟩ h).2
  exact ⟨(apply_afterCall hs₁.1 hreturns).separate, apply_lost hs₁.1 hcall hreturns hs₁.2⟩

theorem applyAll_invalidEmpty (hs : s.Separate) (hempty : s.InvalidEmpty)
    (hcalls : Permitted apply ApiCall.OnFiles s calls) (h : s.applyAll calls = .ok s') :
    s'.InvalidEmpty := by
  rw [applyAll_eq] at h
  refine (hcalls.keeps (P := fun s' : State => s'.Separate ∧ s'.InvalidEmpty)
    (fun {s₁ call s₂} hcall hs₁ hreturns => ?_) ⟨hs, hempty⟩ h).2
  exact ⟨(apply_afterCall hs₁.1 hreturns).separate,
    apply_invalidEmpty hs₁.1.mounted hs₁.2 hcall hreturns⟩

/-- **First writes only**: the books are kept. -/
theorem applyAll_accounted (hs : s.Accounted) (hcalls : Permitted apply ApiCall.OnFiles s calls)
    (hfirst : Permitted apply ApiCall.FirstWrite s calls) (h : s.applyAll calls = .ok s') :
    s'.Accounted := by
  rw [applyAll_eq] at h
  exact (hcalls.and hfirst).keeps (fun hcall hs₁ hreturns =>
    apply_firstWrite hs₁ hcall.1 hcall.2 hreturns) hs h

/-- **Another write on the way**: a block is lost. Induction on the calls. -/
theorem firstWrites_of_none_lost {calls : List ApiCall} :
    ∀ {s s' : State}, s.Separate → Permitted apply ApiCall.OnFiles s calls →
      s.applyAll calls = .ok s' → (∀ b, ¬ s'.IsLost b) →
      Permitted apply ApiCall.FirstWrite s calls := by
  induction calls with
  | nil => exact fun _ _ _ _ => trivial
  | cons call rest ih =>
    intro s s' hs hcalls h hnone
    obtain ⟨s₁, hcall, h⟩ := of_bind_eq_ok h
    have hs₁ := (apply_afterCall hs hcall).separate
    refine ⟨?_, fun s₂ hcall₂ => ?_⟩
    · by_contra hover
      obtain ⟨b, hlost⟩ := apply_overwrites hs hover hcall
      exact hnone b (applyAll_lost hs₁ (hcalls.2 s₁ hcall) h hlost)
    · rw [hcall] at hcall₂
      cases hcall₂
      exact ih hs₁ (hcalls.2 s₁ hcall) h hnone

/-- **Headline.** From a mounted clean image, after any calls of `create`, `write` to valid inodes
and `remove` that return: nothing has leaked exactly if no write of the run was over a pointer. -/
theorem leaksNothing_iff {blocks : UInt32} {image : Bytes.Image} {s₀ : State}
    (hclean : CleanImage (State.start blocks image).disk)
    (hmount : (State.start blocks image).mount = .ok (true, s₀))
    (hcalls : Permitted apply ApiCall.OnFiles s₀ calls)
    (hrun : s₀.applyAll calls = .ok s) :
    s.LeaksNothing ↔ Permitted apply ApiCall.FirstWrite s₀ calls := by
  have haccounted := (of_mount hmount).2.accounted hclean
  have hs := haccounted.separate
  constructor
  · intro h
    have hempty := applyAll_invalidEmpty hs haccounted.empty hcalls hrun
    exact firstWrites_of_none_lost hs hcalls hrun (h.not_isLost (applyAll_separate hs hrun).1 hempty)
  · intro hfirst
    exact (applyAll_accounted haccounted hcalls hfirst hrun).leaksNothing

/-- The first file of the small disk written once, and written again. -/
theorem smallDisk_writes : ∃ s₀ s₁ s₂ inode inode₁,
    (State.start 4 (smallImage 1)).mount = .ok (true, s₀)
      ∧ s₀.inodeAt 0 = some inode ∧ inode.valid ≠ 0 ∧ (∀ k, inode.direct k = 0)
      ∧ s₀.apply (.write 0 zeroBuffer 4096 0) = .ok s₁ ∧ s₁.inodeAt 0 = some inode₁ ∧ inode₁.valid ≠ 0
      ∧ s₁.apply (.write 0 zeroBuffer 4096 0) = .ok s₂ ∧ s₁.Separate ∧ inode₁.direct 0 ≠ 0 := by
  have hclean : CleanImage (State.start 4 (smallImage 1)).disk :=
    smallDisk_clean (by decide) (by decide) 1
  obtain ⟨s₀, inode, hmount, hm, -, hat, hvalid, hempty, henough⟩ := smallDisk_ready
  have hs₀ := ((of_mount hmount).2.separate hclean).1
  have hzero : 0 / blockSize < pointersPerInode := by decide
  have hwrite {s : State} {inode : Inode} (hm : s.Mounted) (hat : s.inodeAt 0 = some inode)
      (henough : 0 < s.freeBlocks.card) : ∃ s', s.write 0 zeroBuffer 4096 0 = .ok (blockSize, s') := by
    obtain ⟨b, hb⟩ := Finset.card_pos.mp henough
    exact write_ok hm hat hzero ⟨b, mem_freeBlocks.mp hb⟩ zeroBuffer 4096
  -- two writes to one slot, with a free block for each
  obtain ⟨s₁, hfirst⟩ := hwrite hm hat (by omega)
  have hs₁ := (write_afterCall hs₀ hfirst).separate
  obtain ⟨inode₁, hat₁, hvalid₁⟩ := (write_inodeAt hm hfirst).2 inode hat
  have hcard := write_freeBlocks hm hzero hfirst
  obtain ⟨s₂, hsecond⟩ := hwrite hs₁.mounted hat₁ (by omega)
  refine ⟨s₀, s₁, s₂, inode, inode₁, hmount, hat, hvalid, hempty, by rw [apply, hfirst]; rfl, hat₁,
    hvalid₁ ▸ hvalid, by rw [apply, hsecond]; rfl, hs₁, ?_⟩
  rcases write_assigns hs₀ hfirst with ⟨hindex, b, -, -, -, -, hself, -, -⟩ | ⟨hout, -⟩
  · obtain ⟨inode', hat', hne, -⟩ := ownerOf_eq_some_iff.mp hself
    rw [hat₁] at hat'
    cases hat'
    exact hne
  · exact absurd hout (by decide)

/-- A file written once. -/
theorem leaksNothing_written_once : ∃ s₀ s₁, (State.start 4 (smallImage 1)).mount = .ok (true, s₀)
    ∧ s₀.applyAll [.write 0 zeroBuffer 4096 0] = .ok s₁ ∧ s₁.LeaksNothing := by
  have hclean : CleanImage (State.start 4 (smallImage 1)).disk :=
    smallDisk_clean (by decide) (by decide) 1
  obtain ⟨s₀, s₁, -, inode, -, hmount, hat, hvalid, hempty, hfirst, -⟩ := smallDisk_writes
  have hrun : s₀.applyAll [.write 0 zeroBuffer 4096 0] = .ok s₁ := by
    rw [applyAll, hfirst]
    rfl
  have hfirstWrite : ApiCall.FirstWrite s₀ (.write 0 zeroBuffer 4096 0) := by
    intro inode' hat' _
    rw [hat] at hat'
    cases hat'
    exact hempty _
  have hcalls : Permitted apply ApiCall.OnFiles s₀ [.write 0 zeroBuffer 4096 0] :=
    ⟨⟨inode, hat, hvalid⟩, fun _ _ => trivial⟩
  exact ⟨s₀, s₁, hmount, hrun,
    (leaksNothing_iff hclean hmount hcalls hrun).mpr ⟨hfirstWrite, fun _ _ => trivial⟩⟩

/-- **The block not given back**: a file written twice has one block, and two are marked used. -/
theorem rewrite_leaks :
    (∃ s₀ s₂, (State.start 4 (smallImage 1)).mount = .ok (true, s₀)
        ∧ s₀.applyAll [.write 0 zeroBuffer 4096 0, .write 0 zeroBuffer 4096 0] = .ok s₂
        ∧ ∃ b, s₂.IsLost b)
      ∧ ¬ ∀ (blocks : UInt32) (image : Bytes.Image) (s₀ s : State) (calls : List ApiCall),
        CleanImage (State.start blocks image).disk →
        (State.start blocks image).mount = .ok (true, s₀) → Permitted apply ApiCall.OnFiles s₀ calls →
        s₀.applyAll calls = .ok s → s.LeaksNothing := by
  have hclean : CleanImage (State.start 4 (smallImage 1)).disk :=
    smallDisk_clean (by decide) (by decide) 1
  obtain ⟨s₀, s₁, s₂, inode, inode₁, hmount, hat, hvalid, -, hfirst, hat₁, hvalid₁, hsecond, hs₁, hne⟩ :=
    smallDisk_writes
  have hrun : s₀.applyAll [.write 0 zeroBuffer 4096 0, .write 0 zeroBuffer 4096 0] = .ok s₂ := by
    rw [applyAll, hfirst, ok_bind, applyAll, hsecond]
    rfl
  -- the second write is not the first to its slot
  have hover : ¬ ApiCall.FirstWrite s₁ (.write 0 zeroBuffer 4096 0) := fun h =>
    hne (h inode₁ hat₁ (by decide))
  obtain ⟨b, hlost⟩ := apply_overwrites hs₁ hover hsecond
  refine ⟨⟨s₀, s₂, hmount, hrun, b, hlost⟩, fun hall => ?_⟩
  have hcalls : Permitted apply ApiCall.OnFiles s₀
      [.write 0 zeroBuffer 4096 0, .write 0 zeroBuffer 4096 0] := by
    refine ⟨⟨inode, hat, hvalid⟩, fun s' h => ⟨?_, fun _ _ => trivial⟩⟩
    rw [hfirst] at h
    cases h
    exact ⟨inode₁, hat₁, hvalid₁⟩
  have haccounted := (of_mount hmount).2.accounted hclean
  have hempty := applyAll_invalidEmpty haccounted.separate haccounted.empty hcalls hrun
  have hs₂ := (applyAll_separate haccounted.separate hrun).1
  exact (hall 4 (smallImage 1) s₀ s₂ _ hclean hmount hcalls hrun).not_isLost hs₂ hempty b hlost

end OsLab.Sfs
