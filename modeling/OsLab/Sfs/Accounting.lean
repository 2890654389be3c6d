import OsLab.Sfs.Isolation
import OsLab.Sfs.Session

/-!
# OsLab.Sfs.Accounting — every used block has an owner

Sessions of `copyin`, `remove`, `cat`, `copyout`, `stat` and `ls` after the mount of a clean
image.

* **`Accounted`**: the slots are separate, every data block marked used is in a slot, and
  inodes that are not valid are empty. It holds after the mount (`IsMount.accounted`).
* every call keeps it as the commands make it: `create` takes an empty inode; a write of
  `copyin` fills a slot that was empty (`Filling`), so no block is lost; `remove` gives back
  what it clears.
* **`accounting`** is the headline.
-/

namespace OsLab.Sfs

open Fallible Ownership

namespace State

variable {s s' : State} {n : Nat}

/-! ## The invariant

Besides the marks of the bitmap and the owners of blocks, which `Ownership` has in general, it is
needed that an inode that is not valid points nowhere. `create` does not clear the pointers of the
inode it takes, so they must have been clear. -/

/-- An inode that is not valid is an empty file. -/
def InvalidEmpty (s : State) : Prop :=
  ∀ n inode, s.inodeAt n = some inode → inode.valid = 0 → inode.size = 0 ∧ ∀ k, inode.direct k = 0

structure Accounted (s : State) : Prop where
  mounted : s.Mounted
  small : s.shape.blocks.toNat ≤ 4096
  owners : Exact s.ownerOf s.IsUsed s.IsDataBlock
  empty : s.InvalidEmpty

theorem Accounted.separate (h : s.Accounted) : s.Separate := ⟨h.mounted, h.small, h.owners.toSound⟩

/-- Emptiness is a matter of the inodes that changed. -/
theorem InvalidEmpty.of_others (h : s.InvalidEmpty) (hothers : ∀ m, m ≠ n → s'.inodeAt m = s.inodeAt m)
    (hself : ∀ inode, s'.inodeAt n = some inode → inode.valid = 0 →
      inode.size = 0 ∧ ∀ k, inode.direct k = 0) : s'.InvalidEmpty := by
  intro m inode hat hvalid
  by_cases hmn : m = n
  · subst hmn
    exact hself inode hat hvalid
  · exact h m inode (hothers m hmn ▸ hat) hvalid

/-- After a step that keeps the shape, the owners and the invalid inodes are left to show. -/
theorem Accounted.of_shape (h : s.Accounted) (hshape : s'.shape = s.shape)
    (howners : Exact s'.ownerOf s'.IsUsed s.IsDataBlock) (hempty : s'.InvalidEmpty) :
    s'.Accounted where
  mounted := h.mounted.of_shape hshape
  small := by
    rw [hshape]
    exact h.small
  owners := by
    show Exact _ _ s'.shape.IsDataBlock
    rw [hshape]
    exact howners
  empty := hempty

theorem SameSlots.accounted (h : SameSlots s s') (hs : s.Accounted) (hempty : s'.InvalidEmpty) :
    s'.Accounted :=
  hs.of_shape h.shape (hs.owners.congr h.owners fun b => by rw [IsUsed, h.free]) hempty

/-- **After a mount** of a clean image by a new `FileSystem`, whose bitmap is all free. -/
theorem IsMount.accounted {blocks : UInt32} {image : Bytes.Image}
    (h : IsMount (State.start blocks image) s) (hclean : CleanImage (State.start blocks image).disk) :
    s.Accounted := by
  obtain ⟨hs, hempty⟩ := h.separate hclean
  refine ⟨hs.mounted, hs.small, ⟨hs.owners, fun b hdata hused => ?_⟩, hempty⟩
  have hstart : (State.start blocks image).isFree b = true := dif_pos (hs.lt_of_isDataBlock hdata)
  have hnot : ¬ s.isFree b = true := by
    rw [hused]
    decide
  have howned : ImageOwned (State.start blocks image).disk s.shape.tableBlocks b := by
    by_contra hnone
    exact hnot ((h.free b).mpr ⟨hstart, fun hand => hnone hand.2⟩)
  obtain ⟨n, inode, k, hat, -, hk⟩ := (h.imageOwned_iff b).mp howned
  refine ⟨(n, k), ownerOf_eq_some_iff.mpr ⟨inode, hat, fun hzero => ?_, hk⟩⟩
  rw [hzero] at hk
  exact IsDataBlock.ne_zero hs.mounted hdata hk.symm

/-! ## Calls

Each call of the interface keeps the invariant by itself, but for a write to a slot that already
owns a block: it would be overwritten, and its block lost. The commands make no such call. -/

/-- The inode taken is valid now, and the others are as they were. -/
theorem created_invalidEmpty (hempty : s.InvalidEmpty) {inode : Inode} (hat : s.inodeAt n = some inode) :
    (s.created n inode).InvalidEmpty := by
  refine hempty.of_others (fun m => created_inodeAt_of_ne) fun inode' hat' hvalid => ?_
  rw [created_inodeAt_self hat] at hat'
  cases hat'
  cases hvalid

/-- `create` touches no pointer and no mark. -/
theorem created_accounted (hs : s.Accounted) {inode : Inode} (hat : s.inodeAt n = some inode) :
    (s.created n inode).Accounted :=
  (created_sameSlots hat).accounted hs (created_invalidEmpty hs.empty hat)

/-- A write to a valid inode leaves it valid, so the empty ones are among the others. -/
theorem write_invalidEmpty (hm : s.Mounted) (hempty : s.InvalidEmpty) {inode : Inode}
    (hat : s.inodeAt n = some inode) (hvalid : inode.valid ≠ 0) {data : Block}
    {length offset total : Nat} (h : s.write n data length offset = .ok (total, s')) :
    s'.InvalidEmpty := by
  obtain ⟨hothers, hself⟩ := write_inodeAt hm h
  obtain ⟨inode', hat', hvalid'⟩ := hself inode hat
  refine hempty.of_others hothers fun inode'' hat'' hzero => ?_
  rw [hat'] at hat''
  cases hat''
  exact absurd (hvalid' ▸ hzero) hvalid

/-- A write to a slot that holds nothing. -/
theorem write_accounted (hs : s.Accounted) {inode : Inode} (hat : s.inodeAt n = some inode)
    (hvalid : inode.valid ≠ 0) {data : Block} {length offset total : Nat}
    (hnone : ∀ hindex : offset / blockSize < 5, s.ownerOf (n, ⟨offset / blockSize, hindex⟩) = none)
    (h : s.write n data length offset = .ok (total, s')) : s'.Accounted := by
  rcases write_assigns hs.separate h with
    ⟨hindex, b, hshape, -, hdata, hfresh, hself, hothers, hused⟩ | ⟨-, rfl⟩
  · exact hs.of_shape hshape (hs.owners.assign (hnone hindex) hfresh hdata hself hothers hused)
      (write_invalidEmpty hs.mounted hs.empty hat hvalid h)
  · exact hs

/-- The size is no concern of the blocks. -/
theorem updateSize_accounted (hs : s.Accounted) {inode : Inode} (hat : s.inodeAt n = some inode)
    (hvalid : inode.valid ≠ 0) {size : Nat} (h : s.updateSize n size = .ok s') : s'.Accounted := by
  refine (updateSize_sameSlots h).accounted hs ?_
  obtain ⟨inode', hat', rfl⟩ := of_updateSize h
  refine hs.empty.of_others (fun m => setINode_inodeAt_of_ne) fun inode'' hat'' hvalid'' => ?_
  rw [hat] at hat'
  cases hat'
  rw [setINode_inodeAt_self (lt_of_inodeAt hat)] at hat''
  cases hat''
  exact absurd hvalid'' hvalid

/-- A read marks the block that it reads, which is in use already. -/
theorem read_accounted (hs : s.Accounted) {data data' : Block} {length offset total : Nat}
    (h : s.read n data length offset = .ok (total, data', s')) : s'.Accounted := by
  refine (read_sameSlots hs.separate h).accounted hs ?_
  obtain ⟨inode, -, ⟨-, -, -, -, rfl, -⟩ | ⟨-, -, -, rfl⟩⟩ := of_read h
  · exact hs.empty
  · exact hs.empty

/-- The inode removed has no pointers left. -/
theorem remove_invalidEmpty (hempty : s.InvalidEmpty) {r : Bool} (h : s.remove n = .ok (r, s')) :
    s'.InvalidEmpty := by
  obtain ⟨-, inode, hat, -, -, -, hself, hothers, -⟩ := of_remove h
  refine hempty.of_others hothers fun inode' hat' _ => ?_
  rw [hself] at hat'
  cases hat'
  exact ⟨rfl, fun _ => rfl⟩

theorem remove_accounted (hs : s.Accounted) {r : Bool} (h : s.remove n = .ok (r, s')) :
    s'.Accounted := by
  obtain ⟨hshape, -, hcleared, hkept, hused⟩ := remove_releases hs.separate h
  exact hs.of_shape hshape (hs.owners.release hcleared hkept fun c _ => hused c)
    (remove_invalidEmpty hs.empty h)

/-! ## Filling a file

`copyin` writes a file block after block into an inode that it has just created. So each write goes
to a slot that is still empty, and this is what the invariant of its loop says. -/

/-- While `copyin` fills inode `n`: the slots it has yet to reach are empty. -/
structure Filling (n : Nat) (s : State) (offset : Nat) (stream : List UInt8) : Prop where
  accounted : s.Accounted
  valid : ∃ inode, s.inodeAt n = some inode ∧ inode.valid ≠ 0
  ahead : stream ≠ [] → offset % blockSize = 0
    ∧ ∀ k : Fin 5, offset / blockSize ≤ k → s.ownerOf (n, k) = none

/-- One round of the loop. The last one may be shorter, but then there is none after it. -/
theorem Filling.round {offset : Nat} {stream : List UInt8} (h : Filling n s offset stream)
    (hne : stream ≠ []) {data : Block} {length total : Nat}
    (hwrite : s.write n data length offset = .ok (total, s')) :
    Filling n s' (offset + min blockSize stream.length) (stream.drop blockSize) := by
  have hs := h.accounted
  obtain ⟨haligned, hahead⟩ := h.ahead hne
  obtain ⟨inode, hat, hvalid⟩ := h.valid
  obtain ⟨inode', hat', hvalid'⟩ := (write_inodeAt hs.mounted hwrite).2 inode hat
  -- another round follows a full block only
  have hnext : stream.drop blockSize ≠ [] → (offset + min blockSize stream.length) % blockSize = 0
      ∧ (offset + min blockSize stream.length) / blockSize = offset / blockSize + 1 := by
    intro hmore
    have hlonger : blockSize < stream.length := by
      by_contra hle
      exact hmore (List.drop_eq_nil_of_le (by omega))
    unfold blockSize at *
    omega
  refine ⟨?_, ⟨inode', hat', hvalid' ▸ hvalid⟩, fun hmore => ?_⟩
  · exact write_accounted hs hat hvalid (fun _ => hahead _ (Nat.le_refl _)) hwrite
  · obtain ⟨haligned', hindex'⟩ := hnext hmore
    refine ⟨haligned', fun k hk => ?_⟩
    rw [hindex'] at hk
    rcases write_assigns hs.separate hwrite with ⟨hindex, b, -, -, -, -, -, hothers, -⟩ |
      ⟨-, rfl⟩
    · -- later slots are not the one just filled
      have hslot : (n, k) ≠ (n, ⟨offset / blockSize, hindex⟩) := fun heq => by
        have hk' : (k : Nat) = offset / blockSize := congrArg (fun slot : Slot => (slot.2 : Nat)) heq
        omega
      rw [hothers _ hslot]
      exact hahead k (by omega)
    · exact hahead k (by omega)

end State

open State

variable {s s' : State} {n : Nat}

/-! ## Commands

A command on files is made of calls that keep the invariant; `copyin` is the only one that writes.
-/

/-- `copyin` creates an inode, or fails, and then fills it. -/
theorem doCopyin_accounted (hs : s.Accounted) {source : Option (List UInt8)} {printed : List Message}
    (h : doCopyin s source = .ok (n, printed, s')) : s'.Accounted := by
  rcases of_doCopyin hs.mounted h with
    ⟨inode, hat, hvalid, -, ⟨rfl, -⟩ | ⟨stream, offset, more, s₁, -, hloop, hsize, -⟩⟩ | ⟨rfl, -⟩
  · exact created_accounted hs hat
  · have hempty : ∀ k, s.ownerOf (n, k) = none := fun k => by
      rw [ownerOf, hat, Option.bind_some, if_pos ((hs.empty n inode hat hvalid).2 k)]
    have hstart : Filling n (s.created n inode) 0 stream :=
      ⟨created_accounted hs hat, ⟨_, created_inodeAt_self hat, fun hzero => by cases hzero⟩,
        fun _ => ⟨rfl, fun k _ => ((created_sameSlots hat).owners (n, k)).trans (hempty k)⟩⟩
    obtain ⟨rest, hfilled, -⟩ := copyinLoop_rule (Q := Filling n)
      (fun hfilling => hfilling.accounted.mounted)
      (fun hfilling hne _ hwrite => hfilling.round hne hwrite) stream hstart hloop
    obtain ⟨inode', hat', hvalid'⟩ := hfilled.valid
    exact updateSize_accounted hfilled.accounted hat' hvalid' hsize
  · exact hs

theorem exec_accounted (hs : s.Accounted) {command : Command} (hfile : command.isFile = true)
    {printed : List Message} (h : exec s command = .ok (printed, s')) : s'.Accounted := by
  rcases of_exec hs.mounted hfile h with
    ⟨_, _, -, hcopyin⟩ | ⟨_, -, hremove⟩ | ⟨_, _, _, hcopyout⟩ | rfl
  · exact doCopyin_accounted hs hcopyin
  · exact remove_accounted hs hremove
  · exact (copyoutLoop_rule (P := Accounted) (fun hs hread => read_accounted hs hread)
      _ rfl rfl hs hcopyout).1
  · exact hs

/-! ## The headline

The invariant is put into the words of the bitmap: a mark in it, and a slot that holds the block. -/

/-- To own a data block is to be a slot of a valid inode that points to it. -/
theorem State.Accounted.ownerOf_eq_some_iff_holds (hs : s.Accounted) {slot : Slot} {b : Nat}
    (hdata : s.IsDataBlock b) : s.ownerOf slot = some b ↔ s.Holds slot b := by
  refine ⟨fun hown => ?_, fun ⟨inode, hat, _, hb⟩ => ?_⟩
  · obtain ⟨inode, hat, hne, hb⟩ := ownerOf_eq_some_iff.mp hown
    exact ⟨inode, hat, fun hvalid => hne ((hs.empty slot.1 inode hat hvalid).2 slot.2), hb⟩
  · refine ownerOf_eq_some_iff.mpr ⟨inode, hat, fun hzero => ?_, hb⟩
    rw [hzero] at hb
    exact IsDataBlock.ne_zero hs.mounted hdata hb.symm

/-- **Headline.** From a mounted clean image, after any commands on files: a data block is
marked used exactly if one slot of one valid inode holds it, pointers are `0` or name data
blocks, and inodes that are not valid are empty. -/
theorem accounting {blocks : UInt32} {image : Bytes.Image} {s₀ : State} {commands : List Command}
    (hclean : CleanImage (State.start blocks image).disk)
    (hmount : (State.start blocks image).mount = .ok (true, s₀))
    (hfile : ∀ command ∈ commands, command.isFile = true) (hrun : execAll s₀ commands = .ok s) :
    (∀ b, s₀.fs.superBlock.inodeBlocks.toNat + 1 ≤ b → b < blocks.toNat →
        (s.isFree b = false ↔ ∃! slot, s.Holds slot b))
      ∧ (∀ n inode k, s.inodeAt n = some inode → inode.direct k = 0
          ∨ s₀.fs.superBlock.inodeBlocks.toNat + 1 ≤ (inode.direct k).toNat
            ∧ (inode.direct k).toNat < blocks.toNat)
      ∧ s.InvalidEmpty := by
  have hismount := (of_mount hmount).2
  -- every command keeps the invariant and the shape
  obtain ⟨hs, hshape⟩ : s.Accounted ∧ s.shape = s₀.shape := by
    refine execAll_keeps (P := fun s => s.Accounted ∧ s.shape = s₀.shape)
      (fun {s₁ s₂ command printed} hmem hs hexec => ?_) ⟨hismount.accounted hclean, rfl⟩ hrun
    exact ⟨exec_accounted hs.1 (hfile command hmem) hexec,
      (exec_shape hs.1.mounted (hfile command hmem) hexec).trans hs.2⟩
  have hdata : ∀ b, s.IsDataBlock b
      ↔ s₀.fs.superBlock.inodeBlocks.toNat + 1 ≤ b ∧ b < blocks.toNat := by
    intro b
    rw [isDataBlock_congr hshape, hismount.isDataBlock_iff, hismount.superBlock]
    rfl
  refine ⟨fun b hge hlt => ?_, fun n inode k hat => ?_, hs.empty⟩
  · -- marked exactly if owned, and owned once
    have hb := (hdata b).mpr ⟨hge, hlt⟩
    refine ⟨fun hused => ?_, fun ⟨slot, hholds, _⟩ => ?_⟩
    · obtain ⟨slot, hown⟩ := hs.owners.owned hb hused
      refine ⟨slot, (hs.ownerOf_eq_some_iff_holds hb).mp hown, fun slot' hholds => ?_⟩
      exact hs.owners.injective ((hs.ownerOf_eq_some_iff_holds hb).mpr hholds) hown
    · exact hs.owners.marked ((hs.ownerOf_eq_some_iff_holds hb).mpr hholds)
  · -- a pointer that is set owns its block, wherever the inode stands
    by_cases hzero : inode.direct k = 0
    · exact Or.inl hzero
    · exact Or.inr ((hdata _).mp (hs.owners.inRegion
        (ownerOf_eq_some_iff.mpr ⟨inode, hat, hzero, rfl⟩)))

/-- A file copied in and removed. -/
theorem accounting_copyin_remove : ∃ s₀ s,
    (State.start 4 (smallImage 0)).mount = .ok (true, s₀)
      ∧ execAll s₀ [.copyin (some [65]), .remove 0] = .ok s
      ∧ (∀ b, s₀.fs.superBlock.inodeBlocks.toNat + 1 ≤ b → b < 4 →
        (s.isFree b = false ↔ ∃! slot, s.Holds slot b)) := by
  have hclean : CleanImage (State.start 4 (smallImage 0)).disk :=
    smallDisk_clean (by decide) (by decide) 0
  obtain ⟨s₀, -, -, s, hmount, -, -, -, hrun⟩ := smallDisk_copyin_remove
  exact ⟨s₀, s, hmount, hrun, (accounting hclean hmount (by decide) hrun).1⟩

end OsLab.Sfs
