import OsLab.Sfs.CopyIn

/-!
# OsLab.Sfs.Secrecy — a file depends on nothing but its contents

Two sessions side by side, on disks with the same superblock and the same inode table but any
data, and with the same commands but for the contents of what is copied in.

* **`SameFiles`**: the same inodes are in use. Both sessions keep it (`exec_sameFiles`), so
  they take the same inode for the same file.
* **`doCopyin_view`**: a file copied in holds what its contents alone determine, the padding
  behind its end included; commands that do not remove it leave it that way (`exec_view`).
* **`secrecy`** is the headline.
-/

namespace OsLab.Sfs

open Fallible FirstFit State

variable {s s' t t' : State} {n m : Nat} {c : List UInt8} {printed : List Message}

/-! ## Inodes in use

Which number a file gets depends on which inodes are valid, and on nothing else. So that is all that
has to be followed. -/

def State.validAt (s : State) (n : Nat) : Option UInt32 := (s.inodeAt n).map Inode.valid

theorem validAt_eq_some {inode : Inode} (hat : s.inodeAt n = some inode) :
    s.validAt n = some inode.valid := by
  rw [validAt, hat]
  rfl

/-- The inode `create` takes. -/
def State.FirstFree (s : State) (n : Nat) : Prop :=
  s.validAt n = some 0 ∧ ∀ m < n, s.validAt m ≠ some 0

/-- It is the one that `getNextFreeINode` finds. -/
theorem firstFree_iff (hm : s.Mounted) :
    s.FirstFree n ↔ ∃ inode, s.getNextFreeINode = .ok (some (n, inode)) := by
  obtain ⟨r, hr, hsome, hnone⟩ := of_getNextFreeINode hm
  have hzero : ∀ m, s.validAt m = some 0 → ∃ inode, s.inodeAt m = some inode ∧ inode.valid = 0 :=
    fun m hvalid => Option.map_eq_some_iff.mp hvalid
  constructor
  · rintro ⟨hvalid, hbefore⟩
    obtain ⟨inode, hat, hinvalid⟩ := hzero n hvalid
    cases r with
    | none => exact absurd hinvalid (hnone rfl n inode hat)
    | some found =>
      obtain ⟨m, inode'⟩ := found
      obtain ⟨hat', hinvalid', hfirst⟩ := hsome m inode' rfl
      -- what is found is the first, so it is the same
      have hmn : m = n := by
        refine Nat.le_antisymm (Nat.le_of_not_lt fun hlt => hfirst n inode hlt hat hinvalid)
          (Nat.le_of_not_lt fun hlt => hbefore m hlt ?_)
        rw [validAt_eq_some hat', hinvalid']
      subst hmn
      exact ⟨inode', hr⟩
  · rintro ⟨inode, hnext⟩
    rw [hr] at hnext
    cases hnext
    obtain ⟨hat, hinvalid, hfirst⟩ := hsome n inode rfl
    refine ⟨by rw [validAt_eq_some hat, hinvalid], fun m hlt hvalid => ?_⟩
    obtain ⟨inode', hat', hinvalid'⟩ := hzero m hvalid
    exact hfirst m inode' hlt hat' hinvalid'

/-- Only one inode is the first. -/
theorem State.FirstFree.unique (hn : s.FirstFree n) (hm : s.FirstFree m) : n = m :=
  Nat.le_antisymm (Nat.le_of_not_lt fun hlt => hn.2 m hlt hm.1)
    (Nat.le_of_not_lt fun hlt => hm.2 n hlt hn.1)

/-- An inode replaced by one with the same `Valid`. -/
theorem setINode_validAt {inode : Inode} (inode' : Inode) (hat : s.inodeAt n = some inode)
    (hvalid : inode'.valid = inode.valid) (m : Nat) :
    (s.setINode n inode').validAt m = s.validAt m := by
  by_cases hmn : m = n
  · rw [hmn, validAt_eq_some (setINode_inodeAt_self (lt_of_inodeAt hat)), validAt_eq_some hat, hvalid]
  · rw [validAt, setINode_inodeAt_of_ne hmn, validAt]

theorem write_validAt (hm : s.Mounted) {data : Block} {length offset total : Nat}
    (h : s.write n data length offset = .ok (total, s')) (m : Nat) : s'.validAt m = s.validAt m := by
  rcases of_write hm h with ⟨p, inode, -, -, -, -, -, hat, -, rfl⟩ | ⟨-, -, rfl⟩
  · exact setINode_validAt (setPointer inode (offset / blockSize) p) hat rfl m
  · rfl

/-- **A `copyin` command** takes the first free inode, whatever becomes of the file. -/
theorem doCopyin_validAt (hm : s.Mounted) {source : Option (List UInt8)}
    (h : doCopyin s source = .ok (n, printed, s')) :
    (s.FirstFree n ∧ ∀ m, s'.validAt m = if m = n then some 1 else s.validAt m)
      ∨ (∀ m, ¬ s.FirstFree m) ∧ s' = s := by
  rcases of_doCopyin hm h with ⟨inode, hat, hinvalid, hnext, hcase⟩ | ⟨rfl, -, hfull⟩
  · refine Or.inl ⟨(firstFree_iff hm).mpr ⟨inode, hnext⟩, ?_⟩
    have hcreated : ∀ m, (s.created n inode).validAt m = if m = n then some 1 else s.validAt m := by
      intro m
      by_cases hmn : m = n
      · rw [if_pos hmn, hmn, validAt_eq_some (created_inodeAt_self hat)]
      · rw [if_neg hmn, validAt, created_inodeAt_of_ne hmn, validAt]
    rcases hcase with ⟨rfl, -⟩ | ⟨stream, offset, more, s₁, -, hloop, hsize, -⟩
    · exact hcreated
    · -- writing the file changes pointers and the size
      obtain ⟨rest, ⟨-, hvalid⟩, -⟩ := copyinLoop_rule
        (Q := fun s₁ _ _ => s₁.Mounted ∧ ∀ m, s₁.validAt m = (s.created n inode).validAt m)
        (fun hQ => hQ.1)
        (fun hQ _ _ hwrite => ⟨hQ.1.of_shape (write_shape hQ.1 hwrite),
          fun m => (write_validAt hQ.1 hwrite m).trans (hQ.2 m)⟩)
        stream ⟨hm.of_shape created_shape, fun _ => rfl⟩ hloop
      obtain ⟨inode', hat', rfl⟩ := of_updateSize hsize
      intro m
      rw [← hcreated, ← hvalid]
      exact setINode_validAt { inode' with size := UInt32.ofNat offset } hat' rfl m
  · refine Or.inr ⟨fun m hfirst => ?_, rfl⟩
    obtain ⟨inode, hat, hinvalid⟩ := Option.map_eq_some_iff.mp hfirst.1
    exact hfull m inode hat hinvalid

theorem remove_validAt {r : Bool} (h : s.remove n = .ok (r, s')) (m : Nat) :
    s'.validAt m = if m = n then some 0 else s.validAt m := by
  obtain ⟨-, inode, -, -, -, -, hself, hothers, -⟩ := of_remove h
  by_cases hmn : m = n
  · rw [if_pos hmn, hmn, validAt_eq_some hself]
    rfl
  · rw [if_neg hmn, validAt, hothers m hmn, validAt]

/-- The loop of `copyout` changes no inode. -/
theorem copyoutLoop_inodeAt {buffer : Block} {written : List UInt8} {offset : Nat}
    (h : copyoutLoop n s buffer 0 = .ok (written, offset, s')) (m : Nat) :
    s'.inodeAt m = s.inodeAt m := by
  refine (copyoutLoop_rule (P := fun s₁ => s₁.inodeAt m = s.inodeAt m) (fun hP hread => ?_)
    _ rfl rfl rfl h).1
  obtain ⟨_, -, ⟨-, -, -, -, rfl, -⟩ | ⟨-, -, -, rfl⟩⟩ := of_read hread
  · exact hP
  · exact hP

/-! ## Two sessions

The contents are never looked at: they decide how many blocks are taken, but not which inode. So two
sessions that differ in contents only keep the same inodes in use. -/

/-- The same inodes are in use in both states. -/
structure SameFiles (s t : State) : Prop where
  superBlock : t.fs.superBlock = s.fs.superBlock
  validAt : ∀ n, t.validAt n = s.validAt n

/-- The same command, up to the contents of what is copied in. -/
inductive Alike : Command → Command → Prop
  | copyin (c d : List UInt8) : Alike (.copyin (some c)) (.copyin (some d))
  | same {command : Command} (hfile : command.isFile = true) : Alike command command

theorem Alike.isFile {command command' : Command} (h : Alike command command') :
    command.isFile = true ∧ command'.isFile = true := by
  cases h with
  | copyin c d => exact ⟨rfl, rfl⟩
  | same hfile => exact ⟨hfile, hfile⟩

/-- The same inode is the first free one. -/
theorem SameFiles.firstFree (h : SameFiles s t) : t.FirstFree n ↔ s.FirstFree n := by
  simp only [FirstFree, h.validAt]

/-- Both sessions take the same inode. -/
theorem doCopyin_sameFiles (hs : s.Mounted) (ht : t.Mounted) (h : SameFiles s t)
    {source source' : Option (List UInt8)} {printed' : List Message}
    (hcopyin : doCopyin s source = .ok (n, printed, s'))
    (hcopyin' : doCopyin t source' = .ok (m, printed', t')) :
    (s.FirstFree n → m = n) ∧ ∀ k, t'.validAt k = s'.validAt k := by
  rcases doCopyin_validAt hs hcopyin with ⟨hfirst, hvalid⟩ | ⟨hnone, rfl⟩
  · rcases doCopyin_validAt ht hcopyin' with ⟨hfirst', hvalid'⟩ | ⟨hnone', -⟩
    · have hmn : m = n := (h.firstFree.mp hfirst').unique hfirst
      refine ⟨fun _ => hmn, fun k => ?_⟩
      rw [hvalid, hvalid', hmn, h.validAt]
    · exact absurd (h.firstFree.mpr hfirst) (hnone' n)
  · refine ⟨fun hfirst => absurd hfirst (hnone n), fun k => ?_⟩
    rcases doCopyin_validAt ht hcopyin' with ⟨hfirst', -⟩ | ⟨-, rfl⟩
    · exact absurd (h.firstFree.mp hfirst') (hnone m)
    · exact h.validAt k

/-- A `copyin` that prints has taken some inode. -/
theorem exec_copyin {source : Option (List UInt8)}
    (h : exec s (.copyin source) = .ok (printed, s')) :
    ∃ n, doCopyin s source = .ok (n, printed, s') := by
  obtain ⟨⟨n, printed', s₁⟩, hcopyin, h⟩ := of_bind_eq_ok h
  cases h
  exact ⟨n, hcopyin⟩

/-- The other commands leave the inodes alone. -/
theorem exec_inodeAt (hm : s.Mounted) {command : Command} (hfile : command.isFile = true)
    (hcopyin : ∀ source, command ≠ .copyin source) (hremove : ∀ n, command ≠ .remove n)
    (h : exec s command = .ok (printed, s')) (m : Nat) : s'.inodeAt m = s.inodeAt m := by
  rcases of_exec hm hfile h with
    ⟨source, _, heq, -⟩ | ⟨n, heq, -⟩ | ⟨_, _, _, hloop⟩ | rfl
  · exact absurd heq (hcopyin source)
  · exact absurd heq (hremove n)
  · exact copyoutLoop_inodeAt hloop m
  · rfl

/-- **A step** of both sessions. -/
theorem exec_sameFiles (hs : s.Mounted) (ht : t.Mounted) (h : SameFiles s t)
    {command command' : Command} (halike : Alike command command') {printed' : List Message}
    (hexec : exec s command = .ok (printed, s')) (hexec' : exec t command' = .ok (printed', t')) :
    SameFiles s' t' := by
  obtain ⟨hfile, hfile'⟩ := halike.isFile
  refine ⟨?_, fun k => ?_⟩
  · have hsuper : s'.fs.superBlock = s.fs.superBlock :=
      congrArg Shape.superBlock (exec_shape hs hfile hexec)
    have hsuper' : t'.fs.superBlock = t.fs.superBlock :=
      congrArg Shape.superBlock (exec_shape ht hfile' hexec')
    rw [hsuper, hsuper', h.superBlock]
  · cases halike with
    | copyin c d =>
      obtain ⟨n, hcopyin⟩ := exec_copyin hexec
      obtain ⟨m, hcopyin'⟩ := exec_copyin hexec'
      exact (doCopyin_sameFiles hs ht h hcopyin hcopyin').2 k
    | same _ =>
      cases command with
      | copyin source =>
        obtain ⟨n, hcopyin⟩ := exec_copyin hexec
        obtain ⟨m, hcopyin'⟩ := exec_copyin hexec'
        exact (doCopyin_sameFiles hs ht h hcopyin hcopyin').2 k
      | remove n =>
        rw [remove_validAt ((exec_remove_iff hs).mp hexec).1,
          remove_validAt ((exec_remove_iff ht).mp hexec').1, h.validAt]
      -- copyout
      | cat | copyout | stat | ls =>
        have hsame := exec_inodeAt hs hfile (fun _ => nofun) (fun _ => nofun) hexec k
        have hsame' := exec_inodeAt ht hfile (fun _ => nofun) (fun _ => nofun) hexec' k
        rw [State.validAt, hsame', State.validAt, hsame]
        exact h.validAt k
      | debug | format | mount => cases hfile

/-! ## One file

A file that nobody removes is spared by every command: its inode is not free, so `copyin` takes
another, and its blocks are marked, so the allocator passes them over. -/

/-- Nothing about inode `n` and its data changed. -/
structure Spared (n : Nat) (s s' : State) : Prop where
  separate : s'.Separate
  inodeAt : s'.inodeAt n = s.inodeAt n
  view : ∀ k, s'.view (n, k) = s.view (n, k)

theorem Spared.trans {s'' : State} (h : Spared n s s') (h' : Spared n s' s'') : Spared n s s'' :=
  ⟨h'.separate, h'.inodeAt.trans h.inodeAt, fun k => (h'.view k).trans (h.view k)⟩

/-- A call that names another inode, or none. -/
theorem State.AfterCall.spared {target : Option Nat} (h : AfterCall s s' target) (hn : target ≠ some n)
    (hinode : s'.inodeAt n = s.inodeAt n) : Spared n s s' :=
  ⟨h.separate, hinode, fun k => h.view n k hn⟩

/-- `updateSize` writes to the inode it is given. -/
theorem updateSize_spared (hs : s.Separate) (hmn : m ≠ n) {size : Nat}
    (h : s.updateSize m size = .ok s') : Spared n s s' := by
  refine ((updateSize_sameSlots h).afterCall hs none).spared nofun ?_
  obtain ⟨inode, -, rfl⟩ := of_updateSize h
  exact setINode_inodeAt_of_ne hmn.symm

/-- A `copyin` command takes another inode. -/
theorem doCopyin_spared (hs : s.Separate) (hfile : s.IsFile n) {source : Option (List UInt8)}
    (h : doCopyin s source = .ok (m, printed, s')) : Spared n s s' := by
  rcases of_doCopyin hs.mounted h with ⟨inode, hat, hinvalid, -, hcase⟩ | ⟨rfl, -⟩
  · have hmn : m ≠ n := by
      rintro rfl
      obtain ⟨inode', hat', hvalid⟩ := hfile
      rw [hat] at hat'
      cases hat'
      exact hvalid hinvalid
    -- `create` sets `Valid` of the other inode
    have hcreated : Spared n s (s.created m inode) :=
      ((created_sameSlots hat).afterCall hs none).spared nofun (created_inodeAt_of_ne hmn.symm)
    rcases hcase with ⟨rfl, -⟩ | ⟨stream, offset, more, s₁, -, hloop, hsize, -⟩
    · exact hcreated
    · obtain ⟨rest, hlooped, -⟩ := copyinLoop_rule (Q := fun s₁ _ _ => Spared n s s₁)
        (fun hspared => hspared.separate.mounted)
        (fun hspared _ _ hwrite => hspared.trans
          ((write_afterCall hspared.separate hwrite).spared (fun heq => hmn (Option.some.inj heq))
            ((write_inodeAt hspared.separate.mounted hwrite).1 n hmn.symm)))
        stream hcreated hloop
      exact hlooped.trans (updateSize_spared hlooped.separate hmn hsize)
  · exact ⟨hs, rfl, fun _ => rfl⟩

/-- **A command** that does not remove a file leaves it alone. -/
theorem exec_spared (hs : s.Separate) (hfile : s.IsFile n) {command : Command}
    (hcommand : command.isFile = true) (hremove : command ≠ .remove n)
    (h : exec s command = .ok (printed, s')) : Spared n s s' := by
  rcases of_exec hs.mounted hcommand h with
    ⟨source, m, -, hcopyin⟩ | ⟨m, rfl, hremoved⟩ | ⟨m, _, _, hloop⟩ | rfl
  · exact doCopyin_spared hs hfile hcopyin
  · have hmn : m ≠ n := fun heq => hremove (congrArg Command.remove heq)
    obtain ⟨-, inode, -, -, -, -, -, hothers, -⟩ := of_remove hremoved
    exact (remove_afterCall hs hremoved).spared (fun heq => hmn (Option.some.inj heq))
      (hothers n hmn.symm)
  · have hstart : Spared n s s := ⟨hs, rfl, fun _ => rfl⟩
    refine (copyoutLoop_rule (P := Spared n s) (fun hspared hread => hspared.trans ?_)
      _ rfl rfl hstart hloop).1
    refine ((read_sameSlots hspared.separate hread).afterCall hspared.separate none).spared nofun ?_
    obtain ⟨_, -, ⟨-, -, -, -, rfl, -⟩ | ⟨-, -, -, rfl⟩⟩ := of_read hread
    · rfl
    · rfl
  · exact ⟨hs, rfl, fun _ => rfl⟩

/-- **What is copied in** determines all that the file holds. -/
theorem doCopyin_view (hs : s.Accounted) (h : doCopyin s (some c) = .ok (n, printed, s'))
    (hsuccess : Message.copyinFailed ∉ printed) :
    s'.IsFile n ∧ ∀ k : Fin 5, s'.view (n, k)
      = if (k : Nat) < storedBlocks c then some (bufferAfter c (k + 1)) else none := by
  rcases of_doCopyin hs.mounted h with
    ⟨old, hat, hinvalid, -, ⟨-, hfailed⟩ | ⟨stream, offset, more, s₁, hsource, hloop, hsize, -⟩⟩
      | ⟨-, hfailed, -⟩
  · exact absurd hfailed hsuccess
  · cases hsource
    have hempty : ∀ k, ({ old with valid := 1 } : Inode).direct k = 0 :=
      (hs.empty n old hat hinvalid).2
    have hcreated := created_accounted hs hat
    obtain ⟨-, taken, buffer, rest, hlength, hstoring⟩ :=
      copyinLoop_storing hcreated.mounted (created_inodeAt_self hat) hloop
    obtain ⟨inode, hat₁, hvalid, hpointers⟩ := hstoring.inode
    have hsame := updateSize_sameSlots hsize
    obtain ⟨inode', hat', rfl⟩ := of_updateSize hsize
    rw [hat₁] at hat'
    cases hat'
    -- the size, written last, is no part of the view
    refine ⟨⟨_, setINode_inodeAt_self (lt_of_inodeAt hat₁), fun hzero => ?_⟩, fun k => ?_⟩
    · have hone : (1 : UInt32) = 0 := hvalid.symm.trans hzero
      exact absurd hone (by decide)
    · rw [view, hsame.owners, hsame.disk, ownerOf, hat₁, Option.bind_some, ← hlength]
      by_cases hk : (k : Nat) < taken.length
      · have htaken := Storing.pointer hpointers hk
        obtain ⟨hdata, -⟩ :=
          mem_freeBlocks.mp (hstoring.lowest.wasFree _ (List.mem_of_getElem? htaken))
        rw [if_pos hk, if_neg (hcreated.separate.pointer_pos hdata).2, Option.map_some,
          hstoring.content k _ htaken]
      · rw [if_neg hk, if_pos (Storing.pointer_eq_zero hempty hpointers (Nat.le_of_not_lt hk))]
        rfl
  · exact absurd hfailed hsuccess

/-- Where a file is copied in in both sessions, it is the same file. -/
theorem doCopyin_same (hs : s.Accounted) (ht : t.Accounted) (h : SameFiles s t)
    (hcopyin : doCopyin s (some c) = .ok (n, printed, s')) (hsuccess : Message.copyinFailed ∉ printed)
    {printed' : List Message} (hcopyin' : doCopyin t (some c) = .ok (m, printed', t')) :
    m = n ∧ s'.IsFile n ∧ t'.IsFile n ∧ ∀ k, t'.view (n, k) = s'.view (n, k) := by
  have hfirst : s.FirstFree n := by
    rcases of_doCopyin hs.mounted hcopyin with ⟨inode, -, -, hnext, -⟩ | ⟨-, hfailed, -⟩
    · exact (firstFree_iff hs.mounted).mpr ⟨inode, hnext⟩
    · exact absurd hfailed hsuccess
  obtain ⟨inode, hnext⟩ := (firstFree_iff hs.mounted).mp hfirst
  obtain ⟨inode', hnext'⟩ := (firstFree_iff ht.mounted).mp (h.firstFree.mpr hfirst)
  have hmn : m = n := (doCopyin_sameFiles hs.mounted ht.mounted h hcopyin hcopyin').1 hfirst
  -- both sessions take the same inode
  subst hmn
  have haccepted : m < s.fs.superBlock.inodeBlocks.toNat := by
    by_contra hge
    have hrejected : ∃ printed, doCopyin s (some c) = .ok (m, printed, s.created m inode)
        ∧ Message.copyinFailed ∈ printed :=
      doCopyin_fails hs.mounted hnext (Or.inl (Nat.le_of_not_lt hge))
    obtain ⟨printed₁, hfails, hfailed⟩ := hrejected
    rw [hcopyin] at hfails
    cases hfails
    exact hsuccess hfailed
  have hsuccess' : Message.copyinFailed ∉ printed' :=
    doCopyin_succeeds ht.mounted hnext' (h.superBlock ▸ haccepted) hcopyin'
  obtain ⟨hin, hview⟩ := doCopyin_view hs hcopyin hsuccess
  obtain ⟨hin', hview'⟩ := doCopyin_view ht hcopyin' hsuccess'
  exact ⟨rfl, hin, hin', fun k => (hview' k).trans (hview k).symm⟩

/-! ## Copying out

`copyout` reads slot after slot. Where two files hold the same, it delivers the same and ends at the
same place. -/

/-- A read by what the slot holds. -/
theorem read_view (hs : s.Separate) (hn : n < s.shape.tableBlocks * inodesPerBlock) {offset : Nat}
    (hindex : offset / blockSize < 5) (buffer : Block) :
    ∃ total data s₁, s.read n buffer blockSize offset = .ok (total, data, s₁) ∧ SameSlots s s₁
      ∧ (total, data) = ((s.view (n, ⟨offset / blockSize, hindex⟩)).map fun block =>
          (blockSize, block)).getD (0, buffer) := by
  obtain ⟨inode, hat⟩ := inodeAt_eq_some_of_lt hn
  obtain ⟨⟨total, data, s₁⟩, hread⟩ := hs.read_ok hat buffer blockSize offset
  refine ⟨total, data, s₁, hread, read_sameSlots hs hread, ?_⟩
  have hobserve := observe_eq_view hs hn hindex buffer blockSize
  rw [observe, hread] at hobserve
  exact Except.ok.inj hobserve

/-- **Two files that hold the same** are copied out to the same bytes. -/
theorem copyoutLoop_same (left : Nat) :
    ∀ {s t : State} (buffer buffer' : Block) {offset : Nat},
      pointersPerInode - offset / blockSize = left → s.Separate → t.Separate →
      n < s.shape.tableBlocks * inodesPerBlock → n < t.shape.tableBlocks * inodesPerBlock →
      (∀ k, t.view (n, k) = s.view (n, k)) →
      ∃ written offset' s' t', copyoutLoop n s buffer offset = .ok (written, offset', s')
        ∧ copyoutLoop n t buffer' offset = .ok (written, offset', t') := by
  induction left using Nat.strong_induction_on with
  | _ left ih =>
    intro s t buffer buffer' offset hleft hs ht hn hn' hview
    by_cases hindex : offset / blockSize < 5
    · obtain ⟨total, data, s₁, hread, hsame, hholds⟩ := read_view hs hn hindex buffer
      obtain ⟨total', data', t₁, hread', hsame', hholds'⟩ := read_view ht hn' hindex buffer'
      rw [hview] at hholds'
      -- an empty slot ends both loops, a full one gives both the same block
      cases hv : s.view (n, ⟨offset / blockSize, hindex⟩) with
      | none =>
        rw [hv] at hholds hholds'
        cases hholds
        cases hholds'
        exact ⟨[], offset, s₁, t₁, copyoutLoop_done hread, copyoutLoop_done hread'⟩
      | some block =>
        rw [hv] at hholds hholds'
        obtain ⟨rfl, hdata⟩ := Prod.mk.inj hholds
        obtain ⟨rfl, hdata'⟩ := Prod.mk.inj hholds'
        rw [hdata] at hread
        rw [hdata'] at hread'
        have hafter := hsame.afterCall hs none
        have hafter' := hsame'.afterCall ht none
        have hnext : pointersPerInode - (offset + blockSize) / blockSize < left := by
          unfold blockSize pointersPerInode at *
          omega
        obtain ⟨written, offset', s', t', hloop, hloop'⟩ := ih _ hnext block block rfl
          hafter.separate hafter'.separate (hafter.shape ▸ hn) (hafter'.shape ▸ hn') fun k => by
            rw [hafter'.view n k nofun, hafter.view n k nofun, hview]
        refine ⟨List.ofFn block ++ written, offset', s', t', ?_, ?_⟩
        · rw [copyoutLoop_step hread, hloop, ok_bind]
        · rw [copyoutLoop_step hread', hloop', ok_bind]
    · -- behind the fifth block there is nothing
      obtain ⟨inode, hat⟩ := inodeAt_eq_some_of_lt hn
      obtain ⟨inode', hat'⟩ := inodeAt_eq_some_of_lt hn'
      have hend : ∀ inode : Inode, asInt (directAt inode (offset / blockSize)) ≤ 0 := fun inode => by
        rw [directAt, dif_neg hindex]
        decide
      exact ⟨[], offset, s, t, copyoutLoop_done (read_nothing hat (hend inode) buffer blockSize),
        copyoutLoop_done (read_nothing hat' (hend inode') buffer' blockSize)⟩

/-- What the loop delivers is written to the file, and the offset is printed. -/
theorem doCopyout_of_loop (hm : s.Mounted) {written : List UInt8} {offset : Nat}
    (hloop : copyoutLoop n s zeroBuffer 0 = .ok (written, offset, s')) :
    doCopyout s n true .copyoutFailed = .ok (written, [.bytesCopied offset], s') := by
  rw [doCopyout, copyout, if_pos rfl, if_pos (Mounted.isDiskMounted hm), hloop]
  rfl

/-! ## Whole sessions

The two runs go step by step, since alike commands stand at the same places. What holds of a file is
then followed in each run on its own. -/

theorem execAll_append {commands rest : List Command} :
    ∀ {s : State}, execAll s (commands ++ rest) = execAll s commands >>= fun s => execAll s rest := by
  induction commands with
  | nil => exact rfl
  | cons command commands ih =>
    intro s
    rw [List.cons_append, execAll, execAll]
    cases exec s command with
    | error e => rfl
    | ok r => exact ih

variable {commands commands' : List Command}

/-- All of them are commands on files. -/
theorem Alike.all_isFile (h : List.Forall₂ Alike commands commands') :
    (∀ command ∈ commands, command.isFile = true) ∧ ∀ command ∈ commands', command.isFile = true := by
  induction h with
  | nil => exact ⟨by simp, by simp⟩
  | cons halike _ ih =>
    exact ⟨List.forall_mem_cons.mpr ⟨halike.isFile.1, ih.1⟩,
      List.forall_mem_cons.mpr ⟨halike.isFile.2, ih.2⟩⟩

/-- The same inodes are removed in both sessions. -/
theorem Alike.remove_mem (h : List.Forall₂ Alike commands commands')
    (hmem : .remove n ∈ commands') : .remove n ∈ commands := by
  induction h with
  | nil => exact hmem
  | cons halike _ ih =>
    rcases List.mem_cons.mp hmem with rfl | hmem
    · cases halike
      exact List.mem_cons_self
    · exact List.mem_cons_of_mem _ (ih hmem)

/-- **A run** of both sessions. Induction on the commands. -/
theorem execAll_sameFiles (h : List.Forall₂ Alike commands commands') :
    ∀ {s t s' t' : State}, s.Mounted → t.Mounted → SameFiles s t → execAll s commands = .ok s' →
      execAll t commands' = .ok t' → SameFiles s' t' := by
  induction h with
  | nil =>
    intro s t s' t' _ _ hsame hrun hrun'
    cases hrun
    cases hrun'
    exact hsame
  | cons halike _ ih =>
    intro s t s' t' hs ht hsame hrun hrun'
    obtain ⟨⟨_, s₁⟩, hexec, hrun⟩ := of_bind_eq_ok hrun
    obtain ⟨⟨_, t₁⟩, hexec', hrun'⟩ := of_bind_eq_ok hrun'
    exact ih (hs.of_shape (exec_shape hs halike.isFile.1 hexec))
      (ht.of_shape (exec_shape ht halike.isFile.2 hexec'))
      (exec_sameFiles hs ht hsame halike hexec hexec') hrun hrun'

/-- The books balance after any commands on files. -/
theorem execAll_accounted (hs : s.Accounted) (hfile : ∀ command ∈ commands, command.isFile = true)
    (hrun : execAll s commands = .ok s') : s'.Accounted :=
  execAll_keeps (fun hmem hs hexec => exec_accounted hs (hfile _ hmem) hexec) hs hrun

/-- A file that is not removed is left alone by the whole session. -/
theorem execAll_spared (hs : s.Separate) (hin : s.IsFile n)
    (hfile : ∀ command ∈ commands, command.isFile = true) (hkept : .remove n ∉ commands)
    (hrun : execAll s commands = .ok s') : Spared n s s' := by
  have hstart : Spared n s s := ⟨hs, rfl, fun _ => rfl⟩
  refine execAll_keeps (P := Spared n s) (fun {s₁ s₂ command _} hmem hspared hexec => ?_) hstart hrun
  have hin₁ : s₁.IsFile n := by
    unfold State.IsFile
    rw [hspared.inodeAt]
    exact hin
  refine hspared.trans (exec_spared hspared.separate hin₁ (hfile command hmem) ?_ hexec)
  rintro rfl
  exact hkept hmem

/-! ## The headline

The two disks may differ in every data block. What was there before a file was stored does not come
back with it, not even behind its end. -/

/-- Two disks of one size with the same superblock and the same inode table. -/
structure SameTables (disk disk' : Disk) : Prop where
  size : disk'.size = disk.size
  superBlock : decodeSuper (disk'.blockAt 0) = decodeSuper (disk.blockAt 0)
  inodes : ∀ n < (decodeSuper (disk.blockAt 0)).inodeBlocks.toNat * inodesPerBlock,
    imageInode disk' n = imageInode disk n

/-- Whether an image is clean is a matter of its tables. -/
theorem SameTables.clean {disk disk' : Disk} (h : SameTables disk disk') (hclean : CleanImage disk) :
    CleanImage disk' where
  fits := by
    rw [h.superBlock, h.size]
    exact hclean.fits
  small := by
    rw [h.size]
    exact hclean.small
  blank := by
    rw [h.superBlock]
    intro n hn
    rw [h.inodes n hn]
    exact hclean.blank n hn
  region := by
    rw [h.superBlock, h.size]
    intro n hn
    rw [h.inodes n hn]
    exact hclean.region n hn
  disjoint := by
    rw [h.superBlock]
    intro n hn n' hn'
    rw [h.inodes n hn, h.inodes n' hn']
    exact hclean.disjoint n hn n' hn'

/-- Mounted, they have the same files. -/
theorem SameTables.sameFiles (h : SameTables s.disk t.disk) (hs : IsMount s s') (ht : IsMount t t') :
    SameFiles s' t' := by
  have htable : t'.shape.tableBlocks = s'.shape.tableBlocks := by
    rw [ht.tableBlocks, hs.tableBlocks, h.superBlock]
  refine ⟨by rw [ht.superBlock, hs.superBlock, h.superBlock], fun n => ?_⟩
  by_cases hn : n < s'.shape.tableBlocks * inodesPerBlock
  · rw [validAt_eq_some (ht.inodeAt (htable ▸ hn)), validAt_eq_some (hs.inodeAt hn),
      h.inodes n (hs.tableBlocks ▸ hn)]
  · rw [State.validAt, inodeAt_eq_none (htable ▸ hn), State.validAt, inodeAt_eq_none hn]

/-- **Headline.** Two sessions from mounted clean images with the same superblock and inode table,
with the same commands up to the contents of what is copied in: if an inode is filled with `c` in
the first, and not removed since, and the second copies in the same `c` there, then `copyout` of
that inode delivers the same bytes in both. -/
theorem secrecy {blocks : UInt32} {image image' : Bytes.Image} {s₀ t₀ s₁ s₂ : State}
    {before before' after after' : List Command}
    (hclean : CleanImage (State.start blocks image).disk)
    (htables : SameTables (State.start blocks image).disk (State.start blocks image').disk)
    (hmount : (State.start blocks image).mount = .ok (true, s₀))
    (hmount' : (State.start blocks image').mount = .ok (true, t₀))
    (hbefore : List.Forall₂ Alike before before') (hafter : List.Forall₂ Alike after after')
    (hrun₁ : execAll s₀ before = .ok s₁) (hcopyin : doCopyin s₁ (some c) = .ok (n, printed, s₂))
    (hsuccess : Message.copyinFailed ∉ printed) (hrun₂ : execAll s₂ after = .ok s)
    (hkept : .remove n ∉ after)
    (hrun : execAll t₀ (before' ++ .copyin (some c) :: after') = .ok t) :
    ∃ written printed s' t', doCopyout s n true .copyoutFailed = .ok (written, printed, s')
      ∧ doCopyout t n true .copyoutFailed = .ok (written, printed, t') := by
  have hismount := (of_mount hmount).2
  have hismount' := (of_mount hmount').2
  obtain ⟨hfile, hfile'⟩ := Alike.all_isFile hbefore
  obtain ⟨hfile₂, hfile₂'⟩ := Alike.all_isFile hafter
  have hs₀ := hismount.accounted hclean
  have ht₀ := hismount'.accounted (htables.clean hclean)
  -- both sessions come to the same inode
  rw [execAll_append] at hrun
  obtain ⟨t₁, hrun₁', hrun⟩ := of_bind_eq_ok hrun
  obtain ⟨⟨printed', t₂⟩, hexec, hrun₂'⟩ := of_bind_eq_ok hrun
  obtain ⟨m, hcopyin'⟩ := exec_copyin hexec
  have hs₁ := execAll_accounted hs₀ hfile hrun₁
  have ht₁ := execAll_accounted ht₀ hfile' hrun₁'
  have hsame := execAll_sameFiles hbefore hs₀.mounted ht₀.mounted
    (htables.sameFiles hismount hismount') hrun₁ hrun₁'
  obtain ⟨rfl, hin, hin', hview⟩ := doCopyin_same hs₁ ht₁ hsame hcopyin hsuccess hcopyin'
  -- what comes behind leaves it alone
  have hspared := execAll_spared (doCopyin_accounted hs₁ hcopyin).separate hin hfile₂ hkept hrun₂
  have hspared' := execAll_spared (doCopyin_accounted ht₁ hcopyin').separate hin' hfile₂'
    (fun hmem => hkept (Alike.remove_mem hafter hmem)) hrun₂'
  obtain ⟨inode, hat, -⟩ := hin
  obtain ⟨inode', hat', -⟩ := hin'
  obtain ⟨written, offset, s', t', hloop, hloop'⟩ := copyoutLoop_same _ zeroBuffer zeroBuffer rfl
    hspared.separate hspared'.separate (lt_of_inodeAt (hspared.inodeAt.trans hat))
    (lt_of_inodeAt (hspared'.inodeAt.trans hat')) fun k => by
      rw [hspared.view, hspared'.view, hview]
  refine ⟨written, [.bytesCopied offset], s', t', ?_, ?_⟩
  · exact doCopyout_of_loop hspared.separate.mounted hloop
  · exact doCopyout_of_loop hspared'.separate.mounted hloop'

/-- The small image with something left in its first data block. -/
def usedImage : Bytes.Image := fun a => if a = 8192 then 7 else smallImage 0 a

theorem usedImage_sameTables :
    SameTables (State.start 4 (smallImage 0)).disk (State.start 4 usedImage).disk := by
  have hblock : ∀ b ≤ 1,
      (State.start 4 usedImage).disk.blockAt b = (State.start 4 (smallImage 0)).disk.blockAt b := by
    intro b hb
    have hlow : Disk.lowPart b ≤ 4096 := by
      rw [Disk.lowPart, Int.toNat_natCast]
      unfold blockSize
      omega
    funext r
    have hbefore : ¬ Disk.lowPart b + r = 8192 := by omega
    exact if_neg hbefore
  refine ⟨rfl, congrArg decodeSuper (hblock 0 (Nat.zero_le _)), fun n hn => ?_⟩
  have hn' : n < 1 * inodesPerBlock := hn
  have hfirst : n / inodesPerBlock + 1 ≤ 1 := by
    unfold inodesPerBlock at *
    omega
  rw [imageInode, imageInode, hblock _ hfirst]

/-- A byte copied to two disks that held different data. -/
theorem secrecy_usedImage : ∃ s t written printed s' t',
    execAll (State.start 4 (smallImage 0)) [.mount, .copyin (some [65])] = .ok s
      ∧ execAll (State.start 4 usedImage) [.mount, .copyin (some [65])] = .ok t
      ∧ doCopyout s 0 true .copyoutFailed = .ok (written, printed, s')
      ∧ doCopyout t 0 true .copyoutFailed = .ok (written, printed, t') := by
  have hclean : CleanImage (State.start 4 (smallImage 0)).disk :=
    smallDisk_clean (by decide) (by decide) 0
  have hclean' := usedImage_sameTables.clean hclean
  obtain ⟨s₀, printed, s, hmount, hismount, hcopyin, hsuccess⟩ :=
    smallDisk_copyin 4 (by decide) (by decide) [65] (by decide) (by decide)
  obtain ⟨t₀, hmount', hismount'⟩ := mount_ok hclean'.fits hclean'.small
  have htable : t₀.shape.tableBlocks = 1 := hismount'.tableBlocks
  have hblocks : t₀.shape.blocks = 4 := hismount'.blocks
  have hm := hismount'.mounted
  -- the second disk has the same free inode, and its first data block is free
  have hsame := usedImage_sameTables.sameFiles hismount hismount'
  obtain ⟨inode, hnext⟩ := (firstFree_iff hm).mp (hsame.firstFree.mpr
    ((firstFree_iff hismount.mounted).mpr (smallDisk_nextFreeINode hismount)))
  have hdata : t₀.IsDataBlock 2 := by
    refine ⟨?_, ?_⟩
    · rw [hm.firstDataBlock, htable]
    · rw [hblocks]
      decide
  have hfree : t₀.isFree 2 = true := by
    refine (hismount'.free 2).mpr ⟨dif_pos (by decide), fun ⟨_, howned⟩ => ?_⟩
    obtain ⟨n, inode, k, hat, -, hk⟩ := (hismount'.imageOwned_iff 2).mp howned
    have hn := lt_of_inodeAt hat
    rw [hismount'.inodeAt hn] at hat
    cases hat
    have hn' : n < 1 * inodesPerBlock := htable ▸ hn
    rw [usedImage_sameTables.inodes n hn'] at hk
    have hzero : (imageInode (smallDisk 4 0) n).direct k = 0 := (smallDisk_empty 4 0 hn').2 k
    have htwo : ((imageInode (smallDisk 4 0) n).direct k).toNat = 2 := hk
    rw [hzero] at htwo
    cases htwo
  obtain ⟨printed', t, hcopyin', -⟩ := doCopyin_ok hm hnext (by rw [htable]; decide) ⟨2, hdata, hfree⟩
    (List.cons_ne_nil 65 []) (by decide)
  have hrun' : execAll t₀ [.copyin (some [65])] = .ok t := by
    rw [execAll, exec, hcopyin']
    rfl
  obtain ⟨written, printed'', s', t', hcopyout, hcopyout'⟩ := secrecy hclean usedImage_sameTables
    hmount hmount' .nil .nil rfl hcopyin hsuccess rfl List.not_mem_nil hrun'
  refine ⟨s, t, written, printed'', s', t', ?_, ?_, hcopyout, hcopyout'⟩
  · simp only [execAll, exec, doMount, hmount, hcopyin, ok_bind]
  · simp only [execAll, exec, doMount, hmount', hcopyin', ok_bind]

end OsLab.Sfs
