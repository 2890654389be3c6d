import OsLab.Sfs.Image

/-!
# OsLab.Sfs.Session — what each command does

The commands of the prompt, taken apart into calls of the `FileSystem` interface.

* **`copyinLoop_run`**, **`copyoutLoop_rule`**: what every round keeps, the loop keeps. A
  `copyin` loop that did not read its stream to the end has met the fifth block.
* **`of_doCopyin`**: a `copyin` command creates an inode and, if it reports success, fills it.
* **`of_exec`**: the commands on files, each as the calls it makes.
* **`reachable_mounted`**: whenever a disk is mounted, in any session, the state has the shape
  of a completed `mount`.
-/

namespace OsLab.Sfs

open Fallible State

variable {s s' : State} {n : Nat}

/-! ## The copying loops

Both loops are described once, for whatever is to be followed through them. A later module names
what it follows, and shows that a round keeps it. -/

/-- `Q` holds of mounted states only, and every round of `copyin` that writes a block keeps it. -/
structure KeptByRounds (n : Nat) (Q : State → Block → Nat → List UInt8 → Prop) : Prop where
  mounted : ∀ {s buffer offset stream}, Q s buffer offset stream → s.Mounted
  round : ∀ {s s' buffer offset stream}, Q s buffer offset stream → stream ≠ [] →
    offset / blockSize < pointersPerInode →
    s.write n (fillBuffer buffer stream) (min blockSize stream.length) offset = .ok (blockSize, s') →
    Q s' (fillBuffer buffer stream) (offset + min blockSize stream.length) (stream.drop blockSize)

/-- **The loop of `copyin`.** Induction on the length of what is left of the stream. -/
theorem copyinLoop_run {Q : State → Block → Nat → List UInt8 → Prop} (hkept : KeptByRounds n Q) :
    ∀ (stream : List UInt8) {s s' : State} {buffer : Block} {offset offset' : Nat}
      {printed : List Message}, Q s buffer offset stream →
      copyinLoop n s buffer offset stream = .ok (offset', printed, s') →
      ∃ buffer' rest, Q s' buffer' offset' rest ∧ (rest = [] ∧ printed = []
        ∨ rest ≠ [] ∧ pointersPerInode ≤ offset' / blockSize ∧ printed = [.invalidResult 0]) := by
  intro stream
  induction hlength : stream.length using Nat.strong_induction_on generalizing stream with
  | _ length ih =>
    intro s s' buffer offset offset' printed hQ h
    rw [copyinLoop] at h
    dsimp only at h
    split at h
    · next hend =>
      cases h
      have hnil : stream = [] := List.eq_nil_of_length_eq_zero (by unfold blockSize at hend; omega)
      exact ⟨buffer, stream, hQ, Or.inl ⟨hnil, rfl⟩⟩
    · next hend =>
      have hne : stream ≠ [] := by
        rintro rfl
        exact hend rfl
      obtain ⟨⟨actual, s₁⟩, hwrite, hrest⟩ := of_bind_eq_ok h
      dsimp only at hrest
      rcases of_write (hkept.mounted hQ) hwrite with
        ⟨p, inode, hindex, -, -, -, -, -, rfl, -⟩ | ⟨hindex, rfl, rfl⟩
      · -- a whole block was written, so the loop goes on
        rw [if_neg (by decide), if_neg (by omega)] at hrest
        have hshorter : (stream.drop blockSize).length < length := by
          rw [List.length_drop]
          have hpos : 0 < stream.length := List.length_pos_iff.mpr hne
          omega
        exact ih _ hshorter _ rfl (hkept.round hQ hne hindex hwrite) hrest
      · -- nothing was written: the fifth block has been passed
        rw [if_pos rfl] at hrest
        cases hrest
        exact ⟨buffer, stream, hQ, Or.inr ⟨hne, hindex, rfl⟩⟩

/-- The loop returns if every write it comes to does. -/
theorem copyinLoop_returns {Q : State → Block → Nat → List UInt8 → Prop} (hkept : KeptByRounds n Q)
    (hwrites : ∀ {s buffer offset stream}, Q s buffer offset stream → stream ≠ [] →
      ∃ r, s.write n (fillBuffer buffer stream) (min blockSize stream.length) offset = .ok r) :
    ∀ (stream : List UInt8) {s : State} {buffer : Block} {offset : Nat}, Q s buffer offset stream →
      ∃ r, copyinLoop n s buffer offset stream = .ok r := by
  intro stream
  induction hlength : stream.length using Nat.strong_induction_on generalizing stream with
  | _ length ih =>
    intro s buffer offset hQ
    rw [copyinLoop]
    dsimp only
    split
    · exact ⟨_, rfl⟩
    · next hend =>
      have hne : stream ≠ [] := by
        rintro rfl
        exact hend rfl
      obtain ⟨⟨actual, s₁⟩, hwrite⟩ := hwrites hQ hne
      rw [hwrite, ok_bind]
      dsimp only
      rcases of_write (hkept.mounted hQ) hwrite with
        ⟨p, inode, hindex, -, -, -, -, -, rfl, -⟩ | ⟨-, rfl, -⟩
      · -- a whole block was written: the next round begins with less
        rw [if_neg (by decide), if_neg (by omega)]
        have hshorter : (stream.drop blockSize).length < length := by
          rw [List.length_drop]
          have hpos : 0 < stream.length := List.length_pos_iff.mpr hne
          omega
        exact ih _ hshorter _ rfl (hkept.round hQ hne hindex hwrite)
      · -- the index is behind the pointers: the loop ends
        rw [if_pos rfl]
        exact ⟨_, rfl⟩

/-- What holds of the state alone, the buffer left aside. -/
theorem copyinLoop_rule {Q : State → Nat → List UInt8 → Prop}
    (hmounted : ∀ {s offset stream}, Q s offset stream → s.Mounted)
    (hround : ∀ {s s' buffer offset stream}, Q s offset stream → stream ≠ [] →
      offset / blockSize < pointersPerInode →
      s.write n (fillBuffer buffer stream) (min blockSize stream.length) offset
        = .ok (blockSize, s') →
      Q s' (offset + min blockSize stream.length) (stream.drop blockSize))
    (stream : List UInt8) {buffer : Block} {offset offset' : Nat} {printed : List Message}
    (hQ : Q s offset stream) (h : copyinLoop n s buffer offset stream = .ok (offset', printed, s')) :
    ∃ rest, Q s' offset' rest ∧ (rest = [] ∧ printed = []
      ∨ rest ≠ [] ∧ pointersPerInode ≤ offset' / blockSize ∧ printed = [.invalidResult 0]) := by
  obtain ⟨-, rest, hend⟩ := copyinLoop_run (Q := fun s _ offset stream => Q s offset stream)
    ⟨hmounted, hround⟩ stream hQ h
  exact ⟨rest, hend⟩

/-- **The loop of `copyout`.** It delivers whole blocks, five at most. -/
theorem copyoutLoop_rule {P : State → Prop}
    (hround : ∀ {s s' data data' offset total}, P s →
      s.read n data blockSize offset = .ok (total, data', s') → P s') :
    ∀ (left : Nat) {s s' : State} {buffer : Block} {offset offset' : Nat} {written : List UInt8},
      pointersPerInode - offset / blockSize = left → offset % blockSize = 0 → P s →
      copyoutLoop n s buffer offset = .ok (written, offset', s') →
      P s' ∧ written.length % blockSize = 0 ∧ written.length ≤ left * blockSize := by
  intro left
  induction left with
  | zero =>
    intro s s' buffer offset offset' written hleft _ hP h
    rw [copyoutLoop] at h
    split at h
    · cases h
    · next total buffer' s₁ hread =>
      -- past the fifth block nothing is read
      have hzero : total = 0 := by
        by_contra hne
        have hindex := (of_read_pos hread hne).1
        omega
      rw [dif_pos hzero] at h
      cases h
      -- what a read leaves is kept, though it delivers nothing
      exact ⟨hround hP hread, rfl, Nat.zero_le _⟩
  | succ left ih =>
    intro s s' buffer offset offset' written hleft haligned hP h
    rw [copyoutLoop] at h
    split at h
    · cases h
    · next total buffer' s₁ hread =>
      split at h
      · cases h
        exact ⟨hround hP hread, rfl, Nat.zero_le _⟩
      · next hne =>
        obtain ⟨⟨rest, offset₁, s₂⟩, hrest, h⟩ := of_bind_eq_ok h
        cases h
        obtain ⟨hindex, rfl⟩ := of_read_pos hread hne
        -- a block was read, so the next one is one further
        have hnext : pointersPerInode - (offset + blockSize) / blockSize = left := by
          unfold blockSize at *
          omega
        obtain ⟨hP', hwhole, hle⟩ :=
          ih hnext (by unfold blockSize at *; omega) (hround hP hread) hrest
        have hblock : ((List.ofFn buffer').take blockSize).length = 4096 := by
          rw [List.length_take, List.length_ofFn]
          rfl
        unfold blockSize at *
        refine ⟨hP', ?_, ?_⟩
        · rw [List.length_append, hblock]
          omega
        · rw [List.length_append, hblock]
          omega

/-! ## Commands on files

Each command asks first whether the disk is mounted, and then calls one member function or two. Here
these calls are made explicit, so that no later proof takes a command apart. -/

/-- `copyin` on a mounted disk fails only where the source cannot be opened. -/
theorem of_copyin (hmounted : s.isDiskMounted = true) {source : Option (List UInt8)}
    {success : Bool} {printed : List Message} (h : copyin s source n = .ok (success, printed, s')) :
    success = false ∧ s' = s
      ∨ success = true ∧ ∃ stream offset more s₁, source = some stream
        ∧ copyinLoop n s zeroBuffer 0 stream = .ok (offset, more, s₁)
        ∧ s₁.updateSize n offset = .ok s' ∧ printed = more ++ [.bytesCopied offset] := by
  cases source with
  | none =>
    cases h
    exact Or.inl ⟨rfl, rfl⟩
  | some stream =>
    unfold copyin at h
    dsimp only at h
    rw [if_pos hmounted] at h
    obtain ⟨⟨offset, more, s₁⟩, hloop, h⟩ := of_bind_eq_ok h
    obtain ⟨s₂, hsize, h⟩ := of_bind_eq_ok h
    cases h
    exact Or.inr ⟨rfl, stream, offset, more, s₁, rfl, hloop, hsize, rfl⟩

/-- It succeeds where its loop and `updateSize` do. -/
theorem copyin_of_loop (hmounted : s.isDiskMounted = true) {stream : List UInt8} {offset : Nat}
    {printed : List Message} {s₁ : State}
    (hloop : copyinLoop n s zeroBuffer 0 stream = .ok (offset, printed, s₁))
    (hsize : s₁.updateSize n offset = .ok s') :
    copyin s (some stream) n = .ok (true, printed ++ [.bytesCopied offset], s') := by
  unfold copyin
  dsimp only
  rw [if_pos hmounted, hloop, ok_bind]
  dsimp only
  rw [hsize, ok_bind]

/-- The number is compared with the number of inode blocks, and not of inodes. -/
theorem isValidInode_iff (hm : s.Mounted) :
    s.isValidInode n = true ↔ n < s.fs.superBlock.inodeBlocks.toNat := by
  rw [isValidInode, Mounted.isDiskMounted hm, Bool.true_and, decide_eq_true_iff]

/-- What `create` returns when no inode is left is not taken for an inode number. -/
theorem isValidInode_invalideReturn (hm : s.Mounted) : ¬ s.isValidInode invalideReturn = true := by
  have htable : s.fs.superBlock.inodeBlocks.toNat = s.shape.tableBlocks := hm.inodeBlocks
  have hdistinct := hm.distinct
  unfold Disk.distinctBlocks at hdistinct
  rw [isValidInode_iff hm, htable, invalideReturn]
  omega

/-- What `do_create` prints and returns, where `create` has taken an inode. -/
theorem doCreate_created (hm : s.Mounted) {s₁ : State} (hshape : s₁.shape = s.shape)
    (hcreate : s.create = .ok (n, s₁)) :
    doCreate s = .ok (n, [if n < s.fs.superBlock.inodeBlocks.toNat then .createdInode n
      else .createFailed], s₁) := by
  have hsuper : s₁.fs.superBlock = s.fs.superBlock := congrArg Shape.superBlock hshape
  have hvalid := isValidInode_iff (hm.of_shape hshape) (n := n)
  rw [hsuper] at hvalid
  rw [doCreate, if_pos (Mounted.isDiskMounted hm), hcreate, ok_bind]
  dsimp only
  by_cases hn : n < s.fs.superBlock.inodeBlocks.toNat
  · rw [if_pos (hvalid.mpr hn), if_pos hn]
  · rw [if_neg fun h => hn (hvalid.mp h), if_neg hn]

/-- A `copyin` command where an inode is free. -/
theorem doCopyin_eq (hm : s.Mounted) {inode : Inode}
    (hnext : s.getNextFreeINode = .ok (some (n, inode))) (source : Option (List UInt8)) :
    doCopyin s source =
      if n < s.fs.superBlock.inodeBlocks.toNat then do
        let (success, more, s) ← copyin (s.created n inode) source n
        if success then .ok (n, [.createdInode n] ++ more, s)
        else .ok (n, [.createdInode n] ++ more ++ [.copyinFailed], s)
      else .ok (n, [.createFailed, .copyinFailed], s.created n inode) := by
  have hshape : (s.created n inode).shape = s.shape := created_shape
  have haccepted := isValidInode_iff (hm.of_shape hshape) (n := n)
  have hsuper : (s.created n inode).fs.superBlock = s.fs.superBlock := congrArg Shape.superBlock hshape
  rw [hsuper] at haccepted
  rw [doCopyin, doCreate_created hm hshape (create_of_next hnext), ok_bind]
  dsimp only
  -- the check is made twice, in `do_create` and in `do_copyin`
  by_cases hn : n < s.fs.superBlock.inodeBlocks.toNat
  · rw [if_pos hn, if_pos hn, if_pos (haccepted.mpr hn)]
  · rw [if_neg hn, if_neg hn, if_neg fun h => hn (haccepted.mp h)]
    rfl

/-- A `copyin` command where no inode is free. -/
theorem doCopyin_full (hm : s.Mounted) (hcreate : s.create = .ok (invalideReturn, s))
    (source : Option (List UInt8)) :
    doCopyin s source = .ok (invalideReturn, [.createFailed, .copyinFailed], s) := by
  have hinvalid := isValidInode_invalideReturn hm
  rw [doCopyin, doCreate, if_pos (Mounted.isDiskMounted hm), hcreate, ok_bind]
  dsimp only
  rw [if_neg hinvalid, ok_bind]
  dsimp only
  rw [if_neg hinvalid]
  rfl

/-- A `copyin` command: the inode it creates and, where it reports success, the writes. -/
theorem of_doCopyin (hm : s.Mounted) {source : Option (List UInt8)} {printed : List Message}
    (h : doCopyin s source = .ok (n, printed, s')) :
    (∃ inode, s.inodeAt n = some inode ∧ inode.valid = 0
        ∧ s.getNextFreeINode = .ok (some (n, inode))
        ∧ (s' = s.created n inode ∧ Message.copyinFailed ∈ printed
          ∨ ∃ stream offset more s₁, source = some stream
            ∧ copyinLoop n (s.created n inode) zeroBuffer 0 stream = .ok (offset, more, s₁)
            ∧ s₁.updateSize n offset = .ok s'
            ∧ printed = .createdInode n :: (more ++ [.bytesCopied offset])))
      ∨ s' = s ∧ Message.copyinFailed ∈ printed
        ∧ ∀ m inode, s.inodeAt m = some inode → inode.valid ≠ 0 := by
  rcases of_create hm with ⟨n', inode, -, hat, hvalid, hnext, -⟩ | ⟨hcreate, hfull⟩
  · rw [doCopyin_eq hm hnext] at h
    by_cases hn : n' < s.fs.superBlock.inodeBlocks.toNat
    · rw [if_pos hn] at h
      obtain ⟨⟨success, more, s₂⟩, hcopyin, h⟩ := of_bind_eq_ok h
      -- the source cannot be opened, or it is copied
      rcases of_copyin (Mounted.isDiskMounted (hm.of_shape created_shape)) hcopyin with
        ⟨rfl, rfl⟩ | ⟨rfl, stream, offset, printed', s₁, hsource, hloop, hsize, rfl⟩
      · cases h
        exact Or.inl ⟨inode, hat, hvalid, hnext, Or.inl ⟨rfl, by simp⟩⟩
      · cases h
        exact Or.inl ⟨inode, hat, hvalid, hnext,
          Or.inr ⟨stream, offset, printed', s₁, hsource, hloop, hsize, rfl⟩⟩
    · rw [if_neg hn] at h
      cases h
      exact Or.inl ⟨inode, hat, hvalid, hnext, Or.inl ⟨rfl, by simp⟩⟩
  · -- no inode is left
    rw [doCopyin_full hm hcreate] at h
    cases h
    exact Or.inr ⟨rfl, by simp, hfull⟩

/-- A file of one block is copied in while there is a free block, if the inode number passes
`isValidInode`. -/
theorem doCopyin_ok (hm : s.Mounted) {inode : Inode}
    (hnext : s.getNextFreeINode = .ok (some (n, inode))) (hn : n < s.shape.tableBlocks)
    (hfree : ∃ c, s.IsDataBlock c ∧ s.isFree c = true) {stream : List UInt8} (hne : stream ≠ [])
    (hlength : stream.length ≤ blockSize) :
    ∃ printed s', doCopyin s (some stream) = .ok (n, printed, s')
      ∧ Message.copyinFailed ∉ printed := by
  have hat : s.inodeAt n = some inode := by
    obtain ⟨r, hr, hsome, -⟩ := of_getNextFreeINode hm
    rw [hr] at hnext
    cases hnext
    exact (hsome n inode rfl).1
  have hmounted : (s.created n inode).Mounted := hm.of_shape created_shape
  have haccepted : n < s.fs.superBlock.inodeBlocks.toNat := by
    have htable : s.fs.superBlock.inodeBlocks.toNat = s.shape.tableBlocks := hm.inodeBlocks
    rw [htable]
    exact hn
  -- one round writes the block, and the next finds the stream at its end
  have hpos : 0 < stream.length := List.length_pos_iff.mpr hne
  have hmin : min blockSize stream.length = stream.length := Nat.min_eq_right hlength
  have hzero : 0 / blockSize < pointersPerInode := by decide
  have hdata : ∃ c, (s.created n inode).IsDataBlock c ∧ (s.created n inode).isFree c = true := by
    obtain ⟨c, hc, hfree⟩ := hfree
    exact ⟨c, (isDataBlock_congr created_shape c).mpr hc, hfree⟩
  obtain ⟨s₁, hwrite⟩ := write_ok hmounted (created_inodeAt_self hat) hzero hdata
    (fillBuffer zeroBuffer stream) stream.length
  have hloop : copyinLoop n (s.created n inode) zeroBuffer 0 stream = .ok (stream.length, [], s₁) := by
    rw [copyinLoop, hmin, dif_neg (Nat.ne_of_gt hpos)]
    dsimp only
    rw [hwrite, ok_bind]
    dsimp only
    rw [if_neg (by decide), if_neg (by omega), List.drop_eq_nil_of_le hlength, copyinLoop]
    rw [Nat.zero_add]
    rfl
  obtain ⟨inode₁, hat₁, -⟩ := (write_inodeAt hmounted hwrite).2 _ (created_inodeAt_self hat)
  have hcopyin := copyin_of_loop (Mounted.isDiskMounted hmounted) hloop (updateSize_ok hat₁)
  refine ⟨[.createdInode n] ++ ([] ++ [.bytesCopied stream.length]),
    s₁.setINode n { inode₁ with size := UInt32.ofNat stream.length }, ?_, by simp⟩
  rw [doCopyin_eq hm hnext, if_pos haccepted, hcopyin]
  rfl

/-- `copyout` and `cat`, which differ in a message only. -/
theorem of_doCopyout {opens : Bool} {failed : Message} {written : List UInt8}
    {printed : List Message} (h : doCopyout s n opens failed = .ok (written, printed, s')) :
    s.isDiskMounted = true ∧ (∃ written offset,
        copyoutLoop n s zeroBuffer 0 = .ok (written, offset, s')) ∨ s' = s := by
  obtain ⟨⟨success, written', more, s₁⟩, hcopy, h⟩ := of_bind_eq_ok h
  cases h
  unfold copyout at hcopy
  split at hcopy
  · split at hcopy
    · next hmounted =>
      obtain ⟨⟨written'', offset, s₂⟩, hloop, hcopy⟩ := of_bind_eq_ok hcopy
      cases hcopy
      exact Or.inl ⟨hmounted, _, _, hloop⟩
    · -- the file is empty, and the disk was not mounted
      cases hcopy
      exact Or.inr rfl
  · cases hcopy
    exact Or.inr rfl

/-- The commands that leave the disk and the file system mounted as they are. -/
def Command.isFile : Command → Bool
  | .copyin _ | .remove _ | .cat .. | .copyout .. | .stat _ | .ls => true
  | .debug | .format | .mount => false

/-- **A command on files**, as the calls it makes. -/
theorem of_exec (hm : s.Mounted) {command : Command} (hfile : command.isFile = true)
    {printed : List Message} (h : exec s command = .ok (printed, s')) :
    (∃ source n, command = .copyin source ∧ doCopyin s source = .ok (n, printed, s'))
      ∨ (∃ n, command = .remove n ∧ s.remove n = .ok (true, s'))
      ∨ (∃ n written offset, copyoutLoop n s zeroBuffer 0 = .ok (written, offset, s'))
      ∨ s' = s := by
  have hmounted := Mounted.isDiskMounted hm
  cases command with
  | copyin source =>
    obtain ⟨⟨n, printed', s₁⟩, hcopyin, h⟩ := of_bind_eq_ok h
    cases h
    exact Or.inl ⟨source, n, rfl, hcopyin⟩
  | remove n =>
    change doRemove s n = _ at h
    rw [doRemove, if_pos hmounted] at h
    obtain ⟨⟨removed, s₁⟩, hremove, h⟩ := of_bind_eq_ok h
    cases h
    obtain ⟨rfl, -⟩ := of_remove hremove
    exact Or.inr (Or.inl ⟨n, rfl, hremove⟩)
  -- the two differ in what they print when they fail
  | cat n opens | copyout n opens =>
    obtain ⟨⟨written, printed', s₁⟩, hcopy, h⟩ := of_bind_eq_ok h
    cases h
    rcases of_doCopyout hcopy with ⟨-, hloop⟩ | rfl
    · exact Or.inr (Or.inr (Or.inl ⟨n, hloop⟩))
    · exact Or.inr (Or.inr (Or.inr rfl))
  | stat n =>
    change doStat s n = _ at h
    rw [doStat, if_pos hmounted] at h
    obtain ⟨bytes, -, h⟩ := of_bind_eq_ok h
    cases h
    exact Or.inr (Or.inr (Or.inr rfl))
  | ls =>
    change doLs s = _ at h
    rw [doLs, if_pos hmounted] at h
    obtain ⟨lines, -, h⟩ := of_bind_eq_ok h
    cases h
    exact Or.inr (Or.inr (Or.inr rfl))
  | debug | format | mount => cases hfile

/-- A `copyin` keeps the shape, and so does every command on files. -/
theorem doCopyin_shape (hm : s.Mounted) {source : Option (List UInt8)} {printed : List Message}
    (h : doCopyin s source = .ok (n, printed, s')) : s'.shape = s.shape := by
  rcases of_doCopyin hm h with
    ⟨inode, hat, -, -, ⟨rfl, -⟩ | ⟨stream, offset, more, s₁, -, hloop, hsize, -⟩⟩ | ⟨rfl, -⟩
  · exact created_shape
  · obtain ⟨rest, hshape, -⟩ := copyinLoop_rule (Q := fun s₁ _ _ => s₁.shape = s.shape)
      (fun hshape => hm.of_shape hshape)
      (fun hshape _ _ hwrite => (write_shape (hm.of_shape hshape) hwrite).trans hshape)
      stream created_shape hloop
    obtain ⟨inode', -, rfl⟩ := of_updateSize hsize
    exact setINode_shape.trans hshape
  · rfl

theorem exec_shape (hm : s.Mounted) {command : Command} (hfile : command.isFile = true)
    {printed : List Message} (h : exec s command = .ok (printed, s')) : s'.shape = s.shape := by
  rcases of_exec hm hfile h with ⟨_, _, -, hcopyin⟩ | ⟨_, -, hremove⟩ | ⟨_, _, _, hcopyout⟩ | rfl
  · exact doCopyin_shape hm hcopyin
  · obtain ⟨-, _, -, hshape, -⟩ := of_remove hremove
    exact hshape
  · exact (copyoutLoop_rule (P := fun s₁ => s₁.shape = s.shape)
      (fun hshape hread => (read_shape hread).trans hshape) _ rfl rfl rfl hcopyout).1
  · rfl

/-! ## Sessions

A session is a list of commands, each on the state that the one before it has left. -/

/-- What every command keeps, a session keeps. -/
theorem execAll_keeps {P : State → Prop} {commands : List Command}
    (hstep : ∀ {s s' command printed}, command ∈ commands → P s →
      exec s command = .ok (printed, s') → P s') :
    ∀ {s s' : State}, P s → execAll s commands = .ok s' → P s' := by
  induction commands with
  | nil =>
    intro s s' hs h
    cases h
    exact hs
  | cons command rest ih =>
    intro s s' hs h
    obtain ⟨⟨printed, s₁⟩, hexec, h⟩ := of_bind_eq_ok h
    exact ih (fun hmem => hstep (List.mem_cons_of_mem command hmem))
      (hstep List.mem_cons_self hs hexec) h

/-- `format` neither mounts nor unmounts. -/
theorem format_isDiskMounted {r : Bool} (h : s.format = .ok (r, s')) :
    s'.isDiskMounted = s.isDiskMounted := by
  unfold State.format at h
  split at h
  · cases h
    rfl
  · obtain ⟨disk, hloop, h⟩ := of_bind_eq_ok h
    cases h
    have hmounts : disk.mounts = s.disk.mounts := by
      -- a write does not count as a mount
      refine foldlM_keeps (P := fun disk : Disk => disk.mounts = s.disk.mounts)
        (fun {disk₀ disk₁ i} _ hmounts hround => ?_) rfl hloop
      obtain ⟨⟨total, disk₂⟩, hwrite, hround⟩ := of_bind_eq_ok hround
      cases hround
      rw [Disk.write_ok (Disk.lt_of_write_ok hwrite)] at hwrite
      cases hwrite
      exact hmounts
    simp [isDiskMounted, Disk.mounted, hmounts]

/-- Without a mounted disk the commands on files change nothing. -/
theorem exec_of_not_mounted (hnot : s.isDiskMounted = false) {command : Command}
    (hfile : command.isFile = true) {printed : List Message}
    (h : exec s command = .ok (printed, s')) : s' = s := by
  have hmounted : ¬ s.isDiskMounted = true := by
    rw [hnot]
    decide
  cases command with
  | copyin source =>
    obtain ⟨⟨n, printed', s₁⟩, hcopyin, h⟩ := of_bind_eq_ok h
    cases h
    have hvalid : ¬ s.isValidInode invalideReturn = true := by simp [isValidInode, hnot]
    unfold doCopyin doCreate at hcopyin
    rw [if_neg hmounted, ok_bind] at hcopyin
    dsimp only at hcopyin
    rw [if_neg hvalid] at hcopyin
    cases hcopyin
    rfl
  -- the output file is emptied before the disk is looked at, which is not part of the state
  | cat n opens | copyout n opens =>
    obtain ⟨⟨written, printed', s₁⟩, hcopy, h⟩ := of_bind_eq_ok h
    cases h
    rcases of_doCopyout hcopy with ⟨hmounted', -⟩ | rfl
    · exact absurd hmounted' hmounted
    · rfl
  | remove n =>
    change doRemove s n = _ at h
    rw [doRemove, if_neg hmounted] at h
    cases h
    rfl
  | stat n =>
    change doStat s n = _ at h
    rw [doStat, if_neg hmounted] at h
    cases h
    rfl
  | ls =>
    change doLs s = _ at h
    rw [doLs, if_neg hmounted] at h
    cases h
    rfl
  | debug | format | mount => cases hfile

/-- **A mounted disk** has been mounted by a completed `mount`, whatever was typed. -/
theorem reachable_mounted {blocks : UInt32} {image : Bytes.Image} {commands : List Command}
    (h : execAll (State.start blocks image) commands = .ok s) (hmounted : s.isDiskMounted = true) :
    s.Mounted := by
  refine execAll_keeps (P := fun s => s.isDiskMounted = true → s.Mounted)
    (fun {s s' command printed} _ hs hexec hmounted' => ?_) (fun hstart => ?_) h hmounted
  · by_cases hfile : command.isFile = true
    · -- a command on files: it keeps the shape, or changes nothing
      by_cases hbefore : s.isDiskMounted = true
      · exact (hs hbefore).of_shape (exec_shape (hs hbefore) hfile hexec)
      · rw [exec_of_not_mounted (Bool.eq_false_iff.mpr hbefore) hfile hexec] at hmounted'
        exact absurd hmounted' hbefore
    · cases command with
      | mount =>
        obtain ⟨⟨_, s₁⟩, hmount, hexec⟩ := of_bind_eq_ok hexec
        cases hexec
        -- whatever was mounted before, this `mount` has come to its end
        exact (of_mount hmount).2.mounted
      | format =>
        obtain ⟨⟨formatted, s₁⟩, hformat, hexec⟩ := of_bind_eq_ok hexec
        cases hexec
        -- on a mounted disk `format` refuses
        rw [format_isDiskMounted hformat] at hmounted'
        have hdisk : s.disk.mounted = true := (Bool.and_eq_true_iff.mp hmounted').2
        rw [State.format, if_pos hdisk] at hformat
        cases hformat
        exact hs hmounted'
      | debug =>
        obtain ⟨_, -, hexec⟩ := of_bind_eq_ok hexec
        cases hexec
        exact hs hmounted'
      | _ => exact absurd rfl hfile
  · cases hstart

/-! ## A small session

The disk of the examples: a superblock and one inode block, without a file. Its first `copyin` is
followed as far as a later module needs it. -/

/-- On the small disk, inode `0` is the first that is free. -/
theorem smallDisk_nextFreeINode {blocks : UInt32} {s₀ : State}
    (h : IsMount (State.start blocks (smallImage 0)) s₀) :
    ∃ inode, s₀.getNextFreeINode = .ok (some (0, inode)) := by
  have htable := (smallDisk_mounted h).1
  have hat : s₀.inodeAt 0 = some (imageInode (smallDisk blocks 0) 0) :=
    h.inodeAt (by rw [htable]; decide)
  -- the inode block is blank
  have hinvalid : (imageInode (smallDisk blocks 0) 0).valid = 0 := rfl
  obtain ⟨r, hr, hsome, hnone⟩ := of_getNextFreeINode h.mounted
  cases r with
  | none => exact absurd hinvalid (hnone rfl 0 _ hat)
  | some found =>
    obtain ⟨n, inode⟩ := found
    have hn : n = 0 := by
      by_contra hpos
      exact (hsome n inode rfl).2.2 0 _ (Nat.pos_of_ne_zero hpos) hat hinvalid
    subst hn
    exact ⟨inode, hr⟩

/-- A file of one block copied to the small disk becomes inode `0`. -/
theorem smallDisk_copyin (blocks : UInt32) (hlow : 3 ≤ blocks.toNat) (hhigh : blocks.toNat ≤ 4096)
    (stream : List UInt8) (hne : stream ≠ []) (hlength : stream.length ≤ blockSize) :
    ∃ s₀ printed s₁, (State.start blocks (smallImage 0)).mount = .ok (true, s₀)
      ∧ IsMount (State.start blocks (smallImage 0)) s₀
      ∧ doCopyin s₀ (some stream) = .ok (0, printed, s₁) ∧ Message.copyinFailed ∉ printed := by
  obtain ⟨s₀, hmount, hismount⟩ := smallDisk_mount blocks (Nat.le_of_succ_le hlow) hhigh 0
  obtain ⟨htable, hfree⟩ := smallDisk_mounted hismount
  have hm := hismount.mounted
  obtain ⟨inode, hnext⟩ := smallDisk_nextFreeINode hismount
  have hdata : s₀.IsDataBlock 2 := (smallDisk_isDataBlock hismount 2).mpr ⟨Nat.le_refl 2, hlow⟩
  obtain ⟨printed, s₁, hcopyin, hsuccess⟩ := doCopyin_ok hm hnext
    (by rw [htable]; decide) ⟨2, hdata, hfree 2 (by decide) (by decide)⟩ hne hlength
  exact ⟨s₀, printed, s₁, hmount, hismount, hcopyin, hsuccess⟩

/-- The same session, and then inode `0` removed. -/
theorem smallDisk_copyin_remove : ∃ s₀ printed s₁ s,
    (State.start 4 (smallImage 0)).mount = .ok (true, s₀)
      ∧ doCopyin s₀ (some [65]) = .ok (0, printed, s₁) ∧ Message.copyinFailed ∉ printed
      ∧ s₁.remove 0 = .ok (true, s) ∧ execAll s₀ [.copyin (some [65]), .remove 0] = .ok s := by
  obtain ⟨s₀, printed, s₁, hmount, hismount, hcopyin, hsuccess⟩ :=
    smallDisk_copyin 4 (by decide) (by decide) [65] (by decide) (by decide)
  have hshape := doCopyin_shape hismount.mounted hcopyin
  have hm₁ : s₁.Mounted := hismount.mounted.of_shape hshape
  obtain ⟨s, hremove⟩ := smallDisk_remove hismount (by decide) hshape (n := 0) (by decide)
  refine ⟨s₀, printed, s₁, s, hmount, hcopyin, hsuccess, hremove, ?_⟩
  -- the commands are the two calls
  simp only [execAll, exec, hcopyin, ok_bind, doRemove, Mounted.isDiskMounted hm₁, hremove, if_true]

end OsLab.Sfs
