import OsLab.Sfs.Leaks
import OsLab.Sfs.Remount
import OsLab.Sfs.RoundTrip
import OsLab.Sfs.Store

/-!
# OsLab.Sfs.Refinement — the commands are those of the store

`State.store` forgets the pointers, the bitmap and the block numbers. On states that are in order
(`InOrder`) every command but `mount` answers as on the store, and leaves a state in order for the
store that is left (`answer_matches`).

* **`InOrder.free_eq`**: the free entries of the bitmap are the room that the files leave.
* **`copyinLoop_full`**: the loop of `copyin` fails exactly if the room does not suffice, and then
  with what the disk throws at its own number of blocks.
* **`session_refines`** is the headline: what is seen of a whole session, before the line that ends
  it, is what the store shows. The line itself shows nothing here: a command that throws may have
  printed before it did, as `do_copyin` has, and that is not modelled.
* **`file_remains`**: what is copied in is copied out, whatever happens in between.
-/

namespace OsLab.Sfs

open Fallible FirstFit State Transcript

variable {s s' : State} {n m : Nat} {inode : Inode} {file : File}

/-! ## The store behind a state

A file is what the pointers of a valid inode lead to. What cannot be seen from the prompt is left
out: where a block is, the size of an inode that is not valid, and the bitmap. -/

/-- The file of an inode. -/
def Disk.fileOf (disk : Disk) (inode : Inode) : File :=
  { size := inode.size
    slots := fun k =>
      if inode.direct k = 0 then none else some (disk.blockAt (inode.direct k).toNat) }

/-- The files on a disk that nobody has mounted. -/
def Store.ofDisk (disk : Disk) : Store :=
  { superBlock := decodeSuper (disk.blockAt 0)
    blocks := disk.blocks
    files := fun n =>
      if n < (decodeSuper (disk.blockAt 0)).inodeBlocks.toNat * inodesPerBlock
          ∧ (imageInode disk n).valid ≠ 0 then
        some (disk.fileOf (imageInode disk n))
      else none
    changed := fun _ => false }

namespace State

/-- The file of a number. -/
def files (s : State) (n : Nat) : Option File :=
  (s.inodeAt n).bind fun inode => if inode.valid = 0 then none else some (s.disk.fileOf inode)

def store (s : State) : Store :=
  { superBlock := s.fs.superBlock
    blocks := s.disk.blocks
    files := s.files
    changed := s.isDirty }

/-- The books balance, and the superblock in memory is that of the disk. -/
structure InOrder (s : State) : Prop where
  accounted : s.Accounted
  superBlock : s.fs.superBlock = decodeSuper (s.disk.blockAt 0)

/-- A valid inode is a file, one that is not valid is none, and behind the table there is none. -/
theorem files_of_valid (hat : s.inodeAt n = some inode) (hvalid : inode.valid ≠ 0) :
    s.files n = some (s.disk.fileOf inode) := by
  rw [files, hat, Option.bind_some, if_neg hvalid]

theorem files_of_invalid (hat : s.inodeAt n = some inode) (hvalid : inode.valid = 0) :
    s.files n = none := by
  rw [files, hat, Option.bind_some, if_pos hvalid]

theorem files_of_none (hat : s.inodeAt n = none) : s.files n = none := by
  rw [files, hat, Option.bind_none]

/-- A number without a file: not in the table, or not valid. -/
theorem files_eq_none_iff : s.files n = none ↔ ∀ valid, s.validAt n = some valid → valid = 0 := by
  unfold files State.validAt
  cases s.inodeAt n with
  | none => simp
  | some inode => by_cases hvalid : inode.valid = 0 <;> simp [hvalid]

/-- What the store has under a number is a valid inode. -/
theorem isFile_of_files (h : s.files n ≠ none) : s.IsFile n := by
  unfold files at h
  cases hat : s.inodeAt n with
  | none =>
    rw [hat] at h
    exact absurd rfl h
  | some inode =>
    rw [hat, Option.bind_some] at h
    exact ⟨inode, hat, fun hvalid => h (if_pos hvalid)⟩

/-- The slots of a file are the view of its inode. -/
theorem fileOf_slots (hat : s.inodeAt n = some inode) (k : Fin 5) :
    (s.disk.fileOf inode).slots k = s.view (n, k) := by
  rw [view, ownerOf, hat, Option.bind_some, apply_ite (Option.map s.disk.blockAt)]
  rfl

/-- The same inode with the same view has the same file. -/
theorem files_congr (hat : s'.inodeAt n = s.inodeAt n) (hview : ∀ k, s'.view (n, k) = s.view (n, k)) :
    s'.files n = s.files n := by
  unfold files
  rw [hat]
  cases hs : s.inodeAt n with
  | none => rfl
  | some inode =>
    have hslots : (s'.disk.fileOf inode).slots = (s.disk.fileOf inode).slots := by
      funext k
      rw [fileOf_slots (hat.trans hs), fileOf_slots hs, hview]
    have hfile : s'.disk.fileOf inode = s.disk.fileOf inode := congrArg (File.mk inode.size) hslots
    rw [Option.bind_some, Option.bind_some, hfile]

/-- The numbers of the store are those of the table. -/
theorem Mounted.store_inodes (hm : s.Mounted) :
    s.store.inodes = s.shape.tableBlocks * inodesPerBlock := by
  rw [Store.inodes]
  show s.fs.superBlock.inodeBlocks.toNat * _ = _
  rw [show s.fs.superBlock.inodeBlocks.toNat = s.shape.tableBlocks from hm.inodeBlocks]

/-- What is looked up in the store stands in the table. -/
theorem Mounted.lookup_eq (hm : s.Mounted) (n : Nat) :
    s.store.lookup n = (s.inodeAt n).elim (.error .outOfBounds) fun _ => .ok (s.files n) := by
  rw [Store.lookup, Mounted.store_inodes hm]
  by_cases hn : n < s.shape.tableBlocks * inodesPerBlock
  · obtain ⟨inode, hat⟩ := inodeAt_eq_some_of_lt hn
    rw [if_pos hn, hat]
    rfl
  · rw [if_neg hn, inodeAt_eq_none hn]
    rfl

/-! ## Room

The store counts the blocks of its files, `copyin` looks for an entry of the bitmap. On an image
without leaks the two come to one number, since every used block belongs to one slot. -/

/-- A file has as many blocks as its inode has slots that are held. -/
theorem blockCount_files (n : Nat) : (s.files n).elim 0 File.blockCount
    = (Finset.univ.filter fun k : Fin 5 => (s.inodeAt n).any
        (fun inode => inode.valid != 0 && inode.direct k != 0) = true).card := by
  cases hat : s.inodeAt n with
  | none => simp [files_of_none hat]
  | some inode =>
    -- a slot of an inode that is not valid is not held, whatever its pointer
    by_cases hvalid : inode.valid = 0
    · simp [files_of_invalid hat hvalid, hvalid]
    · rw [files_of_valid hat hvalid]
      show (Finset.univ.filter fun k => ((s.disk.fileOf inode).slots k).isSome = true).card = _
      refine congrArg Finset.card (Finset.filter_congr fun k _ => ?_)
      by_cases hzero : inode.direct k = 0 <;> simp [Disk.fileOf, hvalid, hzero]

/-- The blocks that the files fill are the slots that are held. -/
theorem Mounted.used_eq (hm : s.Mounted) : s.store.used = s.heldSlots.card := by
  rw [Store.used, Mounted.store_inodes hm, heldSlots, Finset.card_filter, Finset.sum_product]
  exact Finset.sum_congr rfl fun n _ => (blockCount_files n).trans (Finset.card_filter _ _)

/-- The data blocks are the free ones and the used ones. -/
theorem card_freeBlocks (s : State) : s.freeBlocks.card + s.usedBlocks.card
    = s.shape.blocks.toNat - s.shape.firstDataBlock := by
  have hsplit : s.freeBlocks ∪ s.usedBlocks = Finset.Ico s.shape.firstDataBlock s.shape.blocks.toNat := by
    ext b
    rw [Finset.mem_union, mem_freeBlocks, mem_usedBlocks, Finset.mem_Ico]
    cases hfree : s.isFree b <;> simp [IsUsed, hfree, Shape.IsDataBlock]
  have hdisjoint : Disjoint s.freeBlocks s.usedBlocks := by
    refine Finset.disjoint_left.mpr fun b hfree hused => ?_
    have hmarked : s.isFree b = false := (mem_usedBlocks.mp hused).2
    rw [(mem_freeBlocks.mp hfree).2] at hmarked
    cases hmarked
  -- the interval from the first data block to the end of the disk
  rw [← Finset.card_union_of_disjoint hdisjoint, hsplit, Nat.card_Ico]

/-- **The room left** is what the bitmap says. -/
theorem Accounted.free_eq (hs : s.Accounted) : s.store.free = s.freeBlocks.card := by
  have hcard := s.card_freeBlocks
  have hfirst : s.shape.firstDataBlock = s.shape.tableBlocks + 1 := hs.mounted.firstDataBlock
  have htable : s.fs.superBlock.inodeBlocks.toNat = s.shape.tableBlocks := hs.mounted.inodeBlocks
  -- nothing leaks, so the used blocks are as many as the held slots
  rw [Store.free, Mounted.used_eq hs.mounted, ← hs.leaksNothing.count]
  show s.shape.blocks.toNat - (s.fs.superBlock.inodeBlocks.toNat + 1) - _ = _
  omega

/-- A store with the same numbers and the files `files`, of which `changed` are to be written. -/
theorem store_of_shape (hshape : s'.shape = s.shape) : s'.store
    = { s.store with files := s'.files, changed := s'.isDirty } := by
  have hsuper : s'.fs.superBlock = s.fs.superBlock := congrArg Shape.superBlock hshape
  have hblocks : s'.disk.blocks = s.disk.blocks := congrArg Shape.blocks hshape
  rw [store, store, hsuper, hblocks]

/-- **A file put.** -/
theorem store_put (hshape : s'.shape = s.shape) (hself : s'.files n = some file)
    (hothers : ∀ m, m ≠ n → s'.files m = s.files m)
    (hdirty : ∀ i, s'.isDirty i = (decide (i = n / inodesPerBlock) || s.isDirty i)) :
    s'.store = s.store.put n file := by
  rw [store_of_shape hshape, Store.put]
  refine Store.ext rfl rfl (funext fun m => ?_) (funext hdirty)
  by_cases hmn : m = n
  · rw [hmn]
    exact hself.trans (if_pos rfl).symm
  · exact (hothers m hmn).trans (if_neg hmn).symm

/-- **A file erased.** -/
theorem store_erase (hshape : s'.shape = s.shape) (hself : s'.files n = none)
    (hothers : ∀ m, m ≠ n → s'.files m = s.files m) (hdirty : ∀ i, s'.isDirty i = s.isDirty i) :
    s'.store = s.store.erase n := by
  rw [store_of_shape hshape, Store.erase]
  refine Store.ext rfl rfl (funext fun m => ?_) (funext hdirty)
  by_cases hmn : m = n
  · rw [hmn]
    exact hself.trans (if_pos rfl).symm
  · exact (hothers m hmn).trans (if_neg hmn).symm

/-! ## Copying out

`copyout` asks for block after block until a read gives nothing. On separate slots a read gives what
the slot holds and marks what is marked, so the loop is a walk along the slots of the file. -/

/-- Reading marks nothing that is not marked. -/
theorem Separate.read_same (hs : s.Separate) {data data' : Block} {length offset total : Nat}
    (h : s.read n data length offset = .ok (total, data', s')) : s' = s := by
  have hsame := read_sameSlots hs h
  obtain ⟨inode, -, ⟨-, -, -, -, hmark, -⟩ | ⟨-, -, -, rfl⟩⟩ := of_read h
  · have hfree : s'.fs.freeBlock = s.fs.freeBlock := by
      funext j
      have hj := hsame.free j
      rwa [isFree, dif_pos j.isLt, isFree, dif_pos j.isLt] at hj
    -- the bitmap is all that a read can change, and its entries are what they were
    have hset : s' = { s with fs := { s.fs with freeBlock := s'.fs.freeBlock } } := by
      rw [hmark]
      rfl
    rw [hset, hfree]
  · rfl

/-- **The loop of `copyout`** delivers what a reader gets, and changes nothing. Induction on the
slots that follow. -/
theorem copyoutLoop_bytes (hs : s.Separate) (hat : s.inodeAt n = some inode) (left : Nat) :
    ∀ {k : Nat} (buffer : Block), k + left = 5 → copyoutLoop n s buffer (k * blockSize)
      = .ok ((s.disk.fileOf inode).bytesFrom k,
          k * blockSize + ((s.disk.fileOf inode).bytesFrom k).length, s) := by
  induction left with
  | zero =>
    intro k buffer hk
    -- behind the fifth pointer
    have hend : ¬ k * blockSize / blockSize < 5 := by
      rw [Nat.mul_div_cancel _ (by decide)]
      omega
    have hread : s.read n buffer blockSize (k * blockSize) = .ok (0, buffer, s) := by
      refine read_nothing hat ?_ buffer blockSize
      rw [directAt, dif_neg hend]
      decide
    rw [copyoutLoop_done hread, File.bytesFrom_behind (by omega), List.length_nil, Nat.add_zero]
  | succ left ih =>
    intro k buffer hk
    have hk5 : k < 5 := by omega
    have hindex : k * blockSize / blockSize < 5 := by
      rw [Nat.mul_div_cancel _ (by decide)]
      exact hk5
    obtain ⟨total, data, s₁, hread, -, hholds⟩ := read_view hs (lt_of_inodeAt hat) hindex buffer
    obtain rfl := hs.read_same hread
    have hslot : (⟨k * blockSize / blockSize, hindex⟩ : Fin 5) = ⟨k, hk5⟩ :=
      Fin.ext (Nat.mul_div_cancel _ (by decide))
    rw [hslot, ← fileOf_slots hat] at hholds
    -- an empty slot ends the file, a full one gives its block
    cases hfile : (s₁.disk.fileOf inode).slots ⟨k, hk5⟩ with
    | none =>
      rw [hfile] at hholds
      obtain ⟨rfl, -⟩ := Prod.mk.inj hholds
      rw [copyoutLoop_done hread, File.bytesFrom_none hk5 hfile, List.length_nil, Nat.add_zero]
    | some block =>
      rw [hfile] at hholds
      obtain ⟨rfl, hdata⟩ := Prod.mk.inj hholds
      rw [hdata] at hread
      rw [copyoutLoop_step hread, ← Nat.succ_mul, ih block (by omega), ok_bind,
        File.bytesFrom_some hk5 hfile, List.length_append, List.length_ofFn]
      show Except.ok (_, _, s₁) = _
      rw [Nat.succ_mul, Nat.add_assoc]

/-- A read that throws ends the loop with what it throws. -/
theorem copyoutLoop_fault {buffer : Block} {offset : Nat} {fault : Fault}
    (hread : s.read n buffer blockSize offset = .error fault) :
    copyoutLoop n s buffer offset = .error fault := by
  rw [copyoutLoop]
  split
  · next fault' hfault =>
    rw [hread] at hfault
    cases hfault
    rfl
  · next total buffer' s₁ hok =>
    rw [hread] at hok
    cases hok

/-- An inode that is not valid is read as an empty file. -/
theorem bytes_of_inodeAt (hempty : s.InvalidEmpty) (hat : s.inodeAt n = some inode) :
    (s.disk.fileOf inode).bytes = (s.files n).elim [] File.bytes := by
  by_cases hvalid : inode.valid = 0
  · have hslot : (s.disk.fileOf inode).slots 0 = none := if_pos ((hempty n inode hat hvalid).2 0)
    rw [files_of_invalid hat hvalid]
    exact File.bytesFrom_none (by decide) hslot
  · rw [files_of_valid hat hvalid]
    rfl

/-- **`cat` and `copyout`** are those of the store. -/
theorem doCopyout_eq (hs : s.Accounted) (n : Nat) (opens : Bool) (failed : Message) :
    doCopyout s n opens failed = (s.store.copyout n opens failed >>= fun r =>
      .ok (r.1.written, r.1.printed, s)) := by
  cases opens with
  | false => rfl
  | true =>
    have hm := hs.mounted
    rw [doCopyout, copyout, if_pos rfl, if_pos (Mounted.isDiskMounted hm), Store.copyout, if_pos rfl,
      Mounted.lookup_eq hm]
    cases hat : s.inodeAt n with
    | none =>
      -- no such inode: the first read throws
      have hread : s.read n zeroBuffer blockSize 0 = .error .outOfBounds := by
        rw [State.read, getINode_eq, hat]
        rfl
      rw [copyoutLoop_fault hread]
      rfl
    | some inode =>
      have hloop := copyoutLoop_bytes hs.separate hat 5 zeroBuffer (Nat.zero_add 5)
      rw [Nat.zero_mul, Nat.zero_add] at hloop
      have hbytes : (s.disk.fileOf inode).bytesFrom 0 = (s.files n).elim [] File.bytes :=
        bytes_of_inodeAt hs.empty hat
      rw [hloop, hbytes]
      rfl

/-! ## Sizes

`stat` and `ls` print the `Size` of whatever inode they are given. Of one that is not valid it is
zero on a clean image, so they show what the store shows. -/

/-- The size of an inode is that of the file. -/
theorem sizeOf_eq (hs : s.Accounted) (n : Nat) :
    (s.getINode n >>= fun inode => .ok inode.size) = s.store.sizeOf n := by
  rw [getINode_eq, Store.sizeOf, Mounted.lookup_eq hs.mounted]
  cases hat : s.inodeAt n with
  | none => rfl
  | some inode =>
    by_cases hvalid : inode.valid = 0
    · show Except.ok inode.size = Except.ok ((s.files n).elim 0 File.size)
      rw [files_of_invalid hat hvalid, (hs.empty n inode hat hvalid).1]
      rfl
    · show Except.ok inode.size = Except.ok ((s.files n).elim 0 File.size)
      rw [files_of_valid hat hvalid]
      rfl

/-- `FileSystem::stat` returns it, `stat` prints it, and `ls` prints the first twenty. -/
theorem stat_eq (hs : s.Accounted) (n : Nat) :
    s.stat n = (s.store.sizeOf n >>= fun size => .ok size.toNat) := by
  rw [← sizeOf_eq hs, State.stat]
  cases s.getINode n <;> rfl

theorem doStat_eq (hs : s.Accounted) (n : Nat) :
    doStat s n = (s.store.stat n >>= fun r => .ok (r.1.printed, s)) := by
  rw [doStat, if_pos (Mounted.isDiskMounted hs.mounted), stat_eq hs, Store.stat]
  cases s.store.sizeOf n <;> rfl

theorem doLs_eq (hs : s.Accounted) : doLs s = (s.store.ls >>= fun r => .ok (r.1.printed, s)) := by
  have hls : s.ls = s.store.lines := by
    refine congrArg (fun line => (List.range 20).mapM line) (funext fun n => ?_)
    rw [← sizeOf_eq hs]
    cases s.getINode n <;> rfl
  rw [doLs, if_pos (Mounted.isDiskMounted hs.mounted), hls, Store.ls]
  cases s.store.lines <;> rfl

/-! ## Removing

`remove` is not asked whether there is a file. Where there is none it erases nothing, and says that
it has removed the inode all the same. -/

/-- **`remove`** erases the file, and gives its room back. -/
theorem doRemove_matches (hs : s.InOrder) (n : Nat) :
    s.store.remove n = .error .outOfBounds ∧ doRemove s n = .error .outOfBounds
      ∨ ∃ s', doRemove s n = .ok ([.removedInode n], s') ∧ s'.InOrder
        ∧ s.store.remove n = .ok ({ printed := [.removedInode n], written := [] }, s'.store) := by
  have hm := hs.accounted.mounted
  rw [Store.remove, Mounted.lookup_eq hm, doRemove, if_pos (Mounted.isDiskMounted hm)]
  cases hat : s.inodeAt n with
  | none =>
    refine Or.inl ⟨rfl, ?_⟩
    rw [remove_outOfBounds hat]
    rfl
  | some inode =>
    obtain ⟨s', hremove⟩ := remove_ok ⟨hm.diskSet, hs.accounted.small⟩ hat
    obtain ⟨-, _, -, hshape, hdisk, hdirty, hself, hothers, -⟩ := of_remove hremove
    -- the other files keep their inodes, and no slot of theirs is touched
    have hafter := remove_afterCall hs.accounted.separate hremove
    have hstore : s'.store = s.store.erase n := store_erase hshape (files_of_invalid hself rfl)
      (fun m hmn => files_congr (hothers m hmn) fun k =>
        hafter.view m k fun heq => hmn (Option.some.inj heq).symm) hdirty
    refine Or.inr ⟨s', ?_, ⟨remove_accounted hs.accounted hremove, ?_⟩, ?_⟩
    · rw [hremove]
      rfl
    · rw [hdisk, ← hs.superBlock]
      exact congrArg Shape.superBlock hshape
    · rw [hstore]
      rfl

/-! ## Copying in

The command takes a number, fills a file block by block, and writes the size last. The store does
the three at once, so the run of the loop has to be known as a whole: how it ends, what it prints,
and what it leaves. -/

variable {stream : List UInt8}

/-- The number that the store gives out is the first free inode. -/
theorem firstFree_eq_some_iff (hm : s.Mounted) : s.store.firstFree = some n ↔ s.FirstFree n := by
  have hfree : ∀ {m}, m < s.shape.tableBlocks * inodesPerBlock →
      ((s.files m).isNone = true ↔ s.validAt m = some 0) := by
    intro m hlt
    obtain ⟨inode, hat⟩ := inodeAt_eq_some_of_lt hlt
    rw [Option.isNone_iff_eq_none, files_eq_none_iff, validAt_eq_some hat]
    simp
  have hin : ∀ {m}, s.validAt m = some 0 → m < s.shape.tableBlocks * inodesPerBlock := fun hvalid => by
    obtain ⟨inode, hat, -⟩ := Option.map_eq_some_iff.mp hvalid
    exact lt_of_inodeAt hat
  -- `find?` over the numbers is the search of `getNextFreeINode`
  rw [Store.firstFree, Mounted.store_inodes hm, List.find?_range_eq_some, List.mem_range]
  show (s.files n).isNone = true ∧ _ ∧ (∀ j, j < n → (!(s.files j).isNone) = true) ↔ _
  constructor
  · rintro ⟨hnone, hlt, hbefore⟩
    refine ⟨(hfree hlt).mp hnone, fun m hmn hvalid => ?_⟩
    have hsome := hbefore m hmn
    rw [(hfree (hin hvalid)).mpr hvalid] at hsome
    cases hsome
  · rintro ⟨hvalid, hbefore⟩
    have hlt := hin hvalid
    refine ⟨(hfree hlt).mpr hvalid, hlt, fun m hmn => ?_⟩
    rw [Bool.not_eq_true', Bool.eq_false_iff]
    exact fun hnone => hbefore m hmn ((hfree (Nat.lt_trans hmn hlt)).mp hnone)

/-- The buffer of `copyin` after a block of the stream. -/
theorem bufferAfter_eq_streamBlock (k : Nat) (h : k * blockSize < stream.length) :
    bufferAfter stream (k + 1) = streamBlock stream k := by
  funext r
  rw [streamBlock]
  by_cases hin : k * blockSize + r < stream.length
  · rw [bufferAfter_eq_getElem? k hin, Option.getD_some]
  · rw [List.getElem?_eq_none (Nat.le_of_not_lt hin), Option.getD_none, bufferAfter, fillBuffer,
      dif_neg (by rw [List.length_drop]; omega)]
    cases k with
    | zero => rfl
    | succ j =>
      -- the block before was read whole
      have hbefore : j * blockSize + r < stream.length := by
        have hr := r.isLt
        unfold blockSize at *
        omega
      rw [if_neg (Nat.succ_ne_zero j), Nat.succ_sub_one, bufferAfter_eq_getElem? j hbefore,
        Option.getD_some]

/-- Where the loop of `copyin` fails, a write does. Induction on the length of what is left. -/
theorem of_copyinLoop_error {Q : State → Block → Nat → List UInt8 → Prop} (hkept : KeptByRounds n Q)
    {fault : Fault} : ∀ (stream : List UInt8) {s : State} {buffer : Block} {offset : Nat},
      Q s buffer offset stream → copyinLoop n s buffer offset stream = .error fault →
      ∃ s₁ buffer₁ offset₁ stream₁, Q s₁ buffer₁ offset₁ stream₁ ∧ stream₁ ≠ []
        ∧ s₁.write n (fillBuffer buffer₁ stream₁) (min blockSize stream₁.length) offset₁
          = .error fault := by
  intro stream
  induction hlength : stream.length using Nat.strong_induction_on generalizing stream with
  | _ length ih =>
    intro s buffer offset hQ h
    rw [copyinLoop] at h
    dsimp only at h
    split at h
    · cases h
    · next hend =>
      have hne : stream ≠ [] := by
        rintro rfl
        exact hend rfl
      -- either this write fails, or a later one does
      cases hwrite : s.write n (fillBuffer buffer stream) (min blockSize stream.length) offset with
      | error fault' =>
        rw [hwrite, error_bind] at h
        cases h
        exact ⟨s, buffer, offset, stream, hQ, hne, hwrite⟩
      | ok r =>
        obtain ⟨actual, s₁⟩ := r
        rw [hwrite, ok_bind] at h
        dsimp only at h
        rcases of_write (hkept.mounted hQ) hwrite with
          ⟨p, inode, hindex, -, -, -, -, -, rfl, -⟩ | ⟨hindex, rfl, rfl⟩
        · rw [if_neg (by decide), if_neg (by omega)] at h
          have hshorter : (stream.drop blockSize).length < length := by
            have hpos : 0 < stream.length := List.length_pos_iff.mpr hne
            rw [List.length_drop]
            omega
          exact ih _ hshorter _ rfl (hkept.round hQ hne hindex hwrite) h
        · -- the index is behind the pointers: the loop returns
          rw [if_pos rfl] at h
          cases h

/-- **Without room enough** the loop of `copyin` fails, when it comes to write to a full disk. -/
theorem copyinLoop_full (hm : s.Mounted) (hcovers : s.BitmapCovers) (hat : s.inodeAt n = some inode)
    (hshort : s.freeBlocks.card < storedBlocks stream) :
    copyinLoop n s zeroBuffer 0 stream
      = .error (.invalidArgument (.tooBig (asInt s.shape.blocks))) := by
  cases hloop : copyinLoop n s zeroBuffer 0 stream with
  | ok r =>
    -- it would have taken more blocks than are free
    obtain ⟨offset, printed, s'⟩ := r
    obtain ⟨-, taken, buffer, rest, hlength, hstoring⟩ := copyinLoop_storing hm hat hloop
    have hsub : taken.toFinset ⊆ s.freeBlocks := fun b hb =>
      hstoring.lowest.wasFree b (List.mem_toFinset.mp hb)
    have hcard := Finset.card_le_card hsub
    rw [List.toFinset_card_of_nodup (hstoring.lowest.increasing.imp fun hlt => ne_of_lt hlt),
      hlength] at hcard
    omega
  | error fault =>
    obtain ⟨s₁, buffer₁, offset₁, stream₁, ⟨taken, hstoring⟩, hne, hwrite⟩ :=
      of_copyinLoop_error (Storing.kept hm) stream ⟨[], .start hat⟩ hloop
    have hm₁ := hm.of_shape hstoring.shape
    have hcovers₁ : s₁.BitmapCovers := fun b hb =>
      hcovers b ((isDataBlock_congr hstoring.shape b).mp hb)
    obtain ⟨inode₁, hat₁, -⟩ := hstoring.inode
    have hindex : offset₁ / blockSize < pointersPerInode := by
      by_contra hbehind
      rw [write_behind hm₁ hcovers₁ (Nat.le_of_not_lt hbehind)] at hwrite
      cases hwrite
    -- with a block free the write would have gone through
    have hfull : ∀ b, s₁.IsDataBlock b → s₁.isFree b = false := by
      intro b hb
      by_contra hfree
      obtain ⟨s₂, hok⟩ := write_ok hm₁ hat₁ hindex ⟨b, hb, Bool.eq_true_of_not_eq_false hfree⟩
        (fillBuffer buffer₁ stream₁) (min blockSize stream₁.length)
      rw [hok] at hwrite
      cases hwrite
    rw [write_full_error hm₁ hfull hcovers₁ hat₁ hindex, hstoring.shape] at hwrite
    exact congrArg Except.error (Except.error.inj hwrite).symm

/-- A `copyin` command flags the block of its inode. -/
theorem doCopyin_isDirty (hm : s.Mounted) {source : Option (List UInt8)} {printed : List Message}
    (h : doCopyin s source = .ok (n, printed, s')) (hfirst : s.FirstFree n) (i : Nat) :
    s'.isDirty i = (decide (i = n / inodesPerBlock) || s.isDirty i) := by
  rcases of_doCopyin hm h with ⟨old, hold, -, -, hcase⟩ | ⟨-, -, hfull⟩
  · have hcreated : (s.created n old).isDirty i
        = (decide (i = n / inodesPerBlock) || s.isDirty i) := by
      -- the flag of the block is in the list
      have hlt : n / inodesPerBlock < s.shape.dirtyBlocks := by
        rw [hm.dirtyBlocks]
        exact (Nat.div_lt_iff_lt_mul (by decide)).mpr (lt_of_inodeAt hold)
      rw [created, setDirty_isDirty (by rw [setINode_shape]; exact hlt), setINode_isDirty]
    rcases hcase with ⟨rfl, -⟩ | ⟨stream, offset, more, s₁, -, hloop, hsize, -⟩
    · exact hcreated
    · obtain ⟨rest, ⟨-, hdirty⟩, -⟩ := copyinLoop_rule
        (Q := fun s₁ _ _ => s₁.Mounted ∧ s₁.isDirty i = (s.created n old).isDirty i)
        (fun hQ => hQ.1)
        (fun hQ _ _ hwrite => ⟨hQ.1.of_shape (write_shape hQ.1 hwrite),
          (write_isDirty hQ.1 hwrite i).trans hQ.2⟩)
        stream ⟨hm.of_shape created_shape, rfl⟩ hloop
      -- `updateSize` flags nothing
      obtain ⟨inode', -, rfl⟩ := of_updateSize hsize
      rw [setINode_isDirty, hdirty, hcreated]
  · obtain ⟨old, hat, hvalid⟩ := Option.map_eq_some_iff.mp hfirst.1
    exact absurd hvalid (hfull n old hat)

/-- It leaves the other files as they are. -/
theorem doCopyin_files_of_ne (hs : s.Accounted) {source : Option (List UInt8)}
    {printed : List Message} (h : doCopyin s source = .ok (n, printed, s')) (hmn : m ≠ n) :
    s'.files m = s.files m := by
  -- no file can be made of another number, and one that is there is spared
  by_cases hnone : s.files m = none
  · have hvalid : s'.validAt m = s.validAt m := by
      rcases doCopyin_validAt hs.mounted h with ⟨-, hvalid⟩ | ⟨-, rfl⟩
      · rw [hvalid, if_neg hmn]
      · rfl
    rw [hnone, files_eq_none_iff, hvalid]
    exact files_eq_none_iff.mp hnone
  · have hspared := doCopyin_spared hs.separate (isFile_of_files hnone) h
    exact files_congr hspared.inodeAt hspared.view

/-- **What a `copyin` command leaves**, once it is known which file it has made. -/
theorem doCopyin_store (hs : s.InOrder) {source : Option (List UInt8)} {printed : List Message}
    (hfirst : s.FirstFree n) (h : doCopyin s source = .ok (n, printed, s'))
    (hfile : s'.files n = some file) : s'.InOrder ∧ s.store.put n file = s'.store := by
  have hm := hs.accounted.mounted
  have hshape := doCopyin_shape hm h
  refine ⟨⟨doCopyin_accounted hs.accounted h, ?_⟩, ?_⟩
  · rw [doCopyin_tables hm h (Nat.zero_le _), ← hs.superBlock]
    exact congrArg Shape.superBlock hshape
  · exact (store_put hshape hfile (fun m hmn => doCopyin_files_of_ne hs.accounted h hmn)
      (doCopyin_isDirty hm h hfirst)).symm

/-- The file that `create` makes. -/
theorem created_files (hs : s.Accounted) (hat : s.inodeAt n = some inode) (hvalid : inode.valid = 0) :
    (s.created n inode).files n = some .empty := by
  obtain ⟨hsize, hdirect⟩ := hs.empty n inode hat hvalid
  have hslots : ((s.created n inode).disk.fileOf { inode with valid := 1 }).slots = fun _ => none :=
    funext fun k => if_pos (hdirect k)
  rw [files_of_valid (created_inodeAt_self hat) (show (1 : UInt32) ≠ 0 by decide)]
  refine congrArg some ?_
  show File.mk inode.size _ = File.mk 0 _
  rw [hsize]
  exact congrArg (File.mk 0) hslots

/-- The file that `copyin` makes. -/
theorem doCopyin_files (hs : s.Accounted) {printed : List Message}
    (h : doCopyin s (some stream) = .ok (n, printed, s'))
    (hsuccess : Message.copyinFailed ∉ printed) : s'.files n = some (.ofStream stream) := by
  obtain ⟨⟨inode, hat, hvalid⟩, hview⟩ := doCopyin_view hs h hsuccess
  have hslots : (s'.disk.fileOf inode).slots = (File.ofStream stream).slots := by
    funext k
    rw [fileOf_slots hat, hview]
    -- the blocks stored are those that begin within the stream
    have hiff : (k : Nat) < storedBlocks stream ↔ k * blockSize < stream.length := by
      have hk := k.isLt
      unfold storedBlocks storedLength blockSize pointersPerInode
      omega
    by_cases hin : k * blockSize < stream.length
    · rw [if_pos (hiff.mpr hin), bufferAfter_eq_streamBlock k hin]
      exact (File.ofStream_some k.isLt hin).symm
    · rw [if_neg fun hlt => hin (hiff.mp hlt)]
      exact (File.ofStream_none k.isLt (Nat.le_of_not_lt hin)).symm
  have hsize : inode.size = UInt32.ofNat (storedLength stream) := by
    rcases of_doCopyin hs.mounted h with
      ⟨old, hold, -, -, ⟨-, hfailed⟩ | ⟨_, offset, more, s₁, hsource, hloop, hsize, -⟩⟩ | ⟨-, hfailed, -⟩
    · exact absurd hfailed hsuccess
    · cases hsource
      obtain ⟨rfl, -⟩ := copyinLoop_storing (created_accounted hs hold).mounted
        (created_inodeAt_self hold) hloop
      obtain ⟨inode₁, hat₁, rfl⟩ := of_updateSize hsize
      rw [setINode_inodeAt_self (lt_of_inodeAt hat₁), Option.some.injEq] at hat
      rw [← hat]
    · exact absurd hfailed hsuccess
  rw [files_of_valid hat hvalid]
  refine congrArg some ?_
  show File.mk inode.size _ = File.mk _ _
  rw [hsize]
  exact congrArg (File.mk _) hslots

/-- What the loop prints tells whether the stream was longer than a file can be. -/
theorem copyinLoop_printed (hm : s.Mounted) (hat : s.inodeAt n = some inode) {offset : Nat}
    {printed : List Message} (h : copyinLoop n s zeroBuffer 0 stream = .ok (offset, printed, s')) :
    offset = storedLength stream ∧ printed
      = if stream.length ≤ pointersPerInode * blockSize then [] else [.invalidResult 0] := by
  obtain ⟨buffer, rest, ⟨taken, hstoring⟩, hend⟩ :=
    copyinLoop_run (Storing.kept hm) stream ⟨[], .start hat⟩ h
  obtain ⟨hoffset, -⟩ := hstoring.finish (hend.imp And.left fun hand => hand.2.1)
  refine ⟨hoffset, ?_⟩
  have hrest := hstoring.rest
  have hfew := hstoring.few
  rcases hend with ⟨hnil, rfl⟩ | ⟨hne, hindex, rfl⟩
  · rw [hnil] at hrest
    have hle : stream.length ≤ taken.length * blockSize := List.drop_eq_nil_iff.mp hrest.symm
    -- the stream was read to its end
    rw [if_pos (hle.trans (Nat.mul_le_mul_right blockSize hfew))]
  · -- five blocks are full, and there is more
    obtain ⟨hfull, hmore⟩ := hstoring.offset_of_ne_nil hne
    rw [if_neg (by unfold pointersPerInode blockSize at *; omega)]

/-- A `copyin` of a stream, once an inode is taken. -/
theorem copyin_stream (hs : s.Accounted) (hat : s.inodeAt n = some inode)
    (stream : List UInt8) :
    (storedBlocks stream ≤ s.freeBlocks.card ∧ ∃ s', copyin s (some stream) n = .ok (true,
        (if stream.length ≤ pointersPerInode * blockSize then [] else [.invalidResult 0])
          ++ [.bytesCopied (storedLength stream)], s'))
      ∨ ¬ storedBlocks stream ≤ s.freeBlocks.card ∧ copyin s (some stream) n
        = .error (.invalidArgument (.tooBig (asInt s.shape.blocks))) := by
  have hm := hs.mounted
  have hcovers : s.BitmapCovers := fun b hb => Nat.lt_of_lt_of_le hb.2 hs.small
  by_cases henough : storedBlocks stream ≤ s.freeBlocks.card
  · obtain ⟨⟨offset, printed, s₁⟩, hloop⟩ := copyinLoop_ok hm hcovers hat henough
    obtain ⟨rfl, rfl⟩ := copyinLoop_printed hm hat hloop
    obtain ⟨-, taken, buffer, rest, -, hstoring⟩ := copyinLoop_storing hm hat hloop
    obtain ⟨inode₁, hat₁, -⟩ := hstoring.inode
    exact Or.inl ⟨henough, _, copyin_of_loop (Mounted.isDiskMounted hm) hloop (updateSize_ok hat₁)⟩
  · refine Or.inr ⟨henough, ?_⟩
    unfold copyin
    dsimp only
    -- the loop throws, and the command with it
    rw [if_pos (Mounted.isDiskMounted hm),
      copyinLoop_full hm hcovers hat (Nat.lt_of_not_le henough)]
    rfl

/-- **`copyin`** is that of the store. -/
theorem doCopyin_matches (hs : s.InOrder) (source : Option (List UInt8)) :
    (∃ fault, doCopyin s source = .error fault ∧ s.store.copyin source = .error fault)
      ∨ ∃ m printed s', doCopyin s source = .ok (m, printed, s') ∧ s'.InOrder
        ∧ s.store.copyin source = .ok ({ printed, written := [] }, s'.store) := by
  have hm := hs.accounted.mounted
  rcases of_create hm with ⟨n, inode, -, hat, hvalid, hnext, -⟩ | ⟨hcreate, hfull⟩
  · have hfirst : s.FirstFree n := (firstFree_iff hm).mpr ⟨inode, hnext⟩
    have hgiven := (firstFree_eq_some_iff hm).mpr hfirst
    have hcopyin := doCopyin_eq hm hnext source
    have hempty := created_files hs.accounted hat hvalid
    rw [Store.copyin, hgiven]
    dsimp only
    by_cases hn : n < s.fs.superBlock.inodeBlocks.toNat
    · rw [if_pos hn] at hcopyin
      -- the number passes the check of `isValidInode`
      rw [if_pos (show n < s.store.superBlock.inodeBlocks.toNat from hn)]
      cases source with
      | none =>
        have hdone : doCopyin s none
            = .ok (n, [.createdInode n, .unableToOpen, .copyinFailed], s.created n inode) := hcopyin
        obtain ⟨hs', hput⟩ := doCopyin_store hs hfirst hdone hempty
        refine Or.inr ⟨n, _, _, hdone, hs', ?_⟩
        dsimp only
        rw [hput]
      | some stream =>
        have hs₁ := created_accounted hs.accounted hat
        have hroom : (s.created n inode).freeBlocks = s.freeBlocks := by
          ext b
          rw [mem_freeBlocks, mem_freeBlocks, isDataBlock_congr created_shape, created_isFree]
        have hfree : s.store.free = (s.created n inode).freeBlocks.card := by
          rw [hs.accounted.free_eq, hroom]
        dsimp only
        rw [hfree]
        rcases copyin_stream hs₁ (created_inodeAt_self hat) stream with
          ⟨henough, s', hok⟩ | ⟨hshort, herror⟩
        · rw [hok, ok_bind] at hcopyin
          dsimp only at hcopyin
          rw [if_pos rfl] at hcopyin
          have hsuccess : Message.copyinFailed ∉ ([Message.createdInode n]
              ++ ((if stream.length ≤ pointersPerInode * blockSize then [] else [.invalidResult 0])
                ++ [.bytesCopied (storedLength stream)])) := by
            split <;> simp
          obtain ⟨hs', hput⟩ := doCopyin_store hs hfirst hcopyin
            (doCopyin_files hs.accounted hcopyin hsuccess)
          refine Or.inr ⟨n, _, s', hcopyin, hs', ?_⟩
          rw [if_pos henough, hput]
          rfl
        · rw [herror, error_bind] at hcopyin
          refine Or.inl ⟨_, hcopyin, ?_⟩
          rw [if_neg hshort, created_shape]
          rfl
    · rw [if_neg hn] at hcopyin
      -- the number is rejected, but the inode is taken
      rw [if_neg (show ¬ n < s.store.superBlock.inodeBlocks.toNat from hn)]
      obtain ⟨hs', hput⟩ := doCopyin_store hs hfirst hcopyin hempty
      refine Or.inr ⟨n, _, _, hcopyin, hs', ?_⟩
      rw [hput]
  · -- no number is left
    have hnone : s.store.firstFree = none := by
      cases hgiven : s.store.firstFree with
      | none => rfl
      | some n =>
        obtain ⟨inode, hat, hvalid⟩ :=
          Option.map_eq_some_iff.mp ((firstFree_eq_some_iff hm).mp hgiven).1
        exact absurd hvalid (hfull n inode hat)
    refine Or.inr ⟨invalideReturn, [.createFailed, .copyinFailed], s, doCopyin_full hm hcreate _, hs, ?_⟩
    rw [Store.copyin, hnone]

/-- **After a mount** the store is what is on the disk. -/
theorem IsMount.store_eq {s₀ : State} (h : IsMount s₀ s) : s.store = Store.ofDisk s₀.disk := by
  have hdisk := h.disk
  refine Store.ext h.superBlock (by show s.disk.blocks = _; rw [hdisk]; rfl) (funext fun n => ?_)
    (funext fun i => h.clean i)
  show s.files n = if _ then _ else _
  by_cases hn : n < s.shape.tableBlocks * inodesPerBlock
  · have hat := h.inodeAt hn
    rw [h.tableBlocks] at hn
    by_cases hvalid : (imageInode s₀.disk n).valid = 0
    · rw [files_of_invalid hat hvalid, if_neg fun hand => hand.2 hvalid]
    · rw [files_of_valid hat hvalid, if_pos ⟨hn, hvalid⟩, hdisk]
      rfl
  · rw [files_of_none (inodeAt_eq_none hn)]
    rw [h.tableBlocks] at hn
    rw [if_neg fun hand => hn hand.1]

/-- On a clean image that state is in order. -/
theorem IsMount.inOrder {blocks : UInt32} {image : Bytes.Image}
    (h : IsMount (State.start blocks image) s) (hclean : CleanImage (State.start blocks image).disk) :
    s.InOrder where
  accounted := h.accounted hclean
  superBlock := by
    rw [h.superBlock, h.disk]
    rfl

end State

/-! ## Sessions

A session is a list of lines typed at the prompt, run until one of them throws. Both sides have the
same shape, so what holds of one line carries over to the whole session. -/

/-- A command that writes no file. -/
def unwritten (result : Except Fault (List Message × State)) : Except Fault (Answer × State) := do
  let (printed, s) ← result
  .ok ({ printed, written := [] }, s)

/-- One line typed at the prompt, with what the file then holds that `cat` and `copyout` write. A line
that throws has no answer: what it had printed by then is left out. -/
def answer (s : State) : Command → Except Fault (Answer × State)
  | .cat n opens => do
    let (written, printed, s) ← doCopyout s n opens .catFailed
    .ok ({ printed, written }, s)
  | .copyout n opens => do
    let (written, printed, s) ← doCopyout s n opens .copyoutFailed
    .ok ({ printed, written }, s)
  | .debug => unwritten (exec s .debug)
  | .format => unwritten (exec s .format)
  | .mount => unwritten (exec s .mount)
  | .remove n => unwritten (exec s (.remove n))
  | .stat n => unwritten (exec s (.stat n))
  | .copyin source => unwritten (exec s (.copyin source))
  | .ls => unwritten (exec s .ls)

/-- It is the line of `exec`. -/
theorem exec_eq_answer (s : State) (command : Command) :
    exec s command = (answer s command >>= fun r => .ok (r.1.printed, r.2)) := by
  cases command with
  | cat n opens =>
    rw [exec, answer]
    cases doCopyout s n opens .catFailed <;> rfl
  | copyout n opens =>
    rw [exec, answer]
    cases doCopyout s n opens .copyoutFailed <;> rfl
  | debug | format | mount | remove | stat | copyin | ls =>
    rw [answer, unwritten]
    cases exec s _ <;> rfl

/-- A mounted disk is not formatted. -/
theorem answer_format (hm : s.Mounted) : answer s .format
    = .ok ({ printed := [.unmountFirst, .formatFailed], written := [] }, s) := by
  have hmounted : s.disk.mounted = true := decide_eq_true hm.mounts
  rw [answer, exec, doFormat, State.format, if_pos hmounted]
  rfl

/-- A state in order, and the store behind it. -/
def Keeps (s : State) (σ : Store) : Prop := s.InOrder ∧ s.store = σ

/-- **A command** does what it does to the store. -/
theorem answer_matches (hs : s.InOrder) {command : Command} (honce : command ≠ .mount) :
    Matches Keeps (answer s command) (s.store.exec command) := by
  have hm := hs.accounted.mounted
  cases command with
  -- a second `mount` reads the table again, which the store does not know of
  | mount => exact absurd rfl honce
  | debug =>
    have hzero : ((0 : Nat) : Int) < asInt s.disk.blocks :=
      Int.lt_of_le_of_lt (Int.natCast_nonneg _) hm.fits
    have hread : s.disk.read 0 = .ok (blockSize, s.disk.blockAt 0) := Disk.read_ok hzero
    have hdebug : answer s .debug = .ok ({ printed := [.superBlock s.store.superBlock.blocks
        s.store.superBlock.inodeBlocks s.store.superBlock.inodes], written := [] }, s) := by
      rw [answer, exec, doDebug, State.debug, hread, ok_bind]
      rw [show s.store.superBlock = decodeSuper (s.disk.blockAt 0) from hs.superBlock]
      rfl
    rw [hdebug]
    exact .answers _ ⟨hs, rfl⟩
  | format =>
    rw [answer_format hm]
    exact .answers _ ⟨hs, rfl⟩
  | cat n opens =>
    rw [answer, doCopyout_eq hs.accounted, Store.exec]
    cases hcopyout : s.store.copyout n opens .catFailed with
    | error fault => exact .fails fault
    | ok r => exact .answers r.1 ⟨hs, (Store.of_copyout hcopyout).1.symm⟩
  | copyout n opens =>
    rw [answer, doCopyout_eq hs.accounted, Store.exec]
    cases hcopyout : s.store.copyout n opens .copyoutFailed with
    | error fault => exact .fails fault
    | ok r => exact .answers r.1 ⟨hs, (Store.of_copyout hcopyout).1.symm⟩
  | stat n =>
    rw [answer, exec, doStat_eq hs.accounted, Store.exec, Store.stat]
    cases s.store.sizeOf n with
    | error fault => exact .fails fault
    | ok size => exact .answers _ ⟨hs, rfl⟩
  | ls =>
    rw [answer, exec, doLs_eq hs.accounted, Store.exec, Store.ls]
    cases s.store.lines with
    | error fault => exact .fails fault
    | ok lines => exact .answers _ ⟨hs, rfl⟩
  | remove n =>
    rw [answer, exec, Store.exec]
    rcases doRemove_matches hs n with ⟨hstore, hremove⟩ | ⟨s', hremove, hs', hstore⟩
    · rw [hstore, hremove]
      exact .fails _
    · rw [hstore, hremove]
      exact .answers _ ⟨hs', rfl⟩
  | copyin source =>
    rw [answer, exec, Store.exec]
    rcases doCopyin_matches hs source with ⟨fault, hcopyin, hstore⟩ | ⟨_, _, s', hcopyin, hs', hstore⟩
    · rw [hstore, hcopyin]
      exact .fails fault
    · rw [hstore, hcopyin]
      exact .answers _ ⟨hs', rfl⟩

/-- The same, in a list without a second `mount`. -/
theorem answer_keeps {commands : List Command} (honce : .mount ∉ commands) {s : State} {σ : Store}
    {command : Command} (hmem : command ∈ commands) (hkeeps : Keeps s σ) :
    Matches Keeps (answer s command) (Store.exec σ command) := by
  obtain ⟨hs, rfl⟩ := hkeeps
  exact answer_matches hs fun heq => honce (heq ▸ hmem)

/-- **Headline.** From a mounted clean image, whatever the commands but a second `mount`: what is
printed and written at every line before the one that ends the program, which line that is, and why it
does, are those of the store that is on the disk; and if it comes to the end of the commands the files
in memory are those of the store then. -/
theorem session_refines {blocks : UInt32} {image : Bytes.Image} {s₀ : State} {commands : List Command}
    (hclean : CleanImage (State.start blocks image).disk)
    (hmount : (State.start blocks image).mount = .ok (true, s₀)) (honce : .mount ∉ commands) :
    transcript answer s₀ commands
        = transcript Store.exec (Store.ofDisk (State.start blocks image).disk) commands
      ∧ Ends Keeps (final answer s₀ commands)
        (final Store.exec (Store.ofDisk (State.start blocks image).disk) commands) := by
  have hismount := (of_mount hmount).2
  have hstart : Keeps s₀ (Store.ofDisk (State.start blocks image).disk) :=
    ⟨hismount.inOrder hclean, hismount.store_eq⟩
  have halike := alike_of_mem commands (answer_keeps honce) hstart
  exact ⟨halike.seen, halike.ends⟩

/-- A file copied in, read back, removed, and looked for again. -/
theorem session_refines_small : ∃ s₀, (State.start 4 (smallImage 0)).mount = .ok (true, s₀)
    ∧ transcript answer s₀ [.copyin (some [65]), .cat 0 true, .remove 0, .stat 0]
      = transcript Store.exec (Store.ofDisk (smallDisk 4 0))
          [.copyin (some [65]), .cat 0 true, .remove 0, .stat 0] := by
  have hclean : CleanImage (State.start 4 (smallImage 0)).disk :=
    smallDisk_clean (by decide) (by decide) 0
  obtain ⟨s₀, hmount, -⟩ := smallDisk_mount 4 (by decide) (by decide) 0
  exact ⟨s₀, hmount, (session_refines hclean hmount (by simp)).1⟩

/-- A completed run leaves a state in order, and the store with the files of that state. -/
theorem final_store {commands : List Command} (hs : s.InOrder) (honce : .mount ∉ commands)
    (hrun : final answer s commands = .ok s') :
    s'.InOrder ∧ final Store.exec s.store commands = .ok s'.store := by
  have hends : Ends Keeps (final answer s commands) (final Store.exec s.store commands) :=
    (alike_of_mem commands (answer_keeps honce) ⟨hs, rfl⟩).ends
  rw [hrun] at hends
  obtain ⟨σ, hσ, hs', rfl⟩ := hends.of_ok
  exact ⟨hs', hσ⟩

/-- A file of a state in order, read back. -/
theorem State.InOrder.copyout_file (hs : s.InOrder) (hfile : s.files n = some file) :
    answer s (.copyout n true)
        = .ok ({ printed := [.bytesCopied file.bytes.length], written := file.bytes }, s)
      ∧ s.stat n = .ok file.size.toNat := by
  obtain ⟨inode, hat, -⟩ := isFile_of_files (hfile.symm ▸ Option.some_ne_none file)
  have hlookup : s.store.lookup n = .ok (some file) := by
    rw [Mounted.lookup_eq hs.accounted.mounted, hat, hfile]
    rfl
  refine ⟨?_, ?_⟩
  · rw [answer, doCopyout_eq hs.accounted, Store.copyout, if_pos rfl, hlookup]
    rfl
  · rw [stat_eq hs.accounted, Store.sizeOf, hlookup]
    rfl

/-- **What is copied in is copied out.** In a session from a mounted clean image, after a `copyin`
that reports success: whatever the commands that follow, as long as they neither remove the file
nor mount the disk again, `copyout` writes the stream, up to five blocks of it and filled up to
whole blocks, and `stat` reports how much of it is kept. -/
theorem file_remains {blocks : UInt32} {image : Bytes.Image} {s₀ s₁ s₂ : State}
    {before after : List Command} {stream : List UInt8} {printed : List Message}
    (hclean : CleanImage (State.start blocks image).disk)
    (hmount : (State.start blocks image).mount = .ok (true, s₀))
    (hbefore : final answer s₀ before = .ok s) (honce : .mount ∉ before)
    (hcopyin : doCopyin s (some stream) = .ok (n, printed, s₁))
    (hsuccess : Message.copyinFailed ∉ printed)
    (hafter : final answer s₁ after = .ok s₂) (honce' : .mount ∉ after) (hkept : .remove n ∉ after) :
    ∃ written, answer s₂ (.copyout n true)
          = .ok ({ printed := [.bytesCopied written.length], written }, s₂)
      ∧ stream.take (pointersPerInode * blockSize) <+: written
      ∧ written.length = storedBlocks stream * blockSize
      ∧ s₂.stat n = .ok (storedLength stream) := by
  have hismount := (of_mount hmount).2
  have hs := (final_store (hismount.inOrder hclean) honce hbefore).1
  have hfirst : s.FirstFree n := by
    rcases of_doCopyin hs.accounted.mounted hcopyin with ⟨inode, -, -, hnext, -⟩ | ⟨-, hfailed, -⟩
    · exact (firstFree_iff hs.accounted.mounted).mpr ⟨inode, hnext⟩
    · exact absurd hfailed hsuccess
  have hfile := doCopyin_files hs.accounted hcopyin hsuccess
  have hs₁ := (doCopyin_store hs hfirst hcopyin hfile).1
  obtain ⟨hs₂, hrun⟩ := final_store hs₁ honce' hafter
  -- on the store nothing but `remove n` touches the file
  have hremains : s₂.files n = some (.ofStream stream) := Store.final_files hkept hfile hrun
  obtain ⟨hcopyout, hstat⟩ := hs₂.copyout_file hremains
  have hsize : (File.ofStream stream).size.toNat = storedLength stream := by
    refine UInt32.toNat_ofNat_of_lt' ?_
    show storedLength stream < 4294967296
    unfold storedLength blockSize pointersPerInode
    omega
  exact ⟨_, hcopyout, File.take_isPrefix_bytes stream, File.length_bytesFrom stream 5 (Nat.zero_add 5),
    hstat.trans (congrArg Except.ok hsize)⟩

/-- A byte copied in, and an attempt to format the disk. -/
theorem file_remains_small : ∃ s₂ written,
    answer s₂ (.copyout 0 true) = .ok ({ printed := [.bytesCopied written.length], written }, s₂)
      ∧ [65] <+: written ∧ written.length = 4096 := by
  have hclean : CleanImage (State.start 4 (smallImage 0)).disk :=
    smallDisk_clean (by decide) (by decide) 0
  obtain ⟨s₀, printed, s₁, hmount, hismount, hcopyin, hsuccess⟩ :=
    smallDisk_copyin 4 (by decide) (by decide) [65] (by decide) (by decide)
  have hm₁ : s₁.Mounted := hismount.mounted.of_shape (doCopyin_shape hismount.mounted hcopyin)
  have hformat : final answer s₁ [.format] = .ok s₁ := final_ok (answer_format hm₁)
  have hbefore : final answer s₀ [] = .ok s₀ := rfl
  obtain ⟨written, hcopyout, hbytes, hlength, -⟩ := file_remains hclean hmount hbefore
    List.not_mem_nil hcopyin hsuccess hformat (by simp) (by simp)
  exact ⟨s₁, written, hcopyout, hbytes, hlength⟩

end OsLab.Sfs
