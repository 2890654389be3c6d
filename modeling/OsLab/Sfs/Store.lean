import Mathlib.Algebra.BigOperators.Fin
import OsLab.Lib.Transcript
import OsLab.Sfs.CopyIn

/-!
# OsLab.Sfs.Store — what the file system is for

The file system as its user may think of it: numbered files of at most five blocks, and so much
room. There are no pointers, no bitmap and no block numbers here, and no state of a loop.

* **`File.ofStream`**: the file that `copyin` makes of a stream. A last block that the stream does
  not fill is filled up with the end of the block before.
* **`Store.exec`**: the commands on a store. What a command does to the files and what it answers
  depends on the store alone; it fails where a number is no inode's and where the room is used up.
* **`File.take_isPrefix_bytes`**: a reader gets the stream back, and what fills the last block.
* **`Store.final_files`**: a file is left alone by all commands that do not remove it.
-/

namespace OsLab.Sfs

open Fallible Transcript

/-! ## Files

A file is a size and at most five blocks. A block is there or not, and which block of the disk it is
does not matter. -/

/-- What `stat` reports of a file, and the five places for a block of it. -/
structure File where
  size : UInt32
  slots : Fin 5 → Option Block

/-- Block `k` of a stream. Behind the end of the stream stands what block `k - 1` has there. -/
def streamBlock (stream : List UInt8) (k : Nat) : Block := fun r =>
  stream[k * blockSize + (r : Nat)]?.getD
    (if k = 0 then 0 else stream[(k - 1) * blockSize + (r : Nat)]?.getD 0)

namespace File

/-- The file that `create` makes. -/
def empty : File := { size := 0, slots := fun _ => none }

/-- The file that `copyin` makes. -/
def ofStream (stream : List UInt8) : File :=
  { size := UInt32.ofNat (storedLength stream)
    slots := fun k => if k * blockSize < stream.length then some (streamBlock stream k) else none }

/-- How many blocks it has. -/
def blockCount (file : File) : Nat := (Finset.univ.filter fun k => (file.slots k).isSome = true).card

/-- What a reader gets who starts with slot `k`: the blocks up to the first empty slot. -/
def bytesFrom (file : File) (k : Nat) : List UInt8 :=
  (((List.ofFn file.slots).drop k).takeWhile Option.isSome).reduceOption.flatMap List.ofFn

/-- What `copyout` writes of it. -/
def bytes (file : File) : List UInt8 := file.bytesFrom 0

variable {file : File} {k : Nat} {block : Block}

/-- A block, and what comes behind it. -/
theorem bytesFrom_some (hk : k < 5) (h : file.slots ⟨k, hk⟩ = some block) :
    file.bytesFrom k = List.ofFn block ++ file.bytesFrom (k + 1) := by
  have hlt : k < (List.ofFn file.slots).length := by rwa [List.length_ofFn]
  have hslot : (List.ofFn file.slots)[k] = some block := by rw [List.getElem_ofFn, h]
  rw [bytesFrom, List.drop_eq_getElem_cons hlt, hslot]
  rfl

theorem bytesFrom_none (hk : k < 5) (h : file.slots ⟨k, hk⟩ = none) : file.bytesFrom k = [] := by
  have hlt : k < (List.ofFn file.slots).length := by rwa [List.length_ofFn]
  have hslot : (List.ofFn file.slots)[k] = none := by rw [List.getElem_ofFn, h]
  rw [bytesFrom, List.drop_eq_getElem_cons hlt, hslot]
  rfl

theorem bytesFrom_behind (hk : 5 ≤ k) : file.bytesFrom k = [] := by
  rw [bytesFrom, List.drop_eq_nil_of_le (by rwa [List.length_ofFn])]
  rfl

/-! A stream and its file. -/

variable {stream : List UInt8}

/-- As far as the stream goes there are blocks, and behind it there are none. -/
theorem ofStream_some (hk : k < 5) (h : k * blockSize < stream.length) :
    (ofStream stream).slots ⟨k, hk⟩ = some (streamBlock stream k) :=
  if_pos h

theorem ofStream_none (hk : k < 5) (h : stream.length ≤ k * blockSize) :
    (ofStream stream).slots ⟨k, hk⟩ = none :=
  if_neg (Nat.not_lt.mpr h)

/-- A block of the stream as far as the stream goes. -/
theorem take_drop_isPrefix (stream : List UInt8) (k : Nat) :
    (stream.drop (k * blockSize)).take blockSize <+: List.ofFn (streamBlock stream k) := by
  refine List.prefix_iff_getElem?.mpr fun r hr => ?_
  rw [List.length_take, List.length_drop] at hr
  have hr4096 : r < 4096 := by
    unfold blockSize at hr
    omega
  have hin : k * blockSize + r < stream.length := by omega
  rw [List.getElem?_ofFn, dif_pos hr4096, List.getElem_take, List.getElem_drop]
  show some (streamBlock stream k ⟨r, hr4096⟩) = _
  rw [streamBlock, List.getElem?_eq_getElem hin, Option.getD_some]

/-- **What a reader gets begins with the stream**, from every block on. Induction on the blocks
that follow. -/
theorem take_isPrefix_bytesFrom (stream : List UInt8) (left : Nat) : ∀ {k : Nat}, k + left = 5 →
    (stream.drop (k * blockSize)).take (left * blockSize) <+: (ofStream stream).bytesFrom k := by
  induction left with
  | zero =>
    intro k _
    rw [Nat.zero_mul, List.take_zero]
    exact List.nil_prefix
  | succ left ih =>
    intro k hk
    have hk5 : k < 5 := by omega
    by_cases hin : k * blockSize < stream.length
    · rw [bytesFrom_some hk5 (ofStream_some hk5 hin), Nat.succ_mul, Nat.add_comm, List.take_add,
        List.drop_drop, ← Nat.succ_mul]
      have hfirst := take_drop_isPrefix stream k
      by_cases hwhole : (k + 1) * blockSize ≤ stream.length
      · -- a whole block, and what follows
        have hlength : ((stream.drop (k * blockSize)).take blockSize).length
            = (List.ofFn (streamBlock stream k)).length := by
          rw [List.length_take, List.length_drop, List.length_ofFn]
          unfold blockSize at *
          omega
        rw [hfirst.eq_of_length hlength]
        exact (List.prefix_append_right_inj _).mpr (ih (by omega))
      · -- the last block
        rw [List.drop_eq_nil_of_le (Nat.le_of_not_le hwhole), List.take_nil, List.append_nil]
        exact hfirst.trans (List.prefix_append _ _)
    · -- the stream has ended before this block
      rw [List.drop_eq_nil_of_le (Nat.le_of_not_lt hin), List.take_nil]
      exact List.nil_prefix

/-- The stream is delivered, up to five blocks of it. -/
theorem take_isPrefix_bytes (stream : List UInt8) :
    stream.take (pointersPerInode * blockSize) <+: (ofStream stream).bytes := by
  have hbytes := take_isPrefix_bytesFrom stream 5 (Nat.zero_add 5)
  rwa [Nat.zero_mul, List.drop_zero] at hbytes

/-- Whole blocks are delivered. Induction on the blocks that follow. -/
theorem length_bytesFrom (stream : List UInt8) (left : Nat) : ∀ {k : Nat}, k + left = 5 →
    ((ofStream stream).bytesFrom k).length = (storedBlocks stream - k) * blockSize := by
  induction left with
  | zero =>
    intro k hk
    rw [bytesFrom_behind (by omega)]
    -- no more than five blocks are stored
    have hfew : storedBlocks stream ≤ 5 := by
      unfold storedBlocks storedLength blockSize pointersPerInode
      omega
    rw [Nat.sub_eq_zero_of_le (by omega), Nat.zero_mul, List.length_nil]
  | succ left ih =>
    intro k hk
    have hk5 : k < 5 := by omega
    by_cases hin : k * blockSize < stream.length
    · -- this block is stored, and those that follow are counted by induction
      have hmore : k < storedBlocks stream := by
        unfold storedBlocks storedLength blockSize pointersPerInode at *
        omega
      rw [bytesFrom_some hk5 (ofStream_some hk5 hin), List.length_append, List.length_ofFn,
        ih (by omega)]
      unfold blockSize
      omega
    · have hend : storedBlocks stream ≤ k := by
        unfold storedBlocks storedLength blockSize pointersPerInode at *
        omega
      rw [bytesFrom_none hk5 (ofStream_none hk5 (Nat.le_of_not_lt hin)),
        Nat.sub_eq_zero_of_le hend, Nat.zero_mul, List.length_nil]

/-- A reader gets as many blocks as are stored. -/
theorem length_bytes_ofStream (stream : List UInt8) :
    (ofStream stream).bytes.length = storedBlocks stream * blockSize :=
  length_bytesFrom stream 5 (Nat.zero_add 5)

end File

/-! ## Stores

A store has numbers for files, some of them in use, and room for blocks. That is all that a user can
find out about a disk. -/

/-- What the user sees of a mounted disk. `files` holds `none` for a number that is not in use;
`changed` are the groups of 128 numbers that the exit will write back. -/
@[ext] structure Store where
  superBlock : SuperBlock
  blocks : UInt32
  files : Nat → Option File
  changed : Nat → Bool

/-- What a command prints, and what the file holds that `cat` and `copyout` write. -/
structure Answer where
  printed : List Message
  written : List UInt8

namespace Store

/-- The numbers that files can have. -/
def inodes (σ : Store) : Nat := σ.superBlock.inodeBlocks.toNat * inodesPerBlock

/-- The blocks in use. -/
def used (σ : Store) : Nat := ∑ n ∈ Finset.range σ.inodes, (σ.files n).elim 0 File.blockCount

/-- The room that is left. -/
def free (σ : Store) : Nat := σ.blocks.toNat - (σ.superBlock.inodeBlocks.toNat + 1) - σ.used

/-- The number that `create` gives out. -/
def firstFree (σ : Store) : Option Nat := (List.range σ.inodes).find? fun n => (σ.files n).isNone

/-- A number behind the table is an error, one that is not in use is not. -/
def lookup (σ : Store) (n : Nat) : Except Fault (Option File) :=
  if n < σ.inodes then .ok (σ.files n) else .error .outOfBounds

/-- The exit will write the group of the number. -/
def put (σ : Store) (n : Nat) (file : File) : Store :=
  { σ with
    files := fun m => if m = n then some file else σ.files m
    changed := fun i => decide (i = n / inodesPerBlock) || σ.changed i }

/-- The exit may not write the group: `remove` flags nothing. -/
def erase (σ : Store) (n : Nat) : Store :=
  { σ with files := fun m => if m = n then none else σ.files m }

/-! ## Commands

What each command prints, and what it makes of the store. -/

/-- A number is given out before the source is looked at, and kept whatever comes of it. Numbers
from `InodeBlocks` on are given out and not used. -/
def copyin (σ : Store) (source : Option (List UInt8)) : Except Fault (Answer × Store) :=
  match σ.firstFree with
  | none => .ok ({ printed := [.createFailed, .copyinFailed], written := [] }, σ)
  | some n =>
    if n < σ.superBlock.inodeBlocks.toNat then
      match source with
      | none =>
        .ok ({ printed := [.createdInode n, .unableToOpen, .copyinFailed], written := [] },
          σ.put n .empty)
      | some stream =>
        if storedBlocks stream ≤ σ.free then
          .ok ({ printed := .createdInode n
                  :: ((if stream.length ≤ pointersPerInode * blockSize then [] else [.invalidResult 0])
                    ++ [.bytesCopied (storedLength stream)])
                 written := [] }, σ.put n (.ofStream stream))
        else .error (.invalidArgument (.tooBig (asInt σ.blocks)))
    else .ok ({ printed := [.createFailed, .copyinFailed], written := [] }, σ.put n .empty)

/-- `cat` and `copyout`, which differ in what they print when they fail. -/
def copyout (σ : Store) (n : Nat) (opens : Bool) (failed : Message) :
    Except Fault (Answer × Store) :=
  if opens then do
    let file ← σ.lookup n
    let written := file.elim [] File.bytes
    .ok ({ printed := [.bytesCopied written.length], written }, σ)
  else .ok ({ printed := [.unableToOpen, failed], written := [] }, σ)

/-- Any number may be removed, in use or not. -/
def remove (σ : Store) (n : Nat) : Except Fault (Answer × Store) := do
  let _ ← σ.lookup n
  .ok ({ printed := [.removedInode n], written := [] }, σ.erase n)

/-- The size of a number that is not in use is `0`. -/
def sizeOf (σ : Store) (n : Nat) : Except Fault UInt32 := do
  let file ← σ.lookup n
  .ok (file.elim 0 File.size)

/-- A size of `0` is taken for a failure. -/
def stat (σ : Store) (n : Nat) : Except Fault (Answer × Store) := do
  let size ← σ.sizeOf n
  .ok ({ printed := [if size.toNat > 0 then .inodeHasSize n size.toNat else .statFailed]
         written := [] }, σ)

/-- The numbers that `ls` shows, with their sizes. -/
def lines (σ : Store) : Except Fault (List (Nat × UInt32)) :=
  (List.range 20).mapM fun n => do
    let size ← σ.sizeOf n
    .ok (n, size)

/-- One line for each of the first numbers. -/
def ls (σ : Store) : Except Fault (Answer × Store) := do
  let lines ← σ.lines
  .ok ({ printed := lines.map fun (n, size) => .inodeLine n size, written := [] }, σ)

/-- A command on a store. To mount it once more should make no difference. -/
def exec (σ : Store) : Command → Except Fault (Answer × Store)
  | .debug => .ok ({ printed := [.superBlock σ.superBlock.blocks σ.superBlock.inodeBlocks
      σ.superBlock.inodes], written := [] }, σ)
  | .format => .ok ({ printed := [.unmountFirst, .formatFailed], written := [] }, σ)
  | .mount => .ok ({ printed := [.diskMounted], written := [] }, σ)
  | .cat n opens => σ.copyout n opens .catFailed
  | .copyout n opens => σ.copyout n opens .copyoutFailed
  | .remove n => σ.remove n
  | .stat n => σ.stat n
  | .copyin source => σ.copyin source
  | .ls => σ.ls

/-! ## What a command leaves alone

A command touches one file at most: `copyin` a number that is not in use, `remove` the one that it
names. -/

variable {σ σ' : Store} {n m : Nat} {file : File} {command : Command} {answer : Answer}

/-- The file put there, and the others as they are. -/
@[simp] theorem put_files_self : (σ.put n file).files n = some file := if_pos rfl

@[simp] theorem put_files_of_ne (h : m ≠ n) : (σ.put n file).files m = σ.files m := if_neg h

/-- No file is left there, and the others are as they are. -/
@[simp] theorem erase_files_self : (σ.erase n).files n = none := if_pos rfl

@[simp] theorem erase_files_of_ne (h : m ≠ n) : (σ.erase n).files m = σ.files m := if_neg h

/-- What is looked up with success is within the table. -/
theorem lookup_ok {file : Option File} (h : σ.lookup n = .ok file) : n < σ.inodes ∧ σ.files n = file := by
  unfold lookup at h
  split at h
  · next hn =>
    cases h
    exact ⟨hn, rfl⟩
  · cases h

/-- The number given out is not in use. -/
theorem of_firstFree (h : σ.firstFree = some n) : n < σ.inodes ∧ σ.files n = none := by
  have hmem := List.mem_of_find?_eq_some h
  have hnone := List.find?_some h
  exact ⟨List.mem_range.mp hmem, Option.isNone_iff_eq_none.mp hnone⟩

/-- **A file is stored** under the first free number, if there is room for it. -/
theorem copyin_stored {stream : List UInt8} (hfirst : σ.firstFree = some n)
    (hn : n < σ.superBlock.inodeBlocks.toNat) (hlength : stream.length ≤ pointersPerInode * blockSize)
    (hroom : storedBlocks stream ≤ σ.free) :
    σ.copyin (some stream)
      = .ok ({ printed := [.createdInode n, .bytesCopied stream.length], written := [] },
          σ.put n (.ofStream stream)) := by
  rw [copyin, hfirst]
  dsimp only
  rw [if_pos hn, if_pos hroom, if_pos hlength, List.nil_append, storedLength, Nat.min_eq_left hlength]

/-- **A file is delivered** whole. -/
theorem copyout_delivered {failed : Message} (hn : n < σ.inodes) (hfile : σ.files n = some file) :
    σ.copyout n true failed
      = .ok ({ printed := [.bytesCopied file.bytes.length], written := file.bytes }, σ) := by
  rw [copyout, if_pos rfl, lookup, if_pos hn, hfile]
  rfl

/-- What a `copyin` leaves: the store itself, or the store with a file put. -/
theorem of_copyin {source : Option (List UInt8)} (h : σ.copyin source = .ok (answer, σ')) :
    σ' = σ ∨ ∃ n file, σ.firstFree = some n ∧ σ' = σ.put n file := by
  unfold copyin at h
  split at h
  · cases h
    exact Or.inl rfl
  · next n hfirst =>
    -- a number is put to use, whatever becomes of the file
    split at h
    · split at h
      · cases h
        exact Or.inr ⟨n, _, hfirst, rfl⟩
      · split at h
        · cases h
          exact Or.inr ⟨n, _, hfirst, rfl⟩
        · cases h
    · cases h
      exact Or.inr ⟨n, _, hfirst, rfl⟩

/-- `cat` and `copyout` change nothing, and deliver the file. -/
theorem of_copyout {opens : Bool} {failed : Message}
    (h : σ.copyout n opens failed = .ok (answer, σ')) : σ' = σ
      ∧ (opens = true → answer.written = (σ.files n).elim [] File.bytes) := by
  unfold copyout at h
  split at h
  · obtain ⟨file, hlookup, h⟩ := of_bind_eq_ok h
    obtain ⟨-, rfl⟩ := lookup_ok hlookup
    cases h
    exact ⟨rfl, fun _ => rfl⟩
  · next hopens =>
    cases h
    exact ⟨rfl, fun hopens' => absurd hopens' hopens⟩

/-- **A command leaves a file alone** that it does not remove. -/
theorem exec_files (hfile : σ.files m = some file) (hremove : command ≠ .remove m)
    (h : σ.exec command = .ok (answer, σ')) : σ'.files m = some file := by
  cases command with
  | debug | format | mount =>
    cases h
    exact hfile
  | cat n opens | copyout n opens =>
    rw [(of_copyout h).1]
    exact hfile
  | stat n =>
    obtain ⟨_, -, h⟩ := of_bind_eq_ok h
    cases h
    exact hfile
  | ls =>
    obtain ⟨_, -, h⟩ := of_bind_eq_ok h
    cases h
    exact hfile
  | remove n =>
    obtain ⟨_, -, h⟩ := of_bind_eq_ok h
    cases h
    rw [erase_files_of_ne fun hmn => hremove (congrArg Command.remove hmn.symm)]
    exact hfile
  | copyin source =>
    rcases of_copyin h with rfl | ⟨n, other, hfirst, rfl⟩
    · exact hfile
    · -- the number given out was not in use
      have hmn : m ≠ n := by
        rintro rfl
        rw [(of_firstFree hfirst).2] at hfile
        cases hfile
      rw [put_files_of_ne hmn]
      exact hfile

/-- So does every command of a session. -/
theorem final_files {commands : List Command} (hremove : Command.remove m ∉ commands)
    (hfile : σ.files m = some file) (h : final exec σ commands = .ok σ') : σ'.files m = some file :=
  final_keeps (P := fun σ : Store => σ.files m = some file) commands
    (fun hmem hfile hexec => exec_files hfile (fun heq => hremove (heq ▸ hmem)) hexec) hfile h

end Store

end OsLab.Sfs
