import OsLab.Sfs.Console

/-!
# OsLab.Sfs.NewDisk — a disk that the program makes itself

Where there is no disk file `Disk::open` makes one: it moves the file pointer and sets the end of the
file there. What stands in between is up to the file system of the host, and is taken to be zeros
here. The superblock then counts no inode blocks, and `format` leaves it so: the program cannot put a
file on a disk of its own making.

* **`Store.exec_noInodes`**: without inodes no command changes the store, and `copyin` gives out no
  number.
* **`newDisk_takes_no_file`** is the headline, over any number of runs.
-/

namespace OsLab.Sfs

open Fallible State Transcript

/-- The disk file as `CREATE_NEW` and `SetEndOfFile` leave it, where the host fills it with zeros. -/
def newDisk (nblocks : UInt32) : Disk := Disk.opened nblocks fun _ => 0

/-- The superblock of a new disk says that there are none. -/
theorem newDisk_inodeBlocks (nblocks : UInt32) :
    (decodeSuper ((newDisk nblocks).blockAt 0)).inodeBlocks.toNat = 0 := rfl

theorem newDisk_inodes (nblocks : UInt32) : (Store.ofDisk (newDisk nblocks)).inodes = 0 := by
  show (decodeSuper ((newDisk nblocks).blockAt 0)).inodeBlocks.toNat * inodesPerBlock = 0
  rw [newDisk_inodeBlocks, Nat.zero_mul]

theorem newDisk_clean {nblocks : UInt32} (hlow : 1 ≤ nblocks.toNat) (hhigh : nblocks.toNat ≤ 4096) :
    CleanImage (newDisk nblocks) := by
  have htable := newDisk_inodeBlocks nblocks
  have hnone : ∀ n,
      ¬ n < (decodeSuper ((newDisk nblocks).blockAt 0)).inodeBlocks.toNat * inodesPerBlock := by
    intro n
    rw [htable, Nat.zero_mul]
    exact Nat.not_lt_zero n
  refine ⟨?_, hhigh, fun n hn => absurd hn (hnone n), fun n hn => absurd hn (hnone n),
    fun n hn => absurd hn (hnone n)⟩
  rw [htable]
  exact hlow

/-! ## Stores without inodes

`create` finds nothing, and the commands that name an inode look it up in a table that is empty. -/

variable {σ σ' : Store} {v v' : Volume} {command : Command} {result : Answer}

/-- No number has been given out. -/
def Answer.GivesNone (result : Answer) : Prop := ∀ n, Message.createdInode n ∉ result.printed

theorem Store.lookup_noInodes (h : σ.inodes = 0) (n : Nat) : σ.lookup n = .error .outOfBounds := by
  rw [Store.lookup, if_neg]
  omega

/-- **A command** on a store without inodes. -/
theorem Store.exec_noInodes (h : σ.inodes = 0) (hexec : σ.exec command = .ok (result, σ')) :
    result.GivesNone ∧ σ' = σ := by
  -- what comes of a lookup is a fault, so what comes to its end has made none
  have hlookup := Store.lookup_noInodes h
  have hsize : ∀ n, σ.sizeOf n = .error .outOfBounds := fun n => by
    rw [Store.sizeOf, hlookup]
    rfl
  cases command with
  | debug | format | mount =>
    cases hexec
    exact ⟨fun n => by simp, rfl⟩
  | cat n opens | copyout n opens =>
    cases opens with
    | false =>
      cases hexec
      exact ⟨fun n => by simp, rfl⟩
    | true =>
      rw [Store.exec, Store.copyout, if_pos rfl, hlookup] at hexec
      cases hexec
  | remove n =>
    rw [Store.exec, Store.remove, hlookup] at hexec
    cases hexec
  | stat n =>
    rw [Store.exec, Store.stat, hsize] at hexec
    cases hexec
  | ls =>
    have hlines : σ.lines = .error .outOfBounds := by
      rw [Store.lines, List.range_succ_eq_map, List.mapM_cons, hsize]
      rfl
    rw [Store.exec, Store.ls, hlines] at hexec
    cases hexec
  | copyin source =>
    have hfirst : σ.firstFree = none := by
      rw [Store.firstFree, h]
      rfl
    rw [Store.exec, Store.copyin, hfirst] at hexec
    cases hexec
    exact ⟨fun n => by simp, rfl⟩

/-- The same before a mount and after it. -/
theorem Volume.exec_noInodes (h : v.store.inodes = 0) (hexec : v.exec command = .ok (result, v')) :
    result.GivesNone ∧ v'.store.inodes = 0 := by
  rw [Volume.exec] at hexec
  split at hexec
  · -- mounted, the store is asked
    obtain ⟨⟨answer, store⟩, hstore, hexec⟩ := of_bind_eq_ok hexec
    cases hexec
    obtain ⟨hnone, rfl⟩ := Store.exec_noInodes h hstore
    exact ⟨hnone, h⟩
  · cases command with
    | format =>
      obtain ⟨σ, hformat, hexec⟩ := of_bind_eq_ok hexec
      cases hexec
      unfold Store.format at hformat
      split at hformat
      · cases hformat
      · cases hformat
        exact ⟨fun n => by simp, h⟩
    | cat n opens | copyout n opens =>
      cases hexec
      exact ⟨fun n => by cases opens <;> simp, h⟩
    | mount | debug | remove | stat | copyin | ls =>
      cases hexec
      exact ⟨fun n => by simp, h⟩

/-- **A run.** -/
theorem Store.run_noInodes (h : σ.inodes = 0) (commands : List Command) :
    (∀ answers σ', σ.run commands = .ok (answers, σ') →
        (∀ result ∈ answers, result.GivesNone) ∧ σ'.inodes = 0)
      ∧ ∀ answers fault, σ.run commands = .error (answers, fault) →
        ∀ result ∈ answers, result.GivesNone := by
  have hstart : (Volume.start σ).store.inodes = 0 := h
  -- each command keeps that there is no inode, and gives out none
  have hstep : ∀ {v v' : Volume} {command result}, command ∈ commands → v.store.inodes = 0 →
      v.exec command = .ok (result, v') → result.GivesNone ∧ v'.store.inodes = 0 :=
    fun _ hv hexec => Volume.exec_noInodes hv hexec
  have hfault : ∀ {v : Volume} {command fault}, command ∈ commands → v.store.inodes = 0 →
      v.exec command = .error fault → True := fun _ _ _ => trivial
  have hseen := (transcript_forall commands hstep hfault hstart).1
  obtain ⟨hok, herror⟩ := @session_answers _ _ _ _ Volume.exec _ Volume.start Volume.leave commands σ
  refine ⟨fun answers σ' hrun => ⟨?_, ?_⟩, fun answers fault hrun => ?_⟩
  · rw [hok answers σ' hrun]
    exact hseen
  · obtain ⟨v, hfinal, hleave⟩ := of_session hrun
    cases hleave
    exact final_keeps (P := fun v : Volume => v.store.inodes = 0) commands
      (fun hmem hv hexec => (hstep hmem hv hexec).2) hstart hfinal
  · rw [herror answers fault hrun]
    exact hseen

/-! ## The headline

The program is run on a path where no file is. It makes one, of the length asked for, and nothing
that is typed can store a file on it: `format` writes no superblock. -/

/-- **Headline.** On a disk of at most 4096 blocks that the program made itself, in any number of runs
with one mount in each, whatever else is done, `format` included: no `copyin` gives out an inode, up to
the line that ends a run by an exception. -/
theorem newDisk_takes_no_file {nblocks : UInt32} {sessions : List (List Command)}
    (hlow : 1 ≤ nblocks.toNat) (hhigh : nblocks.toNat ≤ 4096)
    (hsaves : Allowed Store.run Store.Saves (Store.ofDisk (newDisk nblocks)) sessions) :
    (∀ answers ∈ (transcript run (newDisk nblocks) sessions).1, ∀ result ∈ answers, result.GivesNone)
      ∧ ∀ failed, (transcript run (newDisk nblocks) sessions).2 = some failed →
        ∀ result ∈ failed.1, result.GivesNone := by
  have hstart : Stores (newDisk nblocks) (Store.ofDisk (newDisk nblocks)) :=
    ⟨newDisk_clean hlow hhigh, rfl⟩
  rw [(alike_of_allowed sessions run_matches hstart hsaves).seen]
  have hstep : ∀ {σ σ' : Store} {commands answers}, commands ∈ sessions → σ.inodes = 0 →
      σ.run commands = .ok (answers, σ') → (∀ result ∈ answers, result.GivesNone) ∧ σ'.inodes = 0 :=
    fun _ hσ hrun => (Store.run_noInodes hσ _).1 _ _ hrun
  have hfault : ∀ {σ : Store} {commands failed}, commands ∈ sessions → σ.inodes = 0 →
      σ.run commands = .error failed → ∀ result ∈ failed.1, result.GivesNone :=
    fun _ hσ hrun => (Store.run_noInodes hσ _).2 _ _ hrun
  exact transcript_forall sessions hstep hfault (newDisk_inodes nblocks)

/-- A format, a mount and a `copyin`. -/
theorem newDisk_takes_no_file_200 :
    openDisk { found := fun _ => none, created := fun _ => some fun _ => 0 } (fun _ => []) "disk".toList 200
      = some (newDisk 200)
    ∧ ∀ answers ∈ (transcript run (newDisk 200) [[.format, .mount, .copyin (some [65])]]).1,
        ∀ result ∈ answers, result.GivesNone := by
  have hsaves : Allowed Store.run Store.Saves (Store.ofDisk (newDisk 200))
      [[.format, .mount, .copyin (some [65])]] := by
    refine ⟨⟨trivial, fun _ v hformat => ⟨?_, fun _ _ _ => ⟨trivial, fun _ _ _ => trivial⟩⟩⟩,
      fun _ _ _ => trivial⟩
    cases hformat
    rfl
  exact ⟨rfl, (newDisk_takes_no_file (by decide) (by decide) hsaves).1⟩

end OsLab.Sfs
