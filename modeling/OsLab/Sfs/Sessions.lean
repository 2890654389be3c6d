import OsLab.Sfs.Exit
import OsLab.Sfs.Format

/-!
# OsLab.Sfs.Sessions — the program run again and again

A run of the program starts with an unmounted disk and ends with the destructor. What one run has
left, the next one mounts.

* **`Volume.exec`**: the commands on a store that is mounted or not. `format` makes all files go
  whose inode block it clears.
* **`answer_refines`**: before a mount as after it, a command does what it does to the volume.
* **`destroy_refines`**: what the exit leaves is a clean image of the store.
* **`sessions_refine`** is the headline: any number of runs on one disk answer like one store that
  lasts. No disk is mounted twice in one run, and what is removed is in an inode block that is
  written back.
* **`file_lasts`**: a file that no run removes is there, with its bytes, after all of them.

What `~Disk` prints when a run ends is not an answer to a command, and is left out.
-/

namespace OsLab.Sfs

open Fallible State Transcript

/-! ## Volumes

The store knows no `mount` and no exit, since it is what a mounted disk shows. A run begins and ends
with them, so a volume is a store and whether it is mounted. -/

/-- Blocks `1` to `199` are cleared, which may or may not be the whole inode table. -/
def Store.format (σ : Store) : Except Fault Store :=
  if σ.blocks.toNat < 200 then .error (.invalidArgument (.tooBig σ.blocks.toNat))
  else .ok { σ with files := fun n => if n / inodesPerBlock + 1 < 200 then none else σ.files n }

/-- What a run of the program works on. -/
structure Volume where
  mounted : Bool
  store : Store

namespace Volume

/-- As a run finds it. -/
def start (σ : Store) : Volume := { mounted := false, store := σ }

/-- A command before the disk is mounted. -/
def execUnmounted (σ : Store) : Command → Except Fault (Answer × Volume)
  | .mount => .ok ({ printed := [.diskMounted], written := [] }, { mounted := true, store := σ })
  | .debug => .ok ({ printed := [.superBlock σ.superBlock.blocks σ.superBlock.inodeBlocks
      σ.superBlock.inodes], written := [] }, start σ)
  | .format => do
    let σ ← σ.format
    .ok ({ printed := [.diskFormatted], written := [] }, start σ)
  | .cat _ opens =>
    .ok ({ printed := [if opens then .diskNotMounted else .unableToOpen, .catFailed]
           written := [] }, start σ)
  | .copyout _ opens =>
    .ok ({ printed := [if opens then .diskNotMounted else .unableToOpen, .copyoutFailed]
           written := [] }, start σ)
  | .copyin _ => .ok ({ printed := [.diskNotMounted, .copyinFailed], written := [] }, start σ)
  | .remove _ => .ok ({ printed := [.diskNotMounted], written := [] }, start σ)
  | .stat _ => .ok ({ printed := [.diskNotMounted], written := [] }, start σ)
  | .ls => .ok ({ printed := [.diskNotMounted], written := [] }, start σ)

def exec (v : Volume) (command : Command) : Except Fault (Answer × Volume) :=
  if v.mounted then do
    let (answer, store) ← v.store.exec command
    .ok (answer, { mounted := true, store })
  else execUnmounted v.store command

/-- What a run leaves: the files, all of them written back. -/
def leave (v : Volume) : Except Fault Store := .ok { v.store with changed := fun _ => false }

/-- One `mount` in a run, and no `remove` of a file whose inode block will not be written. -/
def Saves (v : Volume) : Command → Prop
  | .mount => v.mounted = false
  | .remove n => v.mounted = true →
    v.store.changed (n / inodesPerBlock) = true ∨ v.store.files n = none
  | _ => True

end Volume

/-! ## Formatting

`format` clears blocks `1` to `199` and no others, whatever is in them. A disk that is shorter makes
it throw, and a longer inode table is cleared in part. -/

variable {s s' : State} {disk disk' : Disk} {n : Nat}

/-- The loop of `format` on a disk that ends before it does. Induction on the rounds. -/
theorem clearBlocks_tooBig (rounds : Nat) : ∀ {first : Nat} {disk : Disk},
    (first : Int) ≤ asInt disk.blocks → asInt disk.blocks < ((first + rounds : Nat) : Int) →
      (List.range' first rounds).foldlM clearBlock disk
        = .error (.invalidArgument (.tooBig (asInt disk.blocks))) := by
  induction rounds with
  | zero =>
    intro first disk hfirst hend
    omega
  | succ rounds ih =>
    intro first disk hfirst hend
    rw [List.range'_succ, List.foldlM_cons]
    by_cases hlt : (first : Int) < asInt disk.blocks
    · rw [clearBlock_ok hlt, ok_bind, ih (by rw [Disk.setBlock_blocks]; omega)
        (by rw [Disk.setBlock_blocks]; omega), Disk.setBlock_blocks]
    · -- the block behind the last one
      have heq : (first : Int) = asInt disk.blocks := by omega
      have hcheck : disk.sanityCheck first false
          = .error (.invalidArgument (.tooBig first)) := by
        rw [Disk.sanityCheck, if_neg (by omega), if_pos (by omega)]
      rw [clearBlock, Disk.write, hcheck, ← heq]
      rfl

/-- The inodes of a cleared disk. -/
theorem Cleared.imageInode_eq (hcleared : Cleared disk disk' 1 200) (hclean : CleanImage disk)
    (hn : n < (decodeSuper (disk.blockAt 0)).inodeBlocks.toNat * inodesPerBlock) :
    imageInode disk' n
      = if n / inodesPerBlock + 1 < 200 then .blank else imageInode disk n := by
  have hblock : n / inodesPerBlock < (decodeSuper (disk.blockAt 0)).inodeBlocks.toNat :=
    (Nat.div_lt_iff_lt_mul (by decide)).mpr hn
  have hfits := hclean.fits
  have hsmall := hclean.small
  split
  · next hcut =>
    rw [imageInode, hcleared.inside _ (Nat.le_add_left 1 _) hcut]
    rfl
  · next hcut =>
    rw [imageInode, hcleared.outside _ (by unfold Disk.distinctBlocks; omega) (by omega)]
    rfl

theorem Cleared.superBlock (hcleared : Cleared disk disk' 1 200) :
    decodeSuper (disk'.blockAt 0) = decodeSuper (disk.blockAt 0) := by
  rw [hcleared.outside 0 (by decide) (Or.inl (by decide))]

/-- What is left of a clean image is clean. -/
theorem Cleared.clean (hcleared : Cleared disk disk' 1 200) (hclean : CleanImage disk) :
    CleanImage disk' := by
  have hsize : disk'.size = disk.size := hcleared.blocks
  have hkept : ∀ n < (decodeSuper (disk.blockAt 0)).inodeBlocks.toNat * inodesPerBlock,
      (imageInode disk' n).valid ≠ 0 → imageInode disk' n = imageInode disk n := by
    intro n hn hvalid
    rw [hcleared.imageInode_eq hclean hn] at hvalid ⊢
    split at hvalid
    · exact absurd rfl hvalid
    · next hcut => rw [if_neg hcut]
  refine ⟨?_, ?_, ?_, ?_, ?_⟩
  · rw [hcleared.superBlock, hsize]
    exact hclean.fits
  · rw [hsize]
    exact hclean.small
  · rw [hcleared.superBlock]
    intro n hn
    rw [hcleared.imageInode_eq hclean hn]
    split
    · exact fun _ => ⟨rfl, fun _ => rfl⟩
    · exact hclean.blank n hn
  · rw [hcleared.superBlock, hsize]
    intro n hn hvalid
    have hsame := hkept n hn hvalid
    rw [hsame] at hvalid
    rw [hsame]
    exact hclean.region n hn hvalid
  · rw [hcleared.superBlock]
    intro n hn n' hn' k k' hvalid hvalid'
    have hsame := hkept n hn hvalid
    have hsame' := hkept n' hn' hvalid'
    rw [hsame] at hvalid
    rw [hsame'] at hvalid'
    rw [hsame, hsame']
    exact hclean.disjoint n hn n' hn' k k' hvalid hvalid'

/-- **What `format` leaves**: a file stays if its inode block is behind the blocks that are cleared,
and then its blocks are as well. -/
theorem Cleared.store (hcleared : Cleared disk disk' 1 200) (hclean : CleanImage disk) :
    Store.ofDisk disk' = { Store.ofDisk disk with
      files := fun n => if n / inodesPerBlock + 1 < 200 then none else (Store.ofDisk disk).files n } := by
  refine Store.ext hcleared.superBlock hcleared.blocks (funext fun n => ?_) rfl
  show (if n < (decodeSuper (disk'.blockAt 0)).inodeBlocks.toNat * inodesPerBlock ∧ _ then _ else _)
    = if n / inodesPerBlock + 1 < 200 then none
      else if n < (decodeSuper (disk.blockAt 0)).inodeBlocks.toNat * inodesPerBlock ∧ _ then _ else _
  rw [hcleared.superBlock]
  by_cases hn : n < (decodeSuper (disk.blockAt 0)).inodeBlocks.toNat * inodesPerBlock
  · rw [hcleared.imageInode_eq hclean hn]
    -- an inode in a cleared block is blank, one behind keeps its file
    by_cases hcut : n / inodesPerBlock + 1 < 200
    · rw [if_pos hcut, if_pos hcut]
      exact if_neg fun hand => hand.2 rfl
    · rw [if_neg hcut, if_neg hcut]
      by_cases hvalid : (imageInode disk n).valid = 0
      · rw [if_neg fun hand => hand.2 hvalid, if_neg fun hand => hand.2 hvalid]
      · have hslots : (disk'.fileOf (imageInode disk n)).slots
            = (disk.fileOf (imageInode disk n)).slots := by
          funext k
          show (if (imageInode disk n).direct k = 0 then none else some (disk'.blockAt _)) = _
          by_cases hzero : (imageInode disk n).direct k = 0
          · rw [if_pos hzero]
            exact (if_pos hzero).symm
          · have hblock : n / inodesPerBlock < (decodeSuper (disk.blockAt 0)).inodeBlocks.toNat :=
              (Nat.div_lt_iff_lt_mul (by decide)).mpr hn
            -- the inode block is behind `199`, and data blocks are behind all inode blocks
            obtain ⟨hlow, hhigh⟩ := hclean.region n hn hvalid k hzero
            have hsmall := hclean.small
            rw [if_neg hzero, hcleared.outside _ (by unfold Disk.distinctBlocks; omega) (by omega)]
            exact (if_neg hzero).symm
        rw [if_pos ⟨hn, hvalid⟩, if_pos ⟨hn, hvalid⟩]
        exact congrArg some (congrArg (File.mk (imageInode disk n).size) hslots)
  · rw [if_neg fun hand => hn hand.1]
    split
    · rfl
    · exact (if_neg fun hand => hn hand.1).symm

/-! ## Commands

The two kinds of state that a run can be in, each with what it stands for. A command leads from one
such pair to another. -/

/-- A state of a run, and the volume behind it. -/
inductive Refines : State → Volume → Prop
  | unmounted {disk : Disk} (hclean : CleanImage disk) (hnot : disk.mounts = 0) :
      Refines { disk, fs := .init } (.start (Store.ofDisk disk))
  | mounted {s : State} (hs : s.InOrder) (hsynced : s.Synced) :
      Refines s { mounted := true, store := s.store }

/-- The size of a clean image, as the disk compares it. -/
theorem CleanImage.asInt_blocks (hclean : CleanImage disk) :
    asInt disk.blocks = disk.blocks.toNat ∧ 0 < disk.blocks.toNat := by
  have hsmall : disk.blocks.toNat ≤ 4096 := hclean.small
  have hfits : _ + 1 ≤ disk.blocks.toNat := hclean.fits
  refine ⟨?_, by omega⟩
  rw [asInt, if_pos]
  omega

/-- `format` clears the store, or throws where the disk is too short. -/
theorem format_matches (hclean : CleanImage disk) (hnot : disk.mounts = 0) :
    Matches Refines (answer { disk, fs := .init } .format)
      (Volume.execUnmounted (Store.ofDisk disk) .format) := by
  obtain ⟨hsize, hpos⟩ := hclean.asInt_blocks
  have hunmounted : disk.mounted = false := by
    rw [Disk.mounted, hnot]
    rfl
  rw [answer, exec, doFormat, format_eq hunmounted, Volume.execUnmounted, Store.format]
  by_cases hlong : disk.blocks.toNat < 200
  · have hclear := @clearBlocks_tooBig 199 1 disk (by omega) (by omega)
    rw [hclear, hsize, if_pos (show (Store.ofDisk disk).blocks.toNat < 200 from hlong)]
    exact .fails _
  · obtain ⟨disk', hclear⟩ := @clearBlocks_ok disk 1 199 (by omega)
    have hcleared : Cleared disk disk' 1 200 := (of_clearBlocks 199 (by decide) hclear).2
    rw [hclear, if_neg (show ¬ (Store.ofDisk disk).blocks.toNat < 200 from hlong),
      ← hcleared.store hclean]
    exact .answers _ (.unmounted (hcleared.clean hclean) (hcleared.mounts.trans hnot))

/-- **Before a mount.** -/
theorem unmounted_matches (hclean : CleanImage disk) (hnot : disk.mounts = 0) (command : Command) :
    Matches Refines (answer { disk, fs := .init } command)
      (Volume.execUnmounted (Store.ofDisk disk) command) := by
  cases command with
  | format => exact format_matches hclean hnot
  | mount =>
    -- the only command that changes the kind of state
    obtain ⟨blocks, mounts, image⟩ := disk
    cases hnot
    obtain ⟨s, hmount, hismount⟩ :=
      mount_ok (s := State.start blocks image) hclean.fits hclean.small
    have hmount' : State.mount { disk := { blocks, mounts := 0, image }, fs := .init } = .ok (true, s) :=
      hmount
    have hstore : s.store = Store.ofDisk { blocks, mounts := 0, image } := hismount.store_eq
    rw [answer, exec, doMount, hmount', Volume.execUnmounted, ← hstore]
    exact .answers _ (.mounted (hismount.inOrder hclean) hismount.synced)
  | debug =>
    have hzero : ((0 : Nat) : Int) < asInt disk.blocks := by
      obtain ⟨hsize, hpos⟩ := hclean.asInt_blocks
      omega
    have hread : disk.read 0 = .ok (blockSize, disk.blockAt 0) := Disk.read_ok hzero
    rw [answer, exec, doDebug, State.debug, hread]
    exact .answers _ (.unmounted hclean hnot)
  | cat n opens => cases opens <;> exact .answers _ (.unmounted hclean hnot)
  | copyout n opens => cases opens <;> exact .answers _ (.unmounted hclean hnot)
  | remove | stat | copyin | ls => exact .answers _ (.unmounted hclean hnot)

/-- A `remove` that the store allows is one that will be saved. -/
theorem State.InOrder.removeIsSaved (hs : s.InOrder)
    (hsaved : s.store.changed (n / inodesPerBlock) = true ∨ s.store.files n = none) :
    s.RemoveIsSaved n := by
  rcases hsaved with hflag | hnone
  · exact Or.inl hflag
  · refine Or.inr fun inode hat => ?_
    have hvalid : inode.valid = 0 := files_eq_none_iff.mp hnone _ (validAt_eq_some hat)
    obtain ⟨hsize, hdirect⟩ := hs.accounted.empty n inode hat hvalid
    obtain ⟨valid, size, direct, indirect⟩ := inode
    obtain rfl : valid = 0 := hvalid
    obtain rfl : size = 0 := hsize
    obtain rfl : direct = fun _ => 0 := funext hdirect
    rfl

/-- A command that is saved keeps the session synced. -/
theorem answer_synced (hs : s.InOrder) (hsynced : s.Synced) {command : Command}
    (hsaves : Volume.Saves { mounted := true, store := s.store } command) {result : Answer}
    (h : answer s command = .ok (result, s')) : s'.Synced := by
  have hsaved : s.IsSaved command := by
    cases command with
    | remove n => exact hs.removeIsSaved (hsaves rfl)
    | debug | format | mount | cat | copyout | stat | copyin | ls => exact trivial
  have hexec : exec s command = .ok (result.printed, s') := by
    rw [exec_eq_answer, h]
    rfl
  -- a second `mount` is not saved, and a mounted disk is not formatted
  cases command with
  | mount => cases hsaves
  | format =>
    rw [answer_format hs.accounted.mounted] at h
    cases h
    exact hsynced
  | debug =>
    obtain ⟨_, -, hexec⟩ := of_bind_eq_ok hexec
    obtain ⟨-, rfl⟩ := Prod.mk.inj (Except.ok.inj hexec)
    exact hsynced
  | remove | cat | copyout | stat | copyin | ls => exact exec_synced hsynced rfl hsaved hexec

/-- **A command** of a run, before the mount or after it. -/
theorem answer_refines {v : Volume} {command : Command} (h : Refines s v) (hsaves : v.Saves command) :
    Matches Refines (answer s command) (v.exec command) := by
  cases h with
  | unmounted hclean hnot => exact unmounted_matches hclean hnot command
  | mounted hs hsynced =>
    have honce : command ≠ .mount := by
      rintro rfl
      cases hsaves
    rw [Volume.exec, if_pos rfl]
    rcases of_matches (answer_matches hs honce) with
      ⟨fault, hanswer, hexec⟩ | ⟨result, s', σ, hanswer, hexec, hs', rfl⟩
    · rw [hanswer, hexec]
      exact .fails fault
    · rw [hanswer, hexec]
      exact .answers result (.mounted hs' (answer_synced hs hsynced hsaves hanswer))

/-! ## Exits

The destructor is the end of a run. It writes the blocks that are flagged, and what it leaves has to
be a clean image again, or the next run would have nothing to begin with. -/

/-- What lasts between two runs. -/
def Stores (disk : Disk) (σ : Store) : Prop := CleanImage disk ∧ Store.ofDisk disk = σ

/-- A disk on which the table of a state in order stands. -/
theorem State.Accounted.clean (hs : s.Accounted)
    (hsuper : s.fs.superBlock = decodeSuper (disk.blockAt 0)) (hsize : disk.blocks = s.shape.blocks)
    (hinode : ∀ n inode, s.inodeAt n = some inode → imageInode disk n = inode) : CleanImage disk := by
  have hm := hs.mounted
  have htable : (decodeSuper (disk.blockAt 0)).inodeBlocks.toNat = s.shape.tableBlocks := by
    rw [← hsuper]
    exact hm.inodeBlocks
  have hfirst : s.shape.firstDataBlock = s.shape.tableBlocks + 1 := hm.firstDataBlock
  have hsize' : disk.size = s.shape.blocks := hsize
  have hat : ∀ n < s.shape.tableBlocks * inodesPerBlock, s.inodeAt n = some (imageInode disk n) := by
    intro n hn
    obtain ⟨inode, hat⟩ := inodeAt_eq_some_of_lt hn
    rw [hat, hinode n inode hat]
  have howner : ∀ n < s.shape.tableBlocks * inodesPerBlock, ∀ k, (imageInode disk n).direct k ≠ 0 →
      s.ownerOf (n, k) = some ((imageInode disk n).direct k).toNat := fun n hn k hk =>
    ownerOf_eq_some_iff.mpr ⟨_, hat n hn, hk, rfl⟩
  refine ⟨?_, ?_, ?_, ?_, ?_⟩
  · have hfits := hm.fits
    rw [hm.size_eq] at hfits
    rw [htable, hsize']
    omega
  · rw [hsize']
    exact hs.small
  · rw [htable]
    exact fun n hn hvalid => hs.empty n _ (hat n hn) hvalid
  · rw [htable, hsize']
    intro n hn _ k hk
    have hdata : s.IsDataBlock _ := hs.owners.inRegion (howner n hn k hk)
    exact ⟨hfirst ▸ hdata.1, hdata.2⟩
  · rw [htable]
    intro n hn n' hn' k k' _ _ hk heq
    have hsame := howner n' hn' k' (heq ▸ hk)
    rw [← heq] at hsame
    exact Prod.mk.inj (hs.owners.injective (howner n hn k hk) hsame)

/-- **The exit** leaves the store, and a clean image. -/
theorem destroy_refines {v : Volume} (h : Refines s v) : Ends Stores s.destroy v.leave := by
  cases h with
  -- nothing was mounted, so nothing is written
  | unmounted hclean hnot => exact .completes ⟨hclean, rfl⟩
  | mounted hs hsynced =>
    have hm := hs.accounted.mounted
    obtain ⟨disk', hexit, -⟩ := destroyRounds_spec hm s.shape.tableBlocks
    obtain ⟨hblocks, hzero, hothers, hinodes⟩ := destroyRounds_table hm hexit
    have hsuper : s.fs.superBlock = decodeSuper (disk'.blockAt 0) := by
      rw [hzero]
      exact hs.superBlock
    -- what is not dirty is on the disk already
    have hinode : ∀ n inode, s.inodeAt n = some inode → imageInode disk' n = inode := by
      intro n inode hat
      have hn := lt_of_inodeAt hat
      have hblock : n / inodesPerBlock < s.shape.tableBlocks :=
        (Nat.div_lt_iff_lt_mul (by decide)).mpr hn
      rw [hinodes n inode hat]
      cases hdirty : s.inDirtyBlock n with
      | true => exact if_pos ⟨hblock, rfl⟩
      | false =>
        have hcoherent := hsynced.table n hdirty
        rw [hat, imageAt, if_pos hn] at hcoherent
        rw [if_neg fun hand => Bool.false_ne_true hand.2]
        exact Option.some.inj hcoherent
    have hdata : ∀ n k b, s.ownerOf (n, k) = some b → disk'.blockAt b = s.disk.blockAt b := by
      intro n k b hb
      have hdata : s.IsDataBlock b := hs.accounted.owners.inRegion hb
      have hb4096 := hs.accounted.separate.lt_of_isDataBlock hdata
      have hfirst : s.shape.firstDataBlock = s.shape.tableBlocks + 1 := hm.firstDataBlock
      have hle := hdata.1
      exact hothers b (by unfold Disk.distinctBlocks; omega) (by omega)
    have hstore : Store.ofDisk disk' = { s.store with changed := fun _ => false } :=
      Store.ext hsuper.symm hblocks
        (funext fun n => Mounted.ofDisk_files hm hsuper (hinode n) (hdata n)) rfl
    rw [destroy_eq, hexit]
    exact .completes ⟨hs.accounted.clean hsuper hblocks hinode, hstore⟩

/-! ## The headline

A run is a session with a beginning and an end, and a list of runs is a session of runs. So what
holds of a run carries over to all of them in the way in which what holds of a line does. -/

/-- One run of the program: what it answers, and the disk it leaves. -/
def run : Disk → List Command → Except (List Answer × Fault) (List Answer × Disk) :=
  session (fun disk => reopen disk 0) answer State.destroy

/-- One run on a store. -/
def Store.run : Store → List Command → Except (List Answer × Fault) (List Answer × Store) :=
  session Volume.start Volume.exec Volume.leave

/-- The commands of one run are all saved. -/
def Store.Saves (σ : Store) (commands : List Command) : Prop :=
  Allowed Volume.exec Volume.Saves (.start σ) commands

/-- To open a disk changes nothing on it. -/
theorem CleanImage.reopen (hclean : CleanImage disk) : CleanImage (reopen disk 0).disk :=
  ⟨hclean.fits, hclean.small, hclean.blank, hclean.region, hclean.disjoint⟩

/-- A new process finds the disk unmounted. -/
theorem reopen_refines (hclean : CleanImage disk) :
    Refines (State.reopen disk 0) (.start (Store.ofDisk disk)) :=
  .unmounted hclean.reopen rfl

/-- One run on a disk and on its store. -/
theorem run_matches {σ : Store} {commands : List Command} (h : Stores disk σ)
    (hsaves : σ.Saves commands) : Matches Stores (run disk commands) (σ.run commands) := by
  obtain ⟨hclean, rfl⟩ := h
  exact session_matches answer_refines destroy_refines (reopen_refines hclean) hsaves

/-- Any number of runs on a disk and on its store. -/
theorem runs_alike {sessions : List (List Command)} (hclean : CleanImage disk)
    (hsaves : Allowed Store.run Store.Saves (Store.ofDisk disk) sessions) :
    Transcript.Alike Stores run Store.run disk (Store.ofDisk disk) sessions :=
  alike_of_allowed sessions run_matches ⟨hclean, rfl⟩ hsaves

/-- **Headline.** The program run any number of times on a disk that holds a clean image: what is
printed and written in every run before the line that ends it, the run and the line at which one is
ended, and why, are those of one store that lasts from run to run; and the disk in the end holds that
store. -/
theorem sessions_refine {sessions : List (List Command)} (hclean : CleanImage disk)
    (hsaves : Allowed Store.run Store.Saves (Store.ofDisk disk) sessions) :
    transcript run disk sessions = transcript Store.run (Store.ofDisk disk) sessions
      ∧ Ends Stores (final run disk sessions) (final Store.run (Store.ofDisk disk) sessions) :=
  ⟨(runs_alike hclean hsaves).seen, (runs_alike hclean hsaves).ends⟩

/-! ## Two runs

A disk of four blocks without a file, one of them for inodes. What the model computes on its store is
what the program does with the disk. -/

/-- The store of that disk. -/
def bareStore : Store :=
  { superBlock := decodeSuper ((smallDisk 4 0).blockAt 0)
    blocks := 4
    files := fun _ => none
    changed := fun _ => false }

/-- No inode of the small disk is valid. -/
theorem ofDisk_smallDisk : Store.ofDisk (smallDisk 4 0) = bareStore := by
  refine Store.ext rfl rfl (funext fun n => if_neg fun hand => ?_) rfl
  have hzero : ∀ n < 128, (imageInode (smallDisk 4 0) n).valid = 0 := by decide +kernel
  exact hand.2 (hzero n hand.1)

/-- The store after a file of one byte, and after the exit. -/
def oneFileStore : Store := { bareStore.put 0 (.ofStream [65]) with changed := fun _ => false }

/-- There is room for a file, and number `0` is free. -/
theorem bareStore_copyin : bareStore.copyin (some [65])
    = .ok ({ printed := [.createdInode 0, .bytesCopied 1], written := [] },
        bareStore.put 0 (.ofStream [65])) := by
  have hfirst : bareStore.firstFree = some 0 := by decide +kernel
  have hfree : bareStore.free = 2 := by decide +kernel
  exact Store.copyin_stored hfirst (by decide) (by decide) (by rw [hfree]; decide)

/-- A mount and a `copyin`, as one run. -/
theorem bareStore_run : bareStore.run [.mount, .copyin (some [65])]
    = .ok ([{ printed := [.diskMounted], written := [] },
        { printed := [.createdInode 0, .bytesCopied 1], written := [] }], oneFileStore) := by
  have hmount : Volume.exec (.start bareStore) .mount
      = .ok ({ printed := [.diskMounted], written := [] }, { mounted := true, store := bareStore }) := rfl
  have hcopyin : Volume.exec { mounted := true, store := bareStore } (.copyin (some [65]))
      = .ok ({ printed := [.createdInode 0, .bytesCopied 1], written := [] },
          { mounted := true, store := bareStore.put 0 (.ofStream [65]) }) := by
    rw [Volume.exec, if_pos rfl, Store.exec, bareStore_copyin]
    rfl
  rw [Store.run, session_ok ((final_ok hmount).trans (final_ok hcopyin)) rfl, transcript_ok hmount,
    transcript_ok hcopyin]
  rfl

/-- A run that only adds to the store and reads it saves everything. -/
theorem Store.saves_two (σ : Store) {command : Command} (hkeeps : ∀ v : Volume, v.Saves command) :
    σ.Saves [.mount, command] :=
  ⟨rfl, fun _ v _ => ⟨hkeeps v, fun _ _ _ => trivial⟩⟩

/-- A file copied in in one run and copied out in the next. -/
theorem sessions_refine_two : transcript run (smallDisk 4 0)
      [[.mount, .copyin (some [65])], [.mount, .copyout 0 true]]
    = transcript Store.run (Store.ofDisk (smallDisk 4 0))
      [[.mount, .copyin (some [65])], [.mount, .copyout 0 true]] := by
  have hclean : CleanImage (smallDisk 4 0) := smallDisk_clean (by decide) (by decide) 0
  have hsaves : Allowed Store.run Store.Saves (Store.ofDisk (smallDisk 4 0))
      [[.mount, .copyin (some [65])], [.mount, .copyout 0 true]] :=
    ⟨Store.saves_two _ fun _ => trivial,
      fun _ σ _ => ⟨σ.saves_two fun _ => trivial, fun _ _ _ => trivial⟩⟩
  exact (sessions_refine hclean hsaves).1

/-! ## Files that last

What a run does to a file, the store tells. So a file is followed on the store alone, through the
lines of a run and through the runs. -/

variable {σ σ' : Store} {v v' : Volume} {file : File} {commands : List Command}

/-- A line leaves a file alone unless it is `remove` of that file, or `format`. -/
theorem Volume.exec_files {command : Command} {result : Answer} (hfile : v.store.files n = some file)
    (hremove : command ≠ .remove n) (hformat : command ≠ .format)
    (h : v.exec command = .ok (result, v')) : v'.store.files n = some file := by
  rw [Volume.exec] at h
  split at h
  · obtain ⟨⟨answer, store⟩, hexec, h⟩ := of_bind_eq_ok h
    cases h
    exact Store.exec_files hfile hremove hexec
  · cases command with
    | format => exact absurd rfl hformat
    | mount | debug | remove | stat | copyin | ls | cat | copyout =>
      cases h
      exact hfile

/-- **A run** leaves a file alone that it does not remove. -/
theorem Store.run_files {answers : List Answer} (hfile : σ.files n = some file)
    (hremove : .remove n ∉ commands) (hformat : .format ∉ commands)
    (h : σ.run commands = .ok (answers, σ')) : σ'.files n = some file := by
  obtain ⟨v, hfinal, hleave⟩ := of_session h
  cases hleave
  exact final_keeps (P := fun v : Volume => v.store.files n = some file) commands
    (fun hmem hfile hexec => Volume.exec_files hfile (fun heq => hremove (heq ▸ hmem))
      (fun heq => hformat (heq ▸ hmem)) hexec) hfile hfinal

/-- **A file lasts.** On a disk that holds a clean image, let the program be run any number of times
to its end, with one mount in a run and no removal that the exit does not write back; a file that no
run removes is copied out then with the bytes and the size that it had at the start. -/
theorem file_lasts {sessions : List (List Command)} (hclean : CleanImage disk)
    (hsaves : Allowed Store.run Store.Saves (Store.ofDisk disk) sessions)
    (hfinal : final run disk sessions = .ok disk') (hfile : (Store.ofDisk disk).files n = some file)
    (hkept : ∀ commands ∈ sessions, .remove n ∉ commands ∧ .format ∉ commands) :
    ∃ s, (reopen disk' 0).mount = .ok (true, s)
      ∧ answer s (.copyout n true)
          = .ok ({ printed := [.bytesCopied file.bytes.length], written := file.bytes }, s)
      ∧ s.stat n = .ok file.size.toNat := by
  have hends := (runs_alike hclean hsaves).ends
  rw [hfinal] at hends
  obtain ⟨σ, hσ, hclean', hstore⟩ := hends.of_ok
  have hremains : (Store.ofDisk disk').files n = some file := by
    rw [hstore]
    exact final_keeps (P := fun σ : Store => σ.files n = some file) sessions
      (fun hmem hfile hrun => Store.run_files hfile (hkept _ hmem).1 (hkept _ hmem).2 hrun) hfile hσ
  -- one more run, which mounts the disk and reads the file
  obtain ⟨s, hmount, hismount⟩ :=
    mount_ok (s := State.start disk'.blocks disk'.image) hclean'.fits hclean'.small
  have hs : s.InOrder := hismount.inOrder hclean'.reopen
  have hstore' : s.store = Store.ofDisk disk' := hismount.store_eq
  have hfile' : s.files n = some file := (congrArg (fun σ : Store => σ.files n) hstore').trans hremains
  exact ⟨s, hmount, hs.copyout_file hfile'⟩

/-- The first of the two runs leaves the file on the disk. -/
theorem smallDisk_stores : ∃ disk, final run (smallDisk 4 0) [[.mount, .copyin (some [65])]] = .ok disk
    ∧ Stores disk oneFileStore := by
  have hclean : CleanImage (smallDisk 4 0) := smallDisk_clean (by decide) (by decide) 0
  have hsaves : Allowed Store.run Store.Saves (Store.ofDisk (smallDisk 4 0))
      [[.mount, .copyin (some [65])]] :=
    ⟨Store.saves_two _ fun _ => trivial, fun _ _ _ => trivial⟩
  have hends := (runs_alike hclean hsaves).ends
  rw [ofDisk_smallDisk, final_ok bareStore_run, final_nil] at hends
  rcases of_ends hends with ⟨fault, -, hnever⟩ | ⟨disk, σ, hrun, hσ, hstores⟩
  · -- a run that comes to its end on the store does on the disk
    cases hnever
  · cases hσ
    exact ⟨disk, hrun, hstores⟩

/-- A second `copyin`, which the table has no number for (`1` is given out and not used), and the
removal of what it leaves. -/
theorem oneFileStore_run : ∃ answers σ, oneFileStore.run [.mount, .copyin (some [66]), .remove 1]
      = .ok (answers, σ) ∧ σ.inodes = inodesPerBlock
    ∧ oneFileStore.Saves [.mount, .copyin (some [66]), .remove 1] := by
  have hfirst : oneFileStore.firstFree = some 1 := by decide +kernel
  have hmount : Volume.exec (.start oneFileStore) .mount
      = .ok ({ printed := [.diskMounted], written := [] }, { mounted := true, store := oneFileStore }) :=
    rfl
  have hcopyin : Volume.exec { mounted := true, store := oneFileStore } (.copyin (some [66]))
      = .ok ({ printed := [.createFailed, .copyinFailed], written := [] },
          { mounted := true, store := oneFileStore.put 1 .empty }) := by
    rw [Volume.exec, if_pos rfl, Store.exec, Store.copyin, hfirst]
    rfl
  have hremove : Volume.exec { mounted := true, store := oneFileStore.put 1 .empty } (.remove 1)
      = .ok ({ printed := [.removedInode 1], written := [] },
          { mounted := true, store := (oneFileStore.put 1 .empty).erase 1 }) := rfl
  refine ⟨_, _, session_ok ((final_ok hmount).trans ((final_ok hcopyin).trans (final_ok hremove))) rfl,
    rfl, ?_⟩
  -- the removal is in the inode block that the copyin has changed
  exact allowed_ok rfl hmount
    (allowed_ok trivial hcopyin (allowed_ok (fun _ => Or.inl rfl) hremove trivial))

/-- A file can be read in a run of its own. -/
theorem Store.run_cat (hn : n < σ.inodes) (hfile : σ.files n = some file) :
    ∃ answers σ', σ.run [.mount, .cat n true] = .ok (answers, σ') := by
  have hmount : Volume.exec (.start σ) .mount
      = .ok ({ printed := [.diskMounted], written := [] }, { mounted := true, store := σ }) := rfl
  have hcat : Volume.exec { mounted := true, store := σ } (.cat n true)
      = .ok ({ printed := [.bytesCopied file.bytes.length], written := file.bytes },
          { mounted := true, store := σ }) := by
    rw [Volume.exec, if_pos rfl, Store.exec, Store.copyout_delivered hn hfile]
    rfl
  exact ⟨_, _, session_ok ((final_ok hmount).trans (final_ok hcat)) rfl⟩

/-- The byte stays what it was, though the next run tries to put a file beside it and the one after
that reads it. -/
theorem file_lasts_two : ∃ disk disk' s,
    final run (smallDisk 4 0) [[.mount, .copyin (some [65])]] = .ok disk
      ∧ final run disk [[.mount, .copyin (some [66]), .remove 1], [.mount, .cat 0 true]] = .ok disk'
      ∧ (reopen disk' 0).mount = .ok (true, s)
      ∧ answer s (.copyout 0 true)
          = .ok ({ written := (File.ofStream [65]).bytes
                   printed := [.bytesCopied (File.ofStream [65]).bytes.length] }, s)
      ∧ s.stat 0 = .ok 1 := by
  obtain ⟨disk, hfirst, hclean, hstore⟩ := smallDisk_stores
  obtain ⟨answers, σ, hrun, hinodes, hsaves⟩ := oneFileStore_run
  have hfile : (Store.ofDisk disk).files 0 = some (File.ofStream [65]) := by
    rw [hstore]
    rfl
  have hkept : σ.files 0 = some (File.ofStream [65]) :=
    Store.run_files rfl (by simp) (by simp) hrun
  obtain ⟨answers', σ', hcat⟩ := σ.run_cat (by rw [hinodes]; decide) hkept
  have hsaved : Allowed Store.run Store.Saves (Store.ofDisk disk)
      [[.mount, .copyin (some [66]), .remove 1], [.mount, .cat 0 true]] := by
    rw [hstore]
    exact allowed_ok hsaves hrun ⟨σ.saves_two fun _ => trivial, fun _ _ _ => trivial⟩
  have hends := (runs_alike hclean hsaved).ends
  rw [hstore, final_ok hrun, final_ok hcat, final_nil] at hends
  rcases of_ends hends with ⟨fault, -, hnever⟩ | ⟨disk', σ', hfinal, -, -⟩
  · cases hnever
  · obtain ⟨s, hmount, hcopyout, hstat⟩ := file_lasts hclean hsaved hfinal hfile (by simp)
    exact ⟨disk, disk', s, hfirst, hfinal, hmount, hcopyout, hstat⟩

end OsLab.Sfs
