import OsLab.Sfs.BlockArray
import OsLab.Sfs.Prompt

/-!
# OsLab.Sfs.Console — the program

`main` of `file_system.cpp`: the disk file is opened, the requests are served line by line, and the
destructor of the file system runs at the end. Files of the host are read and written on the way,
and nothing is assumed of them.

* **`openDisk`**: `Disk::open`, with the conversion of the path, which has room for 64 characters.
* **`serve`**: a request, on a state or on a volume. Where the commands match, the requests match
  (`serve_matches`).
* **`requests_typed`**: the requests of a text are the ones that were typed, up to `exit`.
* **`program_matches`**: a run prints the same on the disk and on the store, and leaves the same files
  of the host.
* **`main_serves`** is the headline: from the arguments and the characters typed to what is printed.

Two things that the program prints are not modelled. `~Disk` ends a run with the numbers of block
reads and writes, which `Disk` does not count; and a command that throws may have printed before it
did. What is shown of such a line is its prompt.
-/

namespace OsLab.Sfs

open Scan State Transcript

/-! ## The host

The shell opens files of the machine it runs on. What they contain and what opening them does is not
its own, so it is a parameter, and `Host.after` is how a request changes it. -/

/-- The files of the host: what is read from a path, if it can be opened; whether a path can be
opened for writing, and the files after it was; and what `strerror(errno)` says of a path that could
not be opened. -/
structure Host (η : Type) where
  contents : η → List Char → Option (List UInt8)
  opens : η → List Char → Bool
  put : η → List Char → List UInt8 → η
  reason : η → List Char → String

variable {η : Type} {host : Host η}

namespace Request

/-- The file that `cat` and `copyout` open for writing. -/
def target : Request → Option (List Char)
  | .cat _ => some "stdout.txt".toList
  | .copyout _ path => some path
  | .debug | .format | .mount | .remove _ | .stat _ | .copyin _ | .ls | .help | .leave | .usage _
  | .unknown _ => none

/-- The file that the command opens, to read it or to write it. -/
def path : Request → List Char
  | .cat _ => "stdout.txt".toList
  | .copyout _ path => path
  | .copyin path => path
  | .debug | .format | .mount | .remove _ | .stat _ | .ls | .help | .leave | .usage _
  | .unknown _ => []

/-- The command, with what the host gives it. -/
def toCommand (host : Host η) (files : η) : Request → Option Command
  | .debug => some .debug
  | .format => some .format
  | .mount => some .mount
  | .cat n => some (.cat n (host.opens files "stdout.txt".toList))
  | .copyout n path => some (.copyout n (host.opens files path))
  | .remove n => some (.remove n)
  | .stat n => some (.stat n)
  | .copyin path => some (.copyin (host.contents files path))
  | .ls => some .ls
  | .help | .leave | .usage _ | .unknown _ => none

/-- What `main` prints itself, and `do_help`. -/
def said : Request → String
  | .help => "Commands are:\n" ++ "    format\n" ++ "    mount\n" ++ "    debug\n"
      ++ "    remove  <inode>\n" ++ "    cat     <inode>\n" ++ "    stat    <inode>\n"
      ++ "    copyin  <file>\n" ++ "    copyout <inode> <file>\n" ++ "    help\n" ++ "    quit\n"
      ++ "    exit\n"
  | .usage text => text
  | .unknown line =>
    "Unknown command: " ++ String.ofList line ++ "Type 'help' for a list of commands.\n"
  | .debug | .format | .mount | .cat _ | .copyout .. | .remove _ | .stat _ | .copyin _ | .ls
  | .leave => ""

def isLeave : Request → Bool
  | .leave => true
  | .debug | .format | .mount | .cat _ | .copyout .. | .remove _ | .stat _ | .copyin _ | .ls | .help
  | .usage _ | .unknown _ => false

end Request

/-- The files of the host after a request. -/
def Host.after (host : Host η) (files : η) (r : Request) (written : List UInt8) : η :=
  match r.target with
  | none => files
  | some path => if host.opens files path then host.put files path written else files

/-- What stands behind `Unable to open`, if a request comes to that. -/
def Host.missing (host : Host η) (files : η) (r : Request) : String :=
  String.ofList r.path ++ ": " ++ host.reason files r.path

def prompt : String := "UB sfs> "

/-- One round of the loop of `main`: what is printed, and what is left. -/
def serve {σ : Type} (host : Host η) (step : σ → Command → Except Fault (Answer × σ)) (s : σ × η)
    (r : Request) : Except Fault (String × (σ × η)) :=
  match r.toCommand host s.2 with
  | none => .ok (prompt ++ r.said, s)
  | some command => do
    let (answer, state) ← step s.1 command
    .ok (prompt ++ String.join (answer.printed.map (Message.text (host.missing s.2 r))),
      (state, host.after s.2 r answer.written))

/-- The requests of the input, up to the first `exit`. -/
def requests (old : Nat → Buffers) (text : List Char) : List Request :=
  ((lines text).mapIdx fun i line => parse (old i) line).takeWhile fun r => !r.isLeave

/-! ## Two machines

The program on its disk and the store it stands for get the same requests and print the same. The
host does not tell them apart, since it is asked the same things. -/

/-- Two states with the same files of the host. -/
def Beside {σ τ : Type} (R : σ → τ → Prop) (s : σ × η) (t : τ × η) : Prop := R s.1 t.1 ∧ s.2 = t.2

/-- The command of a request is allowed. -/
def Allows {σ : Type} (host : Host η) (guard : σ → Command → Prop) (s : σ × η) (r : Request) : Prop :=
  ∀ command, r.toCommand host s.2 = some command → guard s.1 command

/-- **A request** is served alike where its command is done alike. -/
theorem serve_matches {σ τ : Type} {R : σ → τ → Prop} {guard : τ → Command → Prop}
    {step : σ → Command → Except Fault (Answer × σ)} {step' : τ → Command → Except Fault (Answer × τ)}
    (hstep : ∀ {s t command}, R s t → guard t command → Matches R (step s command) (step' t command))
    {s : σ × η} {t : τ × η} {r : Request} (h : Beside R s t) (hallowed : Allows host guard t r) :
    Matches (Beside R) (serve host step s r) (serve host step' t r) := by
  obtain ⟨s, files⟩ := s
  obtain ⟨t, files'⟩ := t
  obtain ⟨hR, rfl⟩ : R s t ∧ files = files' := h
  rw [serve, serve]
  dsimp only
  -- the request has no command: then it is answered without the disk
  cases hcommand : r.toCommand host files with
  | none => exact .answers _ ⟨hR, rfl⟩
  | some command =>
    dsimp only
    rcases of_matches (hstep hR (hallowed command hcommand)) with
      ⟨fault, hs, ht⟩ | ⟨answer, s', t', hs, ht, hR'⟩
    · rw [hs, ht]
      exact .fails fault
    · rw [hs, ht]
      exact .answers _ ⟨hR', rfl⟩

/-! ## What is typed

`fgets` takes a line of at most a buffer, `sscanf` takes words from it. A request that is typed in
some line and fits into the buffer is what is found there, whatever earlier lines have left in the
buffers. -/

/-- An input with one line for each request, each of which fits into the buffer. -/
inductive Typed : List Request → List Char → Prop
  | nil : Typed [] []
  | cons {r : Request} {rs : List Request} {line text : List Char} (htypable : r.Typable)
      (hnewline : '\n' ∉ line) (hzero : Char.ofNat 0 ∉ line) (hfits : line.length + 1 < bufSize)
      (hspelled : Spelled r.words (line ++ ['\n'])) (h : Typed rs text) :
      Typed (r :: rs) (line ++ '\n' :: text)

theorem parse_typed {rs : List Request} {text : List Char} (h : Typed rs text) :
    ∀ old : Nat → Buffers, (lines text).mapIdx (fun i line => parse (old i) line) = rs := by
  induction h with
  | nil =>
    intro old
    rw [lines_nil]
    rfl
  | @cons r rs line text htypable hnewline hzero hfits hspelled _ ih =>
    intro old
    have hzero' : Char.ofNat 0 ∉ line ++ ['\n'] := by
      intro hmem
      rcases List.mem_append.mp hmem with hmem | hmem
      · exact hzero hmem
      · cases List.mem_singleton.mp hmem
    rw [lines_cons hnewline hfits, List.mapIdx_cons, ih fun i => old (i + 1),
      parse_words htypable hzero' hspelled]

/-- What is served of an input: the requests that were typed, up to the first `exit`. -/
theorem requests_of_typed {rs : List Request} {text : List Char} (h : Typed rs text)
    (old : Nat → Buffers) : requests old text = rs.takeWhile fun r => !r.isLeave := by
  rw [requests, parse_typed h old]

/-- **The requests of an input** are those that were typed, whatever the buffers held. -/
theorem requests_typed {rs : List Request} {text : List Char} (h : Typed rs text)
    (old : Nat → Buffers) : requests old text = rs.takeWhile fun r => !r.isLeave :=
  requests_of_typed h old

/-- Some requests, one of them behind `exit`. -/
def someRequests : List Request :=
  [.mount, .copyin "in.txt".toList, .copyout 0 "out.txt".toList, .leave, .remove 0]

/-- How somebody may type them. -/
def someText : List Char :=
  "mount".toList ++ '\n' :: (" copyin\tin.txt".toList ++ '\n' :: ("copyout 0  out.txt ".toList ++ '\n'
    :: ("exit".toList ++ '\n' :: ("remove 0".toList ++ '\n' :: []))))

theorem someText_typed : Typed someRequests someText := by
  -- the words of each line, taken off one after the other
  have hnewline : Spelled [] ['\n'] := .nil (List.forall_mem_singleton.mpr rfl)
  have hmount : Spelled Request.mount.words ("mount".toList ++ ['\n']) :=
    .of_word (rfl : word _ = some (_, ['\n'])) hnewline
  have hcopyin : Spelled (Request.copyin "in.txt".toList).words (" copyin\tin.txt".toList ++ ['\n']) :=
    .of_word (rfl : word _ = some (_, "\tin.txt\n".toList))
      (.of_word (rfl : word _ = some (_, ['\n'])) hnewline)
  have hcopyout : Spelled (Request.copyout 0 "out.txt".toList).words
      ("copyout 0  out.txt ".toList ++ ['\n']) :=
    .of_word (rfl : word _ = some (_, " 0  out.txt \n".toList))
      (.of_word (rfl : word _ = some (_, "  out.txt \n".toList))
        (.of_word (rfl : word _ = some (_, [' ', '\n'])) (.nil (by simp [isSpace]))))
  have hleave : Spelled Request.leave.words ("exit".toList ++ ['\n']) :=
    .of_word (rfl : word _ = some (_, ['\n'])) hnewline
  have hremove : Spelled (Request.remove 0).words ("remove 0".toList ++ ['\n']) :=
    .of_word (rfl : word _ = some (_, " 0\n".toList))
      (.of_word (rfl : word _ = some (_, ['\n'])) hnewline)
  have hsmall : (0 : Nat) < 2147483648 := by decide
  exact .cons trivial (by decide +kernel) (by decide +kernel) (by decide +kernel) hmount
    (.cons trivial (by decide +kernel) (by decide +kernel) (by decide +kernel) hcopyin
      (.cons hsmall (by decide +kernel) (by decide +kernel) (by decide +kernel) hcopyout
        (.cons trivial (by decide +kernel) (by decide +kernel) (by decide +kernel) hleave
          (.cons hsmall (by decide +kernel) (by decide +kernel) (by decide +kernel) hremove .nil))))

/-- Arguments, tabs and blanks, and buffers that hold another command. -/
theorem requests_typed_some :
    requests (fun _ => { cmd := "format".toList, arg1 := "7".toList, arg2 := "x".toList }) someText
      = [.mount, .copyin "in.txt".toList, .copyout 0 "out.txt".toList] :=
  requests_typed someText_typed _

/-! ## The program

`main` opens the disk, serves the requests up to `exit`, and lets the destructors run. What is seen
of it is what it prints and how it ends. -/

/-- What is typed during one run, and what memory holds that nobody has initialised: the buffers of
each round, and the arrays of the two conversions of the path. -/
structure Input where
  old : Nat → Buffers
  names : Nat → List Char
  text : List Char

def Input.requests (input : Input) : List Request := OsLab.Sfs.requests input.old input.text

/-- The loop of `main` on an opened disk, and the destructor: what is printed, and the disk and the
files of the host that are left. -/
def program (host : Host η) (d : Disk × η) (rs : List Request) :
    Except (List String × Fault) (List String × (Disk × η)) :=
  session (fun d => (reopen d.1 0, d.2)) (serve host answer)
    (fun s => do
      let disk ← s.1.destroy
      .ok (disk, s.2)) d rs

/-- The same on a store. -/
def Store.program (host : Host η) (d : Store × η) (rs : List Request) :
    Except (List String × Fault) (List String × (Store × η)) :=
  session (fun d => (Volume.start d.1, d.2)) (serve host Volume.exec)
    (fun v => do
      let σ ← v.1.leave
      .ok (σ, v.2)) d rs

/-- The commands of one run are all saved. -/
def Store.Accepts (host : Host η) (d : Store × η) (rs : List Request) : Prop :=
  Allowed (serve host Volume.exec) (Allows host Volume.Saves) (Volume.start d.1, d.2) rs

/-- The program on its disk and on the store. -/
theorem program_matches {d : Disk × η} {d' : Store × η} {rs : List Request} (h : Beside Stores d d')
    (haccepts : Store.Accepts host d' rs) :
    Matches (Beside Stores) (program host d rs) (Store.program host d' rs) := by
  obtain ⟨disk, files⟩ := d
  obtain ⟨σ, files'⟩ := d'
  obtain ⟨⟨hclean, rfl⟩, rfl⟩ : Stores disk σ ∧ files = files' := h
  refine session_matches (fun hR hallows => serve_matches answer_refines hR hallows)
    (fun {s v} hR => ?_) ⟨reopen_refines hclean, rfl⟩ haccepts
  obtain ⟨s, files⟩ := s
  obtain ⟨v, files'⟩ := v
  obtain ⟨hrefines, rfl⟩ : Refines s v ∧ files = files' := hR
  dsimp only
  rcases of_ends (destroy_refines hrefines) with ⟨fault, hs, hv⟩ | ⟨disk', σ', hs, hv, hstores⟩
  · rw [hs, hv]
    exact .fails fault
  · rw [hs, hv]
    exact .completes ⟨hstores, rfl⟩

/-- The disk files of the host, by the name that `CreateFile` gets: the one that is there, and the
one that `CREATE_NEW` and `SetEndOfFile` make, if they can. -/
structure DiskFiles where
  found : List Char → Option Bytes.Image
  created : List Char → Option Bytes.Image

/-- `LPCSTRtoLPTSTR`: there is room for 64 characters, the zero behind the path included, and nobody
asks whether the conversion succeeded. If it did not, the array holds what it held. -/
def wideName (array path : List Char) : List Char := if path.length < 64 then path else array

/-- `Disk::open(path, nblocks)`, which converts the path for each of its two attempts. `none` is the
`runtime_error`. -/
def openDisk (disks : DiskFiles) (names : Nat → List Char) (path : List Char) (nblocks : UInt32) :
    Option Disk :=
  match disks.found (wideName (names 0) path) with
  | some image => some (Disk.opened nblocks image)
  | none => (disks.created (wideName (names 1) path)).map (Disk.opened nblocks)

/-- What the `runtime_error` says, cut at the end of its buffer. -/
def openFailed (path : List Char) (reason : String) : String :=
  String.ofList (("Unable to open " ++ String.ofList path ++ ": " ++ reason).toList.take (bufSize - 1))

/-- `atoi(argv[2])` as the `size_t` that `open` gets. -/
def blocksTyped (nblocks : List Char) : UInt32 := UInt32.ofNat (inodeNumber (typedNumber nblocks))

/-- How a process ends: with an exit code, or by an exception that nobody catches. -/
inductive Ended where
  | success
  | failure
  | uncaught (fault : Fault)

/-- What is seen of a run, but for the two lines of `~Disk`. Of a line that ends the program by an
exception only the prompt is shown. -/
def ended {δ : Type} : Except (List String × Fault) (List String × δ) → List String × Ended
  | .error (printed, fault) => (printed ++ [prompt], .uncaught fault)
  | .ok (printed, _) => (printed ++ [prompt], .success)

/-- `main(argc, argv)`. -/
def main (host : Host η) (disks : DiskFiles) (argv : List (List Char)) (files : η) (input : Input) :
    List String × Ended :=
  match argv with
  | [_, path, nblocks] =>
    match openDisk disks input.names path (blocksTyped nblocks) with
    | none =>
      (["Unable to open disk " ++ String.ofList path ++ ": "
          ++ openFailed path (host.reason files path) ++ "\n"], .failure)
    | some disk => ended (program host (disk, files) input.requests)
  -- `argv[0]` is null then, and `%s` prints `(null)` for it
  | [] => (["Usage: (null) <diskfile> <nblocks>\n"], .failure)
  | name :: _ => (["Usage: " ++ String.ofList name ++ " <diskfile> <nblocks>\n"], .failure)

/-! ## The headline

From the arguments and the characters typed to what is printed: the program with its disk is the
program with its store. -/

theorem ended_eq {d : Disk × η} {d' : Store × η} {rs : List Request} (h : Beside Stores d d')
    (haccepts : Store.Accepts host d' rs) :
    ended (program host d rs) = ended (Store.program host d' rs) := by
  rcases of_matches (program_matches h haccepts) with
    ⟨⟨printed, fault⟩, hs, ht⟩ | ⟨printed, s, t, hs, ht, -⟩
  · rw [hs, ht]
    rfl
  · rw [hs, ht]
    rfl

/-- The file is found by the name that its path converts to. -/
theorem openDisk_found {disks : DiskFiles} {path : List Char} {image : Bytes.Image}
    (hpath : path.length < 64) (hfound : disks.found path = some image) (names : Nat → List Char)
    (nblocks : UInt32) : openDisk disks names path nblocks = some (Disk.opened nblocks image) := by
  rw [openDisk, wideName, if_pos hpath, hfound]

/-- **Headline.** The whole program, from its arguments, a disk file with an image that is clean and a
name that is converted, and the characters that are typed, one request a line: what it prints, and how
it ends, is what the store has to say to the requests up to `exit`. -/
theorem main_serves {name path nblocks : List Char} {disks : DiskFiles} {image : Bytes.Image}
    {rs : List Request} {input : Input} (files : η) (hpath : path.length < 64)
    (hfound : disks.found path = some image)
    (hclean : CleanImage (Disk.opened (blocksTyped nblocks) image)) (htyped : Typed rs input.text)
    (haccepts : Store.Accepts host (Store.ofDisk (Disk.opened (blocksTyped nblocks) image), files)
      (rs.takeWhile fun r => !r.isLeave)) :
    main host disks [name, path, nblocks] files input
      = ended (Store.program host (Store.ofDisk (Disk.opened (blocksTyped nblocks) image), files)
          (rs.takeWhile fun r => !r.isLeave)) := by
  have hstart : Beside Stores (Disk.opened (blocksTyped nblocks) image, files)
      (Store.ofDisk (Disk.opened (blocksTyped nblocks) image), files) := ⟨⟨hclean, rfl⟩, rfl⟩
  rw [main, openDisk_found hpath hfound]
  dsimp only
  rw [Input.requests, requests_of_typed htyped input.old, ended_eq hstart haccepts]

/-- A host with one file, which every path names. -/
def Host.single : Host (List UInt8) :=
  { contents := fun bytes _ => some bytes
    opens := fun _ _ => true
    put := fun _ _ written => written
    reason := fun _ _ => "" }

/-- Commands that all return are the program, up to the destructors. -/
theorem Store.program_of_final {σ : Store} {v : Volume} {files files' : η} {rs : List Request}
    (hfinal : final (serve host Volume.exec) (Volume.start σ, files) rs = .ok (v, files')) :
    Store.program host (σ, files) rs
      = .ok ((transcript (serve host Volume.exec) (Volume.start σ, files) rs).1,
          ({ v.store with changed := fun _ => false }, files')) := by
  rw [Store.program]
  exact session_ok hfinal rfl

/-- A `copyout` that delivers a file. -/
theorem serve_copyout {σ : Store} {n : Nat} {file : File} {files : η} {path : List Char}
    (hopens : host.opens files path = true) (hn : n < σ.inodes) (hfile : σ.files n = some file) :
    serve host Volume.exec ({ mounted := true, store := σ }, files) (.copyout n path)
      = .ok (prompt ++ String.join [s!"{file.bytes.length} bytes copied\n"],
          ({ mounted := true, store := σ }, host.put files path file.bytes)) := by
  rw [serve]
  dsimp only [Request.toCommand]
  rw [hopens, Volume.exec, if_pos rfl, Store.exec, Store.copyout_delivered hn hfile]
  show Except.ok (_, _, Host.after host files (.copyout n path) file.bytes) = _
  rw [Host.after]
  dsimp only [Request.target]
  rw [if_pos hopens]
  rfl

/-- The requests of `someText` up to `exit`, on a store without a file. -/
theorem bareStore_program :
    Store.program Host.single (bareStore, [65]) (someRequests.takeWhile fun r => !r.isLeave)
        = .ok (["UB sfs> disk mounted.\n", "UB sfs> created inode 0.\n1 bytes copied\n",
            "UB sfs> 4096 bytes copied\n"], (oneFileStore, (File.ofStream [65]).bytes))
      ∧ Store.Accepts Host.single (bareStore, [65]) (someRequests.takeWhile fun r => !r.isLeave) := by
  have hlength : (File.ofStream [65]).bytes.length = 4096 := File.length_bytes_ofStream [65]
  -- one round after the other: what is printed, and what is left
  have hmount : serve Host.single Volume.exec (Volume.start bareStore, [65]) .mount
      = .ok ("UB sfs> disk mounted.\n", ({ mounted := true, store := bareStore }, [65])) := by
    have hprinted : prompt ++ String.join ["disk mounted.\n"] = "UB sfs> disk mounted.\n" := by
      decide +kernel
    rw [← hprinted]
    rfl
  have hcopyin : serve Host.single Volume.exec ({ mounted := true, store := bareStore }, [65])
        (.copyin "in.txt".toList)
      = .ok ("UB sfs> created inode 0.\n1 bytes copied\n",
          ({ mounted := true, store := bareStore.put 0 (.ofStream [65]) }, [65])) := by
    have hprinted : prompt ++ String.join [Message.text "in.txt: " (.createdInode 0),
        Message.text "in.txt: " (.bytesCopied 1)] = "UB sfs> created inode 0.\n1 bytes copied\n" := by
      decide +kernel
    rw [← hprinted, serve]
    dsimp only [Request.toCommand, Host.single]
    rw [Volume.exec, if_pos rfl, Store.exec, bareStore_copyin]
    rfl
  have hcopyout : serve Host.single Volume.exec
        ({ mounted := true, store := bareStore.put 0 (.ofStream [65]) }, [65])
        (.copyout 0 "out.txt".toList)
      = .ok ("UB sfs> 4096 bytes copied\n",
          ({ mounted := true, store := bareStore.put 0 (.ofStream [65]) },
            (File.ofStream [65]).bytes)) := by
    have hserved := @serve_copyout _ Host.single (bareStore.put 0 (.ofStream [65])) 0 _ [65]
      "out.txt".toList rfl (by decide) Store.put_files_self
    have hprinted : prompt ++ String.join [s!"{4096} bytes copied\n"]
        = "UB sfs> 4096 bytes copied\n" := by
      decide +kernel
    have hput : ∀ bytes, Host.single.put [65] "out.txt".toList bytes = bytes := fun _ => rfl
    rwa [hlength, hprinted, hput] at hserved
  refine ⟨?_, allowed_ok ?_ hmount (allowed_ok ?_ hcopyin (allowed_ok ?_ hcopyout trivial))⟩
  · have hfinal := (final_ok hmount).trans
      ((final_ok hcopyin).trans ((final_ok hcopyout).trans final_nil))
    have hprogram := Store.program_of_final hfinal
    rwa [transcript_ok hmount, transcript_ok hcopyin, transcript_ok hcopyout, transcript_nil] at hprogram
  · rintro _ ⟨⟩
    rfl
  · rintro _ ⟨⟩
    exact trivial
  · rintro _ ⟨⟩
    exact trivial

/-- A file of one byte is copied in and out again. -/
theorem main_serves_some : main Host.single
      { found := fun _ => some (smallImage 0), created := fun _ => none }
      ["sfs".toList, "disk".toList, "4".toList] [65]
      { old := fun _ => { cmd := "format".toList, arg1 := "7".toList, arg2 := "x".toList }
        names := fun _ => []
        text := someText }
    = (["UB sfs> disk mounted.\n", "UB sfs> created inode 0.\n1 bytes copied\n",
        "UB sfs> 4096 bytes copied\n", prompt], .success) := by
  have hdisk : Disk.opened (blocksTyped "4".toList) (smallImage 0) = smallDisk 4 0 := by
    rw [show blocksTyped "4".toList = 4 by decide +kernel]
    rfl
  have hclean : CleanImage (smallDisk 4 0) := smallDisk_clean (by decide) (by decide) 0
  obtain ⟨hprogram, haccepts⟩ := bareStore_program
  rw [← ofDisk_smallDisk, ← hdisk] at hprogram haccepts
  rw [← hdisk] at hclean
  rw [main_serves [65] (by decide) rfl hclean someText_typed haccepts, hprogram]
  rfl

end OsLab.Sfs
