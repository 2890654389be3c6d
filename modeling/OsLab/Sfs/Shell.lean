import OsLab.Sfs.FileSystem

/-!
# OsLab.Sfs.Shell — the commands

`file_system.cpp`: the two copying loops and the commands around them. Files of the host are
exact byte streams; a command whose file cannot be opened is given none. `BUFSIZ` is 512, so
the buffer of both loops is one block.

* **`copyinLoop`** ends because every round reads from the stream;
* **`copyoutLoop`** ends because a read that delivers something lies below the fifth block
  (`of_read_pos`).
-/

namespace OsLab.Sfs

open Fallible

/-! ## Messages

A message is kept as what it tells, so that a proof can speak of it. Its text is that of the format
string. -/

/-- What the commands print, `stderr` included. -/
inductive Message where
  | diskNotMounted
  | unableToOpen
  | bytesCopied (offset : Nat)
  | createdInode (inumber : Nat)
  | createFailed
  | removedInode (inumber : Nat)
  | removeFailed
  | inodeHasSize (inumber bytes : Nat)
  | statFailed
  | inodeLine (inumber : Nat) (size : UInt32)
  | invalidResult (actual : Nat)
  | shortWrite (actual result : Nat)
  | copyinFailed
  | copyoutFailed
  | catFailed
  | diskFormatted
  | formatFailed
  | unmountFirst
  | diskMounted
  | mountFailed
  | superBlock (blocks inodeBlocks inodes : UInt32)
  deriving DecidableEq, Repr

/-- `%ld` of a `size_t`: its 32 bits as a signed number. -/
def signed (n : Nat) : Int := asInt (UInt32.ofNat n)

/-- The text printed. `missing` is what `fopen` could not open, and why: the path and
`strerror(errno)`. -/
def Message.text (missing : String) : Message → String
  | .diskNotMounted => "Disk not mounted!\n"
  | .unableToOpen => s!"Unable to open {missing}\n"
  | .bytesCopied offset => s!"{offset} bytes copied\n"
  | .createdInode inumber => s!"created inode {signed inumber}.\n"
  | .createFailed => "create failed!\n"
  | .removedInode inumber => s!"removed inode {signed inumber}.\n"
  | .removeFailed => "remove failed!\n"
  | .inodeHasSize inumber bytes => s!"inode {signed inumber} has size {signed bytes} bytes.\n"
  | .statFailed => "stat failed!\n"
  | .inodeLine inumber size => s!"iNode {inumber} Contains a file of size {size}\n"
  | .invalidResult actual => s!"fs.write returned invalid result {signed actual}\n"
  | .shortWrite actual result =>
    s!"fs.write only wrote {signed actual} bytes, not {signed result} bytes\n"
  | .copyinFailed => "copyin failed!\n"
  | .copyoutFailed => "copyout failed!\n"
  | .catFailed => "cat failed!\n"
  | .diskFormatted => "disk formatted.\n"
  | .formatFailed => "format failed!\n"
  | .unmountFirst => "Unount the disk first.\n"
  | .diskMounted => "disk mounted.\n"
  | .mountFailed => "mount failed!\n"
  | .superBlock blocks inodeBlocks inodes =>
    "SuperBlock:\n" ++ s!"    {blocks} blocks\n" ++ s!"    {inodeBlocks} inode blocks\n"
      ++ s!"    {inodes} inodes\n"

/-! ## The copying loops

Both go over a file of the host in pieces of one block. They call `write` and `read` with an offset
that grows by what was asked for, and never look at the size of the inode. -/

/-- `unsigned char buffer[8 * BUFSIZ] = { 0 }`. -/
def zeroBuffer : Block := fun _ => 0

/-- The buffer after `fread(buffer, 1, sizeof(buffer), stream)`: past the end of a short read
it keeps what it held. -/
def fillBuffer (buffer : Block) (stream : List UInt8) : Block := fun i =>
  if h : (i : Nat) < stream.length then stream[(i : Nat)] else buffer i

/-- The loop of `copyin`, with what is left of the stream: the final offset, what the loop
printed and the state. -/
def copyinLoop (inumber : Nat) (s : State) (buffer : Block) (offset : Nat) (stream : List UInt8) :
    Except Fault (Nat × List Message × State) :=
  let result := min blockSize stream.length
  if _hend : result = 0 then .ok (offset, [], s)
  else do
    let buffer := fillBuffer buffer stream
    let (actual, s) ← s.write inumber buffer result offset
    if actual = 0 then .ok (offset, [.invalidResult actual], s)
    else if actual < result then .ok (offset + result, [.shortWrite actual result], s)
    else copyinLoop inumber s buffer (offset + result) (stream.drop blockSize)
termination_by stream.length
decreasing_by
  have hpos : 0 < stream.length := by omega
  rw [List.length_drop]
  exact Nat.sub_lt hpos (by decide)

/-- `copyin(fs, path, inumber)`; `source` is the contents of the file at `path`, `none` if it
cannot be opened. -/
def copyin (s : State) (source : Option (List UInt8)) (inumber : Nat) :
    Except Fault (Bool × List Message × State) :=
  match source with
  | none => .ok (false, [.unableToOpen], s)
  | some stream =>
    if s.isDiskMounted then do
      let (offset, printed, s) ← copyinLoop inumber s zeroBuffer 0 stream
      let s ← s.updateSize inumber offset
      .ok (true, printed ++ [.bytesCopied offset], s)
    else .ok (false, [.diskNotMounted], s)

/-- A read that delivers something is of one of the five blocks, and delivers a block. -/
theorem of_read_pos {s s' : State} {inumber length offset total : Nat} {data data' : Block}
    (h : s.read inumber data length offset = .ok (total, data', s')) (hpos : total ≠ 0) :
    offset / blockSize < pointersPerInode ∧ total = blockSize := by
  unfold State.read at h
  obtain ⟨pInode, -, h⟩ := of_bind_eq_ok h
  dsimp only at h
  split at h
  · next hguard =>
    obtain ⟨⟨totalRead, data''⟩, hread, h⟩ := of_bind_eq_ok h
    obtain ⟨s'', -, h⟩ := of_bind_eq_ok h
    obtain ⟨_, -, hread⟩ := of_bind_eq_ok hread
    cases hread
    cases h
    exact ⟨hguard.2, rfl⟩
  · cases h
    exact absurd rfl hpos

/-- The loop of `copyout`: the bytes written to the stream, the final offset and the state. -/
def copyoutLoop (inumber : Nat) (s : State) (buffer : Block) (offset : Nat) :
    Except Fault (List UInt8 × Nat × State) :=
  match _hread : s.read inumber buffer blockSize offset with
  | .error e => .error e
  | .ok (result, buffer, s') =>
    if _hpos : result = 0 then .ok ([], offset, s')
    else do
      let (written, offset, s) ← copyoutLoop inumber s' buffer (offset + result)
      .ok ((List.ofFn buffer).take result ++ written, offset, s)
termination_by pointersPerInode * blockSize - offset
decreasing_by
  obtain ⟨hindex, hresult⟩ := of_read_pos _hread _hpos
  unfold blockSize pointersPerInode at *
  omega

/-- `copyout(fs, inumber, path)`; `opens` tells whether the file at `path` can be opened. The
second result is what the file holds afterwards. -/
def copyout (s : State) (inumber : Nat) (opens : Bool) :
    Except Fault (Bool × List UInt8 × List Message × State) :=
  if opens then
    if s.isDiskMounted then do
      let (written, offset, s) ← copyoutLoop inumber s zeroBuffer 0
      .ok (true, written, [.bytesCopied offset], s)
    else .ok (false, [], [.diskNotMounted], s)
  else .ok (false, [], [.unableToOpen], s)

/-! ## Commands

The commands of the prompt, one definition each. Arguments are taken as numbers here, and how they
are typed is told in `Prompt` and `Console`. -/

/-- `do_create`: the number it returns, what it prints and the state. -/
def doCreate (s : State) : Except Fault (Nat × List Message × State) :=
  if s.isDiskMounted then do
    let (inumber, s) ← s.create
    if s.isValidInode inumber then .ok (inumber, [.createdInode inumber], s)
    else .ok (inumber, [.createFailed], s)
  else .ok (invalideReturn, [.diskNotMounted], s)

/-- `do_copyin`: the inode of the new file, what is printed and the state. -/
def doCopyin (s : State) (source : Option (List UInt8)) :
    Except Fault (Nat × List Message × State) := do
  let (inode, printed, s) ← doCreate s
  if s.isValidInode inode then
    let (success, more, s) ← copyin s source inode
    if success then .ok (inode, printed ++ more, s)
    else .ok (inode, printed ++ more ++ [.copyinFailed], s)
  else .ok (inode, printed ++ [.copyinFailed], s)

/-- `do_copyout`, and `do_cat` with its own message. -/
def doCopyout (s : State) (inumber : Nat) (opens : Bool) (failed : Message) :
    Except Fault (List UInt8 × List Message × State) := do
  let (success, written, printed, s) ← copyout s inumber opens
  .ok (written, if success then printed else printed ++ [failed], s)

def doRemove (s : State) (inumber : Nat) : Except Fault (List Message × State) :=
  if s.isDiskMounted then do
    let (removed, s) ← s.remove inumber
    .ok ([if removed then .removedInode inumber else .removeFailed], s)
  else .ok ([.diskNotMounted], s)

def doStat (s : State) (inumber : Nat) : Except Fault (List Message × State) :=
  if s.isDiskMounted then do
    let bytes ← s.stat inumber
    .ok ([if bytes > 0 then .inodeHasSize inumber bytes else .statFailed], s)
  else .ok ([.diskNotMounted], s)

def doLs (s : State) : Except Fault (List Message × State) :=
  if s.isDiskMounted then do
    let lines ← s.ls
    .ok (lines.map fun (inumber, size) => .inodeLine inumber size, s)
  else .ok ([.diskNotMounted], s)

def doMount (s : State) : Except Fault (List Message × State) := do
  let (mounted, s) ← s.mount
  .ok ([if mounted then .diskMounted else .mountFailed], s)

def doFormat (s : State) : Except Fault (List Message × State) := do
  let (formatted, s) ← s.format
  .ok (if formatted then [.diskFormatted] else [.unmountFirst, .formatFailed], s)

def doDebug (s : State) : Except Fault (List Message × State) := do
  let (blocks, inodeBlocks, inodes) ← s.debug
  .ok ([.superBlock blocks inodeBlocks inodes], s)

/-- The commands of the prompt, with what the host gives them. -/
inductive Command where
  | debug
  | format
  | mount
  | cat (inumber : Nat) (opens : Bool)
  | copyout (inumber : Nat) (opens : Bool)
  | remove (inumber : Nat)
  | stat (inumber : Nat)
  | copyin (source : Option (List UInt8))
  | ls

/-- One line typed at the prompt. -/
def exec (s : State) : Command → Except Fault (List Message × State)
  | .debug => doDebug s
  | .format => doFormat s
  | .mount => doMount s
  | .cat inumber opens => do
    let (_, printed, s) ← doCopyout s inumber opens .catFailed
    .ok (printed, s)
  | .copyout inumber opens => do
    let (_, printed, s) ← doCopyout s inumber opens .copyoutFailed
    .ok (printed, s)
  | .remove inumber => doRemove s inumber
  | .stat inumber => doStat s inumber
  | .copyin source => do
    let (_, printed, s) ← doCopyin s source
    .ok (printed, s)
  | .ls => doLs s

/-- A session up to its last line; a line that does not return ends the program. -/
def execAll (s : State) : List Command → Except Fault State
  | [] => .ok s
  | command :: rest => do
    let (_, s) ← exec s command
    execAll s rest

/-- The program as it starts, on an opened disk. -/
def State.start (blocks : UInt32) (image : Bytes.Image) : State :=
  { disk := { blocks, mounts := 0, image }, fs := .init }

end OsLab.Sfs
