import OsLab.Lib.Fallible
import OsLab.Sfs.Layout

/-!
# OsLab.Sfs.FileSystem — the file system

`FileSystem` as it computes: the in-memory inode table with its dirty flags, the free-block
bitmap, and the member functions over them and the disk.

A member function takes the state and gives, if it returns, its result and the state it
leaves. `size_t` is 32 bits; inode numbers, offsets and lengths are `Nat`, disk pointers and
sizes the 32-bit words they are. An `Inode *` is the number of the inode it points to: reading
through it is `getINode`, assigning through it `setINode`.
-/

namespace OsLab.Sfs

open Fallible

/-! ## State

The members of the file system: the superblock, the inode table as it has been read in, its flags,
the bitmap, and the disk. -/

/-- `FileSystem`. `diskSet` says that `m_disk` is not null; null arrays are empty lists;
`freeBlock` is `free_block.Bitmap`, one entry for each byte of a block. -/
structure FileSystem where
  diskSet : Bool
  firstDataBlock : Nat
  superBlock : SuperBlock
  inodeBlocks : List InodeBlock
  inodeBlocksDirty : List Bool
  freeBlock : Fin 4096 → Bool

/-- The file system and the one disk it is used with. -/
structure State where
  disk : Disk
  fs : FileSystem

/-- `FileSystem::FileSystem`. -/
def FileSystem.init : FileSystem :=
  { diskSet := false
    firstDataBlock := 2
    superBlock := { magicNumber := 0, blocks := 0, inodeBlocks := 0, inodes := 0 }
    inodeBlocks := []
    inodeBlocksDirty := []
    freeBlock := fun _ => true }

namespace State

def isDiskMounted (s : State) : Bool := s.fs.diskSet && s.disk.mounted

def isValidInode (s : State) (inode : Nat) : Bool :=
  s.isDiskMounted && inode < s.fs.superBlock.inodeBlocks.toNat

/-! ## The bitmap

Lookups and marks go by the number of a data block. What is no data block is left out, but an index
that is too large for the bitmap is not. -/

/-- The guard of `setBlockFreeStatus` and `getBlockFreeStatus`, and the bitmap index behind
it. -/
def bitmapIndex (s : State) (blockNumber : UInt32) : Except Fault (Option (Fin 4096)) :=
  if blockNumber.toNat ≥ s.fs.firstDataBlock then
    if s.fs.diskSet then
      if blockNumber < s.disk.size then
        if h : blockNumber.toNat < 4096 then .ok (some ⟨blockNumber.toNat, h⟩)
        else .error .outOfBounds
      else .ok none
    else .error .nullDisk
  else .ok none

/-- `setBlockFreeStatus(block_number, free)`. -/
def setBlockFreeStatus (s : State) (blockNumber : UInt32) (free : Bool) : Except Fault State := do
  match ← s.bitmapIndex blockNumber with
  | some i =>
    .ok { s with fs := { s.fs with
      freeBlock := fun j => if j = i then free else s.fs.freeBlock j } }
  | none => .ok s

/-- `getBlockFreeStatus(block_number)`. -/
def getBlockFreeStatus (s : State) (blockNumber : UInt32) : Except Fault Bool := do
  match ← s.bitmapIndex blockNumber with
  | some i => .ok (s.fs.freeBlock i)
  | none => .ok false

/-- The loop of `getNextFreeBlock`: the number of rounds left and the block number. -/
def nextFreeLoop (s : State) : Nat → Nat → Except Fault Nat
  | 0, blockNumber => .ok blockNumber
  | rounds + 1, blockNumber => do
    if ← s.getBlockFreeStatus (UInt32.ofNat blockNumber) then .ok blockNumber
    else s.nextFreeLoop rounds (blockNumber + 1)

/-- `getNextFreeBlock()`: the disk's length when no data block is free. -/
def getNextFreeBlock (s : State) : Except Fault UInt32 :=
  if s.fs.diskSet then do
    let length := asInt s.disk.size
    let blockNumber ← s.nextFreeLoop (length - s.fs.firstDataBlock).toNat s.fs.firstDataBlock
    .ok (UInt32.ofNat blockNumber)
  else
    .error .nullDisk

/-! ## Inodes

The table is searched from its first inode. A pointer to an inode is its number here. -/

/-- `*getINode(block_number, inode_offset)`. -/
def getINodeAt (s : State) (blockNumber : Nat) (inodeOffset : Fin 128) : Except Fault Inode :=
  match s.fs.inodeBlocks[blockNumber]? with
  | some block => .ok (block inodeOffset)
  | none => .error .outOfBounds

/-- `*getINode(inode_number)`. -/
def getINode (s : State) (inodeNumber : Nat) : Except Fault Inode :=
  s.getINodeAt (inodeNumber / inodesPerBlock)
    ⟨inodeNumber % inodesPerBlock, Nat.mod_lt _ inodesPerBlock_pos⟩

/-- `*getINode(inode_number) = inode`. -/
def setINode (s : State) (inodeNumber : Nat) (inode : Inode) : State :=
  { s with fs := { s.fs with
      inodeBlocks := s.fs.inodeBlocks.modify (inodeNumber / inodesPerBlock) fun block j =>
        if (j : Nat) = inodeNumber % inodesPerBlock then inode else block j } }

def setDirty (s : State) (blockNumber : Nat) : State :=
  { s with fs := { s.fs with inodeBlocksDirty := s.fs.inodeBlocksDirty.set blockNumber true } }

/-- The inner loop of `getNextFreeINode`, over the slots still to look at. -/
def nextFreeSlot (s : State) (i : Nat) : List (Fin 128) → Except Fault (Option (Nat × Inode))
  | [] => .ok none
  | j :: rest => do
    let pInode ← s.getINodeAt i j
    if pInode.valid = 0 then .ok (some (i * inodesPerBlock + j, pInode))
    else s.nextFreeSlot i rest

/-- The outer loop of `getNextFreeINode`, over the inode blocks still to look at. -/
def nextFreeInBlocks (s : State) : List Nat → Except Fault (Option (Nat × Inode))
  | [] => .ok none
  | i :: rest => do
    match ← s.nextFreeSlot i (List.finRange 128) with
    | some found => .ok (some found)
    | none => s.nextFreeInBlocks rest

/-- `getNextFreeINode(current_inode)`: `*current_inode` and the inode, `none` for `NULL`. -/
def getNextFreeINode (s : State) : Except Fault (Option (Nat × Inode)) :=
  s.nextFreeInBlocks (List.range (asInt s.fs.superBlock.inodeBlocks).toNat)

/-- `create()`. -/
def create (s : State) : Except Fault (Nat × State) := do
  match ← s.getNextFreeINode with
  | some (inumber, pInode) =>
    let s := s.setINode inumber { pInode with valid := 1 }
    .ok (inumber, s.setDirty (inumber / inodesPerBlock))
  | none => .ok (invalideReturn, s)

/-- What a round of `remove` leaves in the inode. -/
def clearPointer (pInode : Inode) (i : Fin 5) : Inode :=
  { pInode with
    size := 0
    direct := fun k => if k = i then 0 else pInode.direct k
    valid := 0 }

/-- One round of the loop of `remove`. -/
def removePointer (inumber : Nat) (s : State) (i : Fin 5) : Except Fault State := do
  let pInode ← s.getINode inumber
  let s ← s.setBlockFreeStatus (pInode.direct i) true
  .ok (s.setINode inumber (clearPointer pInode i))

/-- `remove(inumber)`. No dirty flag is set. -/
def remove (s : State) (inumber : Nat) : Except Fault (Bool × State) := do
  let s ← (List.finRange 5).foldlM (removePointer inumber) s
  .ok (true, s)

/-- `stat(inumber)`. -/
def stat (s : State) (inumber : Nat) : Except Fault Nat := do
  let pInode ← s.getINode inumber
  .ok pInode.size.toNat

/-- `ls()`: the numbers and sizes of the lines it prints, for inodes `0` to `19`. -/
def ls (s : State) : Except Fault (List (Nat × UInt32)) :=
  (List.range 20).mapM fun inodeNumber => do
    let pInode ← s.getINode inodeNumber
    .ok (inodeNumber, pInode.size)

/-! ## Data

`read` and `write` go by the pointer at `offset / blockSize`, one block at a time. -/

/-- `pInode->Direct[direct_pointer_index]`. The source loads it before it tests the index; past the
last pointer the guard of `read` discards what is there, and `0` stands for it here. That such a
load is made at all is followed up where it matters, in `readWithin` and in `copyoutReads`. -/
def directAt (pInode : Inode) (directPointerIndex : Nat) : UInt32 :=
  if h : directPointerIndex < 5 then pInode.direct ⟨directPointerIndex, h⟩ else 0

/-- `read(inumber, data, length, offset)`: the bytes read, the caller's buffer afterwards and
the state. The length is not looked at. -/
def read (s : State) (inumber : Nat) (data : Block) (_length offset : Nat) :
    Except Fault (Nat × Block × State) := do
  let directPointerIndex := offset / blockSize
  let pInode ← s.getINode inumber
  let dataBlockNumber := directAt pInode directPointerIndex
  if asInt dataBlockNumber > 0 ∧ directPointerIndex < pointersPerInode then
    let (totalRead, data) ← s.disk.read (asInt dataBlockNumber)
    let s ← s.setBlockFreeStatus dataBlockNumber false
    .ok (totalRead, data, s)
  else
    .ok (0, data, s)

def setPointer (pInode : Inode) (directPointerIndex : Nat) (dataBlockNumber : UInt32) : Inode :=
  { pInode with
    direct := fun k => if (k : Nat) = directPointerIndex then dataBlockNumber else pInode.direct k }

/-- `write(inumber, data, length, offset)`: the bytes written and the state. A block is
allocated on every call, whatever the pointer already holds. -/
def write (s : State) (inumber : Nat) (data : Block) (_length offset : Nat) :
    Except Fault (Nat × State) := do
  let directPointerIndex := offset / blockSize
  let dataBlockNumber ← s.getNextFreeBlock
  if asInt dataBlockNumber > 0 ∧ directPointerIndex < pointersPerInode then
    let pInode ← s.getINode inumber
    let s := s.setINode inumber (setPointer pInode directPointerIndex dataBlockNumber)
    let (totalWrite, disk) ← s.disk.write (asInt dataBlockNumber) data
    let s := { s with disk }
    let s ← s.setBlockFreeStatus dataBlockNumber false
    .ok (totalWrite, s)
  else
    .ok (0, s)

/-- `updateSize(node_number, size)`. -/
def updateSize (s : State) (nodeNumber size : Nat) : Except Fault State := do
  let pInode ← s.getINode nodeNumber
  .ok (s.setINode nodeNumber { pInode with size := UInt32.ofNat size })

/-! ## Sessions

What `main` does once with a disk: `mount` it, or `format` it, and leave it to the destructors. -/

/-- Mark the blocks of an inode used, as `mount` does for a valid one. The test in front of
the marking ends in a semicolon and guards nothing. -/
def markInode (s : State) (pInode : Inode) : Except Fault State :=
  (List.finRange 5).foldlM (fun s k => s.setBlockFreeStatus (pInode.direct k) false) s

/-- One round of the loop of `mount`. The table grows by the block read in. -/
def mountBlock (s : State) (i : Nat) : Except Fault State := do
  let (_, data) ← s.disk.read ((i + 1 : Nat) : Int)
  let inodes := decodeInodes data
  let s := { s with fs := { s.fs with inodeBlocks := s.fs.inodeBlocks ++ [inodes] } }
  (List.finRange 128).foldlM
    (fun s j => if (inodes j).valid > 0 then s.markInode (inodes j) else .ok s) s

/-- `mount(disk)`. The bitmap is not reset. -/
def mount (s : State) : Except Fault (Bool × State) := do
  let (_, data) ← s.disk.read 0
  let superBlock := decodeSuper data
  let disk := s.disk.mount
  let inodeBlocks := superBlock.inodeBlocks.toNat
  if inodeBlocks * blockSize ≥ 4294967296 then .error .badAlloc
  else
    let fs :=
      { diskSet := true
        firstDataBlock := inodeBlocks + 1
        superBlock
        inodeBlocks := []
        inodeBlocksDirty := List.replicate inodeBlocks false
        freeBlock := s.fs.freeBlock : FileSystem }
    let s ← (List.range inodeBlocks).foldlM mountBlock { disk, fs : State }
    .ok (true, s)

/-- `format(disk)`. The superblock it fills in is a local variable; blocks `1` to `199` are
cleared. -/
def format (s : State) : Except Fault (Bool × State) :=
  if s.disk.mounted then .ok (false, s)
  else do
    let disk ← (List.range' 1 199).foldlM
      (fun disk i => do
        let (_, disk) ← Disk.write disk (i : Nat) fun _ => 0
        .ok disk) s.disk
    .ok (true, { s with disk })

/-- `debug(disk)`: the numbers it prints. -/
def debug (s : State) : Except Fault (UInt32 × UInt32 × UInt32) := do
  let (_, data) ← s.disk.read 0
  let superBlock := decodeSuper data
  .ok (superBlock.blocks, superBlock.inodeBlocks, superBlock.inodes)

/-- One round of the loop of `~FileSystem`: inode block `i` with its dirty flag. -/
def saveBlock (disk : Disk) : (InodeBlock × Bool) × Nat → Except Fault Disk
  | ((inodes, dirty), i) =>
    if dirty then do
      let (_, disk) ← disk.write ((i + 1 : Nat) : Int) (encodeInodes inodes)
      .ok disk
    else .ok disk

/-- `~FileSystem`: the disk it leaves. -/
def destroy (s : State) : Except Fault Disk :=
  (s.fs.inodeBlocks.zip s.fs.inodeBlocksDirty).zipIdx.foldlM saveBlock s.disk

end State

end OsLab.Sfs
