import OsLab.Sfs.Disk

/-!
# OsLab.Sfs.Layout — superblock and inode blocks

The `union Block` as it is used: block `0` through its `SuperBlock`, blocks `1 … InodeBlocks`
through their `Inodes`. All fields are little-endian 32-bit words, an inode is eight of them,
and 128 inodes fill a block exactly. `decodeInodes_encodeInodes` is the round trip.
-/

namespace OsLab.Sfs

open Bytes

/-- `INODES_PER_BLOCK`. -/
abbrev inodesPerBlock : Nat := 128

theorem inodesPerBlock_pos : 0 < inodesPerBlock := by decide

/-- `POINTERS_PER_INODE`. -/
abbrev pointersPerInode : Nat := 5

/-- `INVALIDE_RETURN`. -/
abbrev invalideReturn : Nat := 2147483648

structure SuperBlock where
  magicNumber : UInt32
  blocks : UInt32
  inodeBlocks : UInt32
  inodes : UInt32
  deriving DecidableEq

structure Inode where
  valid : UInt32
  size : UInt32
  direct : Fin 5 → UInt32
  indirect : UInt32

/-- `Block::Inodes`, `INODES_PER_BLOCK` of them. -/
abbrev InodeBlock := Fin 128 → Inode

/-- The words of a block, in order. -/
abbrev Words := Fin 1024 → UInt32

def wordsOfBlock (block : Block) : Words := wordsOf (n := 1024) block

def blockOfWords (words : Words) : Block := bytesOf words

/-- A block of words reads as these words. -/
theorem wordsOfBlock_blockOfWords (words : Words) : wordsOfBlock (blockOfWords words) = words :=
  wordsOf_bytesOf words

/-- `Block::Super`. -/
def decodeSuper (block : Block) : SuperBlock :=
  let words := wordsOfBlock block
  { magicNumber := words 0, blocks := words 1, inodeBlocks := words 2, inodes := words 3 }

/-! ## Inodes

An inode is eight words: `Valid`, `Size`, five pointers and `Indirect`. A block has 128 of them, one
behind the other. -/

/-- The word of an inode at an index. -/
def Inode.word (inode : Inode) (i : Fin 8) : UInt32 :=
  if i = 0 then inode.valid
  else if i = 1 then inode.size
  else if h : (i : Nat) - 2 < 5 then inode.direct ⟨i - 2, h⟩
  else inode.indirect

def inodeOfWords (w : Fin 8 → UInt32) : Inode :=
  { valid := w 0
    size := w 1
    direct := fun k => w ⟨k + 2, by omega⟩
    indirect := w 7 }

theorem inodeOfWords_word (inode : Inode) : inodeOfWords inode.word = inode := by
  have hdirect : (fun k : Fin 5 => inode.word ⟨k + 2, by omega⟩) = inode.direct := by
    funext k
    have h0 : (⟨k + 2, by omega⟩ : Fin 8) ≠ 0 := fun h => by cases congrArg Fin.val h
    have h1 : (⟨k + 2, by omega⟩ : Fin 8) ≠ 1 := fun h => by
      have := congrArg Fin.val h
      simp at this
    rw [Inode.word, if_neg h0, if_neg h1, dif_pos (by simp)]
    rfl
  show Inode.mk _ _ (fun k => _) _ = inode
  rw [hdirect]
  rfl

/-- `Block::Inodes` of the bytes of a block. -/
def decodeInodes (block : Block) : InodeBlock := fun j =>
  inodeOfWords fun i => wordsOfBlock block ⟨8 * j + i, by omega⟩

/-- The bytes of `Block::Inodes`. -/
def encodeInodes (inodes : InodeBlock) : Block :=
  blockOfWords fun k => (inodes ⟨k / 8, by omega⟩).word ⟨k % 8, by omega⟩

theorem decodeInodes_encodeInodes (inodes : InodeBlock) :
    decodeInodes (encodeInodes inodes) = inodes := by
  funext j
  have hwords : (fun i : Fin 8 => wordsOfBlock (encodeInodes inodes) ⟨8 * j + i, by omega⟩)
      = (inodes j).word := by
    funext i
    have hdiv : (⟨(8 * j + i) / 8, by omega⟩ : Fin 128) = j :=
      Fin.ext (by show (8 * (j : Nat) + i) / 8 = j; omega)
    have hmod : (⟨(8 * j + i) % 8, by omega⟩ : Fin 8) = i :=
      Fin.ext (by show (8 * (j : Nat) + i) % 8 = i; omega)
    rw [encodeInodes, wordsOfBlock_blockOfWords]
    show (inodes ⟨(8 * j + i) / 8, _⟩).word ⟨(8 * j + i) % 8, _⟩ = _
    rw [hdiv, hmod]
  rw [decodeInodes, hwords, inodeOfWords_word]

end OsLab.Sfs
