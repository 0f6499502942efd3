import AosKernel.Lib.ByteStore
import AosKernel.Lib.LittleEndian

/-!
# ext4: the mounted image and its allocators

The globals of `ext4.c` after `ext4_init`: an image in memory and the numbers read from its
superblock. The superblock, the group descriptors and the bitmaps are read from and written to the
image itself, field by field at their offsets. Pointers into the image are offsets; a helper that
returns `NULL` is an `Option`. Arithmetic of type `uint32_t` is taken modulo `2 ^ 32`.
-/

namespace AosKernel.Ext4

open Lib Lib.ByteStore

def superOffset : Nat := 1024
def superMagic : Nat := 0xEF53
/-- `sizeof(struct ext4_super_block)`. -/
def superSize : Nat := 256
/-- `sizeof(struct ext4_group_desc)`. -/
def groupDescSize : Nat := 32

structure Volume where
  image : Store UInt8
  imageSize : Nat
  blockSize : Nat
  blocksPerGroup : Nat
  inodesPerGroup : Nat
  inodeSize : Nat
  descSize : Nat
  groupDescTableBlock : Nat
  ready : Bool

/-- The little-endian number in `w` bytes at `off`. -/
def field (m : Store UInt8) (off w : Nat) : Nat := leNat (slice m off w)

/-- `ext4_init` on a module of `size` bytes; `none` where it fails and clears the globals. -/
def ext4Init (image : Store UInt8) (size : Nat) : Option Volume :=
  if size < superOffset + superSize then none
  else
    let magic := field image (superOffset + 56) 2
    let logBlockSize := field image (superOffset + 24) 4
    if magic ≠ superMagic ∨ logBlockSize > 2 then none
    else
      let blockSize := 1024 * 2 ^ logBlockSize
      let blocksPerGroup := field image (superOffset + 32) 4
      let inodesPerGroup := field image (superOffset + 40) 4
      let inodeSize := field image (superOffset + 88) 2
      let descSize := field image (superOffset + 254) 2
      if blocksPerGroup = 0 ∨ inodesPerGroup = 0 ∨ blockSize > 4096 then none
      else
        some {
          image := image
          imageSize := size
          blockSize := blockSize
          blocksPerGroup := blocksPerGroup
          inodesPerGroup := inodesPerGroup
          inodeSize := if inodeSize ≠ 0 then inodeSize else 128
          descSize := if descSize ≥ groupDescSize then descSize else groupDescSize
          groupDescTableBlock := if blockSize = 1024 then 2 else 1
          ready := true }

namespace Volume

/-! ## The superblock and the group descriptors -/

variable (v : Volume)

def inodesCount : Nat := field v.image (superOffset + 0) 4
def blocksCount : Nat := field v.image (superOffset + 4) 4
def firstDataBlock : Nat := field v.image (superOffset + 20) 4

def rangeOk (offset size : Nat) : Bool :=
  offset ≤ v.imageSize && size ≤ v.imageSize - offset

def superBlockMut : Option Nat :=
  if v.rangeOk superOffset superSize then some superOffset else none

def groupDescOffset (group : Nat) : Nat :=
  v.groupDescTableBlock * v.blockSize + group * v.descSize

def groupDescMut (group : Nat) : Option Nat :=
  if v.rangeOk (v.groupDescOffset group) groupDescSize then some (v.groupDescOffset group) else none

/-- `block_ptr` and `block_mut_ptr`. -/
def blockPtr (block : Nat) : Option Nat :=
  if v.rangeOk (block * v.blockSize) v.blockSize then some (block * v.blockSize) else none

def blockBitmapLo (gd : Nat) : Nat := field v.image gd 4
def inodeBitmapLo (gd : Nat) : Nat := field v.image (gd + 4) 4
def inodeTableLo (gd : Nat) : Nat := field v.image (gd + 8) 4
def gdFreeBlocks (gd : Nat) : Nat := field v.image (gd + 12) 2

def store (off : Nat) (bytes : List UInt8) : Volume :=
  { v with image := patch v.image off bytes }

/-! ## Bitmaps and counters -/

def bitmapTest (bitmap index : Nat) : Bool :=
  (v.image (bitmap + index / 8)).toNat.testBit (index % 8)

def bitmapSet (bitmap index : Nat) : Volume :=
  v.store (bitmap + index / 8)
    [UInt8.ofNat ((v.image (bitmap + index / 8)).toNat ||| 1 <<< (index % 8))]

/-- `if (flag && count > 0) count--` for the counter of `w` bytes at `off`. -/
def decrementField (flag : Bool) (off w : Nat) : Volume :=
  if flag ∧ field v.image off w > 0 then v.store off (leBytes w (field v.image off w - 1)) else v

def decrementFreeCounts (group : Nat) (inodeCount blockCount : Bool) : Volume :=
  let v :=
    match v.superBlockMut with
    | some sb => (v.decrementField inodeCount (sb + 16) 4).decrementField blockCount (sb + 12) 4
    | none => v
  match v.groupDescMut group with
  | some gd => (v.decrementField inodeCount (gd + 14) 2).decrementField blockCount (gd + 12) 2
  | none => v

/-- The number of groups for `count` items, `perGroup` in each. -/
def groupsFor (count perGroup : Nat) : Nat := ((count + perGroup - 1) % 2 ^ 32) / perGroup

/-- `max_in_group`: the last group may be shorter. -/
def maxInGroup (count perGroup group : Nat) : Nat :=
  if group = groupsFor count perGroup - 1 ∧ count > group * perGroup % 2 ^ 32 then
    count - group * perGroup % 2 ^ 32
  else perGroup

/-! ## Blocks -/

/-- The block that `alloc_block` takes index `i` of a group for. -/
def blockAt (group i : Nat) : Nat := (group * v.blocksPerGroup + i) % 2 ^ 32

/-- The inner loop of `alloc_block`: `n` more indices from `i` on. -/
def scanBlocks (v : Volume) (group bitmap : Nat) : Nat → Nat → Option Nat
  | 0, _ => none
  | n + 1, i =>
      if v.blockAt group i < v.firstDataBlock then v.scanBlocks group bitmap n (i + 1)
      else if v.blockAt group i ≥ v.blocksCount then none
      else if v.bitmapTest bitmap i then v.scanBlocks group bitmap n (i + 1)
      else some i

/-- The body of `alloc_block` once a clear bit is found. -/
def takeBlock (group bitmap i : Nat) : Option Nat × Volume :=
  let v' := (v.bitmapSet bitmap i).decrementFreeCounts group false true
  match v'.blockPtr (v.blockAt group i) with
  | none => (none, v')
  | some data => (some (v.blockAt group i), v'.store data (zeroBytes v'.blockSize))

/-- The outer loop of `alloc_block`: `n` more groups from `group` on. -/
def allocBlockFrom (v : Volume) : Nat → Nat → Option Nat × Volume
  | 0, _ => (none, v)
  | n + 1, group =>
      match v.groupDescMut group with
      | none => v.allocBlockFrom n (group + 1)
      | some gd =>
          if v.gdFreeBlocks gd = 0 then v.allocBlockFrom n (group + 1)
          else
            match v.blockPtr (v.blockBitmapLo gd) with
            | none => (none, v)
            | some bitmap =>
                match v.scanBlocks group bitmap
                    (maxInGroup v.blocksCount v.blocksPerGroup group) 0 with
                | some i => v.takeBlock group bitmap i
                | none => v.allocBlockFrom n (group + 1)

def allocBlock : Option Nat × Volume :=
  if v.ready = false ∨ v.blocksPerGroup = 0 ∨ v.superBlockMut = none then (none, v)
  else v.allocBlockFrom (groupsFor v.blocksCount v.blocksPerGroup) 0

/-! ## What the image says about its blocks

Independent of the allocators: which bit stands for a block (`Marked`), and when an image is well
formed. Which blocks are in use depends on every inode, on its mode, its flags and its pointers or
extents; the allocator reads none of that, so the set `used` of these blocks is a parameter. -/

def groupCount : Nat :=
  (v.blocksCount - v.firstDataBlock + v.blocksPerGroup - 1) / v.blocksPerGroup

def groupOf (block : Nat) : Nat := (block - v.firstDataBlock) / v.blocksPerGroup

def indexOf (block : Nat) : Nat := (block - v.firstDataBlock) % v.blocksPerGroup

/-- The offset of the block bitmap of a group. -/
def bitmapOffset (group : Nat) : Nat :=
  v.blockBitmapLo (v.groupDescOffset group) * v.blockSize

/-- The bit that stands for a block is set. -/
def Marked (block : Nat) : Prop :=
  v.bitmapTest (v.bitmapOffset (v.groupOf block)) (v.indexOf block) = true
  deriving Decidable

/-- The flag `BLOCK_UNINIT` of a group: its block bitmap has never been written. -/
def BlockUninit (group : Nat) : Prop :=
  (field v.image (v.groupDescOffset group + 18) 2).testBit 1 = true
  deriving Decidable

/-- The blocks of the group descriptor table. -/
def descBlocks : Nat := (v.groupCount * v.descSize + v.blockSize - 1) / v.blockSize

/-- The blocks of the inode table of a group. -/
def tableBlocks : Nat :=
  (v.inodesPerGroup * v.inodeSize + v.blockSize - 1) / v.blockSize

/-- A mounted, well-formed image with the blocks in use: those of the superblock and the
descriptors, the bitmaps and the inode tables, and any others, such as the blocks of inodes of
whatever kind and the copies of the superblock. Blocks in use are marked where the bitmap has been
written. -/
structure WellFormed (v : Volume) (used : Nat → Prop) : Prop where
  mounted : ext4Init v.image v.imageSize = some v
  -- `ext4_init` takes the image as two 32-bit addresses
  size_lt : v.imageSize < 2 ^ 32
  first : v.firstDataBlock = if v.blockSize = 1024 then 1 else 0
  blocks_pos : v.firstDataBlock < v.blocksCount
  blocks_in : v.blocksCount * v.blockSize ≤ v.imageSize
  group_le : v.blocksPerGroup ≤ 8 * v.blockSize
  group_dvd : 8 ∣ v.blocksPerGroup
  used_in : ∀ b, used b → v.firstDataBlock ≤ b ∧ b < v.blocksCount
  used_marked : ∀ b, used b → ¬v.BlockUninit (v.groupOf b) → v.Marked b
  super_used : ∀ k ≤ v.descBlocks, used (v.firstDataBlock + k)
  bitmap_used : ∀ g < v.groupCount, used (v.blockBitmapLo (v.groupDescOffset g)) ∧
    used (v.inodeBitmapLo (v.groupDescOffset g))
  table_used : ∀ g < v.groupCount, ∀ k < v.tableBlocks,
    used (v.inodeTableLo (v.groupDescOffset g) + k)
  bitmaps_inj : ∀ g < v.groupCount, ∀ h < v.groupCount,
    v.blockBitmapLo (v.groupDescOffset g) = v.blockBitmapLo (v.groupDescOffset h) → g = h
  bitmaps_apart : ∀ g < v.groupCount, ∀ k ≤ v.descBlocks,
    v.blockBitmapLo (v.groupDescOffset g) ≠ v.firstDataBlock + k

end Volume

end AosKernel.Ext4
