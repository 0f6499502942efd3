import AosKernel.Block.Blkdev
import AosKernel.Vfs.Path

/-!
# AOSFS: state and path routing

The data of `kernel/aosfs.c`: the entry table of an instance, the instances by partition role, the
memory behind the files of instances without a device, and the selection of the instance a path
belongs to (`select_instance_for_path`).

The C code reaches the instance it works on through the global `g_active`, which every entry point
sets first. A `Volume` is the state seen through that pointer: the instance, its slots of
`g_memory_data`, and the block layer. `AosfsState.onVolume` applies a function on volumes to the
selected instance.

A record that `sync_entry` writes reads back as the entry (`decode_encode`).
-/

namespace AosKernel.Aosfs

open Lib Lib.ByteStore Block Vfs Function CString

/-! ## Constants -/

def dynamicInoBase : UInt64 := 0xA05FD000
def maxEntries : Nat := 2000
def compatMaxEntries : Nat := 1024
def legacyMaxEntries : Nat := 64
def pathMax : Nat := 128
def inlineCapacity : Nat := 8192
def memoryFileLimit : Nat := 64
def compatMaxFileSize : Nat := 67108864
def maxFileSize : Nat := 1073741824
def minExtentCapacity : Nat := 65536
def extentAlignment : Nat := 4096
def legacyVersion : Nat := 3
def aosfsVersion : Nat := 4
def tableOffset : Nat := 4096
def dataOffset : Nat := 524288
def legacyDataOffset : Nat := 65536
def defaultFileMode : UInt16 := 0o644
def defaultDirectoryMode : UInt16 := 0o755
def defaultSymlinkMode : UInt16 := 0o777
def modeMask : UInt16 := 0o7777
def uint64Max : Nat := 2 ^ 64 - 1
/-- `sizeof(g_extent_copy_buffer)`. -/
def extentCopyBuffer : Nat := 4096

/-! ## Entries, instances, volumes -/

/-- `AOSFS_ENTRY_*`. -/
inductive EntryKind where
  | regular
  | directory
  | symlink
  deriving DecidableEq, Repr

structure Entry where
  inUse : Bool
  kind : EntryKind
  mode : UInt16
  size : Nat
  uid : UInt32
  gid : UInt32
  inode : UInt64
  dataOffset : Nat
  dataCapacity : Nat
  path : CString
  deriving DecidableEq, Repr

def Entry.zero : Entry := ⟨false, .regular, 0, 0, 0, 0, 0, 0, 0, []⟩

structure Instance where
  mounted : Bool
  role : Nat
  blockBacked : Bool
  blkdevId : Nat
  baseOffset : Nat
  nextInode : UInt64
  nextDataOffset : Nat
  formatVersion : Nat
  entryLimit : Nat
  entries : Nat → Entry

/-- A file of the initrd: the address of its data and the bytes there. -/
structure InitrdFile where
  address : UInt64
  bytes : List UInt8
  deriving DecidableEq, Repr

/-- What the AOSFS code uses of the rest of the kernel: the partitions and the initrd. -/
structure Env where
  partitions : List Partition
  initrd : CString → Option InitrdFile

/-- The state seen through `g_active`. -/
structure Volume where
  inst : Instance
  mem : Nat → Store UInt8
  blk : BlockLayer

/-- The globals of `aosfs.c`, with the block layer below them. -/
structure AosfsState where
  instances : Nat → Instance
  memoryData : Nat → Nat → Store UInt8
  blk : BlockLayer

def AosfsState.volume (s : AosfsState) (a : Nat) : Volume := ⟨s.instances a, s.memoryData a, s.blk⟩

def AosfsState.setVolume (s : AosfsState) (a : Nat) (v : Volume) : AosfsState :=
  ⟨update s.instances a v.inst, update s.memoryData a v.mem, v.blk⟩

/-- Run a function of the selected volume. -/
def AosfsState.onVolume {β : Type} (s : AosfsState) (a : Nat) (f : Volume → β × Volume) :
    β × AosfsState :=
  ((f (s.volume a)).1, s.setVolume a (f (s.volume a)).2)

variable (v : Volume)

def Volume.setEntry (i : Nat) (e : Entry) : Volume :=
  { v with inst := { v.inst with entries := update v.inst.entries i e } }

@[simp] lemma Volume.setEntry_self (i : Nat) (e : Entry) : (v.setEntry i e).inst.entries i = e := by
  simp [Volume.setEntry]

@[simp] lemma Volume.setEntry_setEntry (i : Nat) (e e' : Entry) :
    (v.setEntry i e).setEntry i e' = v.setEntry i e' := by
  simp [Volume.setEntry]

lemma Volume.setEntry_eq_self (i : Nat) : v.setEntry i (v.inst.entries i) = v := by
  simp [Volume.setEntry]

def Volume.setMem (i : Nat) (data : Store UInt8) : Volume :=
  { v with mem := update v.mem i data }

def Volume.setNextInode (n : UInt64) : Volume :=
  { v with inst := { v.inst with nextInode := n } }

def Volume.setNextDataOffset (n : Nat) : Volume :=
  { v with inst := { v.inst with nextDataOffset := n } }

/-- `aosfs_init`, over the block layer as it stands. -/
def aosfsInit (blk : BlockLayer) : AosfsState where
  instances role :=
    { mounted := false
      role := role
      blockBacked := false
      blkdevId := 0xFFFFFFFF
      baseOffset := 0
      nextInode := dynamicInoBase
      nextDataOffset := dataOffset
      formatVersion := aosfsVersion
      entryLimit := maxEntries
      entries := fun _ => Entry.zero }
  memoryData := fun _ _ _ => 0
  blk := blk

/-! ## Path routing -/

def roleFromSelector (selector : CString) : Nat :=
  if selector = ascii ['r', 'o', 'o', 't'] then roleRoot
  else if selector = ascii ['m', 'a', 'i', 'n'] then roleMain
  else if selector = ascii ['e', 't', 'c'] then roleEtc
  else if selector = ascii ['c', 'o', 'm', 'm', 'a', 'n', 'd', 's'] then roleCommands
  else if selector = ascii ['t', 'm', 'p'] then roleTmp
  else if selector = ascii ['t', 'r', 'a', 's', 'h'] then roleTrash
  else roleUnknown

/-- `instance_for_role`, as an index into `g_instances`. -/
def instanceForRole (role : Nat) : Nat := if role > roleTrash then roleRoot else role

/-- The first part of `select_instance_for_path`: the role a path names, by an `@` selector or by
the name of a mounted role, and the rest of the path. -/
def selectRole (s : AosfsState) (path : CString) : Nat × CString :=
  let path := skipSlashes path
  if path.head? = some at_ then
    let selector := firstComponent path.tail
    let role := roleFromSelector selector
    if role ≠ roleUnknown then (role, skipSlashes (path.tail.drop selector.length))
    else (role, path)
  else
    let first := firstComponent path
    let role := roleFromSelector first
    if role ≠ roleUnknown ∧ (s.instances role).mounted then
      (role, skipSlashes (path.drop first.length))
    else (roleRoot, path)

def selectInstanceForPath (s : AosfsState) (path : CString) : Nat × CString :=
  let selected := selectRole s path
  let active := instanceForRole selected.1
  if (s.instances active).mounted = false ∧ selected.1 ≠ roleRoot then
    (instanceForRole roleRoot, selected.2)
  else (active, selected.2)

def rootDirs : List CString :=
  [ascii ['a', 'o', 's'],
   ascii ['b', 'i', 'n'],
   ascii ['b', 'o', 'o', 't'],
   ascii ['b', 'o', 'o', 't', 'l', 'o', 'a', 'd', 'e', 'r'],
   ascii ['B', 'l', 'u', 'e', 't', 'o', 'o', 't', 'h'],
   ascii ['c', 'o', 'm', 'm', 'a', 'n', 'd', 's'],
   ascii ['c', 'o', 'n', 'f', 'i', 'g', 's'],
   ascii ['d', 'r', 'i', 'v', 'e', 'r', 's'],
   ascii ['d', 'e', 'v'],
   ascii ['e', 't', 'c'],
   ascii ['h', 'o', 'm', 'e'],
   ascii ['k', 'e', 'r', 'n', 'e', 'l'],
   ascii ['l', 'i', 'b'],
   ascii ['l', 'i', 'b', '6', '4'],
   ascii ['l', 'o', 'g', 's'],
   ascii ['m', 'a', 'i', 'n'],
   ascii ['m', 'e', 'm', 'o', 'r', 'y'],
   ascii ['m', 'n', 't'],
   ascii ['M', 'U', 'I'],
   ascii ['n', 'e', 't', 'w', 'o', 'r', 'k', 'i', 'n', 'g', '-', 's', 't', 'a', 'c', 'k'],
   ascii ['o', 'p', 't'],
   ascii ['p', 'r', 'o', 'c'],
   ascii ['r', 'u', 'n'],
   ascii ['r', 'u', 'n', 't', 'i', 'm', 'e'],
   ascii ['r', 'o', 'o', 't'],
   ascii ['s', 'b', 'i', 'n'],
   ascii ['s', 'q', 'a', 'u', 's', 'a', 's', 'e', 'd'],
   ascii ['s', 'u', 'd', 'o'],
   ascii ['s', 'y', 's'],
   ascii ['s', 'q', 'u', 'a', 's', 'h', 'e', 'd'],
   ascii ['t', 'm', 'p'],
   ascii ['t', 'r', 'a', 's', 'h'],
   ascii ['u', 's', 'r'],
   ascii ['v', 'a', 'r']]

def rootDirIndex (path : CString) : Option Nat := rootDirs.findIdx? fun d => d == path

/-- `commands_leaf`: the leaf of a path `commands/<leaf>`. -/
def commandsLeaf (path : CString) : Option CString :=
  match List.isPrefixOf? (ascii ['c', 'o', 'm', 'm', 'a', 'n', 'd', 's', '/']) path with
  | some leaf => if leaf = [] ∨ containsSlash leaf then none else some leaf
  | none => none

/-! ## Table lookups -/

namespace Volume

variable (v : Volume)

def findEntry (path : CString) : Option Nat :=
  (List.range v.inst.entryLimit).find? fun i =>
    (v.inst.entries i).inUse && (v.inst.entries i).path == path

def freeSlot (limit : Nat) : Option Nat :=
  (List.range limit).find? fun i => !(v.inst.entries i).inUse

def dirExists (path : CString) : Bool :=
  if path = [] ∨ (rootDirIndex path).isSome then true
  else
    match v.findEntry path with
    | some i => (v.inst.entries i).kind == .directory
    | none => false

def dynamicDirHasChildren (path : CString) : Bool :=
  (List.range v.inst.entryLimit).any fun i =>
    (v.inst.entries i).inUse && (immediateChildName path (v.inst.entries i).path).isSome

/-- `memory_entry_data`: whether slot `index` has a data area. -/
def memoryEntryData (index : Nat) : Option (Store UInt8) :=
  if v.inst.role > roleTrash ∨ index ≥ memoryFileLimit then none else some (v.mem index)

/-- `entry_data_offset`, with the legacy position of slot `index` as the fallback. -/
def entryDataOffset (index : Nat) : Nat :=
  if v.inst.formatVersion ≥ aosfsVersion ∧ (v.inst.entries index).dataCapacity ≠ 0 then
    (v.inst.entries index).dataOffset
  else legacyDataOffset + index * inlineCapacity

def activeStorageSize (env : Env) (v : Volume) : Nat :=
  match blkdevGet v.blk v.inst.blkdevId with
  | none => 0
  | some dev =>
      if v.inst.baseOffset ≥ dev.size then 0
      else
        match partitionFindByRole env.partitions v.inst.role with
        | some part =>
            if part.blkdevId = v.inst.blkdevId ∧ part.offset = v.inst.baseOffset ∧
                part.size ≤ dev.size - v.inst.baseOffset then part.size
            else dev.size - v.inst.baseOffset
        | none => dev.size - v.inst.baseOffset

/-- `make_node_path` into a buffer of `AOSFS_PATH_MAX + 16` bytes. -/
def makeNodePath (path : CString) : CString :=
  if v.inst.role = roleRoot then truncate (pathMax + 16) path
  else
    truncate (pathMax + 16)
      (at_ :: partitionRoleName v.inst.role ++ if path = [] then [] else slash :: path)

def fillDynamicNode (i : Nat) : VfsNode :=
  let e := v.inst.entries i
  { type :=
      match e.kind with
      | .directory => .directory
      | .symlink => .symlink
      | .regular => .regular
    backend := .aosfs
    mode := e.mode
    uid := e.uid
    gid := e.gid
    size := e.size
    inode := e.inode
    path := v.makeNodePath e.path
    payload :=
      if v.inst.blockBacked ∨ (v.memoryEntryData i).isNone then .none
      else .aosfsSlot v.inst.role i }

end Volume

/-! ## Layout -/

def fieldAt (bytes : List UInt8) (off width : Nat) : List UInt8 := (bytes.drop off).take width

lemma fieldAt_skip {head rest : List UInt8} {off width : Nat} (h : head.length ≤ off) :
    fieldAt (head ++ rest) off width = fieldAt rest (off - head.length) width := by
  unfold fieldAt
  rw [List.drop_append, List.drop_of_length_le h, List.nil_append]

lemma fieldAt_hit {field rest : List UInt8} {width : Nat} (h : field.length = width) :
    fieldAt (field ++ rest) 0 width = field := by
  unfold fieldAt
  rw [List.drop_zero, List.take_left' h]

/-- `struct aosfs_superblock`, without its reserved words. -/
structure Superblock where
  magic0 : Nat
  magic1 : Nat
  version : Nat
  blockSize : Nat
  maxEntries : Nat
  pathMax : Nat
  fileCapacity : Nat
  tableOffset : Nat
  dataOffset : Nat
  deriving DecidableEq, Repr

/-- `sizeof(struct aosfs_superblock)`. -/
def superblockSize : Nat := 512

/-- `sizeof(struct aosfs_disk_entry)`. -/
def diskEntrySize : Nat := 256

def magic0 : Nat := 0x46534F41
def magic1 : Nat := 0x00003153

def Superblock.decode (bytes : List UInt8) : Superblock where
  magic0 := leNat (fieldAt bytes 0 4)
  magic1 := leNat (fieldAt bytes 4 4)
  version := leNat (fieldAt bytes 8 4)
  blockSize := leNat (fieldAt bytes 12 4)
  maxEntries := leNat (fieldAt bytes 16 4)
  pathMax := leNat (fieldAt bytes 20 4)
  fileCapacity := leNat (fieldAt bytes 24 4)
  tableOffset := leNat (fieldAt bytes 28 4)
  dataOffset := leNat (fieldAt bytes 32 4)

/-- The bytes of a superblock, with its 119 reserved words. -/
def Superblock.encode (sb : Superblock) : List UInt8 :=
  leBytes 4 sb.magic0 ++ (leBytes 4 sb.magic1 ++ (leBytes 4 sb.version ++
    (leBytes 4 sb.blockSize ++ (leBytes 4 sb.maxEntries ++ (leBytes 4 sb.pathMax ++
      (leBytes 4 sb.fileCapacity ++ (leBytes 4 sb.tableOffset ++ (leBytes 4 sb.dataOffset ++
        zeroBytes 476))))))))

def fillSuperblock : Superblock where
  magic0 := magic0
  magic1 := magic1
  version := aosfsVersion
  blockSize := 512
  maxEntries := maxEntries
  pathMax := pathMax
  fileCapacity := maxFileSize
  tableOffset := tableOffset
  dataOffset := dataOffset

def superblockValid (sb : Superblock) : Bool :=
  sb.magic0 == magic0 && sb.magic1 == magic1 && sb.version == aosfsVersion &&
    (sb.maxEntries == maxEntries || sb.maxEntries == compatMaxEntries) &&
    sb.pathMax == pathMax &&
    (sb.fileCapacity == maxFileSize || sb.fileCapacity == compatMaxFileSize) &&
    sb.tableOffset == tableOffset && sb.dataOffset == dataOffset

def legacySuperblockValid (sb : Superblock) : Bool :=
  sb.magic0 == magic0 && sb.magic1 == magic1 && sb.version == legacyVersion &&
    sb.maxEntries == legacyMaxEntries && sb.pathMax == pathMax &&
    sb.fileCapacity == inlineCapacity && sb.tableOffset == tableOffset &&
    sb.dataOffset == legacyDataOffset

/-- `struct aosfs_disk_entry`. The path is the string that a bounded copy out of the 128-byte field
yields; nothing else reads the field. -/
structure DiskEntry where
  inUse : Nat
  kind : Nat
  mode : UInt16
  size : Nat
  inode : UInt64
  path : CString
  dataOffset : Nat
  dataCapacity : Nat
  uid : UInt32
  gid : UInt32
  deriving DecidableEq, Repr

def DiskEntry.decode (bytes : List UInt8) : DiskEntry where
  inUse := leNat (fieldAt bytes 0 1)
  kind := leNat (fieldAt bytes 1 1)
  mode := UInt16.ofNat (leNat (fieldAt bytes 2 2))
  size := leNat (fieldAt bytes 4 4)
  inode := UInt64.ofNat (leNat (fieldAt bytes 8 8))
  path := truncate pathMax (ofBytes (fieldAt bytes 16 128))
  dataOffset := leNat (fieldAt bytes 144 8)
  dataCapacity := leNat (fieldAt bytes 152 8)
  uid := UInt32.ofNat (leNat (fieldAt bytes 160 4))
  gid := UInt32.ofNat (leNat (fieldAt bytes 164 4))

/-- The bytes of a record, with its 88 reserved bytes. -/
def DiskEntry.encode (d : DiskEntry) : List UInt8 :=
  leBytes 1 d.inUse ++ (leBytes 1 d.kind ++ (leBytes 2 d.mode.toNat ++ (leBytes 4 d.size ++
    (leBytes 8 d.inode.toNat ++ (toField pathMax d.path ++ (leBytes 8 d.dataOffset ++
      (leBytes 8 d.dataCapacity ++ (leBytes 4 d.uid.toNat ++ (leBytes 4 d.gid.toNat ++
        zeroBytes 88)))))))))

@[simp] lemma Superblock.encode_length (sb : Superblock) : sb.encode.length = superblockSize := by
  simp [Superblock.encode, superblockSize]

@[simp] lemma DiskEntry.encode_length (d : DiskEntry) : d.encode.length = diskEntrySize := by
  simp [DiskEntry.encode, diskEntrySize, pathMax]

lemma DiskEntry.encode_ne (d : DiskEntry) : d.encode ≠ [] :=
  List.ne_nil_of_length_pos (by simp [diskEntrySize])

lemma decode_fillSuperblock : Superblock.decode fillSuperblock.encode = fillSuperblock := by
  decide

/-- The fields of a record in the ranges of their C types. -/
structure DiskEntry.InRange (d : DiskEntry) : Prop where
  inUse : d.inUse < 256
  kind : d.kind < 256
  size : d.size < 2 ^ 32
  dataOffset : d.dataOffset < 2 ^ 64
  dataCapacity : d.dataCapacity < 2 ^ 64
  path : d.path.length < pathMax

/-- A record reads back as it was written. -/
theorem decode_encode {d : DiskEntry} (h : d.InRange) : DiskEntry.decode d.encode = d := by
  obtain ⟨h1, h2, h3, h4, h5, h6⟩ := h
  have hpath : truncate pathMax (truncate pathMax d.path) = d.path := by
    rw [truncate_of_lt h6, truncate_of_lt h6]
  have hmode : d.mode.toNat < 2 ^ 16 := d.mode.toNat_lt
  have hinode : d.inode.toNat < 2 ^ 64 := d.inode.toNat_lt
  have huid : d.uid.toNat < 2 ^ 32 := d.uid.toNat_lt
  have hgid : d.gid.toNat < 2 ^ 32 := d.gid.toNat_lt
  unfold DiskEntry.decode DiskEntry.encode
  simp (disch := simp [pathMax]) only [fieldAt_skip, fieldAt_hit, leBytes_length,
    toField_length, Nat.reduceSub, Nat.sub_self, pathMax]
  rw [leNat_leBytes_of_lt (w := 1) (by omega), leNat_leBytes_of_lt (w := 1) (by omega),
    leNat_leBytes_of_lt (w := 2) (by omega), leNat_leBytes_of_lt (w := 4) (by omega),
    leNat_leBytes_of_lt (w := 8) (by omega), leNat_leBytes_of_lt (w := 8) (by omega),
    leNat_leBytes_of_lt (w := 8) (by omega), leNat_leBytes_of_lt (w := 4) (by omega),
    leNat_leBytes_of_lt (w := 4) (by omega), ofBytes_toField]
  unfold pathMax at hpath
  rw [hpath, UInt16.ofNat_toNat, UInt64.ofNat_toNat, UInt32.ofNat_toNat, UInt32.ofNat_toNat]

/-! ## Entries as records -/

def EntryKind.code : EntryKind → Nat
  | .regular => 0
  | .directory => 1
  | .symlink => 2

/-- The kind of a disk code, `none` above `AOSFS_ENTRY_SYMLINK`. -/
def EntryKind.ofCode : Nat → Option EntryKind
  | 0 => some .regular
  | 1 => some .directory
  | 2 => some .symlink
  | _ => none

@[simp] lemma EntryKind.ofCode_code (k : EntryKind) : EntryKind.ofCode k.code = some k := by
  cases k <;> rfl

def diskModeValid : UInt16 := 0x8000

def diskEntryOf (e : Entry) : DiskEntry where
  inUse := if e.inUse then 1 else 0
  kind := e.kind.code
  mode := diskModeValid ||| (e.mode &&& modeMask)
  size := e.size
  inode := e.inode
  path := truncate pathMax e.path
  dataOffset := e.dataOffset
  dataCapacity := e.dataCapacity
  uid := e.uid
  gid := e.gid

/-- The mode mount takes from a record: the stored bits, or the default of the kind. -/
def diskMode (d : DiskEntry) (kind : EntryKind) : UInt16 :=
  if d.mode &&& diskModeValid ≠ 0 then d.mode &&& modeMask
  else
    match kind with
    | .directory => defaultDirectoryMode
    | .symlink => defaultSymlinkMode
    | .regular => defaultFileMode

lemma validBit_mode (m : UInt16) :
    (diskModeValid ||| (m &&& modeMask)) &&& diskModeValid = diskModeValid ∧
      (diskModeValid ||| (m &&& modeMask)) &&& modeMask = m &&& modeMask := by
  have hmv : modeMask.toBitVec &&& diskModeValid.toBitVec = 0#16 := by decide
  have hvm : diskModeValid.toBitVec &&& modeMask.toBitVec = 0#16 := by decide
  constructor
  · apply UInt16.toBitVec_inj.1
    rw [UInt16.toBitVec_and, UInt16.toBitVec_or, UInt16.toBitVec_and, BitVec.and_or_distrib_right,
      BitVec.and_self, BitVec.and_assoc, hmv, BitVec.and_zero, BitVec.or_zero]
  · apply UInt16.toBitVec_inj.1
    rw [UInt16.toBitVec_and, UInt16.toBitVec_or, UInt16.toBitVec_and, BitVec.and_or_distrib_right,
      hvm, BitVec.and_assoc, BitVec.and_self, BitVec.zero_or]

lemma diskMode_diskEntryOf (e : Entry) (k : EntryKind) :
    diskMode (diskEntryOf e) k = e.mode &&& modeMask := by
  obtain ⟨hvalid, hmask⟩ := validBit_mode e.mode
  unfold diskMode diskEntryOf
  simp only [hvalid, hmask]
  rw [if_pos (by decide)]

/-! ## Volume accesses -/

namespace Volume

def blkWrite (plan : IoPlan) (v : Volume) (off : Nat) (buffer : List UInt8) : Bool × Volume :=
  let r := blkdevWrite plan v.blk v.inst.blkdevId ((v.inst.baseOffset + off) % 2 ^ 64) buffer
  (r.1, { v with blk := r.2 })

def blkRead (plan : IoPlan) (v : Volume) (off len : Nat) : Option (List UInt8) × Volume :=
  let r := blkdevRead plan v.blk v.inst.blkdevId ((v.inst.baseOffset + off) % 2 ^ 64) len
  (r.1, { v with blk := r.2 })

def syncSuperblock (plan : IoPlan) (v : Volume) : Bool × Volume :=
  if v.inst.blockBacked = false then (true, v)
  else v.blkWrite plan 0 fillSuperblock.encode

def syncEntry (plan : IoPlan) (v : Volume) (index : Nat) : Bool × Volume :=
  if v.inst.blockBacked = false ∨ index ≥ v.inst.entryLimit then (true, v)
  else v.blkWrite plan (tableOffset + index * diskEntrySize)
    (diskEntryOf (v.inst.entries index)).encode

end Volume

end AosKernel.Aosfs
