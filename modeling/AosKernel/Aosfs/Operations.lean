import AosKernel.Aosfs.State

/-!
# AOSFS: file operations

The operations of `kernel/aosfs.c` on paths. Each is given on the selected volume, in the namespace
`Volume`, and as the entry point that selects the volume first. An operation returns its C result
(`false` or `none` for `-1`) together with the state it leaves, also when it fails.
-/

namespace AosKernel.Aosfs

open Lib Lib.ByteStore Block Vfs

/-- `align_up_u64`; `x & ~m` is `x - (x & m)`. -/
def alignUpU64 (value alignment : Nat) : Nat :=
  if alignment = 0 ∨ value > uint64Max - (alignment - 1) then uint64Max
  else
    let x := value + alignment - 1
    x - (x &&& (alignment - 1))

/-- The doubling loop of `reserve_entry_extent`; from the minimal capacity it ends within the given
fuel (`le_growCapacity`). -/
def growCapacity (required : Nat) : Nat → Nat → Nat
  | 0, capacity => capacity
  | fuel + 1, capacity =>
      if capacity < required then
        if capacity > maxFileSize / 2 then maxFileSize
        else growCapacity required fuel (capacity * 2)
      else capacity

def Entry.fresh (kind : EntryKind) (mode : UInt16) (uid gid : UInt32) (inode : UInt64)
    (path : CString) : Entry :=
  { Entry.zero with
    inUse := true
    kind := kind
    mode := mode &&& modeMask
    uid := uid
    gid := gid
    inode := inode
    path := CString.truncate pathMax path }

namespace Volume

/-! ## Extents -/

/-- The loop that copies `total` bytes from `src` to `dst` through `g_extent_copy_buffer`. -/
def copyChunks (plan : IoPlan) (src dst total : Nat) : Nat → Nat → Volume → Bool × Volume
  | 0, _, v => (true, v)
  | fuel + 1, copied, v =>
      if copied < total then
        let chunk := min (total - copied) extentCopyBuffer
        match v.blkRead plan (src + copied) chunk with
        | (none, v) => (false, v)
        | (some buffer, v) =>
            match v.blkWrite plan (dst + copied) buffer with
            | (false, v) => (false, v)
            | (true, v) => copyChunks plan src dst total fuel (copied + chunk) v
      else (true, v)

variable (plan : IoPlan) (env : Env)

def reserveEntryExtent (v : Volume) (index required : Nat) : Bool × Volume :=
  let entry := v.inst.entries index
  if index ≥ v.inst.entryLimit ∨ v.inst.blockBacked = false ∨
      v.inst.formatVersion < aosfsVersion ∨ required > maxFileSize then (false, v)
  else if required ≤ entry.dataCapacity then (true, v)
  else
    let newCapacity := growCapacity required 64 (max entry.dataCapacity minExtentCapacity)
    if newCapacity < required ∨ newCapacity > maxFileSize then (false, v)
    else if entry.dataCapacity ≠ 0 ∧ entry.dataOffset ≤ uint64Max - entry.dataCapacity ∧
        entry.dataOffset + entry.dataCapacity = v.inst.nextDataOffset then
      -- the extent ends at the bump pointer: grow in place
      let newEnd := (entry.dataOffset + newCapacity) % 2 ^ 64
      if (blkdevGet v.blk v.inst.blkdevId).isNone ∨ newEnd > v.activeStorageSize env then (false, v)
      else
        match (v.setEntry index { entry with dataCapacity := newCapacity }).syncEntry plan
          index with
        | (false, v') => (false, v'.setEntry index entry)
        | (true, v') => (true, v'.setNextDataOffset newEnd)
    else
      let newOffset := alignUpU64 v.inst.nextDataOffset extentAlignment
      if newOffset = uint64Max ∨ newOffset > uint64Max - newCapacity then (false, v)
      else
        let newEnd := newOffset + newCapacity
        if (blkdevGet v.blk v.inst.blkdevId).isNone ∨ newEnd > v.activeStorageSize env then
          (false, v)
        else if entry.size ≠ 0 ∧ entry.dataCapacity = 0 then (false, v)
        else
          match v.copyChunks plan entry.dataOffset newOffset entry.size entry.size 0 with
          | (false, v') => (false, v')
          | (true, v') =>
              match (v'.setEntry index { entry with
                  dataOffset := newOffset, dataCapacity := newCapacity }).syncEntry plan index with
              | (false, v'') => (false, v''.setEntry index entry)
              | (true, v'') => (true, v''.setNextDataOffset newEnd)

/-! ## Operations on the selected volume -/

/-- Fill the free slot `i` and write it back, clearing it again when that fails: the end of
`aosfs_create_path_mode` and of `aosfs_mkdir_path_mode`. -/
def insertEntry (v : Volume) (i : Nat) (kind : EntryKind) (mode : UInt16)
    (uid gid : UInt32) (path : CString) : Bool × Volume :=
  let entry := Entry.fresh kind mode uid gid v.inst.nextInode path
  match ((v.setNextInode (v.inst.nextInode + 1)).setEntry i entry).syncEntry plan i with
  | (false, v') => (false, v'.setEntry i Entry.zero)
  | (true, v') => (true, v')

def createPathMode (v : Volume) (path : CString) (mode : UInt16)
    (uid gid : UInt32) : Option VfsNode × Volume :=
  if path = [] ∨ path.length ≥ pathMax then (none, v)
  else if (commandsLeaf path).isSome then (none, v)
  else if containsSlash path = false ∧ (env.initrd path).isSome then (none, v)
  else
    match parentPathOf path pathMax with
    | none => (none, v)
    | some parent =>
        if v.dirExists parent = false then (none, v)
        else
          match v.findEntry path with
          | some i =>
              if (v.inst.entries i).kind = .directory then (none, v)
              else (some (v.fillDynamicNode i), v)
          | none =>
              match v.freeSlot (if v.inst.blockBacked then v.inst.entryLimit
                  else memoryFileLimit) with
              | none => (none, v)
              | some i =>
                  match v.insertEntry plan i .regular mode uid gid path with
                  | (false, v') => (none, v')
                  | (true, v') => (some (v'.fillDynamicNode i), v')

def mkdirPathMode (v : Volume) (path : CString) (mode : UInt16)
    (uid gid : UInt32) : Bool × Volume :=
  if path = [] ∨ path.length ≥ pathMax then (false, v)
  else if (v.findEntry path).isSome ∨ (rootDirIndex path).isSome then (false, v)
  else if (commandsLeaf path).isSome ∨
      (containsSlash path = false ∧ (rootDirIndex path).isSome) then (false, v)
  else
    match parentPathOf path pathMax with
    | none => (false, v)
    | some parent =>
        if v.dirExists parent = false then (false, v)
        else
          match v.freeSlot v.inst.entryLimit with
          | none => (false, v)
          | some i => v.insertEntry plan i .directory mode uid gid path

/-- Update one found entry and write it back, as `aosfs_chmod_path` and `aosfs_chown_path` do. -/
def updateEntry (v : Volume) (path : CString) (f : Entry → Entry) : Bool × Volume :=
  match v.findEntry path with
  | none => (false, v)
  | some i => (v.setEntry i (f (v.inst.entries i))).syncEntry plan i

def chmodPath (v : Volume) (path : CString) (mode : UInt16) : Bool × Volume :=
  v.updateEntry plan path fun e => { e with mode := mode &&& modeMask }

def chownPath (v : Volume) (path : CString) (uid gid : UInt32) : Bool × Volume :=
  v.updateEntry plan path fun e => { e with uid := uid, gid := gid }

def readPath (v : Volume) (path : CString) (offset len : Nat) : Option (List UInt8) × Volume :=
  match v.findEntry path with
  | none => (none, v)
  | some i =>
      let entry := v.inst.entries i
      if entry.kind = .directory ∨ offset > entry.size ∨ len > entry.size - offset then (none, v)
      else if len = 0 then (some [], v)
      else if v.inst.blockBacked ∧ v.inst.formatVersion ≥ aosfsVersion then
        if entry.dataCapacity = 0 ∨ offset > entry.dataCapacity ∨
            len > entry.dataCapacity - offset then (none, v)
        else v.blkRead plan (v.entryDataOffset i + offset) len
      else if offset > inlineCapacity ∨ len > inlineCapacity - offset then (none, v)
      else
        match v.memoryEntryData i with
        | none => (none, v)
        | some data => (some (slice data offset len), v)

def truncatePath (v : Volume) (path : CString) : Bool × Volume :=
  match v.findEntry path with
  | none => (false, v)
  | some i =>
      if (v.inst.entries i).kind ≠ .regular then (false, v)
      else
        let v' := v.setEntry i { v.inst.entries i with size := 0 }
        let v'' :=
          if v.inst.blockBacked = false ∧ (v.memoryEntryData i).isSome then
            v'.setMem i (patch (v'.mem i) 0 (zeroBytes inlineCapacity))
          else v'
        v''.syncEntry plan i

/-- The loop of `aosfs_resize_path` that writes zeros from `position` to `size`. -/
def zeroChunks (plan : IoPlan) (base size : Nat) : Nat → Nat → Volume → Bool × Volume
  | 0, _, v => (true, v)
  | fuel + 1, position, v =>
      if position < size then
        let chunk := min (size - position) 512
        match v.blkWrite plan (base + position) (zeroBytes chunk) with
        | (false, v) => (false, v)
        | (true, v) => zeroChunks plan base size fuel (position + chunk) v
      else (true, v)

/-- The part of `aosfs_resize_path` that makes room and clears the new bytes of a growing file. -/
def extendPath (v : Volume) (i size : Nat) : Bool × Volume :=
  let oldSize := (v.inst.entries i).size
  if v.inst.blockBacked ∧ v.inst.formatVersion ≥ aosfsVersion then
    match v.reserveEntryExtent plan env i size with
    | (false, v') => (false, v')
    | (true, v') => v'.zeroChunks plan (v'.entryDataOffset i) size (size - oldSize) oldSize
  else if size > inlineCapacity then (false, v)
  else
    match v.memoryEntryData i with
    | none => (false, v)
    | some data =>
        (true, v.setMem i (patch data oldSize (zeroBytes (size - oldSize))))

def resizePath (v : Volume) (path : CString) (size : Nat) : Bool × Volume :=
  if size > maxFileSize then (false, v)
  else
    match v.findEntry path with
    | none => (false, v)
    | some i =>
        if (v.inst.entries i).kind ≠ .regular then (false, v)
        else
          let extended :=
            if size > (v.inst.entries i).size then v.extendPath plan env i size else (true, v)
          match extended with
          | (false, v') => (false, v')
          | (true, v') =>
              (v'.setEntry i { v'.inst.entries i with size := size }).syncEntry plan i

def unlinkPath (v : Volume) (path : CString) : Bool × Volume :=
  if path = [] then (false, v)
  else
    match v.findEntry path with
    | none => (false, v)
    | some i =>
        if (v.inst.entries i).kind = .directory then (false, v)
        else (v.setEntry i Entry.zero).syncEntry plan i

def rmdirPath (v : Volume) (path : CString) : Bool × Volume :=
  if path = [] ∨ (rootDirIndex path).isSome then (false, v)
  else
    match v.findEntry path with
    | none => (false, v)
    | some i =>
        if (v.inst.entries i).kind ≠ .directory then (false, v)
        else if v.dynamicDirHasChildren path then (false, v)
        else (v.setEntry i Entry.zero).syncEntry plan i

def storeBytes (v : Volume) (i offset : Nat) (buffer : List UInt8) : Bool × Volume :=
  if v.inst.blockBacked ∧ v.inst.formatVersion ≥ aosfsVersion then
    match v.reserveEntryExtent plan env i (offset + buffer.length) with
    | (false, v') => (false, v')
    | (true, v') => v'.blkWrite plan (v'.entryDataOffset i + offset) buffer
  else if offset > inlineCapacity ∨ buffer.length > inlineCapacity - offset then (false, v)
  else
    match v.memoryEntryData i with
    | none => (false, v)
    | some data => (true, v.setMem i (patch data offset buffer))

/-- `aosfs_write_path` on the selected volume; the result is the number of bytes written and the new
size. -/
def writePath (v : Volume) (path : CString) (offset : Nat)
    (buffer : List UInt8) : Option (Nat × Nat) × Volume :=
  match v.findEntry path with
  | none => (none, v)
  | some i =>
      if (v.inst.entries i).kind = .directory ∨ offset > maxFileSize ∨
          buffer.length > maxFileSize - offset then (none, v)
      else if buffer.length = 0 then (some (0, (v.inst.entries i).size), v)
      else
        match v.storeBytes plan env i offset buffer with
        | (false, v') => (none, v')
        | (true, v') =>
            let entry := v'.inst.entries i
            let newSize := if offset + buffer.length > entry.size
              then (offset + buffer.length) % 2 ^ 32 else entry.size
            match (v'.setEntry i { entry with size := newSize }).syncEntry plan i with
            | (false, v'') => (none, v'')
            | (true, v'') => (some (buffer.length, newSize), v'')

end Volume

/-! ## Entry points -/

variable (plan : IoPlan) (env : Env)

def aosfsCreatePathMode (s : AosfsState) (path : CString)
    (mode : UInt16) (uid gid : UInt32) : Option VfsNode × AosfsState :=
  if path = [] ∨ path.length ≥ pathMax then (none, s)
  else
    let sel := selectInstanceForPath s path
    s.onVolume sel.1 fun v => v.createPathMode plan env sel.2 mode uid gid

variable (s : AosfsState)

def aosfsMkdirPathMode (path : CString) (mode : UInt16) (uid gid : UInt32) : Bool × AosfsState :=
  if path = [] ∨ path.length ≥ pathMax then (false, s)
  else
    let sel := selectInstanceForPath s path
    s.onVolume sel.1 fun v => v.mkdirPathMode plan sel.2 mode uid gid

def aosfsChmodPath (path : CString) (mode : UInt16) : Bool × AosfsState :=
  let sel := selectInstanceForPath s path
  s.onVolume sel.1 fun v => v.chmodPath plan sel.2 mode

def aosfsChownPath (path : CString) (uid gid : UInt32) : Bool × AosfsState :=
  let sel := selectInstanceForPath s path
  s.onVolume sel.1 fun v => v.chownPath plan sel.2 uid gid

def aosfsReadPath (path : CString) (offset len : Nat) : Option (List UInt8) × AosfsState :=
  let sel := selectInstanceForPath s path
  s.onVolume sel.1 fun v => v.readPath plan sel.2 offset len

def aosfsTruncatePath (path : CString) : Bool × AosfsState :=
  let sel := selectInstanceForPath s path
  s.onVolume sel.1 fun v => v.truncatePath plan sel.2

def aosfsResizePath (s : AosfsState) (path : CString) (size : Nat) : Bool × AosfsState :=
  let sel := selectInstanceForPath s path
  s.onVolume sel.1 fun v => v.resizePath plan env sel.2 size

def aosfsUnlinkPath (path : CString) : Bool × AosfsState :=
  if path = [] then (false, s)
  else
    let sel := selectInstanceForPath s path
    s.onVolume sel.1 fun v => v.unlinkPath plan sel.2

def aosfsRmdirPath (path : CString) : Bool × AosfsState :=
  if path = [] then (false, s)
  else
    let sel := selectInstanceForPath s path
    s.onVolume sel.1 fun v => v.rmdirPath plan sel.2

def aosfsWritePath (s : AosfsState) (path : CString) (offset : Nat)
    (buffer : List UInt8) : Option (Nat × Nat) × AosfsState :=
  let sel := selectInstanceForPath s path
  s.onVolume sel.1 fun v => v.writePath plan env sel.2 offset buffer

/-- The step of `aosfs_symlink_path` that turns the created entry into a symbolic link and writes it
back. -/
def Volume.makeSymlink (v : Volume) (i : Nat) : Bool × Volume :=
  (v.setEntry i { v.inst.entries i with kind := .symlink, mode := defaultSymlinkMode }).syncEntry
    plan i

def aosfsSymlinkPath (s : AosfsState) (target path : CString)
    (uid gid : UInt32) : Bool × AosfsState :=
  if target = [] ∨ target.length ≥ pathMax then (false, s)
  else
    match aosfsCreatePathMode plan env s path defaultSymlinkMode uid gid with
    | (none, s) => (false, s)
    | (some _, s) =>
        let sel := selectInstanceForPath s path
        match (s.volume sel.1).findEntry sel.2 with
        | none => (false, (aosfsUnlinkPath plan s path).2)
        | some i =>
            if ((s.volume sel.1).inst.entries i).kind ≠ .regular then
              (false, (aosfsUnlinkPath plan s path).2)
            else
              match s.onVolume sel.1 fun v => v.makeSymlink plan i with
              | (false, s) => (false, (aosfsUnlinkPath plan s path).2)
              | (true, s) =>
                  match aosfsWritePath plan env s path 0 (CString.bytes target) with
                  | (none, s) => (false, (aosfsUnlinkPath plan s path).2)
                  | (some (written, _), s) =>
                      if written ≠ target.length then (false, (aosfsUnlinkPath plan s path).2)
                      else (true, s)

/-! ## Mounting and formatting

A mount writes an empty volume, loads a table of the current format, or migrates a legacy table: the
file data is copied above the legacy data area, and the superblock is written last. -/

open Lib.Loop

/-- The end of the legacy data area, where migrated files start. -/
def migratedDataOffset : Nat :=
  alignUpU64 (legacyDataOffset + legacyMaxEntries * inlineCapacity) extentAlignment

/-- The locals of the entry loop of `aosfs_mount_role`: `highest_inode` and the volume. -/
structure MountState where
  highest : UInt64
  vol : Volume

namespace Volume

/-- The fields `aosfs_mount_role` sets before it looks at the device. -/
def stageMount (v : Volume) (blkdevId baseOffset : Nat) : Volume :=
  { v with inst := { v.inst with
      blkdevId := blkdevId
      baseOffset := baseOffset
      blockBacked := true
      mounted := true
      formatVersion := aosfsVersion
      entryLimit := maxEntries
      nextDataOffset := dataOffset } }

def clearEntries (v : Volume) : Volume :=
  { v with inst := { v.inst with entries := fun _ => Entry.zero } }

def setEntryLimit (v : Volume) (n : Nat) : Volume :=
  { v with inst := { v.inst with entryLimit := n } }

variable (plan : IoPlan)

def syncAllEntries (v : Volume) : Bool × Volume :=
  forLoop (fun i v => v.syncEntry plan i) maxEntries 0 v

/-- The branch of `aosfs_mount_role` for a device without a known superblock. -/
def initialise (v : Volume) : Bool × Volume :=
  match v.syncSuperblock plan with
  | (false, v) => (false, v)
  | (true, v) =>
      match v.syncAllEntries plan with
      | (false, v) => (false, v)
      | (true, v) => (true, v.setNextInode dynamicInoBase)

/-- The entry a record describes, without its extent; its slot was cleared before. -/
def loadedEntry (d : DiskEntry) (kind : EntryKind) : Entry :=
  { Entry.zero with
    inUse := true
    kind := kind
    mode := diskMode d kind
    uid := d.uid
    gid := d.gid
    size := d.size
    inode := d.inode
    path := d.path }

/-- The legacy part of the entry loop: copy the data of slot `i` to the end of the migrated area. -/
def migrateEntry (storageSize i : Nat) (v : Volume) : Bool × Volume :=
  let entry := v.inst.entries i
  let newOffset := v.inst.nextDataOffset
  if entry.size > inlineCapacity ∨ newOffset > uint64Max - inlineCapacity ∨
      newOffset + inlineCapacity > storageSize then (false, v)
  else
    match v.copyChunks plan (legacyDataOffset + i * inlineCapacity) newOffset entry.size
        entry.size 0 with
    | (false, v) => (false, v)
    | (true, v) =>
        (true, (v.setEntry i { entry with
          dataOffset := newOffset, dataCapacity := inlineCapacity }).setNextDataOffset
            (newOffset + inlineCapacity))

/-- The part of the entry loop for the current format: take the extent from the record. -/
def loadExtent (d : DiskEntry) (i : Nat) (v : Volume) : Bool × Volume :=
  let entry := { v.inst.entries i with
    dataOffset := d.dataOffset, dataCapacity := d.dataCapacity }
  if entry.size > maxFileSize ∨ entry.size > entry.dataCapacity ∨
      (entry.dataCapacity ≠ 0 ∧ entry.dataOffset < dataOffset) then (false, v.setEntry i entry)
  else (true, v.setEntry i entry)

/-- The check of the extent of slot `i` against the device, and the bump pointer after it. -/
def admitExtent (legacy : Bool) (storageSize i : Nat) (v : Volume) : Bool × Volume :=
  let entry := v.inst.entries i
  if entry.dataCapacity = 0 then (true, v)
  else if entry.dataOffset > uint64Max - entry.dataCapacity then (false, v)
  else
    let extentEnd := entry.dataOffset + entry.dataCapacity
    if extentEnd > storageSize then (false, v)
    else if legacy = false ∧ extentEnd > v.inst.nextDataOffset then
      (true, v.setNextDataOffset extentEnd)
    else (true, v)

/-- The extent of an entry that is not a directory. -/
def mountExtent (legacy : Bool) (storageSize i : Nat) (d : DiskEntry) (v : Volume) :
    Bool × Volume :=
  match if legacy then v.migrateEntry plan storageSize i else v.loadExtent d i with
  | (false, v) => (false, v)
  | (true, v) => v.admitExtent legacy storageSize i

/-- One iteration of the entry loop of `aosfs_mount_role`. -/
def mountEntry (legacy : Bool) (storageSize i : Nat) (st : MountState) : Bool × MountState :=
  match st.vol.blkRead plan (tableOffset + i * diskEntrySize) diskEntrySize with
  | (none, v) => (false, { st with vol := v })
  | (some bytes, v) =>
      let d := DiskEntry.decode bytes
      if d.inUse = 0 then (true, { st with vol := v })
      else
        match EntryKind.ofCode d.kind with
        | none => (false, { st with vol := v.setEntry i { v.inst.entries i with inUse := true } })
        | some kind =>
            let v := v.setEntry i (loadedEntry d kind)
            match if kind = .directory then (true, v)
                else v.mountExtent plan legacy storageSize i d with
            | (false, v) => (false, { st with vol := v })
            | (true, v) => (true, ⟨if d.inode > st.highest then d.inode else st.highest, v⟩)

/-- The end of a legacy mount: all records in the current format, then the superblock. -/
def finishMigration (v : Volume) : Bool × Volume :=
  match (v.setEntryLimit maxEntries).syncAllEntries plan with
  | (false, v) => (false, v)
  | (true, v) => v.syncSuperblock plan

/-- The branch of `aosfs_mount_role` for a known superblock. -/
def loadTable (legacy : Bool) (storageSize limit : Nat) (v : Volume) : Bool × Volume :=
  let v := v.setEntryLimit limit
  let v := if legacy then v.setNextDataOffset migratedDataOffset else v
  match forLoop (fun i st => mountEntry plan legacy storageSize i st) limit 0
      ⟨dynamicInoBase - 1, v⟩ with
  | (false, st) => (false, st.vol)
  | (true, st) =>
      let v := st.vol.setNextInode (st.highest + 1)
      if legacy then v.finishMigration plan else (true, v)

def mountRole (env : Env) (v : Volume) (blkdevId baseOffset : Nat) : Bool × Volume :=
  if (blkdevGet v.blk blkdevId).isNone then (false, v)
  else
    let v := v.stageMount blkdevId baseOffset
    let storageSize := v.activeStorageSize env
    if storageSize < dataOffset then (false, v)
    else
      match v.blkRead plan 0 superblockSize with
      | (none, v) => (false, v)
      | (some bytes, v) =>
          let super := Superblock.decode bytes
          let legacy := legacySuperblockValid super
          if superblockValid super = false ∧ legacy = false then v.clearEntries.initialise plan
          else
            v.clearEntries.loadTable plan legacy storageSize
              (if legacy then legacyMaxEntries else super.maxEntries)

/-- The instance `aosfs_format_role` sets up before it writes to the device. -/
def stageFormat (v : Volume) (role blkdevId baseOffset : Nat) : Volume :=
  { v with inst :=
      { mounted := true
        role := role
        blockBacked := true
        blkdevId := blkdevId
        baseOffset := baseOffset
        nextInode := dynamicInoBase
        nextDataOffset := dataOffset
        formatVersion := aosfsVersion
        entryLimit := maxEntries
        entries := fun _ => Entry.zero } }

def formatRole (env : Env) (v : Volume) (role blkdevId baseOffset : Nat) : Bool × Volume :=
  if (blkdevGet v.blk blkdevId).isNone then (false, v)
  else
    let v := v.stageFormat role blkdevId baseOffset
    if v.activeStorageSize env < dataOffset then (false, v)
    else
      match v.syncSuperblock plan with
      | (false, v) => (false, v)
      | (true, v) => v.syncAllEntries plan

end Volume

def aosfsMountRole (s : AosfsState) (role blkdevId baseOffset : Nat) : Bool × AosfsState :=
  s.onVolume (instanceForRole role) fun v => v.mountRole plan env blkdevId baseOffset

def aosfsFormatRole (s : AosfsState) (role blkdevId baseOffset : Nat) : Bool × AosfsState :=
  s.onVolume (instanceForRole role) fun v => v.formatRole plan env role blkdevId baseOffset

end AosKernel.Aosfs
