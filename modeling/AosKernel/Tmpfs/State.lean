import AosKernel.Aosfs.MountSpecs

/-!
# tmpfs: the table of entries and the calls on it

The globals of `tmpfs.c`: 64 entries, each with its own buffer of `TMPFS_FILE_CAPACITY` bytes. The
calls are translated one by one; `step` is one call from the outside, and `runCalls` a sequence of
them from `tmpfs_init` on.

A buffer is a store of which the first `fileCapacity` cells are the C array. The one access of the
file that is not bounded by construction is the `local_memcpy` of `tmpfs_write_path`; a copy that
would leave the array is the reply `overrun`, after which nothing is known about the table.
-/

namespace AosKernel.Tmpfs

open Lib Lib.ByteStore Vfs Function

def maxEntries : Nat := 64
def pathMax : Nat := 256
def fileCapacity : Nat := 4096
def rootIno : UInt64 := 0x544D5001
def modeMask : UInt16 := 0o7777

structure Entry where
  inUse : Bool
  type : NodeType
  mode : UInt16
  uid : UInt32
  gid : UInt32
  size : Nat
  inode : UInt64
  path : CString
  data : Store UInt8

/-- A cleared entry; the type of an entry that is not in use is never read. -/
def Entry.zero : Entry := ⟨false, .regular, 0, 0, 0, 0, 0, [], fun _ => 0⟩

/-- The globals of `tmpfs.c`. -/
structure TmpfsState where
  entries : Nat → Entry
  nextInode : UInt64

namespace TmpfsState

def setEntry (s : TmpfsState) (i : Nat) (e : Entry) : TmpfsState :=
  { s with entries := update s.entries i e }

@[simp] lemma setEntry_self (s : TmpfsState) (i : Nat) (e : Entry) :
    (s.setEntry i e).entries i = e :=
  update_self _ _ _

lemma setEntry_of_ne (s : TmpfsState) {i j : Nat} (e : Entry) (h : j ≠ i) :
    (s.setEntry i e).entries j = s.entries j :=
  update_of_ne h _ _

end TmpfsState

def tmpfsInit : TmpfsState := ⟨fun _ => Entry.zero, rootIno + 1⟩

/-! ## Paths -/

def tmp : CString := CString.ascii ['t', 'm', 'p']

/-- The loop `while (length > 3 && path[length - 1] == '/') length--`. -/
def trimSlashes (path : CString) : Nat → Nat
  | 0 => 0
  | n + 1 => if n + 1 > 3 ∧ path[n]? = some slash then trimSlashes path n else n + 1

/-- `normalize_tmpfs_path` into a buffer of `outSize` bytes. -/
def normalizeTmpfsPath (path : CString) (outSize : Nat) : Option CString :=
  let rest := skipSlashes path
  let length := trimSlashes rest rest.length
  if length < 3 ∨ rest.take 3 ≠ tmp ∨ (length > 3 ∧ rest[3]? ≠ some slash) ∨ length ≥ outSize then
    none
  else some (rest.take length)

/-- `parent_path_of` into a buffer of `parentSize` bytes. -/
def parentPathOf (path : CString) (parentSize : Nat) : Option CString :=
  if path.length ≤ 3 then none
  else
    let slashPos := slashScan path path.length
    if slashPos ≤ 3 ∨ slashPos > parentSize then none else some (path.take (slashPos - 1))

def isDescendant (directory path : CString) : Bool :=
  match List.isPrefixOf? directory path with
  | some (c :: _) => c == slash
  | _ => false

namespace TmpfsState

variable (s : TmpfsState)

def findEntry (path : CString) : Option Nat :=
  (List.range maxEntries).find? fun i => (s.entries i).inUse && (s.entries i).path == path

def freeSlot : Option Nat :=
  (List.range maxEntries).find? fun i => !(s.entries i).inUse

def parentDirectoryExists (path : CString) : Bool :=
  match parentPathOf path pathMax with
  | none => false
  | some parent =>
      if parent = tmp then true
      else
        match s.findEntry parent with
        | some i => (s.entries i).type == .directory
        | none => false

/-- `allocate_entry`: the slot taken and the state with it filled. -/
def allocateEntry (path : CString) (type : NodeType) (mode : UInt16)
    (uid gid : UInt32) : Option (Nat × TmpfsState) :=
  match s.freeSlot with
  | none => none
  | some i =>
      some (i, { s.setEntry i { Entry.zero with
          inUse := true
          type := type
          mode := mode &&& modeMask
          uid := uid
          gid := gid
          inode := s.nextInode
          path := CString.truncate pathMax path } with nextInode := s.nextInode + 1 })

def fillEntryNode (i : Nat) : VfsNode :=
  let e := s.entries i
  { type := e.type
    backend := .tmpfs
    mode := e.mode
    uid := e.uid
    gid := e.gid
    size := e.size
    inode := e.inode
    path := CString.truncate pathMax e.path
    payload := if e.type = .regular then .tmpfsSlot i else .none }

/-! ## Calls -/

/-- The regular file that a path names: the head that the calls on files share. -/
def regularEntry (path : CString) : Option Nat :=
  match normalizeTmpfsPath path pathMax with
  | none => none
  | some normalized =>
      match s.findEntry normalized with
      | none => none
      | some i => if (s.entries i).type = .regular then some i else none

def tmpfsCreatePathMode (path : CString) (mode : UInt16) (uid gid : UInt32) :
    Option VfsNode × TmpfsState :=
  match normalizeTmpfsPath path pathMax with
  | none => (none, s)
  | some normalized =>
      if normalized = tmp ∨ s.parentDirectoryExists normalized = false then (none, s)
      else
        match s.findEntry normalized with
        | some i =>
            if (s.entries i).type ≠ .regular then (none, s) else (some (s.fillEntryNode i), s)
        | none =>
            match s.allocateEntry normalized .regular mode uid gid with
            | none => (none, s)
            | some (i, s') => (some (s'.fillEntryNode i), s')

def tmpfsMkdirPathMode (path : CString) (mode : UInt16) (uid gid : UInt32) : Bool × TmpfsState :=
  match normalizeTmpfsPath path pathMax with
  | none => (false, s)
  | some normalized =>
      if normalized = tmp ∨ (s.findEntry normalized).isSome ∨
          s.parentDirectoryExists normalized = false then (false, s)
      else
        match s.allocateEntry normalized .directory mode uid gid with
        | none => (false, s)
        | some (_, s') => (true, s')

def tmpfsResizePath (path : CString) (size : UInt32) : Bool × TmpfsState :=
  if size.toNat > fileCapacity then (false, s)
  else
    match s.regularEntry path with
    | none => (false, s)
    | some i =>
        let e := s.entries i
        let data :=
          if size.toNat > e.size then patch e.data e.size (zeroBytes (size.toNat - e.size))
          else e.data
        (true, s.setEntry i { e with data := data, size := size.toNat })

def tmpfsTruncatePath (path : CString) : Bool × TmpfsState :=
  s.tmpfsResizePath path 0

/-- `tmpfs_read_path`; `buffer` says whether there is one. -/
def tmpfsReadPath (path : CString) (offset : UInt64) (buffer : Bool)
    (len : UInt64) : Option (List UInt8) :=
  if buffer = false then none
  else
    match s.regularEntry path with
    | none => none
    | some i =>
        let e := s.entries i
        if offset.toNat > e.size ∨ len.toNat > e.size - offset.toNat then none
        else some (slice e.data offset.toNat len.toNat)

/-- What `tmpfs_write_path` did: an error, the values it left in `*written` and `*new_size` (`none`
where it did not set the latter), or a copy beyond the end of the entry's buffer. -/
inductive WriteResult where
  | error
  | done (written : UInt64) (newSize : Option Nat)
  | overrun
  deriving DecidableEq, Repr

/-- The clamp of `to_write`; the sum is a `uint64_t`. -/
def clampLength (offset len : UInt64) : UInt64 :=
  if (offset + len).toNat > fileCapacity then UInt64.ofNat fileCapacity - offset else len

/-- `tmpfs_write_path`. The bytes at `buffer` are a store, `none` for a null pointer; `written` and
`newSize` say whether there is a place for the results. -/
def tmpfsWritePath (path : CString) (offset : UInt64)
    (buffer : Option (Store UInt8)) (len : UInt64) (written newSize : Bool) :
    WriteResult × TmpfsState :=
  match buffer with
  | none => (.error, s)
  | some source =>
      if written = false then (.error, s)
      else
        match s.regularEntry path with
        | none => (.error, s)
        | some i =>
            let e := s.entries i
            -- the early return leaves `*new_size` alone
            if offset.toNat ≥ fileCapacity then (.done 0 none, s)
            else
              let toWrite := clampLength offset len
              if offset.toNat + toWrite.toNat > fileCapacity then (.overrun, s)
              else
                let size :=
                  if (offset + toWrite).toNat > e.size then (offset + toWrite).toNat % 2 ^ 32
                  else e.size
                let data := patch e.data offset.toNat (slice source 0 toWrite.toNat)
                (.done toWrite (if newSize then some size else none),
                  s.setEntry i { e with data := data, size := size })

def tmpfsUnlinkPath (path : CString) : Bool × TmpfsState :=
  match s.regularEntry path with
  | none => (false, s)
  | some i => (true, s.setEntry i Entry.zero)

def tmpfsRmdirPath (path : CString) : Bool × TmpfsState :=
  match normalizeTmpfsPath path pathMax with
  | none => (false, s)
  | some normalized =>
      if normalized = tmp then (false, s)
      else
        match s.findEntry normalized with
        | none => (false, s)
        | some i =>
            if (s.entries i).type ≠ .directory then (false, s)
            else if (List.range maxEntries).any fun j =>
                (s.entries j).inUse && isDescendant normalized (s.entries j).path then (false, s)
            else (true, s.setEntry i Entry.zero)

/-- The tail of `tmpfs_chmod_path` and `tmpfs_chown_path`: change the entry that a path names. -/
def changeEntry (path : CString) (f : Entry → Entry) : Bool × TmpfsState :=
  match normalizeTmpfsPath path pathMax with
  | none => (false, s)
  | some normalized =>
      match s.findEntry normalized with
      | none => (false, s)
      | some i => (true, s.setEntry i (f (s.entries i)))

def tmpfsChmodPath (path : CString) (mode : UInt16) : Bool × TmpfsState :=
  s.changeEntry path fun e => { e with mode := mode &&& modeMask }

def tmpfsChownPath (path : CString) (uid gid : UInt32) : Bool × TmpfsState :=
  s.changeEntry path fun e => { e with uid := uid, gid := gid }

end TmpfsState

/-! ## Sequences of calls -/

/-- A call into tmpfs with its arguments. -/
inductive Call where
  | create (path : CString) (mode : UInt16) (uid gid : UInt32)
  | mkdir (path : CString) (mode : UInt16) (uid gid : UInt32)
  | resize (path : CString) (size : UInt32)
  | truncate (path : CString)
  | read (path : CString) (offset : UInt64) (buffer : Bool) (len : UInt64)
  | write (path : CString) (offset : UInt64) (buffer : Option (Store UInt8)) (len : UInt64)
      (written newSize : Bool)
  | unlink (path : CString)
  | rmdir (path : CString)
  | chmod (path : CString) (mode : UInt16)
  | chown (path : CString) (uid gid : UInt32)

inductive Reply where
  | error
  | success
  | node (n : VfsNode)
  | bytes (data : List UInt8)
  | stored (written : UInt64) (newSize : Option Nat)
  | overrun
  deriving DecidableEq, Repr

def Reply.ofBool (ok : Bool) : Reply := if ok then .success else .error

def Reply.ofNode : Option VfsNode → Reply
  | none => .error
  | some n => .node n

def Reply.ofBytes : Option (List UInt8) → Reply
  | none => .error
  | some data => .bytes data

def Reply.ofWrite : TmpfsState.WriteResult → Reply
  | .error => .error
  | .done written newSize => .stored written newSize
  | .overrun => .overrun

def step (s : TmpfsState) : Call → Reply × TmpfsState
  | .create path mode uid gid =>
      let r := s.tmpfsCreatePathMode path mode uid gid
      (Reply.ofNode r.1, r.2)
  | .mkdir path mode uid gid =>
      let r := s.tmpfsMkdirPathMode path mode uid gid
      (Reply.ofBool r.1, r.2)
  | .resize path size =>
      let r := s.tmpfsResizePath path size
      (Reply.ofBool r.1, r.2)
  | .truncate path =>
      let r := s.tmpfsTruncatePath path
      (Reply.ofBool r.1, r.2)
  | .read path offset buffer len => (Reply.ofBytes (s.tmpfsReadPath path offset buffer len), s)
  | .write path offset buffer len written newSize =>
      let r := s.tmpfsWritePath path offset buffer len written newSize
      (Reply.ofWrite r.1, r.2)
  | .unlink path =>
      let r := s.tmpfsUnlinkPath path
      (Reply.ofBool r.1, r.2)
  | .rmdir path =>
      let r := s.tmpfsRmdirPath path
      (Reply.ofBool r.1, r.2)
  | .chmod path mode =>
      let r := s.tmpfsChmodPath path mode
      (Reply.ofBool r.1, r.2)
  | .chown path uid gid =>
      let r := s.tmpfsChownPath path uid gid
      (Reply.ofBool r.1, r.2)

/-- The state after a sequence of calls from `s` on, `none` once a copy has left its buffer. -/
def runFrom (s : TmpfsState) : List Call → Option TmpfsState
  | [] => some s
  | c :: calls => if (step s c).1 = .overrun then none else runFrom (step s c).2 calls

/-- The state after a sequence of calls from `tmpfs_init` on. -/
def runCalls (calls : List Call) : Option TmpfsState := runFrom tmpfsInit calls

end AosKernel.Tmpfs
