import AosKernel.Lib.LittleEndian

/-!
# Path strings and nodes

The string helpers that `aosfs.c`, `vfs.c`, `tmpfs.c` and `syscall.c` each carry as static
functions: slash stripping, component prefixes, the parent path, and the normalization that removes
`.` and `..` components. Paths are C strings; a helper that writes into a buffer takes the buffer's
size and fails where the C code reports that the result does not fit. -/

namespace AosKernel.Vfs

open Lib

lemma slash_ne_zero : (47 : UInt8) ≠ 0 := by decide

def slash : CChar := ⟨47, slash_ne_zero⟩

def at_ : CChar := ⟨64, by decide⟩

/-- The loop `while (*path == '/') path++`. -/
def skipSlashes (path : CString) : CString := path.dropWhile fun c => c == slash

def firstComponent (path : CString) : CString := path.takeWhile fun c => c != slash

def containsSlash (path : CString) : Bool := path.any fun c => c == slash

/-- The loop `while (n > 0 && path[n - 1] != '/') n--`. -/
def slashScan (path : CString) : Nat → Nat
  | 0 => 0
  | n + 1 => if path[n]? = some slash then n + 1 else slashScan path n

/-- `parent_path_of` into a buffer of `outSize` bytes. -/
def parentPathOf (path : CString) (outSize : Nat) : Option CString :=
  let slashPos := slashScan path path.length
  if slashPos = 0 then some []
  else if slashPos - 1 ≥ outSize then none
  else some (path.take (slashPos - 1))

/-- The test `path[i] == '\\0' || path[i] == '/'` behind a matched head of a path. -/
def atBoundary (rest : CString) : Bool :=
  match rest with
  | [] => true
  | c :: _ => c == slash

/-- `path_starts_with_component` of `aosfs.c` and `vfs.c`. -/
def pathStartsWithComponent (path head : CString) : Bool :=
  if head = [] then true
  else
    match List.isPrefixOf? head path with
    | some rest => atBoundary rest
    | none => false

/-- `immediate_child_name`: the name of a direct child of `parent`. -/
def immediateChildName (parent childPath : CString) : Option CString :=
  let rest :=
    if parent = [] then some childPath
    else if pathStartsWithComponent childPath parent then
      match childPath.drop parent.length with
      | c :: rest => if c = slash then some rest else none
      | [] => none
    else none
  match rest with
  | none => none
  | some rest => if rest = [] ∨ containsSlash rest then none else some rest

/-! ## Nodes

`struct vfs_node`, with the union `u` as the payload. -/

/-- `VFS_NODE_TYPE_*`. -/
inductive NodeType where
  | regular
  | directory
  | charDevice
  | symlink
  deriving DecidableEq, Repr

/-- `VFS_BACKEND_*`. -/
inductive Backend where
  | synthetic
  | initrd
  | fat32
  | tmpfs
  | ext4
  | aosfs
  | procfs
  deriving DecidableEq, Repr

/-- The union `u` of a node. -/
inductive NodePayload where
  | none
  | aosfsSlot (role index : Nat)
  | tmpfsSlot (index : Nat)
  | initrdData (bytes : List UInt8)
  | firstCluster (cluster : Nat)
  deriving DecidableEq, Repr

structure VfsNode where
  type : NodeType
  backend : Backend
  mode : UInt16
  uid : UInt32
  gid : UInt32
  size : Nat
  inode : UInt64
  path : CString
  payload : NodePayload
  deriving DecidableEq, Repr

end AosKernel.Vfs
