import AosKernel.Vfs.Path
import AosKernel.Lib.ByteStore

/-!
# Descriptors and the objects behind them

The fd tables of the processes and the four kernel-wide object tables of `kernel/syscall.c`: open
files, pipes, event counters and sockets. Every object counts the references to it. A socket may
hold descriptors in transit (`rx_ancillary_fds`), which its last release releases in turn. Of a
socket the model keeps what the descriptor functions and local (`AF_UNIX`) sockets use; the TCP
fields belong to the network code. -/

namespace AosKernel.Fd

open Lib Lib.ByteStore Vfs Function

/-! ## Descriptors -/

/-- `FD_KIND_*`. -/
inductive FdKind where
  | free
  | stdin
  | stdout
  | stderr
  | vnode
  | pipeReader
  | pipeWriter
  | tty
  | null
  | socket
  | random
  | eventfd
  deriving DecidableEq, Repr

structure FdEntry where
  kind : FdKind
  handleIndex : Int
  deriving DecidableEq, Repr

/-- The entry that the kernel leaves in a closed slot. -/
def FdEntry.closed : FdEntry := ⟨.free, -1⟩

def FdEntry.zero : FdEntry := ⟨.free, 0⟩

def processFdMax : Nat := 32

abbrev FdTable := Nat → FdEntry

def initProcessFdTable : FdTable := fun fd =>
  if fd = 0 then ⟨.stdin, -1⟩
  else if fd = 1 then ⟨.stdout, -1⟩
  else if fd = 2 then ⟨.stderr, -1⟩
  else FdEntry.closed

/-! ## Objects -/

def maxFileHandles : Nat := 16
def maxPipeObjects : Nat := 8
def maxEventfdObjects : Nat := 32
def maxSocketObjects : Nat := 32
def socketAncillaryFdMax : Nat := 4
def pipeCapacity : Nat := 16384
def socketRxBufferSize : Nat := 8192
def afUnix : Nat := 1

structure FileHandle where
  inUse : Bool
  flockMode : Nat
  refcount : Nat
  offset : Nat
  openFlags : UInt64
  node : VfsNode

structure PipeObject where
  inUse : Bool
  readRefs : Nat
  writeRefs : Nat
  readPos : Nat
  writePos : Nat
  size : Nat
  buffer : Store UInt8

structure EventfdObject where
  inUse : Bool
  semaphore : Bool
  nonblocking : Bool
  refcount : Nat
  counter : UInt64

/-- The receive buffer of a socket: the bytes of `rx_buffer` from `rx_off` to `rx_len` are
unread. -/
@[ext] structure RxBuffer where
  bytes : Store UInt8
  off : Nat
  len : Nat
  off_le : off ≤ len
  len_le : len ≤ socketRxBufferSize

namespace RxBuffer

def zero : RxBuffer := ⟨fun _ => 0, 0, 0, Nat.le_refl 0, Nat.zero_le _⟩

variable (b : RxBuffer)

def unread : List UInt8 := slice b.bytes b.off (b.len - b.off)

/-- `socket_rx_compact`; `socket_send_data` does the same to the buffer of the other end. -/
def compact : RxBuffer where
  bytes := if b.off = 0 then b.bytes else copyDown b.off (b.len - b.off) b.bytes
  off := 0
  len := b.len - b.off
  off_le := Nat.zero_le _
  len_le := (Nat.sub_le _ _).trans b.len_le

/-- The copy behind `rx_len`, of as many bytes as there is room for. -/
def store (data : List UInt8) : RxBuffer where
  bytes := patch b.bytes b.len (data.take (socketRxBufferSize - b.len))
  off := b.off
  len := b.len + min (socketRxBufferSize - b.len) data.length
  off_le := b.off_le.trans (Nat.le_add_right _ _)
  len_le := by have := b.len_le; omega

/-- How many bytes a receive of `length` bytes gets. -/
def available (length : Nat) : Nat := min (b.len - b.off) length

/-- A receive gets all that is there. -/
def Drains (length : Nat) : Prop :=
  b.available length ≠ 0 ∧ b.off + b.available length = b.len
  deriving Decidable

/-- The buffer after a receive, which starts again at the front when all is read. -/
def read (length : Nat) : RxBuffer where
  bytes := b.bytes
  off := if b.Drains length then 0 else b.off + b.available length
  len := if b.Drains length then 0 else b.len
  off_le := by have := b.off_le; unfold available; split <;> omega
  len_le := by have := b.len_le; split <;> omega

lemma unread_length : b.unread.length = b.len - b.off := slice_length ..

lemma unread_compact : b.compact.unread = b.unread := by
  unfold compact unread
  split
  · next h => simp [h]
  · exact slice_copyDown ..

lemma unread_store (data : List UInt8) :
    (b.store data).unread = b.unread ++ data.take (socketRxBufferSize - b.len) := by
  have hoff := b.off_le
  have hlen : (data.take (socketRxBufferSize - b.len)).length =
      min (socketRxBufferSize - b.len) data.length := List.length_take
  have hsum : b.len + min (socketRxBufferSize - b.len) data.length - b.off =
      b.len - b.off + (data.take (socketRxBufferSize - b.len)).length := by omega
  unfold store unread
  dsimp only
  rw [hsum, slice_append, Nat.add_sub_cancel' hoff, slice_patch_self,
    slice_patch_disjoint _ (.inl (by omega))]

lemma slice_available (length : Nat) :
    slice b.bytes b.off (b.available length) = b.unread.take length := by
  unfold available unread
  rw [← take_slice b.bytes (min_le_left (b.len - b.off) length), List.take_eq_take_iff,
    slice_length]
  omega

lemma read_cases (length : Nat) :
    b.Drains length ∧ (b.read length).off = 0 ∧ (b.read length).len = 0 ∨
      ¬b.Drains length ∧ (b.read length).off = b.off + b.available length ∧
        (b.read length).len = b.len := by
  by_cases h : b.Drains length
  · exact .inl ⟨h, if_pos h, if_pos h⟩
  · exact .inr ⟨h, if_neg h, if_neg h⟩

lemma unread_read (length : Nat) : (b.read length).unread = b.unread.drop length := by
  have hoff := b.off_le
  have hlen := b.unread_length
  have hread := b.read_cases length
  simp only [Drains, available] at hread
  by_cases hall : b.len ≤ b.off + length
  · have hnone : (b.read length).len - (b.read length).off = 0 := by omega
    rw [List.drop_of_length_le (by omega), unread, hnone, slice_zero]
  · have hsum : b.len - b.off = length + (b.len - (b.off + length)) := by omega
    obtain ⟨hoff', hlen'⟩ : (b.read length).off = b.off + length ∧ (b.read length).len = b.len := by
      omega
    rw [unread, unread, hoff', hlen', hsum, slice_append, List.drop_left' (slice_length ..)]
    rfl

lemma read_zero : b.read 0 = b := by
  have hread := b.read_cases 0
  simp only [Drains, available] at hread
  ext
  · rfl
  · omega
  · omega

lemma read_read (m n : Nat) : (b.read m).read n = b.read (m + n) := by
  have hoff := b.off_le
  have hm := b.read_cases m
  have hn := (b.read m).read_cases n
  have hsum := b.read_cases (m + n)
  simp only [Drains, available] at hm hn hsum
  ext
  · rfl
  · omega
  · omega

end RxBuffer

/-- `SOCKET_STATE_*`. -/
inductive SocketState where
  | free
  | created
  | connected
  | closed
  | listening
  deriving DecidableEq, Repr

/-- `struct socket_object`. The list `rxAncillaryFds` is `rx_ancillary_fds` up to
`rx_ancillary_fd_count`. -/
structure SocketObject where
  inUse : Bool
  state : SocketState
  family : Nat
  type : Nat
  protocol : Nat
  localPort : Nat
  refcount : Nat
  peerIndex : Int
  passCredentials : Bool
  readShutdown : Bool
  writeShutdown : Bool
  rxCredentialsValid : Bool
  rxSenderPid : UInt32
  rxSenderUid : UInt32
  rxSenderGid : UInt32
  rxAncillaryFds : List FdEntry
  unixPath : List UInt8
  unixBound : Bool
  unixBacklog : Nat
  rxBuffer : RxBuffer

def SocketObject.rx (s : SocketObject) : List UInt8 := s.rxBuffer.unread

def zeroNode : VfsNode := ⟨.regular, .synthetic, 0, 0, 0, 0, 0, [], .none⟩

def FileHandle.zero : FileHandle := ⟨false, 0, 0, 0, 0, zeroNode⟩

def PipeObject.zero : PipeObject := ⟨false, 0, 0, 0, 0, 0, fun _ => 0⟩

def EventfdObject.zero : EventfdObject := ⟨false, false, false, 0, 0⟩

def SocketObject.zero : SocketObject where
  inUse := false
  state := .free
  family := 0
  type := 0
  protocol := 0
  localPort := 0
  refcount := 0
  peerIndex := 0
  passCredentials := false
  readShutdown := false
  writeShutdown := false
  rxCredentialsValid := false
  rxSenderPid := 0
  rxSenderUid := 0
  rxSenderGid := 0
  rxAncillaryFds := []
  unixPath := []
  unixBound := false
  unixBacklog := 0
  rxBuffer := .zero

/-- The object tables, and the next local port. -/
structure FdObjects where
  handles : Nat → FileHandle
  pipes : Nat → PipeObject
  eventfds : Nat → EventfdObject
  sockets : Nat → SocketObject
  nextPort : Nat

namespace FdObjects

/-- The tables at boot. -/
def zero : FdObjects where
  handles := fun _ => FileHandle.zero
  pipes := fun _ => PipeObject.zero
  eventfds := fun _ => EventfdObject.zero
  sockets := fun _ => SocketObject.zero
  nextPort := 40002

/-- The range and use check of the lookups by index, for a table of `max` objects. -/
def lookup (max : Nat) (inUse : Nat → Bool) (index : Int) : Option Nat :=
  if index < 0 ∨ index ≥ max then none
  else if inUse index.toNat = false then none
  else some index.toNat

variable (o : FdObjects)

def getFileHandleByIndex (index : Int) : Option Nat :=
  lookup maxFileHandles (fun i => (o.handles i).inUse) index

def getPipeObjectByIndex (index : Int) : Option Nat :=
  lookup maxPipeObjects (fun i => (o.pipes i).inUse) index

def getEventfdObjectByIndex (index : Int) : Option Nat :=
  lookup maxEventfdObjects (fun i => (o.eventfds i).inUse) index

def getSocketByIndex (index : Int) : Option Nat :=
  lookup maxSocketObjects (fun i => (o.sockets i).inUse) index

def setHandle (i : Nat) (h : FileHandle) : FdObjects :=
  { o with handles := update o.handles i h }

def setPipe (i : Nat) (p : PipeObject) : FdObjects :=
  { o with pipes := update o.pipes i p }

def setEventfd (i : Nat) (e : EventfdObject) : FdObjects :=
  { o with eventfds := update o.eventfds i e }

def setSocket (i : Nat) (s : SocketObject) : FdObjects :=
  { o with sockets := update o.sockets i s }

/-! ## References -/

/-- A 32-bit count after `++`. -/
def increment (n : Nat) : Nat := (n + 1) % 2 ^ 32

def retainFdEntryRefs (e : FdEntry) (o : FdObjects) : FdObjects :=
  match e.kind with
  | .vnode =>
      match o.getFileHandleByIndex e.handleIndex with
      | none => o
      | some i => o.setHandle i { o.handles i with refcount := increment (o.handles i).refcount }
  | .pipeReader =>
      match o.getPipeObjectByIndex e.handleIndex with
      | none => o
      | some i => o.setPipe i { o.pipes i with readRefs := increment (o.pipes i).readRefs }
  | .pipeWriter =>
      match o.getPipeObjectByIndex e.handleIndex with
      | none => o
      | some i => o.setPipe i { o.pipes i with writeRefs := increment (o.pipes i).writeRefs }
  | .socket =>
      match o.getSocketByIndex e.handleIndex with
      | none => o
      | some i => o.setSocket i { o.sockets i with refcount := increment (o.sockets i).refcount }
  | .eventfd =>
      match o.getEventfdObjectByIndex e.handleIndex with
      | none => o
      | some i => o.setEventfd i { o.eventfds i with refcount := increment (o.eventfds i).refcount }
  | _ => o

def releaseFileHandle (index : Int) : FdObjects :=
  match o.getFileHandleByIndex index with
  | none => o
  | some i =>
      let refcount := (o.handles i).refcount - 1
      if refcount = 0 then o.setHandle i FileHandle.zero
      else o.setHandle i { o.handles i with refcount := refcount }

def releasePipeRef (index : Int) (kind : FdKind) : FdObjects :=
  match o.getPipeObjectByIndex index with
  | none => o
  | some i =>
      let pipe := o.pipes i
      let readRefs := if kind = .pipeReader then pipe.readRefs - 1 else pipe.readRefs
      let writeRefs := if kind = .pipeWriter then pipe.writeRefs - 1 else pipe.writeRefs
      if readRefs = 0 ∧ writeRefs = 0 then o.setPipe i PipeObject.zero
      else o.setPipe i { pipe with readRefs := readRefs, writeRefs := writeRefs }

def releaseEventfdRef (index : Int) : FdObjects :=
  match o.getEventfdObjectByIndex index with
  | none => o
  | some i =>
      let refcount := (o.eventfds i).refcount - 1
      if refcount = 0 then o.setEventfd i EventfdObject.zero
      else o.setEventfd i { o.eventfds i with refcount := refcount }

/-- `release_socket_ref`, with the function that releases the descriptors in transit. -/
def releaseSocketRefWith (release : FdEntry → FdObjects → FdObjects) (o : FdObjects)
    (index : Int) : FdObjects :=
  match o.getSocketByIndex index with
  | none => o
  | some i =>
      let sock := o.sockets i
      let refcount := sock.refcount - 1
      if refcount = 0 then
        (sock.rxAncillaryFds.take socketAncillaryFdMax).foldl (fun o e => release e o)
          (o.setSocket i SocketObject.zero)
      else o.setSocket i { sock with refcount := refcount }

/-- The socket states that `close_socket_ref` sets before a last release. The result of
`socket_send_fin_close` is a closed socket that is released next. -/
def closeSocketState (i : Nat) : FdObjects :=
  let sock := o.sockets i
  if sock.family = afUnix then
    let o :=
      match o.getSocketByIndex sock.peerIndex with
      | none => o
      | some peer => o.setSocket peer { o.sockets peer with state := .closed }
    o.setSocket i { o.sockets i with state := .closed }
  else o.setSocket i { sock with state := .closed }

def closeSocketRefWith (release : FdEntry → FdObjects → FdObjects) (o : FdObjects)
    (index : Int) : FdObjects :=
  match o.getSocketByIndex index with
  | none => o
  | some i =>
      releaseSocketRefWith release (if (o.sockets i).refcount ≤ 1 then o.closeSocketState i else o)
        index

/-- `release_fd_entry_refs` up to its reset of the entry, for sockets nested at most `fuel - 1`
deep. -/
def releaseEntry : Nat → FdEntry → FdObjects → FdObjects
  | 0, _, o => o
  | fuel + 1, e, o =>
      match e.kind with
      | .vnode => o.releaseFileHandle e.handleIndex
      | .pipeReader => o.releasePipeRef e.handleIndex .pipeReader
      | .pipeWriter => o.releasePipeRef e.handleIndex .pipeWriter
      | .socket => closeSocketRefWith (releaseEntry fuel) o e.handleIndex
      | .eventfd => o.releaseEventfdRef e.handleIndex
      | _ => o

/-- `release_fd_entry_refs`. Each nested release has freed one more socket, so the nesting stays
below the number of sockets. -/
def releaseFdEntryRefs (e : FdEntry) (o : FdObjects) : FdObjects :=
  releaseEntry (maxSocketObjects + 1) e o

def retainFdTableEntries (table : FdTable) (o : FdObjects) : FdObjects :=
  (List.range processFdMax).foldl (fun o fd => retainFdEntryRefs (table fd) o) o

/-- `syscall_release_fd_table_entries`; the table it leaves is `closedTable`. -/
def releaseFdTableEntries (table : FdTable) (o : FdObjects) : FdObjects :=
  (List.range processFdMax).foldl (fun o fd => releaseFdEntryRefs (table fd) o) o

end FdObjects

def closedTable : FdTable := fun _ => FdEntry.closed

def zeroTable : FdTable := fun _ => FdEntry.zero

end AosKernel.Fd
