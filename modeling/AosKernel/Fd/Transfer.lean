import AosKernel.Fd.Messages

/-!
# Reading and writing through descriptors

`sys_read`, `sys_write`, `sys_readv`, `sys_writev`, `sys_lseek` and `sys_ftruncate`, from
`kernel/syscall/fs.c` and `kernel/syscall/terminal_io.c`, over any file system below the VFS nodes
(`FileSystem`).

A call that has to wait sets the return address back to the `syscall` instruction and calls
`schedule`. If another process is switched to, the registers saved there are those the process goes
on with; otherwise the call goes on at once. `IoReply` has both: `saved`, and `value` with `regs`.
Nothing is transferred after a wait, so that the state a call leaves does not depend on how
`schedule` came out. -/

namespace AosKernel.Fd

open Lib Lib.ByteStore Vfs
open Proc (SyscallRegs einval efault eagain)

def eacces : Int := 13
def eisdir : Int := 21

/-! ## Pipes -/

namespace PipeObject

/-- The loop of `sys_read` on a pipe, for at most `n` bytes. -/
def take : Nat → PipeObject → List UInt8 × PipeObject
  | 0, p => ([], p)
  | n + 1, p =>
      if p.size = 0 then ([], p)
      else
        let r := take n { p with readPos := (p.readPos + 1) % pipeCapacity, size := p.size - 1 }
        (p.buffer p.readPos :: r.1, r.2)

/-- The loop of `sys_write` on a pipe, with the number of bytes it stores. -/
def put : List UInt8 → PipeObject → Nat × PipeObject
  | [], p => (0, p)
  | b :: bs, p =>
      if p.size < pipeCapacity then
        let r := put bs { p with
          buffer := Function.update p.buffer p.writePos b
          writePos := (p.writePos + 1) % pipeCapacity
          size := p.size + 1 }
        (r.1 + 1, r.2)
      else (0, p)

end PipeObject

/-! ## Files -/

/-- The functions below the VFS nodes: `vfs_read_node`, `vfs_write_node` with the bytes written and
the new size, and the resize calls of `sys_ftruncate`. -/
structure FileSystem (σ : Type) where
  readNode : VfsNode → Nat → Nat → σ → Option (List UInt8)
  writeNode : VfsNode → Nat → List UInt8 → σ → Option (Nat × Nat) × σ
  resizeNode : VfsNode → Nat → σ → Bool × σ

/-- What a transfer works on. -/
structure IoState (σ : Type) extends FdState where
  fs : σ

/-- What the calls ask of the rest of the kernel: `user_can_mutate_path` for the caller, the random
numbers, the terminal, and the network. -/
structure Surroundings where
  canMutate : CString → Bool
  random : Nat → List UInt8
  ttyRead : Nat → List UInt8
  ttyWrite : List UInt8 → Int
  sender : Sender
  tcp : Nat → TcpTransfer

/-- What becomes of a transfer: the value it returns and the registers it returns with, the bytes
moved, and the registers of its calls of `schedule`. -/
structure IoReply where
  value : Int
  regs : SyscallRegs
  bytes : List UInt8
  saved : List SyscallRegs

/-- A transfer that returns with the registers it was called with. -/
def IoReply.returned (regs : SyscallRegs) (value : Int) (bytes : List UInt8) : IoReply :=
  ⟨value, regs, bytes, []⟩

/-- The registers with the return address back at the `syscall` instruction. -/
def rewind (regs : SyscallRegs) : SyscallRegs :=
  { regs with rcx := if regs.rcx ≥ 2 then regs.rcx - 2 else regs.rcx }

/-- A transfer that waits, and returns `value` if no other process is ready. -/
def IoReply.waits (regs : SyscallRegs) (value : Int) : IoReply :=
  ⟨value, rewind regs, [], [rewind regs]⟩

def writableBackend : Backend → Bool
  | .aosfs | .tmpfs | .fat32 | .ext4 => true
  | _ => false

/-- A part of a `readv`: its address and length. -/
structure ReadVec where
  base : UInt64
  length : UInt64

/-- A part of a `writev`: its address and bytes. -/
structure WriteVec where
  base : UInt64
  data : List UInt8

namespace IoState

variable {σ : Type}

def withObjects (s : IoState σ) (o : FdObjects) : IoState σ := { s with objects := o }

variable (F : FileSystem σ)

/-- `sys_read` on file handle `i`, for `len` bytes: the value, the bytes and the handle. -/
def readFile (h : FileHandle) (len : Nat) (fs : σ) : Int × List UInt8 × FileHandle :=
  if h.node.type ≠ .regular then (-eisdir, [], h)
  else if h.offset ≥ h.node.size then (0, [], h)
  else
    let len := min len (h.node.size - h.offset)
    match F.readNode h.node h.offset len fs with
    | none => (-eio, [], h)
    | some bytes => (len, bytes, { h with offset := h.offset + len })

/-- `sys_write` on a file handle: the value, the handle and the file system. -/
def writeFile (canMutate : CString → Bool) (h : FileHandle)
    (data : List UInt8) (fs : σ) : Int × FileHandle × σ :=
  if h.node.type ≠ .regular then (-eisdir, h, fs)
  else if writableBackend h.node.backend = false then (-eacces, h, fs)
  else if canMutate h.node.path = false then (-eacces, h, fs)
  else
    match F.writeNode h.node h.offset data fs with
    | (none, fs) => (-eio, h, fs)
    | (some (written, newSize), fs) =>
        (written, { h with offset := h.offset + written, node := { h.node with size := newSize } },
          fs)

def readEventfd (regs : SyscallRegs) (len i : Nat) (s : IoState σ) : IoReply × IoState σ :=
  let e := s.objects.eventfds i
  if len < 8 then (.returned regs (-einval) [], s)
  else if e.counter = 0 then
    if e.nonblocking then (.returned regs (-eagain) [], s) else (.waits regs (-eagain), s)
  else
    let value := if e.semaphore then 1 else e.counter
    (.returned regs 8 (leBytes 8 value.toNat),
      s.withObjects (s.objects.setEventfd i { e with counter := e.counter - value }))

def writeEventfd (regs : SyscallRegs) (data : List UInt8) (i : Nat) (s : IoState σ) :
    IoReply × IoState σ :=
  let e := s.objects.eventfds i
  let value := leNat (data.take 8)
  if data.length < 8 then (.returned regs (-einval) [], s)
  else if value = 2 ^ 64 - 1 then (.returned regs (-einval) [], s)
  else if e.counter.toNat > 2 ^ 64 - 2 - value then
    if e.nonblocking then (.returned regs (-eagain) [], s) else (.waits regs (-eagain), s)
  else
    (.returned regs 8 (data.take 8),
      s.withObjects (s.objects.setEventfd i { e with counter := e.counter + UInt64.ofNat value }))

/-! ## Reading -/

def readPipe (regs : SyscallRegs) (len i : Nat) (s : IoState σ) : IoReply × IoState σ :=
  let p := s.objects.pipes i
  if p.size = 0 ∧ p.writeRefs > 0 then (.waits regs 0, s)
  else
    let r := p.take len
    (.returned regs r.1.length r.1, s.withObjects (s.objects.setPipe i r.2))

/-- `sys_read`, with the descriptor and the buffer in `regs`. -/
def sysRead (env : Surroundings) (regs : SyscallRegs) (s : IoState σ) : IoReply × IoState σ :=
  let len := regs.rdx.toNat
  if regs.rsi = 0 then (.returned regs (-efault) [], s)
  else
    match getFdEntry regs.rdi.toNat s.table with
    | none => (.returned regs (-ebadf) [], s)
    | some e =>
        match e.kind with
        | .vnode =>
            match s.objects.getFileHandleByIndex e.handleIndex with
            | none => (.returned regs (-ebadf) [], s)
            | some i =>
                let r := readFile F (s.objects.handles i) len s.fs
                (.returned regs r.1 r.2.1, s.withObjects (s.objects.setHandle i r.2.2))
        | .pipeReader =>
            match s.objects.getPipeObjectByIndex e.handleIndex with
            | none => (.returned regs (-ebadf) [], s)
            | some i => s.readPipe regs len i
        | .null => (.returned regs 0 [], s)
        | .random => (.returned regs len (env.random len), s)
        | .socket =>
            match s.objects.getSocketByIndex e.handleIndex with
            | none => (.returned regs (-ebadf) [], s)
            | some i =>
                let r := s.objects.socketRecvData (env.tcp 0) i ⟨false, len⟩
                (.returned regs r.1 r.2.1, s.withObjects r.2.2)
        | .eventfd =>
            match s.objects.getEventfdObjectByIndex e.handleIndex with
            | none => (.returned regs (-ebadf) [], s)
            | some i => s.readEventfd regs len i
        | .stdin | .tty =>
            if len = 0 then (.returned regs 0 [], s)
            else (.returned regs (env.ttyRead len).length (env.ttyRead len), s)
        | _ => (.returned regs (-ebadf) [], s)

/-! ## Writing -/

def writePipe (regs : SyscallRegs) (data : List UInt8) (i : Nat) (s : IoState σ) :
    IoReply × IoState σ :=
  let p := s.objects.pipes i
  if p.size = pipeCapacity ∧ p.readRefs > 0 then (.waits regs 0, s)
  else
    let r := p.put data
    (.returned regs r.1 (data.take r.1), s.withObjects (s.objects.setPipe i r.2))

/-- `sys_write`, with the descriptor and the buffer in `regs` and the bytes of the buffer. -/
def sysWrite (env : Surroundings) (regs : SyscallRegs) (data : List UInt8)
    (s : IoState σ) : IoReply × IoState σ :=
  match getFdEntry regs.rdi.toNat s.table with
  | none => (.returned regs (-ebadf) [], s)
  | some e =>
      if regs.rsi = 0 then (.returned regs (-efault) [], s)
      else
        match e.kind with
        | .pipeWriter =>
            match s.objects.getPipeObjectByIndex e.handleIndex with
            | none => (.returned regs (-ebadf) [], s)
            | some i => s.writePipe regs data i
        | .vnode =>
            match s.objects.getFileHandleByIndex e.handleIndex with
            | none => (.returned regs (-ebadf) [], s)
            | some i =>
                let r := writeFile F env.canMutate (s.objects.handles i) data s.fs
                (.returned regs r.1 (data.take r.1.toNat),
                  { s with objects := s.objects.setHandle i r.2.1, fs := r.2.2 })
        | .null | .random => (.returned regs data.length data, s)
        | .socket =>
            match s.objects.getSocketByIndex e.handleIndex with
            | none => (.returned regs (-ebadf) [], s)
            | some i =>
                let r := s.objects.socketSendData env.sender (env.tcp 0) i ⟨false, data⟩
                (.returned regs r.1 (data.take r.1.toNat), s.withObjects r.2)
        | .eventfd =>
            match s.objects.getEventfdObjectByIndex e.handleIndex with
            | none => (.returned regs (-ebadf) [], s)
            | some i => s.writeEventfd regs data i
        | .stdout | .stderr | .tty =>
            (.returned regs (env.ttyWrite data) (data.take (env.ttyWrite data).toNat), s)
        | _ => (.returned regs (-ebadf) [], s)

/-! ## Vectors -/

/-- The loop of `sys_readv` and `sys_writev`, for the parts that are left, the bytes moved so far
and the waits so far: `call` is `sys_read` or `sys_write` on one part, with the copy of the
registers that has the address and the length of the part. -/
def vectorLoop {β : Type} (regs : SyscallRegs) (base length : β → UInt64)
    (call : SyscallRegs → β → IoState σ → IoReply × IoState σ) :
    List β → Int → List UInt8 → List SyscallRegs → IoState σ → IoReply × IoState σ
  | [], total, bytes, saved, s => (⟨total, regs, bytes, saved⟩, s)
  | v :: vs, total, bytes, saved, s =>
      if base v = 0 ∧ length v ≠ 0 then (⟨-efault, regs, bytes, saved⟩, s)
      else
        let r := call { regs with rsi := base v, rdx := length v } v s
        let bytes := bytes ++ r.1.bytes
        let saved := saved ++ r.1.saved
        if r.1.value < 0 then
          (⟨if total > 0 then total else r.1.value, regs, bytes, saved⟩, r.2)
        else if r.1.value ≠ (length v).toNat then
          (⟨total + r.1.value, regs, bytes, saved⟩, r.2)
        else vectorLoop regs base length call vs (total + r.1.value) bytes saved r.2

def sysReadv (env : Surroundings) (regs : SyscallRegs) (iov : List ReadVec)
    (s : IoState σ) : IoReply × IoState σ :=
  if regs.rsi = 0 ∧ iov ≠ [] then (.returned regs (-efault) [], s)
  else if iov.length > 64 then (.returned regs (-einval) [], s)
  else
    vectorLoop regs ReadVec.base ReadVec.length (fun regs _ s => s.sysRead F env regs) iov 0 [] [] s

def sysWritev (env : Surroundings) (regs : SyscallRegs) (iov : List WriteVec)
    (s : IoState σ) : IoReply × IoState σ :=
  if regs.rsi = 0 ∧ iov ≠ [] then (.returned regs (-efault) [], s)
  else if iov.length > 64 then (.returned regs (-einval) [], s)
  else
    vectorLoop regs WriteVec.base (fun v => UInt64.ofNat v.data.length)
      (fun regs v s => s.sysWrite F env regs v.data) iov 0 [] [] s

/-! ## Position and size -/

def getVnodeHandle (fd : Nat) (s : IoState σ) : Option Nat :=
  match getFdEntry fd s.table with
  | none => none
  | some e => if e.kind ≠ .vnode then none else s.objects.getFileHandleByIndex e.handleIndex

/-- The position that `sys_lseek` adds its offset to. -/
def seekBase (h : FileHandle) (whence : UInt64) : Int :=
  if whence = 0 then 0 else if whence = 1 then h.offset else h.node.size

def sysLseek (fd : Nat) (offset : Int) (whence : UInt64) (s : IoState σ) : Int × IoState σ :=
  match s.getVnodeHandle fd with
  | none => (-ebadf, s)
  | some i =>
      let h := s.objects.handles i
      if h.node.type ≠ .regular then (-einval, s)
      else if whence > 2 then (-einval, s)
      else
        let target := Int.bmod (seekBase h whence + offset) (2 ^ 64)
        if target < 0 then (-einval, s)
        else (target, s.withObjects (s.objects.setHandle i { h with offset := target.toNat }))

/-- The handles after `sys_ftruncate`: those of the same inode have the new size. -/
def resizeHandles (node : VfsNode) (newSize : Nat) (handles : Nat → FileHandle) (i : Nat) :
    FileHandle :=
  let h := handles i
  if i < maxFileHandles ∧ h.inUse ∧ h.node.backend = node.backend ∧ h.node.inode = node.inode then
    { h with node := { h.node with size := newSize } }
  else h

def sysFtruncate (fd : Nat) (size : Int) (s : IoState σ) : Int × IoState σ :=
  match s.getVnodeHandle fd with
  | none => (-ebadf, s)
  | some i =>
      let h := s.objects.handles i
      if h.node.type ≠ .regular then (-einval, s)
      else if h.openFlags &&& 3 = 0 then (-einval, s)
      else if size < 0 ∨ size > 2 ^ 32 - 1 then (-einval, s)
      else
        match F.resizeNode h.node size.toNat s.fs with
        | (false, fs) => (-eio, { s with fs := fs })
        | (true, fs) =>
            (0, { s with
              fs := fs
              objects := { s.objects with
                handles := resizeHandles h.node size.toNat s.objects.handles } })

end IoState

end AosKernel.Fd
