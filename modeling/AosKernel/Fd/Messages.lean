import AosKernel.Process.Table

/-!
# Messages with descriptors

`socket_send_data`, `socket_recv_data`, `sys_sendmsg` and `sys_recvmsg` of
`kernel/syscall/network.c`. Local sockets are modelled in full: the bytes, the sender's credentials
and the descriptors in transit. What a TCP transfer does is an argument (`TcpTransfer`).

The calls that make, copy and close descriptors work on the table of the current process and on the
object tables. There is no `accept` and no close-on-exec in this kernel: `O_CLOEXEC` and its
relatives are admitted and have no effect. -/

namespace AosKernel.Fd

open Lib Vfs
open Proc (einval efault eagain)

/-! ## Constants -/

def eio : Int := 5
def ebadf : Int := 9
def emfile : Int := 24

def efdSemaphore : UInt32 := 1
def efdNonblock : UInt32 := 0x800
def efdCloexec : UInt32 := 0x80000
def sockNonblock : UInt32 := 0x800
def sockCloexec : UInt32 := 0x80000
def sockTypeMask : UInt32 := 0xF
def sockStream : UInt32 := 1
def sockDgram : UInt32 := 2
def sockSeqpacket : UInt32 := 5
def afInet : Nat := 2
def afInet6 : Nat := 10
def ipprotoTcp : Nat := 6
def socketTcpPortFirst : Nat := 40002
def socketTcpPortLast : Nat := 60000

/-! ## Tables -/

/-- What a descriptor call works on: the table of the calling process and the objects. -/
structure FdState where
  table : FdTable
  objects : FdObjects

def allocateFdSlot (start : Nat) (table : FdTable) : Option Nat :=
  ((List.range processFdMax).drop start).find? fun fd => (table fd).kind == .free

def getFdEntry (fd : Nat) (table : FdTable) : Option FdEntry :=
  if fd ≥ processFdMax then none
  else if (table fd).kind = .free then none
  else some (table fd)

def freeObject (max : Nat) (inUse : Nat → Bool) : Option Nat :=
  (List.range max).find? fun i => !inUse i

def PipeObject.opened : PipeObject :=
  { PipeObject.zero with inUse := true, readRefs := 1, writeRefs := 1 }

namespace FdState

def setEntry (s : FdState) (fd : Nat) (e : FdEntry) : FdState :=
  { s with table := Function.update s.table fd e }

/-! ## Opening -/

def installVnodeFd (node : VfsNode) (openFlags : UInt64) (s : FdState) : Int × FdState :=
  match freeObject maxFileHandles fun i => (s.objects.handles i).inUse with
  | none => (-emfile, s)
  | some handle =>
      match allocateFdSlot 3 s.table with
      | none => (-emfile, s)
      | some fd =>
          (fd, { s with
            objects := s.objects.setHandle handle ⟨true, 0, 1, 0, openFlags, node⟩ }.setEntry fd
              ⟨.vnode, handle⟩)

def installDeviceFd (kind : FdKind) (deviceId : Int) (s : FdState) : Int × FdState :=
  match allocateFdSlot 3 s.table with
  | none => (-emfile, s)
  | some fd => (fd, s.setEntry fd ⟨kind, deviceId⟩)

def sysEventfd2 (initialValue flags : UInt32) (s : FdState) : Int × FdState :=
  if flags &&& ~~~(efdSemaphore ||| efdNonblock ||| efdCloexec) ≠ 0 then (-einval, s)
  else
    match freeObject maxEventfdObjects fun i => (s.objects.eventfds i).inUse with
    | none => (-emfile, s)
    | some object =>
        match allocateFdSlot 3 s.table with
        | none => (-emfile, s)
        | some fd =>
            (fd, { s with
              objects := s.objects.setEventfd object
                ⟨true, flags &&& efdSemaphore != 0, flags &&& efdNonblock != 0, 1,
                  initialValue.toUInt64⟩ }.setEntry fd ⟨.eventfd, object⟩)

/-- `sys_pipe`, with the address of the two integers; the descriptors it stores there are part of
the result. -/
def sysPipe (userPipefd : UInt64) (s : FdState) : Int × List Nat × FdState :=
  if userPipefd = 0 then (-efault, [], s)
  else
    match freeObject maxPipeObjects fun i => (s.objects.pipes i).inUse with
    | none => (-emfile, [], s)
    | some pipe =>
        match allocateFdSlot 3 s.table with
        | none => (-emfile, [], s)
        | some readFd =>
            let s := s.setEntry readFd { s.table readFd with kind := .free }
            match allocateFdSlot (readFd + 1) s.table with
            | none => (-emfile, [], s)
            | some writeFd =>
                let s := { s with objects := s.objects.setPipe pipe PipeObject.opened }
                (0, [readFd, writeFd],
                  (s.setEntry readFd ⟨.pipeReader, pipe⟩).setEntry writeFd ⟨.pipeWriter, pipe⟩)

def sysPipe2 (userPipefd flags : UInt64) (s : FdState) : Int × List Nat × FdState :=
  if flags &&& ~~~(sockNonblock ||| sockCloexec).toUInt64 ≠ 0 then (-einval, [], s)
  else s.sysPipe userPipefd

/-! ## Sockets -/

/-- `allocate_socket_port`, on a 16-bit counter. -/
def allocateSocketPort (o : FdObjects) : Nat × FdObjects :=
  let next := (o.nextPort + 1) % 2 ^ 16
  (o.nextPort, { o with
    nextPort :=
      if next < socketTcpPortFirst ∨ next > socketTcpPortLast then socketTcpPortFirst else next })

def unixType (baseType : UInt32) : Bool :=
  baseType == sockStream || baseType == sockDgram || baseType == sockSeqpacket

/-- The argument checks of `install_socket_fd`. -/
def socketArgumentsValid (family : Nat) (type : UInt32) (protocol : Nat) : Bool :=
  let baseType := type &&& sockTypeMask
  (family == afUnix || family == afInet || family == afInet6) &&
  (if family == afUnix then unixType baseType else baseType == sockStream) &&
  type &&& ~~~(sockTypeMask ||| sockNonblock ||| sockCloexec) == 0 &&
  (if family == afUnix then protocol == 0 else protocol == 0 || protocol == ipprotoTcp)

/-- `install_socket_fd`. The arguments are the registers as 32-bit numbers. -/
def installSocketFd (family : Nat) (type : UInt32) (protocol : Nat) (s : FdState) : Int × FdState :=
  if socketArgumentsValid family type protocol = false then (-einval, s)
  else
    match freeObject maxSocketObjects fun i => (s.objects.sockets i).inUse with
    | none => (-emfile, s)
    | some socket =>
        match allocateFdSlot 3 s.table with
        | none => (-emfile, s)
        | some fd =>
            let (port, objects) := allocateSocketPort s.objects
            (fd, { s with
              objects := objects.setSocket socket { SocketObject.zero with
                inUse := true
                state := .created
                family := family
                type := (type &&& sockTypeMask).toNat
                protocol := if family = afUnix then 0 else ipprotoTcp
                refcount := 1
                peerIndex := -1
                localPort := port } }.setEntry fd ⟨.socket, socket⟩)

/-- One end of a pair that `sys_socketpair` makes. -/
def pairedSocket (baseType : UInt32) (peer : Nat) : SocketObject :=
  { SocketObject.zero with
    inUse := true
    state := .connected
    family := afUnix
    type := baseType.toNat
    refcount := 1
    peerIndex := peer }

/-- `sys_socketpair`; the descriptors it stores at `userFds` are part of the result. -/
def sysSocketpair (domain : Nat) (type : UInt32) (protocol : Nat) (userFds : UInt64)
    (s : FdState) : Int × List Nat × FdState :=
  let baseType := type &&& sockTypeMask
  if userFds = 0 then (-efault, [], s)
  else if domain ≠ afUnix ∨ protocol ≠ 0 ∨
      type &&& ~~~(sockTypeMask ||| sockNonblock ||| sockCloexec) ≠ 0 ∨
      unixType baseType = false then (-einval, [], s)
  else
    let unused := (List.range maxSocketObjects).filter fun i => !(s.objects.sockets i).inUse
    match unused with
    | first :: second :: _ =>
        match allocateFdSlot 3 s.table with
        | none => (-emfile, [], s)
        | some firstFd =>
            match allocateFdSlot (firstFd + 1) s.table with
            | none => (-emfile, [], s)
            | some secondFd =>
                let objects := (s.objects.setSocket first (pairedSocket baseType second)).setSocket
                  second (pairedSocket baseType first)
                (0, [firstFd, secondFd],
                  ({ s with objects := objects }.setEntry firstFd ⟨.socket, first⟩).setEntry
                    secondFd ⟨.socket, second⟩)
    | _ => (-emfile, [], s)

/-! ## Copying and closing -/

def closeFdInternal (fd : Nat) (s : FdState) : FdState :=
  match getFdEntry fd s.table with
  | none => s
  | some e =>
      { s with objects := s.objects.releaseFdEntryRefs e }.setEntry fd FdEntry.closed

/-- The end of `dup_fd_common`, with the target chosen. -/
def dupInto (old : FdEntry) (target : Nat) (s : FdState) : Int × FdState :=
  let s := { s with objects := s.objects.retainFdEntryRefs old }.setEntry target old
  if old.kind = .vnode ∧ s.objects.getFileHandleByIndex old.handleIndex = none then
    (-ebadf, s.setEntry target FdEntry.closed)
  else (target, s)

def dupFdCommon (oldfd : Nat) (requested : Int) (overwrite : Bool) (s : FdState) : Int × FdState :=
  match getFdEntry oldfd s.table with
  | none => (-ebadf, s)
  | some old =>
      if requested ≥ 0 then
        let target := requested.toNat
        if target ≥ processFdMax then (-ebadf, s)
        else if target = oldfd then (requested, s)
        else if overwrite then (s.closeFdInternal target).dupInto old target
        else if (s.table target).kind ≠ .free then (-emfile, s)
        else s.dupInto old target
      else
        match allocateFdSlot 0 s.table with
        | none => (-emfile, s)
        | some target => s.dupInto old target

def sysDup (oldfd : Nat) (s : FdState) : Int × FdState := s.dupFdCommon oldfd (-1) false

def sysDup2 (oldfd : Nat) (newfd : Int) (s : FdState) : Int × FdState :=
  s.dupFdCommon oldfd newfd true

def sysFcntl (fd : Nat) (cmd : UInt64) (s : FdState) : Int × FdState :=
  match getFdEntry fd s.table with
  | none => (-ebadf, s)
  | some e =>
      if cmd = 0 then s.dupFdCommon fd (-1) false
      else if cmd = 1 ∨ cmd = 2 ∨ cmd = 4 then (0, s)
      else if cmd = 3 then
        if e.kind = .eventfd then
          match s.objects.getEventfdObjectByIndex e.handleIndex with
          | none => (-ebadf, s)
          | some i => (if (s.objects.eventfds i).nonblocking then efdNonblock.toNat else 0, s)
        else (0, s)
      else (-einval, s)

def sysClose (fd : Nat) (s : FdState) : Int × FdState :=
  match getFdEntry fd s.table with
  | none => (-ebadf, s)
  | some _ => (0, s.closeFdInternal fd)

end FdState

/-! ## Messages -/

def epipe : Int := 32
def solSocket : Nat := 1
def scmRights : Nat := 1
def scmCredentials : Nat := 2
def msgCtrunc : Nat := 0x08
def cmsghdrSize : Nat := 16

def sockCmsgAlign (value : Nat) : Nat := (value + 7) / 8 * 8

/-! ## Transfers -/

/-- The calling process as a sender of messages. -/
structure Sender where
  pid : UInt32
  uid : UInt32
  gid : UInt32

/-- What one transfer of a TCP socket comes to: the value returned, the bytes received, and the
state and the receive buffer it leaves in the socket. -/
structure TcpTransfer where
  value : Int
  bytes : List UInt8
  state : SocketState
  rxBuffer : RxBuffer

/-- One part of a message: whether its address is `NULL`, and its bytes. -/
structure SendVec where
  null : Bool
  data : List UInt8

/-- One buffer of a receiver: whether its address is `NULL`, and its length. -/
structure RecvVec where
  null : Bool
  length : Nat

namespace FdObjects

def afterTcp (o : FdObjects) (i : Nat) (tcp : TcpTransfer) : FdObjects :=
  o.setSocket i { o.sockets i with state := tcp.state, rxBuffer := tcp.rxBuffer }

def recordSenderCredentials (sender : Sender) (receiver : SocketObject) : SocketObject :=
  if receiver.passCredentials = false ∨ receiver.rxCredentialsValid then receiver
  else { receiver with
    rxCredentialsValid := true
    rxSenderPid := sender.pid
    rxSenderUid := sender.uid
    rxSenderGid := sender.gid }

/-- `socket_send_data`, for a socket in use. -/
def socketSendData (sender : Sender) (tcp : TcpTransfer) (i : Nat) (v : SendVec) (o : FdObjects) :
    Int × FdObjects :=
  let sock := o.sockets i
  if sock.state ≠ .connected then (-ebadf, o)
  else if sock.writeShutdown then (-epipe, o)
  else if v.null ∧ v.data ≠ [] then (-efault, o)
  else if sock.family = afUnix then
    match o.getSocketByIndex sock.peerIndex with
    | none => (-epipe, o)
    | some peer =>
        let receiver := o.sockets peer
        if receiver.state = .closed then (-epipe, o)
        else
          let rx := receiver.rxBuffer.compact
          let copied := min (socketRxBufferSize - rx.len) v.data.length
          if copied = 0 ∧ v.data ≠ [] then
            (-eagain, o.setSocket peer { receiver with rxBuffer := rx })
          else
            (copied, o.setSocket peer (recordSenderCredentials sender
              { receiver with rxBuffer := rx.store v.data }))
  else (tcp.value, o.afterTcp i tcp)

/-- `socket_recv_data`, for a socket in use, with the bytes it stores in the buffer. -/
def socketRecvData (tcp : TcpTransfer) (i : Nat) (v : RecvVec) (o : FdObjects) :
    Int × List UInt8 × FdObjects :=
  let sock := o.sockets i
  if sock.readShutdown then (0, [], o)
  else if sock.state = .closed ∧ sock.rxBuffer.off ≥ sock.rxBuffer.len then (0, [], o)
  else if sock.state ≠ .connected ∧ sock.state ≠ .closed then (-ebadf, [], o)
  else if v.null ∧ v.length > 0 then (-efault, [], o)
  else if v.length = 0 then (0, [], o)
  else if sock.family = afUnix then
    let rx := sock.rxBuffer
    if rx.available v.length ≠ 0 then
      (rx.available v.length, ByteStore.slice rx.bytes rx.off (rx.available v.length),
        o.setSocket i { sock with rxBuffer := rx.read v.length })
    else
      match o.getSocketByIndex sock.peerIndex with
      | none => (0, [], o)
      | some peer =>
          if (o.sockets peer).state = .closed ∨ (o.sockets peer).writeShutdown then (0, [], o)
          else (-eagain, [], o)
  else (tcp.value, tcp.bytes, o.afterTcp i tcp)

end FdObjects

/-! ## Rights -/

def words32 : Nat → List UInt8 → List Nat
  | 0, _ => []
  | n + 1, bytes => leNat (bytes.take 4) :: words32 n (bytes.drop 4)

/-- The entries of the descriptors in one `SCM_RIGHTS` message, after those found before. A word
from `2 ^ 31` on is a negative descriptor. -/
def collectRights (table : FdTable) : List Nat → List FdEntry → Except Int (List FdEntry)
  | [], entries => .ok entries
  | fd :: fds, entries =>
      if fd ≥ 2 ^ 31 then .error (-ebadf)
      else
        match getFdEntry fd table with
        | none => .error (-ebadf)
        | some e => collectRights table fds (entries ++ [e])

/-- One control message of `socket_parse_rights`, with its type and its data. -/
def parseControl (table : FdTable) (type : Nat) (data : List UInt8) (entries : List FdEntry) :
    Except Int (List FdEntry) :=
  if type = scmRights then
    if data.length % 4 ≠ 0 then .error (-einval)
    else if data.length / 4 > socketAncillaryFdMax - entries.length then .error (-einval)
    else collectRights table (words32 (data.length / 4) data) entries
  else if type ≠ scmCredentials then .error (-einval)
  else .ok entries

/-- The loop of `socket_parse_rights`, over the control bytes that remain. -/
def parseControls (table : FdTable) : Nat → List UInt8 → List FdEntry → Except Int (List FdEntry)
  | 0, _, entries => .ok entries
  | fuel + 1, control, entries =>
      if control.length < cmsghdrSize then .ok entries
      else
        let length := leNat (control.take 8)
        let level := leNat ((control.drop 8).take 4)
        let type := leNat ((control.drop 12).take 4)
        if length < cmsghdrSize ∨ length > control.length then .error (-einval)
        else if level ≠ solSocket then .error (-einval)
        else
          match parseControl table type ((control.take length).drop cmsghdrSize) entries with
          | .error e => .error e
          | .ok entries =>
              if sockCmsgAlign length > control.length then .ok entries
              else parseControls table fuel (control.drop (sockCmsgAlign length)) entries

/-- `socket_parse_rights`. Every message takes at least its header, so the bytes bound the loop. -/
def socketParseRights (table : FdTable) (null : Bool) (control : List UInt8) :
    Except Int (List FdEntry) :=
  if control = [] then .ok []
  else if null then .error (-efault)
  else parseControls table control.length control []

/-! ## Sending -/

/-- `struct linux_msghdr` of a sender. -/
structure SendMessage where
  iovNull : Bool
  iov : List SendVec
  controlNull : Bool
  control : List UInt8

/-- The loop of `sys_sendmsg`: `.error` is an early return of the call, `.ok` the number of bytes
sent. -/
def sendVecs (sender : Sender) (tcp : Nat → TcpTransfer) (i : Nat) :
    List SendVec → Nat → FdObjects → Except Int Nat × FdObjects
  | [], sent, o => (.ok sent, o)
  | v :: vs, sent, o =>
      if v.null ∧ v.data ≠ [] then (.error (if sent ≠ 0 then sent else -efault), o)
      else
        let (result, o) := o.socketSendData sender (tcp vs.length) i v
        if result < 0 then (.error (if sent ≠ 0 then sent else result), o)
        else if result.toNat ≠ v.data.length then (.ok (sent + result.toNat), o)
        else sendVecs sender tcp i vs (sent + result.toNat) o

namespace FdObjects

/-- Whether socket `i` has no peer, or one that holds descriptors already. -/
def peerRefusesRights (o : FdObjects) (i : Nat) : Bool :=
  match o.getSocketByIndex (o.sockets i).peerIndex with
  | none => true
  | some peer => !(o.sockets peer).rxAncillaryFds.isEmpty

/-- The end of `sys_sendmsg`: the entries go to the peer of socket `i`, each with a reference of its
own. -/
def attachRights (i : Nat) (rights : List FdEntry) (o : FdObjects) : Option FdObjects :=
  match o.getSocketByIndex (o.sockets i).peerIndex with
  | none => none
  | some peer =>
      let o := rights.foldl (fun o e => o.retainFdEntryRefs e) o
      some (o.setSocket peer { o.sockets peer with rxAncillaryFds := rights })

end FdObjects

namespace FdState

def getSocketForFd (fd : Nat) (s : FdState) : Option Nat :=
  match getFdEntry fd s.table with
  | none => none
  | some e => if e.kind ≠ .socket then none else s.objects.getSocketByIndex e.handleIndex

/-- `sys_sendmsg` from the loop over the message on, with the descriptors to pass. -/
def sendRights (sender : Sender) (tcp : Nat → TcpTransfer) (i : Nat) (iov : List SendVec)
    (rights : List FdEntry) (s : FdState) : Int × FdState :=
  match sendVecs sender tcp i iov 0 s.objects with
  | (.error value, o) => (value, { s with objects := o })
  | (.ok sent, o) =>
      let (result, o) :=
        if iov = [] then o.socketSendData sender (tcp 0) i ⟨true, []⟩ else (0, o)
      if result < 0 then (result, { s with objects := o })
      else if rights = [] then (sent, { s with objects := o })
      else
        match o.attachRights i rights with
        | none => (-epipe, { s with objects := o })
        | some o => (sent, { s with objects := o })

/-- `sys_sendmsg`; `none` is a `NULL` message. -/
def sysSendmsg (sender : Sender) (tcp : Nat → TcpTransfer) (fd : Nat)
    (message : Option SendMessage) (s : FdState) : Int × FdState :=
  match s.getSocketForFd fd, message with
  | none, _ => (-ebadf, s)
  | some _, none => (-efault, s)
  | some i, some m =>
      if m.iov.length > 16 ∨ (m.iov ≠ [] ∧ m.iovNull) then (-einval, s)
      else
        match socketParseRights s.table m.controlNull m.control with
        | .error e => (e, s)
        | .ok rights =>
            if rights ≠ [] ∧ (s.objects.sockets i).family ≠ afUnix then (-einval, s)
            else if rights ≠ [] ∧ s.objects.peerRefusesRights i then (-eagain, s)
            else s.sendRights sender tcp i m.iov rights

/-! ## Receiving -/

/-- `socket_write_control_message`, as the number of control bytes it uses. -/
def controlSpace (null : Bool) (capacity dataLength : Nat) : Nat :=
  let space := sockCmsgAlign (cmsghdrSize + dataLength)
  if null ∨ capacity < space then 0 else space

end FdState

/-- `struct linux_msghdr` of a receiver. -/
structure RecvMessage where
  iovNull : Bool
  iov : List RecvVec
  controlNull : Bool
  controlLength : Nat

/-- What `sys_recvmsg` gives to its caller: the value, the bytes, the flags and the control length
of the header, the credentials and the new descriptors. -/
structure RecvReply where
  value : Int
  bytes : List UInt8
  flags : Nat
  controlLength : Nat
  credentials : Option Sender
  fds : List Nat

def RecvReply.early (value : Int) (bytes : List UInt8) : RecvReply := ⟨value, bytes, 0, 0, none, []⟩

/-- The loop of `sys_recvmsg`: `.error` is an early return of the call, `.ok` the number of bytes
received. -/
def recvVecs (tcp : Nat → TcpTransfer) (i : Nat) :
    List RecvVec → Nat → List UInt8 → FdObjects → Except Int Nat × List UInt8 × FdObjects
  | [], received, bytes, o => (.ok received, bytes, o)
  | v :: vs, received, bytes, o =>
      if v.null ∧ v.length ≠ 0 then
        (.error (if received ≠ 0 then received else -efault), bytes, o)
      else
        let (result, more, o) := o.socketRecvData (tcp vs.length) i v
        if result < 0 then
          if received = 0 ∧ (o.sockets i).rxCredentialsValid = false ∧
              (o.sockets i).rxAncillaryFds = [] then (.error result, bytes, o)
          else (.ok received, bytes, o)
        else if result.toNat ≠ v.length then (.ok (received + result.toNat), bytes ++ more, o)
        else recvVecs tcp i vs (received + result.toNat) (bytes ++ more) o

namespace FdObjects

/-- One round of the release of the descriptors in transit of socket `i`: entry `j`, in place. -/
def releasePending (i : Nat) (o : FdObjects) (j : Nat) : FdObjects :=
  let o := o.releaseFdEntryRefs ((o.sockets i).rxAncillaryFds.getD j FdEntry.closed)
  o.setSocket i { o.sockets i with
    rxAncillaryFds := (o.sockets i).rxAncillaryFds.set j FdEntry.closed }

def clearPending (i : Nat) (o : FdObjects) : FdObjects :=
  o.setSocket i { o.sockets i with rxAncillaryFds := [] }

end FdObjects

namespace FdState

def freeFds (count : Nat) (table : FdTable) : List Nat :=
  ((List.range processFdMax).filter fun fd => (table fd).kind == .free).take count

def installEntries (fds : List Nat) (es : List FdEntry) (s : FdState) : FdState :=
  (fds.zip es).foldl (fun s fe => s.setEntry fe.1 fe.2) s

/-- The end of `sys_recvmsg` for the descriptors in transit of socket `i`, with the control space
that is left. It returns the new descriptors, or `none` if they were dropped. -/
def takeRights (i : Nat) (null : Bool) (capacity : Nat) (s : FdState) :
    Option (List Nat) × FdState :=
  let pending := (s.objects.sockets i).rxAncillaryFds
  let fds := freeFds pending.length s.table
  if null ∨ capacity < sockCmsgAlign (cmsghdrSize + 4 * pending.length) ∨
      fds.length ≠ pending.length then
    (none, { s with
      objects := ((List.range pending.length).foldl (FdObjects.releasePending i)
        s.objects).clearPending i })
  else
    (some fds, { s.installEntries fds pending with objects := s.objects.clearPending i })

/-- The end of `sys_recvmsg`, after the loop over the message. -/
def recvControl (i : Nat) (m : RecvMessage) (received : Nat) (bytes : List UInt8) (s : FdState) :
    RecvReply × FdState :=
  let sock := s.objects.sockets i
  let used := if sock.rxCredentialsValid then controlSpace m.controlNull m.controlLength 12 else 0
  let flags := if sock.rxCredentialsValid ∧ used = 0 then msgCtrunc else 0
  let credentials :=
    if sock.rxCredentialsValid ∧ used ≠ 0 then
      some ⟨sock.rxSenderPid, sock.rxSenderUid, sock.rxSenderGid⟩
    else none
  let s := { s with objects := s.objects.setSocket i { sock with rxCredentialsValid := false } }
  if sock.rxAncillaryFds = [] then (⟨received, bytes, flags, used, credentials, []⟩, s)
  else
    match s.takeRights i m.controlNull (m.controlLength - used) with
    | (none, s) => (⟨received, bytes, msgCtrunc, used, credentials, []⟩, s)
    | (some fds, s) =>
        (⟨received, bytes, flags,
          used + controlSpace m.controlNull (m.controlLength - used) (4 * fds.length),
          credentials, fds⟩, s)

/-- `sys_recvmsg`; `none` is a `NULL` message. -/
def sysRecvmsg (tcp : Nat → TcpTransfer) (fd : Nat) (message : Option RecvMessage) (s : FdState) :
    RecvReply × FdState :=
  match s.getSocketForFd fd, message with
  | none, _ => (RecvReply.early (-ebadf) [], s)
  | some _, none => (RecvReply.early (-efault) [], s)
  | some i, some m =>
      if m.iov.length > 16 ∨ (m.iov ≠ [] ∧ m.iovNull) then (RecvReply.early (-einval) [], s)
      else
        match recvVecs tcp i m.iov 0 [] s.objects with
        | (.error value, bytes, o) => (RecvReply.early value bytes, { s with objects := o })
        | (.ok received, bytes, o) => { s with objects := o }.recvControl i m received bytes

end FdState

end AosKernel.Fd
