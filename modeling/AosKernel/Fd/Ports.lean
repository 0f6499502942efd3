import AosKernel.Fd.Passing

/-!
# Local ports

`install_socket_fd` gives every socket a local port from a counter that goes round
(`allocate_socket_port`), and nothing asks whether a port is still in use. `step_exclusivePorts_iff`
is about one creation or close; `ports_exclusive_iff` is the same for whole runs, with the receiver
of a segment (`sock_parse_tcp_frame`) as a consequence. -/

namespace AosKernel.Fd

open Lib Vfs Function FdObjects FdState

/-! ## Releases -/

namespace FdObjects

/-- A relation that the elementary changes of a release stay in: those of the other tables, and a
socket that is marked as closed, loses a reference, or is cleared. -/
structure ReleaseRel (R : FdObjects → FdObjects → Prop) : Prop where
  trans : ∀ {o o' o'' : FdObjects}, R o o' → R o' o'' → R o o''
  others : ∀ {o o' : FdObjects}, o'.sockets = o.sockets → R o o'
  closed : ∀ (o : FdObjects) (i : Nat), R o (o.setSocket i { o.sockets i with state := .closed })
  dropped : ∀ (o : FdObjects) (i n : Nat), R o (o.setSocket i { o.sockets i with refcount := n })
  cleared : ∀ (o : FdObjects) (i : Nat), R o (o.setSocket i SocketObject.zero)

namespace ReleaseRel

variable {R : FdObjects → FdObjects → Prop}

section

variable (h : ReleaseRel R)
include h

lemma refl (o : FdObjects) : R o o := h.others rfl

lemma foldl {α : Type} {f : FdObjects → α → FdObjects} (hf : ∀ o a, R o (f o a)) (l : List α)
    (o : FdObjects) : R o (l.foldl f o) := by
  induction l generalizing o with
  | nil => exact h.refl o
  | cons a l ih => exact h.trans (hf o a) (ih (f o a))

lemma closeSocketState (o : FdObjects) (i : Nat) : R o (o.closeSocketState i) := by
  simp only [FdObjects.closeSocketState]
  split
  · split
    · exact h.closed o i
    · exact h.trans (h.closed o _) (h.closed _ i)
  · exact h.closed o i

variable {release : FdEntry → FdObjects → FdObjects}

lemma releaseSocketRefWith (hrel : ∀ e o, R o (release e o)) (o : FdObjects) (index : Int) :
    R o (FdObjects.releaseSocketRefWith release o index) := by
  simp only [FdObjects.releaseSocketRefWith]
  split
  · exact h.refl o
  · split
    · exact h.trans (h.cleared o _) (h.foldl (fun o e => hrel e o) _ _)
    · exact h.dropped o _ _

lemma closeSocketRefWith (hrel : ∀ e o, R o (release e o)) (o : FdObjects) (index : Int) :
    R o (FdObjects.closeSocketRefWith release o index) := by
  simp only [FdObjects.closeSocketRefWith]
  split
  · exact h.refl o
  refine h.trans ?_ (h.releaseSocketRefWith hrel _ index)
  split
  · exact h.closeSocketState o _
  · exact h.refl o

/-- A release stays in the relation. The sockets that hang on a cleared one are released in turn, so
the induction is on the depth. -/
lemma releaseEntry (fuel : Nat) (e : FdEntry) (o : FdObjects) :
    R o (FdObjects.releaseEntry fuel e o) := by
  induction fuel generalizing e o with
  | zero => exact h.refl o
  | succ fuel ih =>
    unfold FdObjects.releaseEntry
    split
    · exact h.others (releaseFileHandle_sockets o _)
    · exact h.others (releasePipeRef_sockets o _ _)
    · exact h.others (releasePipeRef_sockets o _ _)
    · exact h.closeSocketRefWith ih o _
    · exact h.others (releaseEventfdRef_sockets o _)
    · exact h.refl o

lemma closeFdInternal (fd : Nat) (s : FdState) : R s.objects (s.closeFdInternal fd).objects := by
  unfold FdState.closeFdInternal
  split
  · exact h.refl _
  · exact h.releaseEntry _ _ _

end

end ReleaseRel

end FdObjects

/-! ## Ports of TCP sockets -/

/-- An INET or INET6 stream socket in use. -/
def SocketObject.IsTcp (s : SocketObject) : Prop :=
  s.inUse = true ∧ (s.family = afInet ∨ s.family = afInet6) ∧ s.type = sockStream.toNat

namespace FdObjects

def ExclusivePorts (o : FdObjects) : Prop :=
  ∀ i j, (o.sockets i).IsTcp → (o.sockets j).IsTcp →
    (o.sockets i).localPort = (o.sockets j).localPort → i = j

def PortFree (o : FdObjects) : Prop :=
  ∀ i, (o.sockets i).IsTcp → (o.sockets i).localPort ≠ o.nextPort

/-- No TCP socket is new or has another port. -/
def KeepsPorts (o o' : FdObjects) : Prop :=
  ∀ i, (o'.sockets i).IsTcp →
    (o.sockets i).IsTcp ∧ (o'.sockets i).localPort = (o.sockets i).localPort

variable {o o' : FdObjects}

lemma KeepsPorts.exclusivePorts (h : o.KeepsPorts o') (he : o.ExclusivePorts) :
    o'.ExclusivePorts := by
  intro i j hi hj hport
  obtain ⟨hi, hpi⟩ := h i hi
  obtain ⟨hj, hpj⟩ := h j hj
  exact he i j hi hj (hpi.symm.trans (hport.trans hpj))

variable {s : SocketObject}

lemma keepsPorts_setSocket {i : Nat}
    (h : s.IsTcp → (o.sockets i).IsTcp ∧ s.localPort = (o.sockets i).localPort) :
    o.KeepsPorts (o.setSocket i s) := by
  intro j hj
  by_cases hji : j = i
  · subst hji
    simp only [setSocket, update_self] at hj ⊢
    exact h hj
  · have hother : (o.setSocket i s).sockets j = o.sockets j := update_of_ne hji ..
    rw [hother] at hj ⊢
    exact ⟨hj, rfl⟩

lemma not_isTcp_of_not_inUse (h : s.inUse = false) : ¬s.IsTcp := by
  rintro ⟨huse, -⟩
  exact absurd (h.symm.trans huse) Bool.false_ne_true

lemma releaseRel_keepsPorts : ReleaseRel KeepsPorts where
  trans h h' := by
    intro i hi
    obtain ⟨hi, hpi⟩ := h' i hi
    obtain ⟨hi, hpi'⟩ := h i hi
    exact ⟨hi, hpi.trans hpi'⟩
  others hs := by
    intro i hi
    rw [hs] at hi ⊢
    exact ⟨hi, rfl⟩
  closed _ _ := keepsPorts_setSocket fun h => ⟨h, rfl⟩
  dropped _ _ _ := keepsPorts_setSocket fun h => ⟨h, rfl⟩
  cleared _ _ := keepsPorts_setSocket fun h => absurd h (not_isTcp_of_not_inUse rfl)

/-- A TCP socket in a free slot, with the next port, leaves the ports exclusive exactly when nobody
has that port. -/
lemma exclusivePorts_update_iff {i : Nat} (he : o.ExclusivePorts)
    (hfree : (o.sockets i).inUse = false) (htcp : s.IsTcp) (hport : s.localPort = o.nextPort)
    (hset : o'.sockets = update o.sockets i s) : o'.ExclusivePorts ↔ o.PortFree := by
  have hself : o'.sockets i = s := by rw [hset, update_self]
  have hother : ∀ {j}, j ≠ i → o'.sockets j = o.sockets j := by
    intro j h
    rw [hset, update_of_ne h]
  constructor
  · intro h j hj hp
    have hji : j ≠ i := by
      rintro rfl
      exact not_isTcp_of_not_inUse hfree hj
    refine hji (h j i ?_ ?_ ?_)
    · rwa [hother hji]
    · rwa [hself]
    · rw [hother hji, hself, hp, hport]
  · intro h j k hj hk hp
    by_cases hji : j = i <;> by_cases hki : k = i
    · exact hji.trans hki.symm
    · subst hji
      rw [hother hki] at hk hp
      rw [hself, hport] at hp
      exact absurd hp.symm (h k hk)
    · subst hki
      rw [hother hji] at hj hp
      rw [hself, hport] at hp
      exact absurd hp (h j hj)
    · rw [hother hji] at hj hp
      rw [hother hki] at hk hp
      exact he j k hj hk hp

end FdObjects

/-! ## Creations and closes -/

/-- The descriptor tables of the processes, and the objects. -/
structure SocketSystem where
  tables : Nat → FdTable
  objects : FdObjects

/-- A creation or a close by process `p`. -/
inductive SocketOp where
  | socket (p : Nat) (family : Nat) (type : UInt32) (protocol : Nat)
  | socketpair (p : Nat) (domain : Nat) (type : UInt32) (protocol : Nat) (userFds : UInt64)
  | close (p : Nat) (fd : Nat)

namespace SocketSystem

def of (s : SocketSystem) (p : Nat) : FdState := ⟨s.tables p, s.objects⟩

def put (s : SocketSystem) (p : Nat) (r : FdState) : SocketSystem :=
  ⟨update s.tables p r.table, r.objects⟩

def step (s : SocketSystem) : SocketOp → SocketSystem
  | .socket p family type protocol => s.put p ((s.of p).installSocketFd family type protocol).2
  | .socketpair p domain type protocol userFds =>
      s.put p ((s.of p).sysSocketpair domain type protocol userFds).2.2
  | .close p fd => s.put p ((s.of p).sysClose fd).2

def run (s : SocketSystem) (ops : List SocketOp) : SocketSystem := ops.foldl step s

/-- At boot no socket is in use; what the tables hold is arbitrary. -/
def boot (tables : Nat → FdTable) : SocketSystem := ⟨tables, FdObjects.zero⟩

/-- The call makes a TCP socket: its arguments are those of one, and there is room for the socket
and for its descriptor. -/
structure CreatesTcp (s : SocketSystem) (p family : Nat) (type : UInt32) (protocol : Nat) :
    Prop where
  inet : family ≠ afUnix
  valid : socketArgumentsValid family type protocol = true
  socket : ∃ i < maxSocketObjects, (s.objects.sockets i).inUse = false
  slot : ∃ fd ≥ 3, fd < processFdMax ∧ (s.tables p fd).kind = .free

/-- If the call creates a TCP socket, the next port is free. -/
def FindsPortFree (s : SocketSystem) : SocketOp → Prop
  | .socket p family type protocol => s.CreatesTcp p family type protocol → s.objects.PortFree
  | _ => True

variable {s : SocketSystem}

lemma step_socket_iff (he : s.objects.ExclusivePorts) (p family : Nat) (type : UInt32)
    (protocol : Nat) :
    (s.step (.socket p family type protocol)).objects.ExclusivePorts ↔
      s.FindsPortFree (.socket p family type protocol) := by
  simp only [step, put, FindsPortFree, installSocketFd]
  split
  · next hinvalid => exact iff_of_true he fun h => absurd h.valid (by simp [hinvalid])
  rename_i hvalid
  split
  · next hnone =>
    refine iff_of_true he fun h => ?_
    obtain ⟨i, hi, huse⟩ := h.socket
    exact absurd huse (by simpa [of] using List.find?_eq_none.1 hnone i (List.mem_range.2 hi))
  rename_i i hfree
  have hunused := (freeObject_spec hfree).2
  split
  · next hnone =>
    refine iff_of_true he fun h => ?_
    obtain ⟨fd, hge, hfd, hkind⟩ := h.slot
    have hmem : fd ∈ (List.range processFdMax).drop 3 := by
      rw [List.mem_iff_getElem]
      exact ⟨fd - 3, by simp; omega, by simp; omega⟩
    exact absurd (List.find?_eq_none.1 hnone fd hmem) (by simp [of, hkind])
  next fd hslot =>
  by_cases hunix : family = afUnix
  · -- a local socket is no TCP socket
    refine iff_of_true ?_ fun h => absurd hunix h.inet
    have hfamily : ¬(family = afInet ∨ family = afInet6) := by
      rw [hunix]
      decide
    have hnext : s.objects.KeepsPorts (allocateSocketPort s.objects).2 :=
      fun _ h => ⟨h, rfl⟩
    exact (releaseRel_keepsPorts.trans hnext
      (keepsPorts_setSocket fun h => absurd h.2.1 hfamily)).exclusivePorts he
  · have hcreates : s.CreatesTcp p family type protocol :=
      ⟨hunix, by simpa using hvalid, ⟨i, freeObject_spec hfree⟩, fd, allocateFdSlot_spec hslot⟩
    simp only [socketArgumentsValid, Bool.not_eq_false, Bool.and_eq_true,
      Bool.or_eq_true, beq_iff_eq, hunix, if_false, false_or] at hvalid
    refine Iff.trans (exclusivePorts_update_iff he hunused ⟨rfl, ?_, ?_⟩ rfl rfl)
      ⟨fun h _ => h, fun h => h hcreates⟩
    · exact hvalid.1.1.1
    · exact congrArg UInt32.toNat hvalid.1.1.2

lemma keepsPorts_socketpair (s : FdState) (domain : Nat) (type : UInt32) (protocol : Nat)
    (userFds : UInt64) :
    s.objects.KeepsPorts (s.sysSocketpair domain type protocol userFds).2.2.objects := by
  have hrefl := releaseRel_keepsPorts.refl s.objects
  have hpaired : ∀ (baseType : UInt32) peer,
      ¬(pairedSocket baseType peer).IsTcp := by
    rintro baseType peer ⟨-, hfamily, -⟩
    have hunix : ¬(afUnix = afInet ∨ afUnix = afInet6) := by decide
    exact absurd hfamily hunix
  simp only [sysSocketpair]
  split
  · exact hrefl
  split
  · exact hrefl
  split
  · split
    · exact hrefl
    split
    · exact hrefl
    · exact releaseRel_keepsPorts.trans
        (keepsPorts_setSocket fun h => absurd h (hpaired _ _))
        (keepsPorts_setSocket fun h => absurd h (hpaired _ _))
  · exact hrefl

/-- One creation or close keeps the ports exclusive exactly when a created TCP socket finds its port
free. -/
theorem step_exclusivePorts_iff (he : s.objects.ExclusivePorts) (op : SocketOp) :
    (s.step op).objects.ExclusivePorts ↔ s.FindsPortFree op := by
  cases op with
  | socket p family type protocol => exact step_socket_iff he p family type protocol
  | socketpair p domain type protocol userFds =>
    have hkeeps := keepsPorts_socketpair (s.of p) domain type protocol userFds
    exact iff_of_true (hkeeps.exclusivePorts he) trivial
  | close p fd =>
    refine iff_of_true (FdObjects.KeepsPorts.exclusivePorts ?_ he) trivial
    simp only [step, put, sysClose]
    split
    · exact releaseRel_keepsPorts.refl _
    · exact releaseRel_keepsPorts.closeFdInternal fd (s.of p)

/-- Every state of a run has exclusive ports exactly when every step finds its port free. The
induction goes along the run, with the step lemma at its head. -/
lemma run_exclusivePorts_iff (ops : List SocketOp) (he : s.objects.ExclusivePorts) :
    (∀ before, before <+: ops → (s.run before).objects.ExclusivePorts) ↔
      ∀ before op, before ++ [op] <+: ops → (s.run before).FindsPortFree op := by
  induction ops generalizing s with
  | nil =>
    refine iff_of_true ?_ ?_
    · intro before h
      rw [List.prefix_nil.1 h]
      exact he
    · intro before op h
      exact absurd (List.prefix_nil.1 h) (by simp)
  | cons op ops ih =>
    constructor
    · intro h
      have hstep : (s.step op).objects.ExclusivePorts := h [op] (by simp)
      have hrest := (ih hstep).1 fun before hb =>
        h (op :: before) (List.cons_prefix_cons.2 ⟨rfl, hb⟩)
      intro before op' hb
      cases before with
      | nil =>
        obtain rfl : op' = op := by simpa using hb
        exact (step_exclusivePorts_iff he op').1 hstep
      | cons first before =>
        obtain ⟨rfl, hrest'⟩ := List.cons_prefix_cons.1 hb
        exact hrest before op' hrest'
    · intro h before hb
      have hstep : (s.step op).objects.ExclusivePorts :=
        (step_exclusivePorts_iff he op).2 (h [] op (by simp))
      cases before with
      | nil => exact he
      | cons first before =>
        obtain ⟨rfl, hbefore⟩ := List.cons_prefix_cons.1 hb
        refine (ih hstep).2 (fun before op' hb => ?_) before hbefore
        exact h (first :: before) op' (List.cons_prefix_cons.2 ⟨rfl, hb⟩)

end SocketSystem

/-! ## Segments -/

structure DeviceAddresses where
  ipv4 : Nat → UInt8
  ipv6 : Nat → UInt8

structure RemoteEnd where
  ip : Nat → UInt8
  ip6 : Nat → UInt8
  port : Nat

def sockGetBe16 (frame : Nat → UInt8) (off : Nat) : Nat :=
  (frame off).toNat * 256 + (frame (off + 1)).toNat

def sockSameBytes (a b : Nat → UInt8) (n : Nat) : Bool := (List.range n).all fun i => a i == b i

/-- The end of `sock_parse_tcp_frame`, from the ports on, as whether it returns 1. -/
def parsesSegment (remote : RemoteEnd) (sock : SocketObject) (frame : Nat → UInt8) (len : Nat)
    (ipHlen ipLen tcpOff : Nat) : Bool :=
  let tcpHlen := (frame (tcpOff + 12) >>> 4).toNat * 4
  sockGetBe16 frame tcpOff == remote.port &&
  sockGetBe16 frame (tcpOff + 2) == sock.localPort &&
  !decide (tcpHlen < 20) && !decide (ipLen < ipHlen + tcpHlen) &&
  !decide (14 + ipLen > len % 2 ^ 16)

/-- `sock_parse_tcp_frame` on a frame of `len` bytes in a buffer, as whether it returns 1; `none` is
a missing device. -/
def sockParseTcpFrame (dev : Option DeviceAddresses) (remote : RemoteEnd) (sock : SocketObject)
    (frame : Nat → UInt8) (len : Nat) : Bool :=
  match dev with
  | none => false
  | some dev =>
      if sock.family = afInet6 then
        !decide (len < 74) && frame 12 == 0x86 && frame 13 == 0xdd && frame 20 == 6 &&
        sockSameBytes (fun i => frame (22 + i)) remote.ip6 16 &&
        sockSameBytes (fun i => frame (38 + i)) dev.ipv6 16 &&
        parsesSegment remote sock frame len 40 ((40 + sockGetBe16 frame 18) % 2 ^ 16) 54
      else
        let ipHlen := (frame 14 &&& 0x0f).toNat * 4
        !decide (len < 54) && frame 12 == 0x08 && frame 13 == 0x00 && frame 23 == 6 &&
        sockSameBytes (fun i => frame (26 + i)) remote.ip 4 &&
        sockSameBytes (fun i => frame (30 + i)) dev.ipv4 4 &&
        !decide (ipHlen < 20) &&
        parsesSegment remote sock frame len ipHlen (sockGetBe16 frame 16) (14 + ipHlen)

/-- A socket takes segments of its own version of IP for its own port only. -/
lemma port_of_sockParseTcpFrame {dev : Option DeviceAddresses} {remote : RemoteEnd}
    {sock : SocketObject} {frame : Nat → UInt8} {len : Nat}
    (h : sockParseTcpFrame dev remote sock frame len = true) :
    sock.localPort = sockGetBe16 frame
      ((if frame 12 = 0x86 then 54 else 14 + (frame 14 &&& 0x0f).toNat * 4) + 2) := by
  unfold sockParseTcpFrame at h
  cases dev with
  | none => exact absurd h Bool.false_ne_true
  | some =>
  dsimp only at h
  split at h
  · simp only [Bool.and_eq_true, beq_iff_eq, parsesSegment] at h
    rw [if_pos h.1.1.1.1.1.2]
    exact h.2.1.1.1.2.symm
  · simp only [Bool.and_eq_true, beq_iff_eq, parsesSegment] at h
    rw [if_neg (by rw [h.1.1.1.1.1.1.2]; decide)]
    exact h.2.1.1.1.2.symm

/-- At most one TCP socket takes a segment, whatever its remote end and its device are. -/
def FdObjects.OneReceiver (o : FdObjects) : Prop :=
  ∀ (dev : Nat → Option DeviceAddresses) (remote : Nat → RemoteEnd) (frame : Nat → UInt8)
    (len i j : Nat), (o.sockets i).IsTcp → (o.sockets j).IsTcp →
    sockParseTcpFrame (dev i) (remote i) (o.sockets i) frame len = true →
    sockParseTcpFrame (dev j) (remote j) (o.sockets j) frame len = true → i = j

lemma FdObjects.ExclusivePorts.oneReceiver {o : FdObjects} (h : o.ExclusivePorts) :
    o.OneReceiver := by
  intro dev remote frame len i j hi hj hpi hpj
  exact h i j hi hj ((port_of_sockParseTcpFrame hpi).trans (port_of_sockParseTcpFrame hpj).symm)

/-! ## Runs -/

/-- In every state of a run of creations and closes the ports are exclusive, and a segment has at
most one receiver, exactly when every created TCP socket finds the next port unused. -/
theorem ports_exclusive_iff (tables : Nat → FdTable) (ops : List SocketOp) :
    (∀ before, before <+: ops →
      (((SocketSystem.boot tables).run before).objects.ExclusivePorts ∧
        ((SocketSystem.boot tables).run before).objects.OneReceiver)) ↔
      ∀ before op, before ++ [op] <+: ops →
        ((SocketSystem.boot tables).run before).FindsPortFree op := by
  have hboot : (SocketSystem.boot tables).objects.ExclusivePorts :=
    fun _ _ h => absurd h (not_isTcp_of_not_inUse rfl)
  rw [← SocketSystem.run_exclusivePorts_iff ops hboot]
  constructor
  · intro h before hb
    exact (h before hb).1
  · intro h before hb
    exact ⟨h before hb, (h before hb).oneReceiver⟩

/-! ### A port that comes back -/

def tcpSocket (port : Nat) : SocketObject :=
  { SocketObject.zero with
    inUse := true
    state := .created
    family := afInet
    type := 1
    protocol := ipprotoTcp
    refcount := 1
    peerIndex := -1
    localPort := port }

def portAfter (port : Nat) : Nat :=
  let next := (port + 1) % 2 ^ 16
  if next < socketTcpPortFirst ∨ next > socketTcpPortLast then socketTcpPortFirst else next

/-- Process 0 holds a TCP socket with port 40002, and `port` is next. -/
def heldSocket (port : Nat) : SocketSystem where
  tables := update (fun _ => initProcessFdTable) 0 (update initProcessFdTable 3 ⟨.socket, 0⟩)
  objects := { FdObjects.zero with
    sockets := update (fun _ => SocketObject.zero) 0 (tcpSocket 40002)
    nextPort := port }

def openTcp : SocketOp := .socket 0 afInet sockStream 0

lemma boot_openTcp :
    (SocketSystem.boot fun _ => initProcessFdTable).step openTcp = heldSocket 40003 := rfl

lemma closeFdInternal_tcpSocket {s : FdState} {fd i port : Nat} (hfd : fd < processFdMax)
    (hi : i < maxSocketObjects) (hentry : s.table fd = ⟨.socket, i⟩)
    (hsocket : s.objects.sockets i = tcpSocket port) :
    s.closeFdInternal fd =
      ⟨update s.table fd FdEntry.closed, s.objects.setSocket i SocketObject.zero⟩ := by
  have hget : ∀ {o : FdObjects}, (o.sockets i).inUse = true → o.getSocketByIndex i = some i := by
    intro o huse
    have hin : ¬((i : Int) < 0 ∨ (i : Int) ≥ maxSocketObjects) := by omega
    simp only [getSocketByIndex, lookup, if_neg hin, Int.toNat_natCast, huse]
    rfl
  have hstate : s.objects.closeSocketState i =
      s.objects.setSocket i { tcpSocket port with state := .closed } := by
    simp only [closeSocketState, hsocket]
    rfl
  have hself : (s.objects.closeSocketState i).sockets i =
      { tcpSocket port with state := .closed } := by
    rw [hstate]
    exact update_self ..
  have hrelease : s.objects.releaseFdEntryRefs ⟨.socket, i⟩ =
      s.objects.setSocket i SocketObject.zero := by
    change closeSocketRefWith _ s.objects i = _
    have hlast : (s.objects.sockets i).refcount ≤ 1 := by rw [hsocket]; exact le_refl 1
    simp only [closeSocketRefWith, hget (by rw [hsocket]; rfl), if_pos hlast,
      releaseSocketRefWith, hget (by rw [hself]; rfl)]
    rw [hself, hstate]
    change setSocket (setSocket s.objects i _) i _ = _
    simp only [setSocket, update_idem]
  have hlookup : getFdEntry fd s.table = some ⟨.socket, i⟩ := by
    simp only [getFdEntry, hentry, if_neg (not_le.2 hfd)]
    rfl
  simp only [closeFdInternal, hlookup, hrelease]
  rfl

/-- The same state, where process 0 holds a second socket. -/
def secondSocket (port : Nat) : FdState where
  table := update (update initProcessFdTable 3 ⟨.socket, 0⟩) 4 ⟨.socket, 1⟩
  objects := { (heldSocket (portAfter port)).objects with
    sockets := update (heldSocket port).objects.sockets 1 (tcpSocket port) }

variable (port : Nat)

lemma heldSocket_openTcp :
    (heldSocket port).step openTcp = (heldSocket port).put 0 (secondSocket port) := rfl

lemma secondSocket_close :
    ((secondSocket port).sysClose 4).2 = (heldSocket (portAfter port)).of 0 := by
  have hclosed : (update initProcessFdTable 3 ⟨.socket, 0⟩ : FdTable) 4 = FdEntry.closed := rfl
  have hzero : (heldSocket port).objects.sockets 1 = SocketObject.zero := rfl
  have hentry : (secondSocket port).table 4 = ⟨.socket, (1 : Nat)⟩ := rfl
  have hsocket : (secondSocket port).objects.sockets 1 = tcpSocket port := rfl
  change (secondSocket port).closeFdInternal 4 = _
  rw [closeFdInternal_tcpSocket (by decide) (by decide) hentry hsocket]
  simp only [secondSocket, setSocket, update_idem]
  rw [← hclosed, ← hzero, update_eq_self, update_eq_self]
  rfl

lemma heldSocket_openClose :
    (heldSocket port).run [openTcp, .close 0 4] = heldSocket (portAfter port) := by
  change ((heldSocket port).step openTcp).step (.close 0 4) = _
  rw [heldSocket_openTcp]
  have hof : ((heldSocket port).put 0 (secondSocket port)).of 0 = secondSocket port := by
    simp only [SocketSystem.of, SocketSystem.put, update_self]
  simp only [SocketSystem.step, hof, secondSocket_close]
  simp only [SocketSystem.put, SocketSystem.of, heldSocket, update_idem, update_self]

lemma heldSocket_cycles (n port : Nat) (hfirst : 40002 ≤ port) (hlast : port + n ≤ 60000) :
    (heldSocket port).run (List.replicate n [openTcp, .close 0 4]).flatten =
      heldSocket (port + n) := by
  induction n generalizing port with
  | zero => rfl
  | succ n ih =>
    have hnext : (port + 1) % 2 ^ 16 = port + 1 := Nat.mod_eq_of_lt (by omega)
    have hafter : portAfter port = port + 1 := by
      simp only [portAfter, hnext, socketTcpPortFirst, socketTcpPortLast]
      exact if_neg (by omega)
    rw [List.replicate_succ, List.flatten_cons, SocketSystem.run, List.foldl_append]
    change ((heldSocket port).run [openTcp, .close 0 4]).run _ = _
    rw [heldSocket_openClose, hafter, ih (port + 1) (by omega) (by omega)]
    congr 1
    omega

/-- A socket is kept, another one opened and closed `n` times, and one more opened. -/
def reopening (n : Nat) : List SocketOp :=
  openTcp :: ((List.replicate n [openTcp, .close 0 4]).flatten ++ [openTcp])

lemma run_reopening (n : Nat) (hn : n ≤ 19997) :
    (SocketSystem.boot fun _ => initProcessFdTable).run (reopening (n + 1)) =
      (heldSocket (portAfter (40003 + n))).step openTcp := by
  have hcycles := heldSocket_cycles n 40003 (by omega) (by omega)
  have hround := heldSocket_openClose (40003 + n)
  rw [reopening, List.replicate_succ', List.flatten_append]
  simp only [SocketSystem.run, List.foldl_cons, List.foldl_append, List.foldl_nil,
    List.flatten_cons, List.flatten_nil] at *
  rw [boot_openTcp, hcycles, hround]

/-- A process keeps a socket and opens and closes another one 19998 times. The next socket it opens
has the port of the first. -/
theorem port_reused : ¬((SocketSystem.boot fun _ => initProcessFdTable).run
    (reopening 19998)).objects.ExclusivePorts := by
  have hport : portAfter (40003 + 19997) = 40002 := by decide
  rw [run_reopening 19997 le_rfl, hport, heldSocket_openTcp]
  intro h
  exact absurd (h 0 1 ⟨rfl, .inl rfl, rfl⟩ ⟨rfl, .inl rfl, rfl⟩ rfl) (by decide)

end AosKernel.Fd
