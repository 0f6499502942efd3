import AosKernel.Fd.Ports

/-!
# Credentials of the sender

A local socket keeps one record of the process that sent to it (`socket_record_sender_credentials`).
The record is made by the first send after the last `recvmsg` and is given with whatever bytes the
next `recvmsg` returns. A `Channel` carries, beside the objects, the sender of every unread byte of
the receiving socket. -/

namespace AosKernel.Fd

open Lib Vfs Proc Function FdState List

def SocketObject.sender (s : SocketObject) : Sender := ⟨s.rxSenderPid, s.rxSenderUid, s.rxSenderGid⟩

/-! ## Queues -/

namespace FdObjects

variable {b : Nat} {sender : Sender} {o o' o'' : FdObjects}

/-- Socket `b` is no longer in use, or its queue is what it was. -/
def KeepsQueue (b : Nat) (o o' : FdObjects) : Prop :=
  ((o'.sockets b).inUse = false ∧ (o'.sockets b).rx = [] ∧
      (o'.sockets b).rxCredentialsValid = false) ∨
    ((o'.sockets b).inUse = (o.sockets b).inUse ∧ (o'.sockets b).family = (o.sockets b).family ∧
      (o'.sockets b).rx = (o.sockets b).rx ∧
      (o'.sockets b).rxCredentialsValid = (o.sockets b).rxCredentialsValid)

theorem KeepsQueue.trans (h : KeepsQueue b o o') (h' : KeepsQueue b o' o'') :
    KeepsQueue b o o'' := by
  rcases h' with hc | ⟨hu, hf, hr, hv⟩
  · exact .inl hc
  · rw [KeepsQueue, hu, hf, hr, hv]
    exact h

lemma keepsQueue_setSocket (o : FdObjects) (i : Nat) {s : SocketObject}
    (h : (s.inUse = false ∧ s.rx = [] ∧ s.rxCredentialsValid = false) ∨
      (s.inUse = (o.sockets i).inUse ∧ s.family = (o.sockets i).family ∧
        s.rx = (o.sockets i).rx ∧ s.rxCredentialsValid = (o.sockets i).rxCredentialsValid)) :
    KeepsQueue b o (o.setSocket i s) := by
  by_cases hbi : b = i
  · subst hbi
    simpa [KeepsQueue, setSocket] using h
  refine .inr ?_
  have hother : (o.setSocket i s).sockets b = o.sockets b := update_of_ne hbi ..
  rw [hother]
  exact ⟨rfl, rfl, rfl, rfl⟩

lemma releaseRel_keepsQueue (b : Nat) : ReleaseRel (KeepsQueue b) where
  trans := KeepsQueue.trans
  others hs := Or.inr (by rw [hs]; exact ⟨rfl, rfl, rfl, rfl⟩)
  closed o i := keepsQueue_setSocket o i (Or.inr ⟨rfl, rfl, rfl, rfl⟩)
  dropped o i _ := keepsQueue_setSocket o i (Or.inr ⟨rfl, rfl, rfl, rfl⟩)
  cleared o i := keepsQueue_setSocket o i (Or.inl ⟨rfl, rfl, rfl⟩)

end FdObjects

/-- What a send by `sender` may do to a socket: bytes come in, and credentials are recorded unless
there are some. -/
structure SocketObject.Takes (sender : Sender) (s s' : SocketObject) : Prop where
  inUse : s'.inUse = s.inUse
  family : s'.family = s.family
  rx : s.rx <+: s'.rx
  kept : s.rxCredentialsValid = true → s'.rxCredentialsValid = true ∧ s'.sender = s.sender
  recorded : s.rxCredentialsValid = false → s'.rxCredentialsValid = true → s'.sender = sender

namespace SocketObject.Takes

variable {sender : Sender} {s s' s'' : SocketObject}

lemma of_eq (hu : s'.inUse = s.inUse) (hf : s'.family = s.family) (hr : s'.rx = s.rx)
    (hv : s'.rxCredentialsValid = s.rxCredentialsValid) (hs : s'.sender = s.sender) :
    Takes sender s s' where
  inUse := hu
  family := hf
  rx := by rw [hr]
  kept h := ⟨hv.trans h, hs⟩
  recorded h h' := absurd ((hv.trans h).symm.trans h') Bool.false_ne_true

lemma refl (s : SocketObject) : Takes sender s s := of_eq rfl rfl rfl rfl rfl

theorem trans (h : Takes sender s s') (h' : Takes sender s' s'') : Takes sender s s'' where
  inUse := h'.inUse.trans h.inUse
  family := h'.family.trans h.family
  rx := h.rx.trans h'.rx
  kept hv := by
    obtain ⟨hv', hs⟩ := h.kept hv
    obtain ⟨hv'', hs'⟩ := h'.kept hv'
    exact ⟨hv'', hs'.trans hs⟩
  recorded hv hv'' := by
    cases hv' : s'.rxCredentialsValid with
    | false => exact h'.recorded hv' hv''
    | true => exact (h'.kept hv').2.trans (h.recorded hv hv')

lemma record (s : SocketObject) (data : List UInt8) :
    Takes sender s (FdObjects.recordSenderCredentials sender
      { s with rxBuffer := s.rxBuffer.compact.store data }) := by
  have hrx : s.rx <+: (s.rxBuffer.compact.store data).unread := by
    rw [RxBuffer.unread_store, RxBuffer.unread_compact]
    exact prefix_append _ _
  unfold FdObjects.recordSenderCredentials
  split
  · exact ⟨rfl, rfl, hrx, fun h => ⟨h, rfl⟩,
      fun h h' => absurd (h.symm.trans h') Bool.false_ne_true⟩
  · rename_i hrecord
    exact ⟨rfl, rfl, hrx, fun h => absurd (.inr h) hrecord, fun _ _ => rfl⟩

end SocketObject.Takes

/-! ## Sending -/

namespace FdObjects

open SocketObject (Takes)

variable {a b : Nat} {sender : Sender} {o o' o'' : FdObjects}

/-- What a send by `sender` may do to socket `b`. -/
def Flows (b : Nat) (sender : Sender) (o o' : FdObjects) : Prop :=
  Takes sender (o.sockets b) (o'.sockets b)

lemma Flows.refl (o : FdObjects) : Flows b sender o o := Takes.refl _

theorem Flows.trans (h : Flows b sender o o') (h' : Flows b sender o' o'') : Flows b sender o o'' :=
  Takes.trans h h'

lemma flows_setSocket (o : FdObjects) (i : Nat) {s : SocketObject}
    (h : Takes sender (o.sockets i) s) : Flows b sender o (o.setSocket i s) := by
  by_cases hbi : b = i
  · subst hbi
    have hself : (o.setSocket b s).sockets b = s := update_self ..
    rw [Flows, hself]
    exact h
  · have hother : (o.setSocket i s).sockets b = o.sockets b := update_of_ne hbi ..
    rw [Flows, hother]
    exact Takes.refl _

lemma flows_socketSendData (hab : b ≠ a) (tcp : TcpTransfer) (v : SendVec) (o : FdObjects) :
    Flows b sender o (o.socketSendData sender tcp a v).2 := by
  have hrefl : Flows b sender o o := .refl o
  simp only [socketSendData]
  split
  · exact hrefl
  split
  · exact hrefl
  split
  · exact hrefl
  split
  · split
    · exact hrefl
    split
    · exact hrefl
    · split
      · exact flows_setSocket o _ (.of_eq rfl rfl (RxBuffer.unread_compact _) rfl rfl)
      · exact flows_setSocket o _ (Takes.record _ _)
  · -- a TCP transfer changes the sending socket only
    have hother : (o.afterTcp a tcp).sockets b = o.sockets b := update_of_ne hab ..
    rw [Flows, hother]
    exact Takes.refl _

lemma flows_retainFdEntryRefs (e : FdEntry) (o : FdObjects) :
    Flows b sender o (o.retainFdEntryRefs e) := by
  unfold retainFdEntryRefs
  split
  all_goals try split
  all_goals first
    | exact Takes.refl _
    | exact flows_setSocket o _ (Takes.of_eq rfl rfl rfl rfl rfl)

lemma flows_sendVecs (hab : b ≠ a) (tcp : Nat → TcpTransfer) (vs : List SendVec) (sent : Nat)
    (o : FdObjects) : Flows b sender o (sendVecs sender tcp a vs sent o).2 := by
  induction vs generalizing sent o with
  | nil => exact .refl o
  | cons v vs ih =>
    have hsend : Flows b sender o (o.socketSendData sender (tcp vs.length) a v).2 :=
      flows_socketSendData hab _ v o
    simp only [sendVecs]
    split
    · exact .refl o
    split
    · exact hsend
    · split
      · exact hsend
      · exact hsend.trans (ih _ _)

lemma flows_attachRights {rights : List FdEntry} (h : o.attachRights a rights = some o') :
    Flows b sender o o' := by
  have hretain : ∀ (l : List FdEntry) o,
      Flows b sender o (l.foldl (fun o e => o.retainFdEntryRefs e) o) := by
    intro l
    induction l with
    | nil => exact .refl
    | cons e l ih => exact fun o => (flows_retainFdEntryRefs e o).trans (ih _)
  simp only [attachRights] at h
  split at h
  · exact absurd h (by simp)
  · obtain rfl := Option.some.inj h
    exact (hretain rights o).trans (flows_setSocket _ _ (Takes.of_eq rfl rfl rfl rfl rfl))

end FdObjects

namespace FdState

open FdObjects

variable {a b : Nat} {sender : Sender}

lemma flows_sendRights (hab : b ≠ a) (tcp : Nat → TcpTransfer) (iov : List SendVec)
    (rights : List FdEntry) (s : FdState) :
    Flows b sender s.objects (s.sendRights sender tcp a iov rights).2.objects := by
  have hvecs : Flows b sender s.objects (sendVecs sender tcp a iov 0 s.objects).2 :=
    flows_sendVecs hab tcp iov 0 s.objects
  unfold sendRights
  split
  · rename_i value o heq
    rw [heq] at hvecs
    exact hvecs
  rename_i sent o heq
  rw [heq] at hvecs
  dsimp only
  have hempty : Flows b sender o
      (if iov = [] then o.socketSendData sender (tcp 0) a ⟨true, []⟩ else (0, o)).2 := by
    split
    · exact flows_socketSendData hab _ _ o
    · exact .refl o
  generalize (if iov = [] then o.socketSendData sender (tcp 0) a ⟨true, []⟩ else (0, o)) = r
    at hempty ⊢
  split
  · exact hvecs.trans hempty
  split
  · exact hvecs.trans hempty
  split
  · exact hvecs.trans hempty
  · rename_i hattach
    exact (hvecs.trans hempty).trans (flows_attachRights hattach)

lemma flows_sysSendmsg (hab : b ≠ a) (tcp : Nat → TcpTransfer) {fd : Nat}
    (message : Option SendMessage) {s : FdState} (hfd : s.getSocketForFd fd = some a) :
    Flows b sender s.objects (s.sysSendmsg sender tcp fd message).2.objects := by
  have hrefl : Flows b sender s.objects s.objects := .refl _
  unfold sysSendmsg
  rw [hfd]
  cases message with
  | none => exact hrefl
  | some m =>
  dsimp only
  split
  · exact hrefl
  split
  · exact hrefl
  split
  · exact hrefl
  · split
    · exact hrefl
    · exact flows_sendRights hab tcp m.iov _ s

end FdState

/-! ## Receiving -/

namespace FdObjects

variable {b : Nat}

def consume (b n : Nat) (o : FdObjects) : FdObjects :=
  o.setSocket b { o.sockets b with rxBuffer := (o.sockets b).rxBuffer.read n }

lemma consume_zero (o : FdObjects) : o.consume b 0 = o := by
  simp [consume, setSocket, update_eq_self, RxBuffer.read_zero]

lemma consume_sockets (n : Nat) (o : FdObjects) :
    (o.consume b n).sockets b = { o.sockets b with rxBuffer := (o.sockets b).rxBuffer.read n } :=
  update_self ..

lemma consume_rx (n : Nat) (o : FdObjects) :
    ((o.consume b n).sockets b).rx = (o.sockets b).rx.drop n := by
  rw [consume_sockets]
  exact RxBuffer.unread_read _ n

lemma consume_consume (m n : Nat) (o : FdObjects) :
    (o.consume b m).consume b n = o.consume b (m + n) := by
  rw [consume, consume_sockets]
  simp only [consume, setSocket, update_idem, RxBuffer.read_read]

/-- A local socket gives the first unread bytes, and an error none. -/
lemma socketRecvData_spec (tcp : TcpTransfer) (v : RecvVec) {o : FdObjects}
    (hunix : (o.sockets b).family = afUnix) :
    ∃ n, (o.socketRecvData tcp b v).2.1 = (o.sockets b).rx.take n ∧
      (o.socketRecvData tcp b v).2.2 = o.consume b n ∧
      ((o.socketRecvData tcp b v).1 < 0 → n = 0) := by
  have hnone : ∀ value : Int, ∃ n, ([] : List UInt8) = (o.sockets b).rx.take n ∧
      o = o.consume b n ∧ (value < 0 → n = 0) :=
    fun _ => ⟨0, rfl, (consume_zero o).symm, fun _ => rfl⟩
  simp only [socketRecvData]
  split
  · exact hnone _
  split
  · exact hnone _
  split
  · exact hnone _
  split
  · exact hnone _
  split
  · exact hnone _
  split
  · exact ⟨v.length, RxBuffer.slice_available _ _, rfl,
      fun h => absurd h (Int.not_lt.2 (Int.natCast_nonneg _))⟩
  · split
    · exact hnone _
    · split <;> exact hnone _

lemma recvVecs_spec (tcp : Nat → TcpTransfer) (vs : List RecvVec) (received : Nat)
    (bytes : List UInt8) {o : FdObjects} (hunix : (o.sockets b).family = afUnix) :
    ∃ n, (recvVecs tcp b vs received bytes o).2.1 = bytes ++ (o.sockets b).rx.take n ∧
      (recvVecs tcp b vs received bytes o).2.2 = o.consume b n := by
  induction vs generalizing received bytes o with
  | nil => exact ⟨0, (append_nil _).symm, (consume_zero o).symm⟩
  | cons v vs ih =>
    obtain ⟨n, hbytes, hobjects, herror⟩ := socketRecvData_spec (tcp vs.length) v hunix
    simp only [recvVecs]
    generalize o.socketRecvData (tcp vs.length) b v = r at hbytes hobjects herror ⊢
    obtain ⟨result, more, o'⟩ := r
    subst hbytes hobjects
    split
    · exact ⟨0, (append_nil _).symm, (consume_zero o).symm⟩
    split
    · rename_i hneg
      obtain rfl := herror hneg
      split <;> exact ⟨0, (append_nil _).symm, rfl⟩
    split
    · exact ⟨n, rfl, rfl⟩
    have hunix' : ((o.consume b n).sockets b).family = afUnix := by
      rw [consume_sockets]
      exact hunix
    obtain ⟨m, hbytes, hobjects⟩ := ih (received + result.toNat)
      (bytes ++ (o.sockets b).rx.take n) hunix'
    refine ⟨n + m, ?_, ?_⟩
    · rw [hbytes, consume_rx, append_assoc]
      congr 1
      exact take_add.symm
    · rw [hobjects, consume_consume]

end FdObjects

namespace FdState

open FdObjects

variable {b : Nat}

lemma keepsQueue_takeRights {i : Nat} {null : Bool} {capacity : Nat} {s : FdState}
    {r : Option (List Nat) × FdState} (h : s.takeRights i null capacity = r) :
    KeepsQueue b s.objects r.2.objects := by
  subst h
  have hrel := releaseRel_keepsQueue b
  have hclear : ∀ o : FdObjects, KeepsQueue b o (o.clearPending i) :=
    fun o => keepsQueue_setSocket o i (.inr ⟨rfl, rfl, rfl, rfl⟩)
  have hpending : ∀ (o : FdObjects) j, KeepsQueue b o (releasePending i o j) :=
    fun o j => (hrel.releaseEntry _ _ o).trans
      (keepsQueue_setSocket _ i (.inr ⟨rfl, rfl, rfl, rfl⟩))
  simp only [takeRights]
  split
  · exact (hrel.foldl hpending _ _).trans (hclear _)
  · exact hclear _

/-- The end of `sys_recvmsg` reports the recorded credentials, forgets them, and leaves the queue
unless the socket is closed with the descriptors it drops. -/
lemma recvControl_spec (m : RecvMessage) (received : Nat) (bytes : List UInt8) (s : FdState) :
    (s.recvControl b m received bytes).1.bytes = bytes ∧
      (∀ x, (s.recvControl b m received bytes).1.credentials = some x →
        (s.objects.sockets b).rxCredentialsValid = true ∧ x = (s.objects.sockets b).sender) ∧
      KeepsQueue b (s.objects.setSocket b
          { s.objects.sockets b with rxCredentialsValid := false })
        (s.recvControl b m received bytes).2.objects := by
  have hcredentials : ∀ (used : Nat) x,
      (if (s.objects.sockets b).rxCredentialsValid ∧ used ≠ 0 then
        some (⟨(s.objects.sockets b).rxSenderPid, (s.objects.sockets b).rxSenderUid,
          (s.objects.sockets b).rxSenderGid⟩ : Sender) else none) = some x →
      (s.objects.sockets b).rxCredentialsValid = true ∧ x = (s.objects.sockets b).sender := by
    intro used x h
    split at h
    · rename_i hvalid
      exact ⟨hvalid.1, (Option.some.inj h).symm⟩
    · exact absurd h (by simp)
  simp only [recvControl]
  split
  · exact ⟨rfl, hcredentials _, (releaseRel_keepsQueue b).refl _⟩
  split
  · rename_i htake
    exact ⟨rfl, hcredentials _, keepsQueue_takeRights htake⟩
  · rename_i htake
    exact ⟨rfl, hcredentials _, keepsQueue_takeRights htake⟩

/-- What a `recvmsg` that has taken `n` bytes leaves of socket `b`: a socket that is not in use, or
the rest of the queue, with the credentials or without them. -/
def Left (b n : Nat) (o o' : FdObjects) : Prop :=
  ((o'.sockets b).inUse = false ∧ (o'.sockets b).rx = [] ∧
      (o'.sockets b).rxCredentialsValid = false) ∨
    ((o'.sockets b).inUse = (o.sockets b).inUse ∧ (o'.sockets b).family = (o.sockets b).family ∧
      (o'.sockets b).rx = (o.sockets b).rx.drop n ∧
      ((o'.sockets b).rxCredentialsValid = true →
        (o.sockets b).rxCredentialsValid = true ∧ (o'.sockets b).sender = (o.sockets b).sender))

lemma left_consume (n : Nat) (o : FdObjects) : Left b n o (o.consume b n) := by
  rw [Left, consume_rx, consume_sockets]
  exact .inr ⟨rfl, rfl, rfl, fun h => ⟨h, rfl⟩⟩

lemma left_of_keepsQueue {n : Nat} {o o' : FdObjects}
    (h : KeepsQueue b ((o.consume b n).setSocket b
      { (o.consume b n).sockets b with rxCredentialsValid := false }) o') : Left b n o o' := by
  rcases h with hgone | ⟨hu, hf, hr, hv⟩
  · exact .inl hgone
  have hself : ((o.consume b n).setSocket b
      { (o.consume b n).sockets b with rxCredentialsValid := false }).sockets b =
      { (o.consume b n).sockets b with rxCredentialsValid := false } := update_self ..
  rw [hself] at hr
  rw [hself, consume_sockets] at hu hf hv
  exact .inr ⟨hu, hf, hr.trans (consume_rx n o),
    fun h => absurd (hv.symm.trans h) Bool.false_ne_true⟩

/-- A `recvmsg` on a local socket gives the first unread bytes. If it reports credentials, they are
the recorded ones. -/
lemma sysRecvmsg_spec (tcp : Nat → TcpTransfer) {fd : Nat} (message : Option RecvMessage)
    {s : FdState} (hfd : s.getSocketForFd fd = some b)
    (hunix : (s.objects.sockets b).family = afUnix) :
    ∃ n, (s.sysRecvmsg tcp fd message).1.bytes = (s.objects.sockets b).rx.take n ∧
      (∀ x, (s.sysRecvmsg tcp fd message).1.credentials = some x →
        (s.objects.sockets b).rxCredentialsValid = true ∧ x = (s.objects.sockets b).sender) ∧
      Left b n s.objects (s.sysRecvmsg tcp fd message).2.objects := by
  have hleft : Left b 0 s.objects s.objects := by
    have h := left_consume (b := b) 0 s.objects
    rwa [consume_zero] at h
  have hnone : ∀ x : Sender, (none : Option Sender) = some x →
      (s.objects.sockets b).rxCredentialsValid = true ∧ x = (s.objects.sockets b).sender :=
    fun _ h => absurd h (by simp)
  unfold sysRecvmsg
  rw [hfd]
  cases message with
  | none => exact ⟨0, rfl, hnone, hleft⟩
  | some m =>
  dsimp only
  split
  · exact ⟨0, rfl, hnone, hleft⟩
  obtain ⟨n, hbytes, hobjects⟩ := recvVecs_spec tcp m.iov 0 [] hunix
  refine ⟨n, ?_⟩
  split
  · rename_i value bytes o heq
    rw [heq] at hbytes hobjects
    subst hbytes hobjects
    exact ⟨nil_append _, hnone, left_consume n s.objects⟩
  rename_i received bytes o heq
  rw [heq] at hbytes hobjects
  subst hbytes hobjects
  obtain ⟨hb, hc, hk⟩ := recvControl_spec (b := b) m received
    ([] ++ (s.objects.sockets b).rx.take n) ⟨s.table, s.objects.consume b n⟩
  rw [consume_sockets] at hc
  exact ⟨hb.trans (nil_append _), hc, left_of_keepsQueue hk⟩

end FdState

lemma getSocketForFd_inUse {fd b : Nat} {s : FdState} (h : s.getSocketForFd fd = some b) :
    (s.objects.sockets b).inUse = true := by
  unfold getSocketForFd at h
  split at h
  · exact absurd h (by simp)
  · split at h
    · exact absurd h (by simp)
    · exact (FdObjects.getSocketByIndex_spec h).2

/-! ## Runs -/

/-- The objects, and the sender of every unread byte of the receiving socket. -/
structure Channel where
  objects : FdObjects
  owners : List Sender

namespace Channel

/-- A `sendmsg` by `sender` through descriptor `fd` of a process with this table. Writing to the
socket and `sendto` are such calls with one part and no control data. -/
def send (b : Nat) (sender : Sender) (tcp : Nat → TcpTransfer) (table : FdTable) (fd : Nat)
    (message : Option SendMessage) (c : Channel) : Channel :=
  let objects := (FdState.sysSendmsg sender tcp fd message ⟨table, c.objects⟩).2.objects
  ⟨objects, c.owners ++
    List.replicate ((objects.sockets b).rx.length - (c.objects.sockets b).rx.length) sender⟩

/-- What a `recvmsg` through descriptor `fd` of a process with this table gives. -/
def reply (tcp : Nat → TcpTransfer) (table : FdTable) (fd : Nat) (message : Option RecvMessage)
    (c : Channel) : RecvReply :=
  (FdState.sysRecvmsg tcp fd message ⟨table, c.objects⟩).1

/-- The channel after the `recvmsg`: the bytes it has returned are gone. -/
def recv (b : Nat) (tcp : Nat → TcpTransfer) (table : FdTable) (fd : Nat)
    (message : Option RecvMessage) (c : Channel) : Channel :=
  let objects := (FdState.sysRecvmsg tcp fd message ⟨table, c.objects⟩).2.objects
  ⟨objects, (c.owners.drop (c.reply tcp table fd message).bytes.length).take
    (objects.sockets b).rx.length⟩

/-- The unread bytes are the sender's own, and so are credentials that have not been fetched. -/
def Own (b : Nat) (sender : Sender) (c : Channel) : Prop :=
  (∀ x ∈ c.owners, x = sender) ∧
    ((c.objects.sockets b).rxCredentialsValid = true → (c.objects.sockets b).sender = sender)

/-- The states that sends on socket `a`, each of them by a process that finds only its own bytes
and credentials, and `recvmsg` calls on socket `b` lead to. -/
inductive Runs (a b : Nat) (c₀ : Channel) : Channel → Prop where
  | start : Runs a b c₀ c₀
  | send {c : Channel} (h : Runs a b c₀ c) (sender : Sender) (tcp : Nat → TcpTransfer)
      (table : FdTable) (fd : Nat) (message : Option SendMessage)
      (hfd : FdState.getSocketForFd fd ⟨table, c.objects⟩ = some a) (hown : c.Own b sender) :
      Runs a b c₀ (c.send b sender tcp table fd message)
  | recv {c : Channel} (h : Runs a b c₀ c) (tcp : Nat → TcpTransfer) (table : FdTable) (fd : Nat)
      (message : Option RecvMessage)
      (hfd : FdState.getSocketForFd fd ⟨table, c.objects⟩ = some b) :
      Runs a b c₀ (c.recv b tcp table fd message)

/-- Socket `b` is local while it is in use, every unread byte has a sender, and recorded credentials
are those of the sender of every unread byte. -/
structure Genuine (b : Nat) (c : Channel) : Prop where
  unix : (c.objects.sockets b).inUse = true → (c.objects.sockets b).family = afUnix
  length : c.owners.length = (c.objects.sockets b).rx.length
  recorded : (c.objects.sockets b).rxCredentialsValid = true →
    ∀ x ∈ c.owners, x = (c.objects.sockets b).sender

variable {a b : Nat} {c : Channel}

variable {table : FdTable} {fd : Nat}

lemma Genuine.send (h : c.Genuine b) (hab : b ≠ a) {sender : Sender} (tcp : Nat → TcpTransfer)
    (message : Option SendMessage) (hfd : getSocketForFd fd ⟨table, c.objects⟩ = some a)
    (hown : c.Own b sender) : (c.send b sender tcp table fd message).Genuine b := by
  have hflows : FdObjects.Flows b sender c.objects
      (c.send b sender tcp table fd message).objects :=
    flows_sysSendmsg hab tcp message hfd
  refine ⟨fun hu => ?_, ?_, fun hv x hx => ?_⟩
  · rw [hflows.family]
    exact h.unix (hflows.inUse.symm.trans hu)
  · have hle := hflows.rx.length_le
    simp only [Channel.send] at hle ⊢
    rw [length_append, length_replicate, h.length]
    omega
  · -- every byte is the sender's own, the new ones and those it has found
    have hx : x = sender := by
      rcases mem_append.1 hx with hx | hx
      · exact hown.1 x hx
      · exact eq_of_mem_replicate hx
    rw [hx]
    cases hold : (c.objects.sockets b).rxCredentialsValid with
    | true => exact ((hflows.kept hold).2.trans (hown.2 hold)).symm
    | false => exact (hflows.recorded hold hv).symm

lemma Genuine.recv (h : c.Genuine b) (tcp : Nat → TcpTransfer) (message : Option RecvMessage)
    (hfd : getSocketForFd fd ⟨table, c.objects⟩ = some b) :
    (c.recv b tcp table fd message).Genuine b := by
  have huse := getSocketForFd_inUse hfd
  obtain ⟨n, hbytes, -, hleft⟩ := sysRecvmsg_spec tcp message hfd (h.unix huse)
  have hlength : (c.reply tcp table fd message).bytes.length =
      min n (c.objects.sockets b).rx.length := by
    rw [Channel.reply, hbytes, length_take]
  rcases hleft with ⟨hu, hr, hv⟩ | ⟨hu, hf, hr, hv⟩
  · refine ⟨fun hu' => absurd (hu.symm.trans hu') Bool.false_ne_true, ?_, fun hv' => ?_⟩
    · simp only [Channel.recv, hr]
      simp
    · exact absurd (hv.symm.trans hv') Bool.false_ne_true
  · refine ⟨fun hu' => hf.trans (h.unix (hu.symm.trans hu')), ?_, fun hv' x hx => ?_⟩
    · simp only [Channel.recv, hr, hlength, length_take, length_drop, h.length]
      omega
    · obtain ⟨hvalid, hsender⟩ := hv hv'
      have hmem : x ∈ c.owners := mem_of_mem_drop (mem_of_mem_take hx)
      exact (h.recorded hvalid x hmem).trans hsender.symm

lemma Runs.genuine {c₀ : Channel} (h₀ : c₀.Genuine b) (hab : b ≠ a) (h : Runs a b c₀ c) :
    c.Genuine b := by
  induction h with
  | start => exact h₀
  | send h sender tcp table fd message hfd hown ih => exact ih.send hab tcp message hfd hown
  | recv h tcp table fd message hfd ih => exact ih.recv tcp message hfd

end Channel

/-- A local socket pair with nothing sent yet to `b`, which wants credentials. -/
structure FdObjects.Paired (o : FdObjects) (a b : Nat) : Prop where
  ne : b ≠ a
  unix : (o.sockets b).family = afUnix
  wants : (o.sockets b).passCredentials = true
  peer : (o.sockets a).peerIndex = b
  empty : (o.sockets b).rx = []
  unrecorded : (o.sockets b).rxCredentialsValid = false

/-- If every send finds only bytes and credentials of its own process, a `recvmsg` returns the first
unread bytes, and the credentials it reports are those of the sender of each of them. -/
theorem credentials_genuine {a b : Nat} {o : FdObjects} (hpair : o.Paired a b) {c : Channel}
    (h : Channel.Runs a b ⟨o, []⟩ c) (tcp : Nat → TcpTransfer) (table : FdTable) (fd : Nat)
    (message : Option RecvMessage)
    (hfd : FdState.getSocketForFd fd ⟨table, c.objects⟩ = some b) :
    (c.reply tcp table fd message).bytes <+: (c.objects.sockets b).rx ∧
      c.owners.length = (c.objects.sockets b).rx.length ∧
      ∀ x, (c.reply tcp table fd message).credentials = some x →
        ∀ y ∈ c.owners.take (c.reply tcp table fd message).bytes.length, y = x := by
  have hgenuine : c.Genuine b := h.genuine
    ⟨fun _ => hpair.unix, by simp [hpair.empty], fun _ _ hx => absurd hx (by simp)⟩ hpair.ne
  obtain ⟨n, hbytes, hcredentials, -⟩ :=
    sysRecvmsg_spec tcp message hfd (hgenuine.unix (getSocketForFd_inUse hfd))
  refine ⟨?_, hgenuine.length, fun x hx y hy => ?_⟩
  · rw [Channel.reply, hbytes]
    exact take_prefix _ _
  · obtain ⟨hvalid, rfl⟩ := hcredentials x hx
    exact hgenuine.recorded hvalid y (mem_of_mem_take hy)

/-! ### Two senders -/

/-- The objects after a first `socketpair`, whose second socket wants credentials. -/
def firstPair : FdState :=
  let s := (FdState.sysSocketpair afUnix sockStream 0 0x400000
    ⟨initProcessFdTable, FdObjects.zero⟩).2.2
  { s with objects := s.objects.setSocket 1 { s.objects.sockets 1 with passCredentials := true } }

def oneByte (x : UInt8) : Option SendMessage := some ⟨false, [⟨false, [x]⟩], true, []⟩

def noTcp : Nat → TcpTransfer := fun _ => ⟨0, [], .closed, .zero⟩

/-- A receiver with room for two bytes and for the credentials. -/
def twoBytes : Option RecvMessage := some ⟨false, [⟨false, 2⟩], false, 64⟩

def oneSender : Channel :=
  Channel.send 1 ⟨10, 1000, 1000⟩ noTcp firstPair.table 3 (oneByte 1) ⟨firstPair.objects, []⟩

lemma paired_firstPair : firstPair.objects.Paired 0 1 :=
  ⟨by decide, rfl, rfl, rfl, rfl, rfl⟩

/-- A second process sends after the byte of the first has been received: its byte comes with its
own credentials. -/
theorem credentials_genuine_inTurn :
    let c := (oneSender.recv 1 noTcp firstPair.table 4 twoBytes).send 1 ⟨11, 0, 0⟩ noTcp
      firstPair.table 3 (oneByte 2)
    (oneSender.reply noTcp firstPair.table 4 twoBytes).credentials = some ⟨10, 1000, 1000⟩ ∧
      (c.reply noTcp firstPair.table 4 twoBytes).credentials = some ⟨11, 0, 0⟩ ∧
      ∀ y ∈ c.owners.take (c.reply noTcp firstPair.table 4 twoBytes).bytes.length,
        y = ⟨11, 0, 0⟩ := by
  have hfirst : Channel.Runs 0 1 ⟨firstPair.objects, []⟩ oneSender :=
    .send .start _ _ _ _ _ rfl ⟨fun _ h => absurd h (by simp), fun h => absurd h (by decide)⟩
  have hrun := (hfirst.recv noTcp firstPair.table 4 twoBytes rfl).send ⟨11, 0, 0⟩ noTcp
    firstPair.table 3 (oneByte 2) rfl
    ⟨fun _ h => absurd h (List.not_mem_nil), fun h => absurd h (by decide)⟩
  exact ⟨rfl, rfl,
    (credentials_genuine paired_firstPair hrun noTcp firstPair.table 4 twoBytes rfl).2.2 _ rfl⟩

/-- A second process sends before the first `recvmsg`: its byte comes with the credentials of the
first. -/
theorem credentials_of_another :
    let c := oneSender.send 1 ⟨11, 0, 0⟩ noTcp firstPair.table 3 (oneByte 2)
    (c.reply noTcp firstPair.table 4 twoBytes).bytes = [1, 2] ∧
      c.owners = [⟨10, 1000, 1000⟩, ⟨11, 0, 0⟩] ∧
      (c.reply noTcp firstPair.table 4 twoBytes).credentials = some ⟨10, 1000, 1000⟩ := by
  exact ⟨rfl, rfl, rfl⟩

end AosKernel.Fd
