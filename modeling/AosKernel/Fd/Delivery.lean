import AosKernel.Fd.Messages

/-!
# Delivery between two local sockets

`socket_send_data` moves the unread bytes of the other end to the front of its receive buffer and
copies as much behind them as fits, whatever the type of the sockets, and `socket_recv_data` takes
bytes from the front. So the bytes arrive in order on every connected pair, and a receive may return
bytes of two messages: `delivery_iff`.
-/

namespace AosKernel.Fd.Delivery

open Function FdObjects

/-- What no call of a pair changes in a socket. -/
def route (s : SocketObject) : Bool × SocketState × Nat × Nat × Int × Bool × Bool :=
  (s.inUse, s.state, s.family, s.type, s.peerIndex, s.readShutdown, s.writeShutdown)

/-- Two local sockets of one type, connected to each other and not shut down. -/
structure Connected (type : Nat) (e : Bool → Nat) (o : FdObjects) : Prop where
  ne : e true ≠ e false
  lt : ∀ x, e x < maxSocketObjects
  route_eq : ∀ x,
    route (o.sockets (e x)) = (true, .connected, afUnix, type, (e !x : Int), false, false)

/-- A call on end `x` of the pair. -/
inductive Event where
  | send (x : Bool) (sender : Sender) (v : SendVec)
  | recv (x : Bool) (v : RecvVec)

/-- The objects, the accepted messages of each end, and what it has received, with the lengths of
the buffers. -/
structure History where
  objects : FdObjects
  sent : Bool → List (List UInt8)
  got : Bool → List (Nat × List UInt8)

/-- The history after one call; `tcp` is not used by local sockets. -/
def step (tcp : TcpTransfer) (e : Bool → Nat) (h : History) : Event → History
  | .send x sender v =>
      let (result, o) := h.objects.socketSendData sender tcp (e x) v
      { h with
        objects := o
        sent := if result < 0 then h.sent
          else update h.sent x (h.sent x ++ [v.data.take result.toNat]) }
  | .recv x v =>
      let (_, bytes, o) := h.objects.socketRecvData tcp (e x) v
      { h with
        objects := o
        got := if bytes = [] then h.got else update h.got x (h.got x ++ [(v.length, bytes)]) }

def history (tcp : TcpTransfer) (e : Bool → Nat) (o : FdObjects) (events : List Event) : History :=
  events.foldl (step tcp e) ⟨o, fun _ => [], fun _ => []⟩

/-- What has been received and what is unread is what the other end has sent, in order. -/
def InOrder (e : Bool → Nat) (h : History) : Prop :=
  ∀ x, ((h.got x).map Prod.snd).flatten ++ (h.objects.sockets (e x)).rx = (h.sent (!x)).flatten

/-- Every receive returns the beginning of one message. -/
def OneEach (h : History) : Prop :=
  ∀ x, ∀ r ∈ h.got x, ∃ m ∈ h.sent (!x), r.2 = m.take r.1

/-- What is promised for sockets of a type. -/
def Delivers (type : Nat) (e : Bool → Nat) (h : History) : Prop :=
  if type = sockStream.toNat then InOrder e h else OneEach h

lemma recordSenderCredentials_keeps (sender : Sender) (s : SocketObject) :
    route (recordSenderCredentials sender s) = route s ∧
      (recordSenderCredentials sender s).rx = s.rx := by
  unfold recordSenderCredentials
  split
  · exact ⟨rfl, rfl⟩
  · exact ⟨rfl, rfl⟩

lemma setSocket_self (o : FdObjects) (i : Nat) : o.setSocket i (o.sockets i) = o := by
  simp [setSocket]

section Calls

variable {type : Nat} {e : Bool → Nat} {o : FdObjects} {x : Bool}
  (h : Connected type e o)
include h

/-! ## One call -/

lemma Connected.fields (x : Bool) :
    let sock := o.sockets (e x)
    sock.state = .connected ∧ sock.family = afUnix ∧ sock.readShutdown = false ∧
      sock.writeShutdown = false ∧ o.getSocketByIndex sock.peerIndex = some (e !x) := by
  have hself := h.route_eq x
  have hpeer := h.route_eq !x
  have hlt := h.lt !x
  simp only [route, Prod.mk.injEq] at hself hpeer
  obtain ⟨-, hstate, hfamily, -, hindex, hread, hwrite⟩ := hself
  refine ⟨hstate, hfamily, hread, hwrite, ?_⟩
  simp [hindex, getSocketByIndex, lookup, hpeer.1, hlt]

/-- A send stores a front of its bytes behind the unread ones of the other end, or fails. -/
lemma socketSendData_spec (tcp : TcpTransfer) (sender : Sender) (v : SendVec) :
    let r := o.socketSendData sender tcp (e x) v
    let receiver := o.sockets (e !x)
    ∃ s, route s = route receiver ∧ r.2 = o.setSocket (e !x) s ∧
      (r.1 < 0 ∧ s.rx = receiver.rx ∨ 0 ≤ r.1 ∧ s.rx = receiver.rx ++ v.data.take r.1.toNat) ∧
      (v.null = false →
        r.1.toNat = min (socketRxBufferSize - receiver.rx.length) v.data.length) := by
  obtain ⟨hstate, hfamily, -, hwrite, hpeer⟩ := h.fields x
  have hlen : (o.sockets (e !x)).rxBuffer.compact.len = (o.sockets (e !x)).rx.length :=
    (RxBuffer.unread_length _).symm
  unfold socketSendData
  dsimp only
  rw [if_neg (not_not_intro hstate), if_neg (by simp [hwrite])]
  split
  · next hnull =>
    exact ⟨o.sockets (e !x), rfl, (setSocket_self o _).symm,
      .inl ⟨(by decide : -Proc.efault < 0), rfl⟩, fun hv => by simp [hv] at hnull⟩
  rw [hpeer]
  dsimp only
  rw [if_neg (by simp [(h.fields !x).1]), hlen]
  split
  · next hfull =>
    refine ⟨{ o.sockets (e !x) with rxBuffer := (o.sockets (e !x)).rxBuffer.compact }, rfl, rfl,
      .inl ⟨(by decide : -Proc.eagain < 0), RxBuffer.unread_compact _⟩, fun _ => ?_⟩
    rw [hfull.1]
    rfl
  · obtain ⟨hroute, hrx⟩ := recordSenderCredentials_keeps sender { o.sockets (e !x) with
      rxBuffer := (o.sockets (e !x)).rxBuffer.compact.store v.data }
    refine ⟨_, hroute, rfl, .inr ⟨Int.natCast_nonneg _, ?_⟩, fun _ => Int.toNat_natCast _⟩
    rw [hrx, SocketObject.rx, RxBuffer.unread_store, RxBuffer.unread_compact, hlen,
      Int.toNat_natCast]
    exact congrArg _ (List.take_eq_take_iff.2 (by omega))

lemma socketRecvData_spec (tcp : TcpTransfer) (v : RecvVec) :
    let r := o.socketRecvData tcp (e x) v
    let sock := o.sockets (e x)
    ∃ s, route s = route sock ∧ r.2.2 = o.setSocket (e x) s ∧ r.2.1 ++ s.rx = sock.rx ∧
      (v.null = false → r.2.1 = sock.rx.take v.length) := by
  obtain ⟨hstate, hfamily, hread, -, hpeer⟩ := h.fields x
  obtain ⟨hstate', -, -, hwrite', -⟩ := h.fields !x
  have hsame := (setSocket_self o (e x)).symm
  unfold socketRecvData
  dsimp only
  rw [if_neg (by simp [hread]), if_neg (by simp [hstate]), if_neg (by simp [hstate])]
  split
  · next hnull => exact ⟨_, rfl, hsame, rfl, fun hv => by simp [hv] at hnull⟩
  split
  · next hzero => exact ⟨_, rfl, hsame, rfl, fun _ => by rw [hzero, List.take_zero]⟩
  rw [hpeer]
  dsimp only
  rw [if_neg (show ¬(_ ∨ _) by simp [hstate', hwrite'])]
  split
  · refine ⟨{ o.sockets (e x) with rxBuffer := (o.sockets (e x)).rxBuffer.read v.length }, rfl, rfl,
      ?_, fun _ => RxBuffer.slice_available _ _⟩
    rw [SocketObject.rx, RxBuffer.slice_available, RxBuffer.unread_read]
    exact List.take_append_drop _ _
  · next hnone =>
    refine ⟨_, rfl, hsame, rfl, fun _ => ?_⟩
    have hslice := (o.sockets (e x)).rxBuffer.slice_available v.length
    rw [not_not.1 hnone, Lib.ByteStore.slice_zero] at hslice
    exact hslice

/-- A call that leaves the route of one end keeps the pair connected. -/
lemma Connected.setSocket {s : SocketObject} (hs : route s = route (o.sockets (e x))) :
    Connected type e (o.setSocket (e x) s) where
  ne := h.ne
  lt := h.lt
  route_eq y := by
    rw [← h.route_eq y]
    by_cases hy : e y = e x
    · simp only [FdObjects.setSocket, hy, update_self, hs]
    · simp only [FdObjects.setSocket, update_of_ne hy]

lemma Connected.apart (y : Bool) : e y = e x ↔ y = x := by
  have hne := h.ne
  cases x <;> cases y <;> simp [hne, hne.symm]

end Calls

/-! ## Every run -/

section Runs

variable (tcp : TcpTransfer) {type : Nat} {e : Bool → Nat} {h : History}

lemma step_inOrder (event : Event) (hc : Connected type e h.objects) (hin : InOrder e h) :
    Connected type e (step tcp e h event).objects ∧ InOrder e (step tcp e h event) := by
  cases event with
  | send x sender v =>
    obtain ⟨s, hs, ho, hrx, -⟩ := socketSendData_spec hc tcp sender v
    rw [step]
    generalize h.objects.socketSendData sender tcp (e x) v = r at ho hrx
    obtain ⟨result, o⟩ := r
    obtain rfl : o = _ := ho
    refine ⟨hc.setSocket hs, fun y => ?_⟩
    have hy := hin y
    -- The unread bytes of the other end grow by what is added to the messages of `x`.
    by_cases hyx : y = !x
    · subst hyx
      rw [Bool.not_not] at hy
      obtain ⟨hneg, hsame⟩ | ⟨hpos, hmore⟩ := hrx
      · simp [setSocket, hsame, if_pos hneg, hy]
      · simp [setSocket, hmore, if_neg (Int.not_lt.2 hpos), ← hy]
    · have hne : e y ≠ e !x := fun heq => hyx ((hc.apart y).1 heq)
      have hother : (!y) ≠ x := fun heq => hyx (by simp [← heq])
      dsimp only
      split <;> simp [setSocket, hne, hother, hy]
  | recv x v =>
    obtain ⟨s, hs, ho, hrx, -⟩ := socketRecvData_spec hc tcp v
    rw [step]
    generalize h.objects.socketRecvData tcp (e x) v = r at ho hrx
    obtain ⟨result, bytes, o⟩ := r
    obtain rfl : o = _ := ho
    refine ⟨hc.setSocket hs, fun y => ?_⟩
    have hy := hin y
    by_cases hyx : y = x
    · subst hyx
      rw [← hrx] at hy
      dsimp only at hy ⊢
      split
      · next hnone => simpa [setSocket, hnone] using hy
      · simpa [setSocket] using hy
    · have hne : e y ≠ e x := fun heq => hyx ((hc.apart y).1 heq)
      dsimp only
      split <;> simp [setSocket, hne, hyx, hy]

lemma step_byte (hc : Connected type e h.objects) (hin : InOrder e h) (hgot : h.got false = [])
    (hroom : (h.sent true).flatten.length < socketRxBufferSize) (sender : Sender) (b : UInt8) :
    let after := step tcp e h (.send true sender ⟨false, [b]⟩)
    after.got false = [] ∧ after.sent true = h.sent true ++ [[b]] := by
  have hrx : (h.objects.sockets (e !true)).rx = (h.sent true).flatten := by
    simpa [hgot] using hin false
  obtain ⟨s, -, -, hcase, hone⟩ := socketSendData_spec hc tcp sender (x := true) ⟨false, [b]⟩
  have htake := hone rfl
  rw [hrx, List.length_singleton, min_eq_right (by omega)] at htake
  have hpos : ¬(h.objects.socketSendData sender tcp (e true) ⟨false, [b]⟩).1 < 0 := by omega
  simp [step, hgot, hpos, htake]

lemma history_inOrder {o : FdObjects} (hc : Connected type e o)
    (hempty : ∀ x, (o.sockets (e x)).rx = []) (events : List Event) :
    InOrder e (history tcp e o events) := by
  have hrun : ∀ (events : List Event) (h : History), Connected type e h.objects → InOrder e h →
      InOrder e (events.foldl (step tcp e) h) := by
    intro events
    induction events with
    | nil => exact fun _ _ hin => hin
    | cons event events ih =>
      intro h hc hin
      obtain ⟨hc', hin'⟩ := step_inOrder tcp event hc hin
      exact ih _ hc' hin'
  exact hrun events _ hc fun x => by simp [hempty]

variable {o : FdObjects} (hc : Connected type e o) (hempty : ∀ x, (o.sockets (e x)).rx = [])
include hc hempty

lemma two_messages (sender : Sender) :
    ¬ OneEach (history tcp e o [.send true sender ⟨false, [1]⟩, .send true sender ⟨false, [2]⟩,
      .recv false ⟨false, 2⟩]) := by
  intro hone
  have hstart : InOrder e ⟨o, fun _ => [], fun _ => []⟩ := fun x => by simp [hempty]
  obtain ⟨hc₁, hin₁⟩ := step_inOrder tcp (.send true sender ⟨false, [1]⟩) hc hstart
  obtain ⟨hgot₁, hsent₁⟩ := step_byte tcp hc hstart rfl (Nat.zero_lt_succ _) sender 1
  obtain ⟨hc₂, hin₂⟩ := step_inOrder tcp (.send true sender ⟨false, [2]⟩) hc₁ hin₁
  obtain ⟨hgot₂, hsent₂⟩ := step_byte tcp hc₁ hin₁ hgot₁ (by simp [hsent₁, socketRxBufferSize])
    sender 2
  rw [history, List.foldl_cons, List.foldl_cons, List.foldl_cons, List.foldl_nil] at hone
  rw [hsent₁] at hsent₂
  generalize step tcp e (step tcp e _ _) (.send _ _ _) = h₂ at *
  -- Nothing is received before, so both messages are unread.
  have hrx : (h₂.objects.sockets (e false)).rx = [1, 2] := by
    simpa [hgot₂, hsent₂] using hin₂ false
  obtain ⟨s, -, -, -, hbytes⟩ := socketRecvData_spec hc₂ tcp (x := false) ⟨false, 2⟩
  obtain ⟨m, hm, htake⟩ := hone false (2, [1, 2]) (by simp [step, hbytes, hrx, hgot₂])
  have hsent : m = [1] ∨ m = [2] := by simpa [step, hsent₂] using hm
  rcases hsent with rfl | rfl
  · exact absurd htake (by decide)
  · exact absurd htake (by decide)

/-- Two connected local sockets of one type, with nothing unread, deliver as the type promises in
every run exactly when they are stream sockets. -/
theorem delivery_iff :
    (∀ events, Delivers type e (history tcp e o events)) ↔ type = sockStream.toNat := by
  constructor
  · intro hall
    by_contra htype
    simp only [Delivers, if_neg htype] at hall
    exact two_messages tcp hc hempty ⟨0, 0, 0⟩ (hall _)
  · intro htype events
    rw [Delivers, if_pos htype]
    exact history_inOrder tcp hc hempty events

end Runs

/-- Sockets 3 and 5, connected to each other by `sys_socketpair`. -/
def pairedObjects (baseType : UInt32) : FdObjects :=
  (zero.setSocket 3 (FdState.pairedSocket baseType 5)).setSocket 5
    (FdState.pairedSocket baseType 3)

lemma pairedObjects_connected (baseType : UInt32) :
    Connected baseType.toNat (cond · 3 5) (pairedObjects baseType) := by
  refine ⟨by decide, by decide, fun x => ?_⟩
  cases x <;> rfl

/-- Two sends and two receives on a stream pair. The second send finds the third byte behind two
that are read. -/
def streamHistory : History :=
  history ⟨0, [], .connected, .zero⟩ (cond · 3 5) (pairedObjects sockStream)
    [.send true ⟨7, 0, 0⟩ ⟨false, [1, 2, 3]⟩, .recv false ⟨false, 2⟩,
      .send true ⟨8, 0, 0⟩ ⟨false, [4]⟩, .recv false ⟨false, 8⟩]

theorem delivery_iff_stream : Delivers sockStream.toNat (cond · 3 5) streamHistory ∧
    streamHistory.got false = [(2, [1, 2]), (8, [3, 4])] :=
  ⟨(delivery_iff _ (pairedObjects_connected sockStream) (by decide)).2 rfl _, by decide⟩

/-- A datagram pair that gives two messages to one receive. -/
theorem delivery_joins_datagrams :
    Connected sockDgram.toNat (cond · 3 5) (pairedObjects sockDgram) ∧
    (history ⟨0, [], .connected, .zero⟩ (cond · 3 5) (pairedObjects sockDgram)
      [.send true ⟨7, 0, 0⟩ ⟨false, [1]⟩, .send true ⟨7, 0, 0⟩ ⟨false, [2]⟩,
        .recv false ⟨false, 8⟩]).got false = [(8, [1, 2])] :=
  ⟨pairedObjects_connected sockDgram, by decide⟩

end AosKernel.Fd.Delivery
