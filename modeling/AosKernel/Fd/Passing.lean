import AosKernel.Fd.Balance

/-!
# Descriptors in messages

`sys_sendmsg` and `sys_recvmsg` keep the counts (`counted_sysSendmsg`, `counted_sysRecvmsg`). A
sender retains each descriptor it passes; the receiver takes the references over with the
descriptors, or releases them where they are. The transfers of `Fd.Transfer` do not touch the counts
at all (`quiet_sysRead`, `quiet_sysWrite` and the calls made of them). -/

namespace AosKernel.Fd

open Lib Lib.RefCount Lib.ObjectPool Vfs Function FdEntry FdObjects.Counted FdTable List FdObjects

/-! ## Transfers -/

namespace FdObjects

variable (o : FdObjects) (i : Nat)

lemma pool_setHandle_same {h : FileHandle} (hc : h.refcount = (o.handles i).refcount)
    (hu : h.inUse = (o.handles i).inUse) : (o.setHandle i h).pool = o.pool := by
  rw [pool_setHandle, hc, hu]
  exact Pool.ext (update_eq_self _ _) (update_eq_self _ _) rfl

lemma pool_setEventfd_same {e : EventfdObject} (hc : e.refcount = (o.eventfds i).refcount)
    (hu : e.inUse = (o.eventfds i).inUse) : (o.setEventfd i e).pool = o.pool := by
  rw [pool_setEventfd, hc, hu]
  exact Pool.ext (update_eq_self _ _) (update_eq_self _ _) rfl

lemma pool_setPipe_same {p : PipeObject} (hr : p.readRefs = (o.pipes i).readRefs)
    (hw : p.writeRefs = (o.pipes i).writeRefs) (hu : p.inUse = (o.pipes i).inUse) :
    (o.setPipe i p).pool = o.pool := by
  rw [pool_setPipe, hr, hw, hu]
  refine Pool.ext ?_ (update_eq_self _ _) rfl
  exact (congrArg (update · _ _) (update_eq_self _ _)).trans (update_eq_self _ _)

/-- The counts, the descriptors in transit and the peers of the sockets are as before. -/
structure Untouched (o o' : FdObjects) : Prop where
  pool : o'.pool = o.pool
  peer : ∀ i, (o'.sockets i).peerIndex = (o.sockets i).peerIndex
  pipes : o'.pipes = o.pipes
  handles : o'.handles = o.handles

lemma Untouched.refl : o.Untouched o := ⟨rfl, fun _ => rfl, rfl, rfl⟩

theorem Untouched.trans {o o' o'' : FdObjects} (h : o.Untouched o') (h' : o'.Untouched o'') :
    o.Untouched o'' :=
  ⟨h'.pool.trans h.pool, fun i => (h'.peer i).trans (h.peer i), h'.pipes.trans h.pipes,
    h'.handles.trans h.handles⟩

lemma untouched_setSocket {s : SocketObject} (hc : s.refcount = (o.sockets i).refcount)
    (hu : s.inUse = (o.sockets i).inUse) (ha : s.rxAncillaryFds = (o.sockets i).rxAncillaryFds)
    (hp : s.peerIndex = (o.sockets i).peerIndex) : o.Untouched (o.setSocket i s) := by
  refine ⟨pool_setSocket_same o i hc hu ha, fun j => ?_, rfl, rfl⟩
  by_cases e : j = i
  · subst e
    simpa [setSocket] using hp
  · simp [setSocket, update_of_ne e]

lemma untouched_afterTcp (tcp : TcpTransfer) : o.Untouched (o.afterTcp i tcp) :=
  untouched_setSocket o i rfl rfl rfl rfl

lemma untouched_recordSenderCredentials (sender : Sender) (i : Nat) (rx : RxBuffer) :
    o.Untouched (o.setSocket i
      (recordSenderCredentials sender { o.sockets i with rxBuffer := rx })) := by
  unfold recordSenderCredentials
  split <;> exact untouched_setSocket o i rfl rfl rfl rfl

lemma untouched_socketSendData (sender : Sender) (tcp : TcpTransfer) (i : Nat) (v : SendVec)
    (o : FdObjects) : o.Untouched (o.socketSendData sender tcp i v).2 := by
  simp only [socketSendData]
  split
  · exact .refl o
  split
  · exact .refl o
  split
  · exact .refl o
  split
  · split
    · exact .refl o
    split
    · exact .refl o
    · split
      · exact untouched_setSocket o _ rfl rfl rfl rfl
      · exact untouched_recordSenderCredentials o sender _ _
  · exact untouched_afterTcp o i tcp

lemma untouched_socketRecvData (tcp : TcpTransfer) (i : Nat) (v : RecvVec) (o : FdObjects) :
    o.Untouched (o.socketRecvData tcp i v).2.2 := by
  simp only [socketRecvData]
  split
  · exact .refl o
  split
  · exact .refl o
  split
  · exact .refl o
  split
  · exact .refl o
  split
  · exact .refl o
  split
  · split
    · exact untouched_setSocket o i rfl rfl rfl rfl
    · split
      · exact .refl o
      · split <;> exact .refl o
  · exact untouched_afterTcp o i tcp

end FdObjects

lemma untouched_sendVecs (sender : Sender) (tcp : Nat → TcpTransfer) (i : Nat)
    (vs : List SendVec) (sent : Nat) (o : FdObjects) :
    o.Untouched (sendVecs sender tcp i vs sent o).2 := by
  induction vs generalizing sent o with
  | nil => exact .refl o
  | cons v vs ih =>
    have hsend := untouched_socketSendData sender (tcp vs.length) i v o
    simp only [sendVecs]
    split
    · exact .refl o
    split
    · exact hsend
    · split
      · exact hsend
      · exact hsend.trans (ih _ _)

lemma untouched_recvVecs (tcp : Nat → TcpTransfer) (i : Nat) (vs : List RecvVec)
    (received : Nat) (bytes : List UInt8) (o : FdObjects) :
    o.Untouched (recvVecs tcp i vs received bytes o).2.2 := by
  induction vs generalizing received bytes o with
  | nil => exact .refl o
  | cons v vs ih =>
    have hrecv := untouched_socketRecvData (tcp vs.length) i v o
    simp only [recvVecs]
    split
    · exact .refl o
    split
    · split <;> exact hrecv
    · split
      · exact hrecv
      · exact hrecv.trans (ih _ _ _)

/-! ## Sending -/

/-- Every entry that a message passes is one of the sender's descriptors. -/
def FromTable (t : FdTable) (l : List FdEntry) : Prop := ∀ e ∈ l, ∃ fd < processFdMax, t fd = e

variable {t : FdTable} {l l' : List FdEntry}

lemma collectRights_spec {fds : List Nat} (h : collectRights t fds l = .ok l')
    (hl : FromTable t l) : FromTable t l' ∧ l'.length = l.length + fds.length := by
  induction fds generalizing l with
  | nil =>
    cases h
    exact ⟨hl, rfl⟩
  | cons fd fds ih =>
    simp only [collectRights] at h
    split at h
    · cases h
    split at h
    · cases h
    rename_i e he
    obtain ⟨hfd, -, rfl⟩ := getFdEntry_spec he
    have hl' : FromTable t (l ++ [t fd]) := fun e' he' => by
      rw [mem_append, mem_singleton] at he'
      cases he' with
      | inl he' => exact hl e' he'
      | inr he' => exact ⟨fd, hfd, he'.symm⟩
    obtain ⟨h1, h2⟩ := ih h hl'
    refine ⟨h1, h2.trans ?_⟩
    simp only [length_append, length_cons, length_nil]
    omega

lemma words32_length (n : Nat) (bytes : List UInt8) : (words32 n bytes).length = n := by
  induction n generalizing bytes with
  | zero => rfl
  | succ n ih => simp [words32, ih]

lemma parseControl_spec {type : Nat} {data : List UInt8} (h : parseControl t type data l = .ok l')
    (hl : FromTable t l) (hlen : l.length ≤ socketAncillaryFdMax) :
    FromTable t l' ∧ l'.length ≤ socketAncillaryFdMax := by
  unfold parseControl at h
  split at h
  · split at h
    · cases h
    split at h
    · cases h
    obtain ⟨h1, h2⟩ := collectRights_spec h hl
    rw [words32_length] at h2
    exact ⟨h1, by omega⟩
  · split at h
    · cases h
    · cases h
      exact ⟨hl, hlen⟩

lemma parseControls_spec {fuel : Nat} {control : List UInt8}
    (h : parseControls t fuel control l = .ok l') (hl : FromTable t l)
    (hlen : l.length ≤ socketAncillaryFdMax) :
    FromTable t l' ∧ l'.length ≤ socketAncillaryFdMax := by
  induction fuel generalizing control l with
  | zero =>
    cases h
    exact ⟨hl, hlen⟩
  | succ fuel ih =>
    simp only [parseControls] at h
    split at h
    · cases h
      exact ⟨hl, hlen⟩
    split at h
    · cases h
    split at h
    · cases h
    split at h
    · cases h
    rename_i entries hparse
    obtain ⟨h1, h2⟩ := parseControl_spec hparse hl hlen
    split at h
    · cases h
      exact ⟨h1, h2⟩
    · exact ih h h1 h2

lemma socketParseRights_spec {null : Bool} {control : List UInt8}
    (h : socketParseRights t null control = .ok l) :
    FromTable t l ∧ l.length ≤ socketAncillaryFdMax := by
  have hnil : FromTable t [] := fun e he => by simp at he
  unfold socketParseRights at h
  split at h
  · cases h
    exact ⟨hnil, by simp⟩
  · split at h
    · cases h
    · exact parseControls_spec h hnil (by simp)

namespace FdObjects

variable {o : FdObjects} {T : Ref → Nat}

lemma pool_setRights (o : FdObjects) (i : Nat) (l : List FdEntry) :
    (o.setSocket i { o.sockets i with rxAncillaryFds := l }).pool =
      o.pool.setInner (.socket i) l := by
  rw [pool_setSocket]
  exact Pool.ext (update_eq_self _ _) (update_eq_self _ _) rfl

variable {i : Nat}

lemma getSocketByIndex_spec {index : Int} (h : o.getSocketByIndex index = some i) :
    i < maxSocketObjects ∧ (o.sockets i).inUse = true := by
  unfold getSocketByIndex lookup at h
  split at h
  · simp at h
  split at h
  · simp at h
  · cases h
    exact ⟨by omega, by simpa using ‹¬ (o.sockets index.toNat).inUse = false›⟩

lemma socket_mem_containers (h : i < maxSocketObjects) : Object.socket i ∈ scheme.containers :=
  Finset.mem_map_of_mem socketObject (Finset.mem_range.2 h)

/-- New descriptors in transit of a socket in use, whose references were outside before. -/
lemma Counted.setRights {T' : Ref → Nat} (h : o.Counted T) {l : List FdEntry}
    (hi : i < maxSocketObjects) (hu : (o.sockets i).inUse = true)
    (hl : l.length ≤ socketAncillaryFdMax)
    (hT : ∀ r, T' r + held ref l r = T r + held ref (o.sockets i).rxAncillaryFds r) :
    (o.setSocket i { o.sockets i with rxAncillaryFds := l }).Counted T' := by
  refine ⟨?_, h.bounded.setSocket hl⟩
  rw [pool_setRights]
  refine h.balanced.setInner (socket_mem_containers hi) (fun hu' => ?_) hT
  exact absurd (hu.symm.trans hu') Bool.true_eq_false_eq_False

/-- The entries of a message, retained and put into the receiving socket. -/
lemma Counted.attachRights (h : o.Counted T) {o' : FdObjects} {rights : List FdEntry}
    (hlive : ∀ e ∈ rights, o.Live e) (hlen : rights.length ≤ socketAncillaryFdMax)
    (hT : ∀ r, T r < 2 ^ 30) (hpeer : o.peerRefusesRights i = false)
    (ho' : o.attachRights i rights = some o') : o'.Counted T := by
  unfold FdObjects.attachRights at ho'
  unfold peerRefusesRights at hpeer
  cases hget : o.getSocketByIndex (o.sockets i).peerIndex with
  | none => simp [hget] at ho'
  | some peer =>
  rw [hget] at hpeer ho'
  cases ho'
  obtain ⟨hlt, hu⟩ := getSocketByIndex_spec hget
  obtain ⟨h1, hsame⟩ := h.retainAll hlive fun r => by
    have := hT r
    simp only [socketAncillaryFdMax] at hlen
    omega
  have hempty : (o.sockets peer).rxAncillaryFds = [] := by simpa using hpeer
  refine h1.setRights hlt ((congrFun hsame.1 (.socket peer)).trans hu) hlen fun r => ?_
  have hinner := (congrFun hsame.2 (.socket peer)).trans hempty
  change _ = _ + held ref (Pool.inner (FdObjects.pool _) (.socket peer)) r
  rw [hinner, held_nil, add_zero]

end FdObjects

namespace FdState

variable {s : FdState} {T : Ref → Nat}

lemma Counted.withObjects (h : s.Counted T) {o' : FdObjects} (hp : o'.pool = s.objects.pool) :
    FdState.Counted { s with objects := o' } T :=
  of_pool h hp

lemma Untouched.peerRefusesRights {o o' : FdObjects} (h : o.Untouched o') (i : Nat) :
    o'.peerRefusesRights i = o.peerRefusesRights i := by
  have hu : ∀ j, (o'.sockets j).inUse = (o.sockets j).inUse := fun j =>
    congrFun (congrArg Pool.used h.pool) (.socket j)
  have ha : ∀ j, (o'.sockets j).rxAncillaryFds = (o.sockets j).rxAncillaryFds := fun j =>
    congrFun (congrArg Pool.inner h.pool) (.socket j)
  simp only [FdObjects.peerRefusesRights, FdObjects.getSocketByIndex, h.peer, hu, ha]

lemma Counted.live_of_fromTable (h : s.Counted T) {l : List FdEntry} (hl : FromTable s.table l) :
    ∀ e ∈ l, s.objects.Live e := fun e he => by
  obtain ⟨fd, hfd, rfl⟩ := hl e he
  exact h.live hfd

lemma Counted.bound (hT : ∀ r, T r < 2 ^ 20) (s : FdState) (r : Ref) :
    references s.table r + T r < 2 ^ 30 := by
  have := references_le s.table r
  have := hT r
  simp only [processFdMax] at *
  omega

lemma counted_sendRights (h : s.Counted T) (hT : ∀ r, T r < 2 ^ 20) (sender : Sender)
    (tcp : Nat → TcpTransfer) (i : Nat) (iov : List SendVec) {rights : List FdEntry}
    (htable : FromTable s.table rights) (hlen : rights.length ≤ socketAncillaryFdMax)
    (hpeer : rights ≠ [] → s.objects.peerRefusesRights i = false) :
    (s.sendRights sender tcp i iov rights).2.Counted T := by
  unfold sendRights
  have hsend := untouched_sendVecs sender tcp i iov 0 s.objects
  split
  · rename_i value o ho
    rw [ho] at hsend
    exact h.withObjects hsend.pool
  rename_i sent o ho
  rw [ho] at hsend
  generalize hr : (if iov = [] then o.socketSendData sender (tcp 0) i ⟨true, []⟩ else (0, o)) = r
  have hsend2 : s.objects.Untouched r.2 := by
    rw [← hr]
    split
    · exact hsend.trans (untouched_socketSendData sender (tcp 0) i ⟨true, []⟩ o)
    · exact hsend
  simp only
  split
  · exact h.withObjects hsend2.pool
  split
  · exact h.withObjects hsend2.pool
  rename_i hne
  split
  · exact h.withObjects hsend2.pool
  rename_i o3 ho3
  have h2 := h.withObjects hsend2.pool
  refine attachRights h2 (h2.live_of_fromTable htable) hlen
    (Counted.bound hT _) ?_ ho3
  exact (Untouched.peerRefusesRights hsend2 i).trans (hpeer hne)

theorem counted_sysSendmsg (h : s.Counted T) (hT : ∀ r, T r < 2 ^ 20) (sender : Sender)
    (tcp : Nat → TcpTransfer) (fd : Nat) (message : Option SendMessage) :
    (s.sysSendmsg sender tcp fd message).2.Counted T := by
  unfold sysSendmsg
  split
  · exact h
  · exact h
  rename_i i m _
  split
  · exact h
  split
  · exact h
  rename_i rights hrights
  obtain ⟨htable, hlen⟩ := socketParseRights_spec hrights
  split
  · exact h
  split
  · exact h
  · rename_i hpeer
    refine counted_sendRights h hT sender tcp i m.iov htable hlen fun hne => ?_
    simpa [hne] using hpeer

/-! ## Receiving -/

lemma getSocketForFd_spec {fd i : Nat} (h : s.getSocketForFd fd = some i) :
    i < maxSocketObjects ∧ (s.objects.sockets i).inUse = true ∧ fd < processFdMax ∧
      (s.table fd).ref = some (.socket i) := by
  unfold getSocketForFd at h
  split at h
  · simp at h
  rename_i e he
  obtain ⟨hfd, -, rfl⟩ := getFdEntry_spec he
  split at h
  · simp at h
  rename_i hkind
  obtain ⟨hlt, hu⟩ := FdObjects.getSocketByIndex_spec h
  refine ⟨hlt, hu, hfd, ?_⟩
  have hk : (s.table fd).kind = .socket := by simpa using hkind
  simp only [FdObjects.getSocketByIndex, FdObjects.lookup] at h
  split at h
  · simp at h
  rename_i hrange
  split at h
  · simp at h
  · cases h
    simp only [ref, hk, refBelow, if_neg hrange]

end FdState

namespace FdObjects

variable {o : FdObjects} {T : Ref → Nat}

/-- One descriptor in transit of a socket somebody has open, released in place. -/
lemma Counted.releasePending (h : o.Counted T) {i j : Nat} {l : List FdEntry}
    (hi : i < maxSocketObjects) (hpos : 0 < T (.socket i))
    (hl : (o.sockets i).rxAncillaryFds = l) (hj : j < l.length) :
    (o.releasePending i j).Counted T ∧
      ((o.releasePending i j).sockets i).rxAncillaryFds = l.set j closed := by
  subst hl
  have hget : (o.sockets i).rxAncillaryFds.getD j closed =
      (o.sockets i).rxAncillaryFds[j] := by
    simp [getD, hj]
  have hclosed : ∀ r, held ref [closed] r = 0 :=
    held_singleton_of_none _ (ref_of_free rfl)
  obtain ⟨hp, hb⟩ := pool_releaseEntry (maxSocketObjects + 1) (o.sockets i).rxAncillaryFds[j] o
    h.bounded
  obtain ⟨hinner, hbal⟩ := h.balanced.release_inPlace
    (e := (o.sockets i).rxAncillaryFds[j])
    (l := (o.sockets i).rxAncillaryFds.set j closed) (socket_mem_containers hi)
    (show scheme.object (.socket i) = .socket i from rfl) hpos
    (fun r => by
      have hset := held_set ref hj closed r
      have := hclosed r
      change held ref (o.sockets i).rxAncillaryFds r = held ref _ r +
        held ref _ r
      omega) (card_usedContainers_lt o)
  unfold FdObjects.releasePending
  rw [hget]
  simp only [releaseFdEntryRefs]
  generalize releaseEntry (maxSocketObjects + 1) (o.sockets i).rxAncillaryFds[j] o = o1 at hp hb ⊢
  rw [← hp] at hinner hbal
  have hinner' : (o1.sockets i).rxAncillaryFds = (o.sockets i).rxAncillaryFds := hinner
  rw [hinner']
  refine ⟨⟨?_, hb.setSocket ?_⟩, by simp [FdObjects.setSocket]⟩
  · rw [pool_setRights]
    exact hbal
  · rw [length_set]
    exact h.bounded i

lemma Counted.releasePendings (h : o.Counted T) {i n : Nat} (hi : i < maxSocketObjects)
    (hpos : 0 < T (.socket i)) (hn : n ≤ (o.sockets i).rxAncillaryFds.length) :
    ((range n).foldl (FdObjects.releasePending i) o).Counted T ∧
      (((range n).foldl (FdObjects.releasePending i) o).sockets i).rxAncillaryFds =
        replicate n closed ++ (o.sockets i).rxAncillaryFds.drop n := by
  induction n with
  | zero => exact ⟨h, by simp⟩
  | succ n ih =>
    obtain ⟨h1, hl⟩ := ih (by omega)
    rw [range_succ, foldl_append, foldl_cons, foldl_nil]
    have hlen : n < (replicate n closed ++
        (o.sockets i).rxAncillaryFds.drop n).length := by
      simp only [length_append, length_replicate, length_drop]
      omega
    obtain ⟨h2, hl2⟩ := h1.releasePending hi hpos hl hlen
    refine ⟨h2, hl2.trans ?_⟩
    have hdrop := drop_eq_getElem_cons (show n < (o.sockets i).rxAncillaryFds.length by omega)
    rw [set_append_right _ _ (by simp), length_replicate, Nat.sub_self,
      replicate_succ', append_assoc, hdrop]
    rfl

end FdObjects

namespace FdState

variable {s : FdState} {T : Ref → Nat}

lemma freeFds_spec (count : Nat) (t : FdTable) :
    (freeFds count t).Nodup ∧ ∀ fd ∈ freeFds count t, fd < processFdMax ∧ (t fd).kind = .free := by
  constructor
  · exact (List.Nodup.filter _ nodup_range).take
  · intro fd hfd
    have := mem_of_mem_take hfd
    rw [mem_filter, mem_range] at this
    exact ⟨this.1, by simpa using this.2⟩

lemma references_installEntries {fds : List Nat} {es : List FdEntry}
    (hlen : fds.length = es.length) (hnodup : fds.Nodup)
    (hfree : ∀ fd ∈ fds, fd < processFdMax ∧ (s.table fd).kind = .free) (r : Ref) :
    references (s.installEntries fds es).table r =
      references s.table r + held ref es r := by
  induction fds generalizing s es with
  | nil =>
    cases es with
    | nil => rfl
    | cons => simp at hlen
  | cons fd fds ih =>
    cases es with
    | nil => simp at hlen
    | cons e es =>
    obtain ⟨hfd, hkind⟩ := hfree fd (by simp)
    obtain ⟨hnot, hnodup'⟩ := nodup_cons.1 hnodup
    have hrest : ∀ fd' ∈ fds, fd' < processFdMax ∧ ((s.setEntry fd e).table fd').kind = .free :=
      fun fd' hfd' => by
        have hne : fd' ≠ fd := fun heq => hnot (heq ▸ hfd')
        simp only [setEntry, update_of_ne hne]
        exact hfree fd' (mem_cons_of_mem _ hfd')
    have hstep := ih (s := s.setEntry fd e) (by simpa using hlen) hnodup' hrest
    have hfill := references_fill s.table hfd hkind e r
    rw [held_cons]
    change references ((s.setEntry fd e).installEntries fds es).table r = _
    rw [hstep]
    simp only [setEntry]
    omega

lemma counted_takeRights (h : s.Counted T) {i : Nat} (hi : i < maxSocketObjects)
    (hpos : 0 < references s.table (.socket i)) (hu : (s.objects.sockets i).inUse = true)
    (null : Bool) (capacity : Nat) : (s.takeRights i null capacity).2.Counted T := by
  simp only [takeRights]
  split
  · obtain ⟨h1, hl⟩ := releasePendings h hi (Nat.add_pos_left hpos _) le_rfl
    rw [drop_length, append_nil] at hl
    refine setRights h1 hi ?_ (by simp) fun r => ?_
    · exact used h1 (r := .socket i) (Nat.add_pos_left hpos _)
    · have hzero : ∀ n, held ref (replicate n closed) r = 0 := fun n => by
        simp [held, countP_replicate, closed, ref]
      rw [hl, held_nil, hzero]
  · rename_i hfit
    have hlen : (freeFds (s.objects.sockets i).rxAncillaryFds.length s.table).length =
        (s.objects.sockets i).rxAncillaryFds.length := by
      by_contra hne
      exact hfit (.inr (.inr hne))
    obtain ⟨hnodup, hfree⟩ := freeFds_spec (s.objects.sockets i).rxAncillaryFds.length s.table
    refine setRights h hi hu (by simp) fun r => ?_
    have hrefs := references_installEntries (s := s) hlen hnodup hfree r
    rw [hrefs, held_nil]
    omega

lemma counted_recvControl (h : s.Counted T) {i : Nat} (hi : i < maxSocketObjects)
    (hpos : 0 < references s.table (.socket i)) (hu : (s.objects.sockets i).inUse = true)
    (m : RecvMessage) (received : Nat) (bytes : List UInt8) :
    (s.recvControl i m received bytes).2.Counted T := by
  have h1 := h.withObjects (pool_setSocket_same s.objects i
    (s := { s.objects.sockets i with rxCredentialsValid := false }) rfl rfl rfl)
  have hu1 : ((s.objects.setSocket i
      { s.objects.sockets i with rxCredentialsValid := false }).sockets i).inUse = true := by
    simpa [setSocket] using hu
  have htake := counted_takeRights h1 hi hpos hu1
  simp only [recvControl]
  split
  · exact h1
  split
  · rename_i s' hs'
    exact (congrArg Prod.snd hs') ▸ htake m.controlNull _
  · rename_i fds s' hs'
    exact (congrArg Prod.snd hs') ▸ htake m.controlNull _

theorem counted_sysRecvmsg (h : s.Counted T) (tcp : Nat → TcpTransfer) (fd : Nat)
    (message : Option RecvMessage) : (s.sysRecvmsg tcp fd message).2.Counted T := by
  unfold sysRecvmsg
  split
  · exact h
  · exact h
  rename_i i m hsock
  obtain ⟨hi, hu, hfd, href⟩ := getSocketForFd_spec hsock
  have hpos := references_pos s.table hfd href
  have hrecv := untouched_recvVecs tcp i m.iov 0 [] s.objects
  split
  · exact h
  split
  · rename_i value bytes o ho
    rw [ho] at hrecv
    exact h.withObjects hrecv.pool
  rename_i received bytes o ho
  rw [ho] at hrecv
  have hu' : (o.sockets i).inUse = true :=
    (congrFun (congrArg Pool.used hrecv.pool) (.socket i)).trans hu
  exact counted_recvControl (h.withObjects hrecv.pool) hi hpos hu' m received bytes

end FdState

/-! ## Reading and writing -/

namespace PipeObject

/-- A pipe with the same references to its ends. -/
def SameEnds (p q : PipeObject) : Prop :=
  q.inUse = p.inUse ∧ q.readRefs = p.readRefs ∧ q.writeRefs = p.writeRefs

lemma take_sameEnds (n : Nat) (p : PipeObject) : p.SameEnds (p.take n).2 := by
  induction n generalizing p with
  | zero => exact ⟨rfl, rfl, rfl⟩
  | succ n ih =>
    simp only [take]
    split
    · exact ⟨rfl, rfl, rfl⟩
    · exact ih { p with readPos := (p.readPos + 1) % pipeCapacity, size := p.size - 1 }

lemma put_sameEnds (bs : List UInt8) (p : PipeObject) : p.SameEnds (p.put bs).2 := by
  induction bs generalizing p with
  | nil => exact ⟨rfl, rfl, rfl⟩
  | cons b bs ih =>
    simp only [put]
    split
    · exact ih { p with
        buffer := update p.buffer p.writePos b
        writePos := (p.writePos + 1) % pipeCapacity
        size := p.size + 1 }
    · exact ⟨rfl, rfl, rfl⟩

end PipeObject

namespace IoState

variable {σ : Type}

/-- A transfer that leaves the table of the caller and the counts as they are. -/
structure Quiet (s s' : IoState σ) : Prop where
  table : s'.table = s.table
  pool : s'.objects.pool = s.objects.pool

lemma Quiet.refl (s : IoState σ) : s.Quiet s := ⟨rfl, rfl⟩

theorem Quiet.trans {s s' s'' : IoState σ} (h : s.Quiet s') (h' : s'.Quiet s'') : s.Quiet s'' :=
  ⟨h'.table.trans h.table, h'.pool.trans h.pool⟩

lemma quiet_setHandle (s : IoState σ) (i : Nat) {h : FileHandle} (fs : σ)
    (hc : h.refcount = (s.objects.handles i).refcount)
    (hu : h.inUse = (s.objects.handles i).inUse) :
    s.Quiet { s with objects := s.objects.setHandle i h, fs := fs } :=
  ⟨rfl, pool_setHandle_same _ _ hc hu⟩

lemma quiet_setPipe (s : IoState σ) (i : Nat) {p : PipeObject}
    (h : (s.objects.pipes i).SameEnds p) : s.Quiet (s.withObjects (s.objects.setPipe i p)) :=
  ⟨rfl, pool_setPipe_same _ _ h.2.1 h.2.2 h.1⟩

variable (F : FileSystem σ)

lemma readFile_handle (h : FileHandle) (len : Nat) (fs : σ) :
    (readFile F h len fs).2.2.refcount = h.refcount ∧
      (readFile F h len fs).2.2.inUse = h.inUse := by
  simp only [readFile]
  split
  · exact ⟨rfl, rfl⟩
  · split
    · exact ⟨rfl, rfl⟩
    · split <;> exact ⟨rfl, rfl⟩

lemma writeFile_handle (canMutate : CString → Bool) (h : FileHandle) (data : List UInt8)
    (fs : σ) :
    (writeFile F canMutate h data fs).2.1.refcount = h.refcount ∧
      (writeFile F canMutate h data fs).2.1.inUse = h.inUse := by
  simp only [writeFile]
  split
  · exact ⟨rfl, rfl⟩
  split
  · exact ⟨rfl, rfl⟩
  · split
    · exact ⟨rfl, rfl⟩
    · split <;> exact ⟨rfl, rfl⟩

variable (regs : Proc.SyscallRegs)

lemma quiet_readPipe (len i : Nat) (s : IoState σ) : s.Quiet (s.readPipe regs len i).2 := by
  simp only [readPipe]
  split
  · exact .refl s
  · exact quiet_setPipe s i (PipeObject.take_sameEnds len _)

lemma quiet_writePipe (data : List UInt8) (i : Nat) (s : IoState σ) :
    s.Quiet (s.writePipe regs data i).2 := by
  simp only [writePipe]
  split
  · exact .refl s
  · exact quiet_setPipe s i (PipeObject.put_sameEnds data _)

/-- What `sys_read` and `sys_write` can do, with `kind` the kind of the pipe's end and `pipe` the
transfer on it. -/
inductive Transfers (s : IoState σ) (kind : FdKind) (pipe : Nat → IoReply × IoState σ) :
    IoReply × IoState σ → Prop where
  | refused {value : Int} (hvalue : value < 0) : Transfers s kind pipe (.returned regs value [], s)
  | pipe {e : FdEntry} {i : Nat} (he : getFdEntry regs.rdi.toNat s.table = some e)
      (hk : e.kind = kind) (hi : s.objects.getPipeObjectByIndex e.handleIndex = some i) :
      Transfers s kind pipe (pipe i)
  /-- An event counter waits. -/
  | waits {e : FdEntry} (he : getFdEntry regs.rdi.toNat s.table = some e)
      (hk : e.kind = .eventfd) : Transfers s kind pipe (.waits regs (-Proc.eagain), s)
  /-- No pipe moves. An event counter has moved its eight bytes. -/
  | other {e : FdEntry} {value : Int} {bytes : List UInt8} {s' : IoState σ}
      (he : getFdEntry regs.rdi.toNat s.table = some e)
      (hk : e.kind ≠ .pipeReader ∧ e.kind ≠ .pipeWriter) (hvalue : e.kind = .eventfd → value ≠ 0)
      (hquiet : s.Quiet s') (hpipes : s'.objects.pipes = s.objects.pipes) :
      Transfers s kind pipe (.returned regs value bytes, s')

variable (env : Surroundings)

lemma transfers_sysRead (s : IoState σ) :
    Transfers regs s .pipeReader (s.readPipe regs regs.rdx.toNat) (s.sysRead F env regs) := by
  unfold sysRead
  split
  · exact .refused (by decide)
  cases he : getFdEntry regs.rdi.toNat s.table with
  | none => exact .refused (by decide)
  | some e =>
  dsimp only
  cases hk : e.kind with
  | vnode =>
    dsimp only
    split
    · exact .refused (by decide)
    · next i _ =>
      obtain ⟨hc, hu⟩ := readFile_handle F (s.objects.handles i) regs.rdx.toNat s.fs
      exact .other he (by simp [hk]) (by simp [hk]) (quiet_setHandle s i s.fs hc hu) rfl
  | pipeReader =>
    dsimp only
    split
    · exact .refused (by decide)
    · next hi => exact .pipe he hk hi
  | null | random => exact .other he (by simp [hk]) (by simp [hk]) (.refl s) rfl
  | socket =>
    dsimp only
    split
    · exact .refused (by decide)
    · next i _ =>
      have h := untouched_socketRecvData (env.tcp 0) i ⟨false, regs.rdx.toNat⟩ s.objects
      exact .other he (by simp [hk]) (by simp [hk]) ⟨rfl, h.pool⟩ h.pipes
  | eventfd =>
    dsimp only [readEventfd]
    split
    · exact .refused (by decide)
    split
    · exact .refused (by decide)
    split
    · split
      · exact .refused (by decide)
      · exact .waits he hk
    · exact .other he (by simp [hk]) (fun _ => by decide)
        ⟨rfl, pool_setEventfd_same _ _ rfl rfl⟩ rfl
  | stdin | tty =>
    dsimp only
    split <;> exact .other he (by simp [hk]) (by simp [hk]) (.refl s) rfl
  | _ => exact .refused (by decide)

lemma transfers_sysWrite (data : List UInt8) (s : IoState σ) :
    Transfers regs s .pipeWriter (s.writePipe regs data) (s.sysWrite F env regs data) := by
  unfold sysWrite
  cases he : getFdEntry regs.rdi.toNat s.table with
  | none => exact .refused (by decide)
  | some e =>
  dsimp only
  split
  · exact .refused (by decide)
  cases hk : e.kind with
  | pipeWriter =>
    dsimp only
    split
    · exact .refused (by decide)
    · next hi => exact .pipe he hk hi
  | vnode =>
    dsimp only
    split
    · exact .refused (by decide)
    · next i _ =>
      obtain ⟨hc, hu⟩ := writeFile_handle F env.canMutate (s.objects.handles i) data s.fs
      exact .other he (by simp [hk]) (by simp [hk]) (quiet_setHandle s i _ hc hu) rfl
  | socket =>
    dsimp only
    split
    · exact .refused (by decide)
    next i _ =>
    have h :=
      untouched_socketSendData env.sender (env.tcp 0) i ⟨false, data⟩ s.objects
    exact .other he (by simp [hk]) (by simp [hk]) ⟨rfl, h.pool⟩ h.pipes
  | eventfd =>
    dsimp only [writeEventfd]
    split
    · exact .refused (by decide)
    split
    · exact .refused (by decide)
    split
    · exact .refused (by decide)
    split
    · split
      · exact .refused (by decide)
      · exact .waits he hk
    · exact .other he (by simp [hk]) (fun _ => by decide)
        ⟨rfl, pool_setEventfd_same _ _ rfl rfl⟩ rfl
  | null | random | stdout | stderr | tty =>
    exact .other he (by simp [hk]) (by simp [hk]) (.refl s) rfl
  | _ => exact .refused (by decide)

lemma Transfers.quiet {regs : Proc.SyscallRegs} {s : IoState σ} {kind : FdKind}
    {pipe : Nat → IoReply × IoState σ} {r : IoReply × IoState σ}
    (h : Transfers regs s kind pipe r) (hpipe : ∀ i, s.Quiet (pipe i).2) : s.Quiet r.2 := by
  cases h with
  | refused | waits => exact .refl s
  | pipe => exact hpipe _
  | other _ _ _ hquiet => exact hquiet

theorem quiet_sysRead (regs : Proc.SyscallRegs) (s : IoState σ) :
    s.Quiet (s.sysRead F env regs).2 :=
  (transfers_sysRead F regs env s).quiet fun i => quiet_readPipe regs _ i s

theorem quiet_sysWrite (regs : Proc.SyscallRegs) (data : List UInt8)
    (s : IoState σ) : s.Quiet (s.sysWrite F env regs data).2 :=
  (transfers_sysWrite F regs env data s).quiet fun i => quiet_writePipe regs data i s

lemma quiet_vectorLoop {β : Type} (base length : β → UInt64)
    {call : Proc.SyscallRegs → β → IoState σ → IoReply × IoState σ}
    (hcall : ∀ regs v (s : IoState σ), s.Quiet (call regs v s).2) (vs : List β) (total : Int)
    (bytes : List UInt8) (saved : List Proc.SyscallRegs) (s : IoState σ) :
    s.Quiet (vectorLoop regs base length call vs total bytes saved s).2 := by
  induction vs generalizing total bytes saved s with
  | nil => exact .refl s
  | cons v vs ih =>
    have hv := hcall { regs with rsi := base v, rdx := length v } v s
    simp only [vectorLoop]
    split
    · exact .refl s
    split
    · exact hv
    · split
      · exact hv
      · exact hv.trans (ih _ _ _ _)

lemma quiet_sysReadv (regs : Proc.SyscallRegs) (iov : List ReadVec)
    (s : IoState σ) : s.Quiet (s.sysReadv F env regs iov).2 := by
  simp only [sysReadv]
  split
  · exact .refl s
  · split
    · exact .refl s
    · exact quiet_vectorLoop regs _ _ (fun regs _ s => quiet_sysRead F env regs s) iov 0 [] [] s

lemma quiet_sysWritev (regs : Proc.SyscallRegs) (iov : List WriteVec)
    (s : IoState σ) : s.Quiet (s.sysWritev F env regs iov).2 := by
  simp only [sysWritev]
  split
  · exact .refl s
  split
  · exact .refl s
  · exact quiet_vectorLoop regs _ _ (fun regs v s => quiet_sysWrite F env regs v.data s) iov 0 []
      [] s

lemma quiet_sysLseek (fd : Nat) (offset : Int) (whence : UInt64) (s : IoState σ) :
    s.Quiet (s.sysLseek fd offset whence).2 := by
  simp only [sysLseek]
  split
  · exact .refl s
  split
  · exact .refl s
  split
  · exact .refl s
  · split
    · exact .refl s
    · exact quiet_setHandle s _ s.fs rfl rfl

lemma pool_resizeHandles (o : FdObjects) (node : VfsNode) (size : Nat) :
    pool { o with handles := resizeHandles node size o.handles } = o.pool := by
  have hh : ∀ i, (resizeHandles node size o.handles i).refcount = (o.handles i).refcount ∧
      (resizeHandles node size o.handles i).inUse = (o.handles i).inUse := fun i => by
    simp only [resizeHandles]
    split <;> exact ⟨rfl, rfl⟩
  refine Pool.ext (funext fun r => ?_) (funext fun x => ?_) rfl
  · cases r
    case handle i => exact (hh i).1
    all_goals rfl
  · cases x
    case handle i => exact (hh i).2
    all_goals rfl

lemma quiet_sysFtruncate (fd : Nat) (size : Int) (s : IoState σ) :
    s.Quiet (s.sysFtruncate F fd size).2 := by
  simp only [sysFtruncate]
  split
  · exact .refl s
  split
  · exact .refl s
  split
  · exact .refl s
  split
  · exact .refl s
  · split
    · exact ⟨rfl, rfl⟩
    · exact ⟨rfl, pool_resizeHandles _ _ _⟩

end IoState

end AosKernel.Fd
