import AosKernel.Lib.RingBuffer
import AosKernel.Fd.Passing
import AosKernel.Process.Descriptors

/-!
# What keeps pipes and open files

The bytes in a pipe, and the node and the flags of an open file, do not depend on how many
descriptors refer to them (`FdObjects.Kept`). The calls on descriptors keep the objects in this
sense, apart from `sys_pipe` and `open`, which fill a free slot, and the transfers; so do the
entries of the process table (`HolderSteps.kept`). -/

namespace AosKernel.Fd

open Lib Vfs Proc Function

def PipeObject.ring (p : PipeObject) : RingBuffer UInt8 := ⟨p.buffer, p.readPos, p.writePos, p.size⟩

/-- The pipe has been cleared, or has the same bytes. -/
def PipeObject.Kept (p p' : PipeObject) : Prop :=
  (p'.inUse = false ∧ p'.ring = PipeObject.zero.ring) ∨ (p'.inUse = p.inUse ∧ p'.ring = p.ring)

/-- The handle has been cleared, or has the same flags and node. -/
def FileHandle.Kept (h h' : FileHandle) : Prop :=
  h'.inUse = false ∨ (h'.inUse = h.inUse ∧ h'.openFlags = h.openFlags ∧ h'.node = h.node)

lemma PipeObject.Kept.refl (p : PipeObject) : p.Kept p := Or.inr ⟨rfl, rfl⟩

theorem PipeObject.Kept.trans {p p' p'' : PipeObject} (h : p.Kept p') (h' : p'.Kept p'') :
    p.Kept p'' := by
  rcases h' with hc | ⟨hu', hr'⟩
  · exact .inl hc
  · rcases h with ⟨hu, hr⟩ | ⟨hu, hr⟩
    · exact .inl ⟨hu'.trans hu, hr'.trans hr⟩
    · exact .inr ⟨hu'.trans hu, hr'.trans hr⟩

lemma FileHandle.Kept.refl (h : FileHandle) : h.Kept h := Or.inr ⟨rfl, rfl, rfl⟩

theorem FileHandle.Kept.trans {h h' h'' : FileHandle} (hk : h.Kept h') (hk' : h'.Kept h'') :
    h.Kept h'' := by
  rcases hk' with hc | ⟨hu', hf', hn'⟩
  · exact .inl hc
  · rcases hk with hu | ⟨hu, hf, hn⟩
    · exact .inl (hu'.trans hu)
    · exact .inr ⟨hu'.trans hu, hf'.trans hf, hn'.trans hn⟩

namespace FdObjects

/-- Every pipe and every open file is kept or cleared. -/
structure Kept (o o' : FdObjects) : Prop where
  pipe : ∀ i, (o.pipes i).Kept (o'.pipes i)
  handle : ∀ i, (o.handles i).Kept (o'.handles i)

variable {o o' o'' : FdObjects}

lemma Kept.refl (o : FdObjects) : o.Kept o := ⟨fun _ => .refl _, fun _ => .refl _⟩

theorem Kept.trans (h : o.Kept o') (h' : o'.Kept o'') : o.Kept o'' :=
  ⟨fun i => (h.pipe i).trans (h'.pipe i), fun i => (h.handle i).trans (h'.handle i)⟩

lemma Kept.of_eq (hp : o'.pipes = o.pipes) (hh : o'.handles = o.handles) : o.Kept o' :=
  ⟨fun _ => hp ▸ .refl _, fun _ => hh ▸ .refl _⟩

theorem Untouched.kept (h : o.Untouched o') : o.Kept o' := .of_eq h.pipes h.handles

lemma kept_setSocket (o : FdObjects) (i : Nat) (s : SocketObject) : o.Kept (o.setSocket i s) :=
  .of_eq rfl rfl

lemma kept_setEventfd (o : FdObjects) (i : Nat) (e : EventfdObject) : o.Kept (o.setEventfd i e) :=
  .of_eq rfl rfl

variable {release : FdEntry → FdObjects → FdObjects} {i : Nat}

lemma kept_setPipe (o : FdObjects) {p : PipeObject} (h : (o.pipes i).Kept p) :
    o.Kept (o.setPipe i p) := by
  refine ⟨fun j => ?_, fun _ => .refl _⟩
  by_cases e : j = i
  · subst e
    simpa [setPipe] using h
  · simp [setPipe, update_of_ne e, PipeObject.Kept.refl]

lemma kept_setHandle (o : FdObjects) {h : FileHandle} (hk : (o.handles i).Kept h) :
    o.Kept (o.setHandle i h) := by
  refine ⟨fun _ => .refl _, fun j => ?_⟩
  by_cases e : j = i
  · subst e
    simpa [setHandle] using hk
  · simp [setHandle, update_of_ne e, FileHandle.Kept.refl]

/-! ## References -/

variable (e : FdEntry) (t : FdTable)

lemma kept_retainFdEntryRefs (o : FdObjects) : o.Kept (o.retainFdEntryRefs e) := by
  unfold retainFdEntryRefs
  split
  · split
    · exact .refl o
    · exact kept_setHandle o (.inr ⟨rfl, rfl, rfl⟩)
  · split
    · exact .refl o
    · exact kept_setPipe o (.inr ⟨rfl, rfl⟩)
  · split
    · exact .refl o
    · exact kept_setPipe o (.inr ⟨rfl, rfl⟩)
  · split
    · exact .refl o
    · exact kept_setSocket o _ _
  · split
    · exact .refl o
    · exact kept_setEventfd o _ _
  · exact .refl o

lemma kept_releaseFileHandle (o : FdObjects) (index : Int) :
    o.Kept (o.releaseFileHandle index) := by
  unfold releaseFileHandle
  split
  · exact .refl o
  dsimp only
  split
  · exact kept_setHandle o (.inl rfl)
  · exact kept_setHandle o (.inr ⟨rfl, rfl, rfl⟩)

lemma kept_releasePipeRef (o : FdObjects) (index : Int) (kind : FdKind) :
    o.Kept (o.releasePipeRef index kind) := by
  simp only [releasePipeRef]
  split
  · exact .refl o
  split_ifs <;>
    first
      | exact kept_setPipe o (.inl ⟨rfl, rfl⟩)
      | exact kept_setPipe o (.inr ⟨rfl, rfl⟩)

lemma kept_releaseEventfdRef (o : FdObjects) (index : Int) :
    o.Kept (o.releaseEventfdRef index) := by
  simp only [releaseEventfdRef]
  split
  · exact .refl o
  · split <;> exact kept_setEventfd o _ _

lemma kept_foldl {α : Type} {f : FdObjects → α → FdObjects}
    (hf : ∀ (o : FdObjects) a, o.Kept (f o a)) (l : List α) (o : FdObjects) :
    o.Kept (l.foldl f o) := by
  induction l generalizing o with
  | nil => exact .refl o
  | cons a l ih => exact (hf o a).trans (ih (f o a))

lemma kept_closeSocketState (o : FdObjects) (i : Nat) : o.Kept (o.closeSocketState i) := by
  simp only [closeSocketState]
  split
  · split
    · exact kept_setSocket o _ _
    · exact (kept_setSocket o _ _).trans (kept_setSocket _ _ _)
  · exact kept_setSocket o _ _

lemma kept_releaseSocketRefWith (hrel : ∀ e (o : FdObjects), o.Kept (release e o))
    (o : FdObjects) (index : Int) : o.Kept (releaseSocketRefWith release o index) := by
  simp only [releaseSocketRefWith]
  split
  · exact .refl o
  · split
    · exact (kept_setSocket o _ _).trans (kept_foldl (fun o e => hrel e o) _ _)
    · exact kept_setSocket o _ _

lemma kept_closeSocketRefWith (hrel : ∀ e (o : FdObjects), o.Kept (release e o)) (o : FdObjects)
    (index : Int) : o.Kept (closeSocketRefWith release o index) := by
  simp only [closeSocketRefWith]
  split
  · exact .refl o
  refine Kept.trans ?_ (kept_releaseSocketRefWith hrel _ index)
  split
  · exact kept_closeSocketState o _
  · exact .refl o

lemma kept_releaseEntry (fuel : Nat) (e : FdEntry) (o : FdObjects) :
    o.Kept (releaseEntry fuel e o) := by
  induction fuel generalizing e o with
  | zero => exact .refl o
  | succ fuel ih =>
    unfold releaseEntry
    split
    · exact kept_releaseFileHandle o _
    · exact kept_releasePipeRef o _ _
    · exact kept_releasePipeRef o _ _
    · exact kept_closeSocketRefWith ih o _
    · exact kept_releaseEventfdRef o _
    · exact .refl o

lemma kept_releaseFdEntryRefs (o : FdObjects) : o.Kept (o.releaseFdEntryRefs e) :=
  kept_releaseEntry _ e o

lemma kept_retainFdTableEntries (o : FdObjects) : o.Kept (o.retainFdTableEntries t) :=
  kept_foldl (fun o fd => kept_retainFdEntryRefs (t fd) o) _ o

lemma kept_releaseFdTableEntries (o : FdObjects) : o.Kept (o.releaseFdTableEntries t) :=
  kept_foldl (fun o fd => kept_releaseFdEntryRefs (t fd) o) _ o

end FdObjects

/-! ## Calls -/

namespace FdState

open FdObjects

lemma kept_installDeviceFd (kind : FdKind) (deviceId : Int) (s : FdState) :
    s.objects.Kept (s.installDeviceFd kind deviceId).2.objects := by
  unfold installDeviceFd
  split <;> exact .refl _

lemma kept_sysEventfd2 (initialValue flags : UInt32) (s : FdState) :
    s.objects.Kept (s.sysEventfd2 initialValue flags).2.objects := by
  unfold sysEventfd2
  split
  · exact .refl _
  split
  · exact .refl _
  · split
    · exact .refl _
    · exact kept_setEventfd _ _ _

lemma kept_installSocketFd (family : Nat) (type : UInt32) (protocol : Nat) (s : FdState) :
    s.objects.Kept (s.installSocketFd family type protocol).2.objects := by
  unfold installSocketFd
  split
  · exact .refl _
  split
  · exact .refl _
  · split
    · exact .refl _
    · exact .of_eq rfl rfl

lemma kept_sysSocketpair (domain : Nat) (type : UInt32) (protocol : Nat) (userFds : UInt64)
    (s : FdState) : s.objects.Kept (s.sysSocketpair domain type protocol userFds).2.2.objects := by
  simp only [sysSocketpair]
  split
  · exact .refl _
  split
  · exact .refl _
  split
  · split
    · exact .refl _
    · split
      · exact .refl _
      · exact (kept_setSocket _ _ _).trans (kept_setSocket _ _ _)
  · exact .refl _

variable (fd i : Nat) (sender : Sender)

lemma kept_closeFdInternal (s : FdState) : s.objects.Kept (s.closeFdInternal fd).objects := by
  unfold closeFdInternal
  split
  · exact .refl _
  · exact kept_releaseFdEntryRefs _ _

lemma kept_dupInto (old : FdEntry) (target : Nat) (s : FdState) :
    s.objects.Kept (s.dupInto old target).2.objects := by
  simp only [dupInto]
  split <;> exact kept_retainFdEntryRefs old s.objects

lemma kept_dupFdCommon (oldfd : Nat) (requested : Int) (overwrite : Bool) (s : FdState) :
    s.objects.Kept (s.dupFdCommon oldfd requested overwrite).2.objects := by
  simp only [dupFdCommon]
  split
  · exact .refl _
  split
  · split
    · exact .refl _
    split
    · exact .refl _
    split
    · exact (kept_closeFdInternal _ s).trans (kept_dupInto _ _ _)
    · split
      · exact .refl _
      · exact kept_dupInto _ _ s
  · split
    · exact .refl _
    · exact kept_dupInto _ _ s

lemma kept_sysFcntl (cmd : UInt64) (s : FdState) :
    s.objects.Kept (s.sysFcntl fd cmd).2.objects := by
  unfold sysFcntl
  split
  · exact .refl _
  split
  · exact kept_dupFdCommon fd (-1) false s
  split
  · exact .refl _
  split
  · split
    · split <;> exact .refl _
    · exact .refl _
  · exact .refl _

lemma kept_sysClose (s : FdState) : s.objects.Kept (s.sysClose fd).2.objects := by
  unfold sysClose
  split
  · exact .refl _
  · exact kept_closeFdInternal fd s

/-! ## Messages -/

lemma kept_attachRights {i : Nat} {rights : List FdEntry} {o o' : FdObjects}
    (h : o.attachRights i rights = some o') : o.Kept o' := by
  unfold attachRights at h
  split at h
  · simp at h
  · obtain rfl := Option.some.inj h
    exact (kept_foldl (fun o e => kept_retainFdEntryRefs e o) rights o).trans (kept_setSocket _ _ _)

lemma kept_sendRights (tcp : Nat → TcpTransfer) (i : Nat) (iov : List SendVec)
    (rights : List FdEntry) (s : FdState) :
    s.objects.Kept (s.sendRights sender tcp i iov rights).2.objects := by
  have hsend := (untouched_sendVecs sender tcp i iov 0 s.objects).kept
  unfold sendRights
  split
  · next o ho =>
    rw [ho] at hsend
    exact hsend
  next sent o ho =>
  rw [ho] at hsend
  generalize hr : (if iov = [] then o.socketSendData sender (tcp 0) i ⟨true, []⟩ else (0, o)) = r
  have hsend2 : s.objects.Kept r.2 := by
    rw [← hr]
    split
    · exact hsend.trans (untouched_socketSendData sender (tcp 0) i ⟨true, []⟩ o).kept
    · exact hsend
  dsimp only
  split
  · exact hsend2
  split
  · exact hsend2
  · split
    · exact hsend2
    · next ha => exact hsend2.trans (kept_attachRights ha)

lemma kept_sysSendmsg (tcp : Nat → TcpTransfer) (fd : Nat) (message : Option SendMessage)
    (s : FdState) : s.objects.Kept (s.sysSendmsg sender tcp fd message).2.objects := by
  unfold sysSendmsg
  split
  · exact .refl _
  · exact .refl _
  split
  · exact .refl _
  split
  · exact .refl _
  split
  · exact .refl _
  · split
    · exact .refl _
    · exact kept_sendRights _ _ _ _ _ s

lemma kept_releasePending (o : FdObjects) (j : Nat) : o.Kept (o.releasePending i j) :=
  (kept_releaseFdEntryRefs _ o).trans (kept_setSocket _ _ _)

lemma kept_takeRights (null : Bool) (capacity : Nat) (s : FdState) :
    s.objects.Kept (s.takeRights i null capacity).2.objects := by
  simp only [takeRights]
  split
  · exact (kept_foldl (kept_releasePending i) _ s.objects).trans (kept_setSocket _ _ _)
  · exact kept_setSocket _ _ _

lemma kept_of_takeRights {i capacity : Nat} {null : Bool} {s s' : FdState}
    {fds : Option (List Nat)} (h : s.takeRights i null capacity = (fds, s')) :
    s.objects.Kept s'.objects := by
  have hkept := kept_takeRights i null capacity s
  rw [h] at hkept
  exact hkept

lemma kept_recvControl (m : RecvMessage) (received : Nat) (bytes : List UInt8) (s : FdState) :
    s.objects.Kept (s.recvControl i m received bytes).2.objects := by
  simp only [recvControl]
  split
  · exact kept_setSocket _ _ _
  · split
    · next htake => exact (kept_setSocket _ _ _).trans (kept_of_takeRights htake)
    · next htake => exact (kept_setSocket _ _ _).trans (kept_of_takeRights htake)

lemma kept_sysRecvmsg (tcp : Nat → TcpTransfer) (fd : Nat) (message : Option RecvMessage)
    (s : FdState) : s.objects.Kept (s.sysRecvmsg tcp fd message).2.objects := by
  unfold sysRecvmsg
  split
  · exact .refl _
  · exact .refl _
  next i m _ =>
  split
  · exact .refl _
  have hrecv := (untouched_recvVecs tcp i m.iov 0 [] s.objects).kept
  split
  · next hr =>
    rw [hr] at hrecv
    exact hrecv
  · next received bytes o hr =>
    rw [hr] at hrecv
    exact Kept.trans hrecv (kept_recvControl i m received bytes { s with objects := o })

end FdState

end AosKernel.Fd

namespace AosKernel.Proc

open Fd Function

/-- The entries of the process table keep the pipes and the open files. -/
theorem HolderStep.kept {v v' : Holders} (h : HolderStep v v') : v.objects.Kept v'.objects := by
  cases h with
  | keep | ends | clear => exact .refl _
  | copy => exact FdObjects.kept_retainFdTableEntries _ _
  | release => exact FdObjects.kept_releaseFdTableEntries _ _

theorem HolderSteps.kept {v v' : Holders} (h : HolderSteps v v') : v.objects.Kept v'.objects := by
  induction h with
  | refl => exact .refl _
  | tail _ hstep ih => exact ih.trans hstep.kept

end AosKernel.Proc
