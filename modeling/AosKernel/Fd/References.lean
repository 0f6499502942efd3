import AosKernel.Fd.Transfer
import AosKernel.Lib.ObjectPool
import Mathlib.Algebra.BigOperators.Group.Finset.Basic

/-!
# Reference counts of the descriptor objects

The object tables as a pool of counted objects (`FdObjects.pool`): a file handle, an event counter
and a socket count one kind of reference, a pipe counts its two ends, and a socket holds the
descriptors in transit. `retain_fd_entry_refs` and `release_fd_entry_refs` are the retain and
release of the pool (`pool_retain`, `pool_releaseEntry`). -/

namespace AosKernel.Fd

open Lib Lib.RefCount Lib.ObjectPool Function Pool

/-! ## The pool -/

/-- What a descriptor refers to. -/
inductive Ref where
  | handle (i : Nat)
  | reader (i : Nat)
  | writer (i : Nat)
  | eventfd (i : Nat)
  | socket (i : Nat)
  deriving DecidableEq

/-- The slots of the object tables. -/
inductive Object where
  | handle (i : Nat)
  | pipe (i : Nat)
  | eventfd (i : Nat)
  | socket (i : Nat)
  deriving DecidableEq

def Ref.object : Ref → Object
  | .handle i => .handle i
  | .reader i => .pipe i
  | .writer i => .pipe i
  | .eventfd i => .eventfd i
  | .socket i => .socket i

/-- The references that an object counts. -/
def Object.ends : Object → List Ref
  | .handle i => [.handle i]
  | .pipe i => [.reader i, .writer i]
  | .eventfd i => [.eventfd i]
  | .socket i => [.socket i]

/-- The reference with the given index, if it is below `max`. -/
def refBelow (max : Nat) (make : Nat → Ref) (index : Int) : Option Ref :=
  if index < 0 ∨ index ≥ max then none else some (make index.toNat)

def FdEntry.ref (e : FdEntry) : Option Ref :=
  match e.kind with
  | .vnode => refBelow maxFileHandles .handle e.handleIndex
  | .pipeReader => refBelow maxPipeObjects .reader e.handleIndex
  | .pipeWriter => refBelow maxPipeObjects .writer e.handleIndex
  | .eventfd => refBelow maxEventfdObjects .eventfd e.handleIndex
  | .socket => refBelow maxSocketObjects .socket e.handleIndex
  | _ => none

def socketObject : Nat ↪ Object := ⟨Object.socket, fun _ _ h => Object.socket.inj h⟩

/-- Descriptors and objects as a scheme of references. -/
def scheme : Scheme FdEntry Ref Object where
  ref := FdEntry.ref
  object := Ref.object
  ends := Object.ends
  mem_ends := by
    intro r o
    cases r <;> cases o <;> simp [Ref.object, Object.ends, eq_comm]
  containers := (Finset.range maxSocketObjects).map socketObject

namespace FdObjects

def count (o : FdObjects) : Ref → Nat
  | .handle i => (o.handles i).refcount
  | .reader i => (o.pipes i).readRefs
  | .writer i => (o.pipes i).writeRefs
  | .eventfd i => (o.eventfds i).refcount
  | .socket i => (o.sockets i).refcount

def used (o : FdObjects) : Object → Bool
  | .handle i => (o.handles i).inUse
  | .pipe i => (o.pipes i).inUse
  | .eventfd i => (o.eventfds i).inUse
  | .socket i => (o.sockets i).inUse

/-- The descriptors in transit that an object holds. -/
def inner (o : FdObjects) : Object → List FdEntry
  | .socket i => (o.sockets i).rxAncillaryFds
  | _ => []

def pool (o : FdObjects) : Pool FdEntry Ref Object := ⟨o.count, o.used, o.inner⟩

/-- The number of descriptors in transit that refer to `r`. -/
def pendingReferences (o : FdObjects) (r : Ref) : Nat :=
  heldIn FdEntry.ref (Finset.range maxSocketObjects) (fun i => (o.sockets i).rxAncillaryFds) r

variable (o : FdObjects)

lemma pool_pending (r : Ref) : o.pool.pending scheme r = o.pendingReferences r := by
  rfl

/-! ## Replacing one object -/

variable (i : Nat)

lemma pool_setHandle (h : FileHandle) :
    (o.setHandle i h).pool =
      { o.pool with
        count := update o.pool.count (.handle i) h.refcount
        used := update o.pool.used (.handle i) h.inUse } := by
  ext1
  · funext r
    cases r <;> simp [pool, count, setHandle, update_apply]
    split <;> rfl
  · funext x
    cases x <;> simp [pool, used, setHandle, update_apply]
    split <;> rfl
  · rfl

lemma pool_setEventfd (e : EventfdObject) :
    (o.setEventfd i e).pool =
      { o.pool with
        count := update o.pool.count (.eventfd i) e.refcount
        used := update o.pool.used (.eventfd i) e.inUse } := by
  ext1
  · funext r
    cases r <;> simp [pool, count, setEventfd, update_apply]
    split <;> rfl
  · funext x
    cases x <;> simp [pool, used, setEventfd, update_apply]
    split <;> rfl
  · rfl

lemma pool_setPipe (p : PipeObject) :
    (o.setPipe i p).pool =
      { o.pool with
        count := update (update o.pool.count (.reader i) p.readRefs) (.writer i) p.writeRefs
        used := update o.pool.used (.pipe i) p.inUse } := by
  ext1
  · funext r
    cases r <;> simp [pool, count, setPipe, update_apply] <;> split <;> rfl
  · funext x
    cases x <;> simp [pool, used, setPipe, update_apply]
    split <;> rfl
  · rfl

lemma pool_setSocket (s : SocketObject) :
    (o.setSocket i s).pool =
      { count := update o.pool.count (.socket i) s.refcount
        used := update o.pool.used (.socket i) s.inUse
        inner := update o.pool.inner (.socket i) s.rxAncillaryFds } := by
  ext1
  · funext r
    cases r <;> simp [pool, count, setSocket, update_apply]
    split <;> rfl
  · funext x
    cases x <;> simp [pool, used, setSocket, update_apply]
    split <;> rfl
  · funext x
    cases x <;> simp [pool, inner, setSocket, update_apply]
    split <;> rfl

variable {fuel max : Nat} {inUse : Nat → Bool} {make : Nat → Ref} {r : Ref} {s : SocketObject}

lemma pool_setSocket_same (hc : s.refcount = (o.sockets i).refcount)
    (hu : s.inUse = (o.sockets i).inUse) (hi : s.rxAncillaryFds = (o.sockets i).rxAncillaryFds) :
    (o.setSocket i s).pool = o.pool := by
  have hcount : o.pool.count (.socket i) = s.refcount := hc.symm
  have hused : o.pool.used (.socket i) = s.inUse := hu.symm
  have hinner : o.pool.inner (.socket i) = s.rxAncillaryFds := hi.symm
  rw [pool_setSocket, ← hcount, ← hused, ← hinner]
  simp only [update_eq_self]

lemma pool_handle_count (n : Nat) :
    (o.setHandle i { o.handles i with refcount := n }).pool = o.pool.setCount (.handle i) n := by
  rw [pool_setHandle]
  exact Pool.ext rfl (update_eq_self _ _) rfl

lemma pool_eventfd_count (n : Nat) : (o.setEventfd i { o.eventfds i with refcount := n }).pool =
      o.pool.setCount (.eventfd i) n := by
  rw [pool_setEventfd]
  exact Pool.ext rfl (update_eq_self _ _) rfl

lemma pool_socket_count (n : Nat) :
    (o.setSocket i { o.sockets i with refcount := n }).pool = o.pool.setCount (.socket i) n := by
  rw [pool_setSocket]
  exact Pool.ext rfl (update_eq_self _ _) (update_eq_self _ _)

lemma pool_pipe_counts (n m : Nat) :
    (o.setPipe i { o.pipes i with readRefs := n, writeRefs := m }).pool =
      (o.pool.setCount (.reader i) n).setCount (.writer i) m := by
  rw [pool_setPipe]
  exact Pool.ext rfl (update_eq_self _ _) rfl

lemma pool_reader_count (n : Nat) :
    (o.setPipe i { o.pipes i with readRefs := n }).pool = o.pool.setCount (.reader i) n := by
  refine (pool_pipe_counts o i n (o.pipes i).writeRefs).trans (Pool.ext ?_ rfl rfl)
  exact (update_comm (by simp) _ _ _).trans (congrArg (update · _ _) (update_eq_self _ _))

lemma pool_writer_count (n : Nat) :
    (o.setPipe i { o.pipes i with writeRefs := n }).pool = o.pool.setCount (.writer i) n := by
  refine (pool_pipe_counts o i (o.pipes i).readRefs n).trans (Pool.ext ?_ rfl rfl)
  exact congrArg (update · _ _) (update_eq_self _ _)

/-! ## Lookups -/

/-- A lookup by index and the reference with that index: both fail, the slot is free, or both name
an object in use. -/
lemma lookup_cases (max : Nat) (make : Nat → Ref) (inUse : Nat → Bool) (index : Int) :
    (lookup max inUse index = none ∧
        ∀ r, refBelow max make index = some r → ∃ i, r = make i ∧ inUse i = false) ∨
      ∃ i, lookup max inUse index = some i ∧ refBelow max make index = some (make i) ∧
        inUse i = true := by
  unfold lookup refBelow
  split
  · exact .inl ⟨rfl, by simp⟩
  · cases hu : inUse index.toNat with
    | false => exact .inl ⟨rfl, fun r hr => ⟨_, (Option.some.inj hr).symm, hu⟩⟩
    | true => exact .inr ⟨_, rfl, rfl, hu⟩

variable {e : FdEntry}

lemma used_of_ref {o : FdObjects} (hused : ∀ i, o.used (make i).object = inUse i)
    (href : e.ref = refBelow max make e.handleIndex)
    (h : ∀ r, refBelow max make e.handleIndex = some r → ∃ i, r = make i ∧ inUse i = false) :
    ∀ r, scheme.ref e = some r → o.pool.used (scheme.object r) = false := by
  intro r hr
  obtain ⟨i, rfl, hi⟩ := h r (href ▸ hr)
  exact (hused i).trans hi

/-! ## Retaining -/

lemma pool_retain_lookup {up : Nat → FdObjects} (hb : ∀ r, o.count r + 1 < 2 ^ 32)
    (href : e.ref = refBelow max make e.handleIndex)
    (hused : ∀ i, o.used (make i).object = inUse i)
    (hup : ∀ i, (up i).pool = o.pool.setCount (make i) (increment (o.count (make i)))) :
    (match lookup max inUse e.handleIndex with
      | none => o
      | some i => up i).pool = o.pool.retain scheme e := by
  obtain ⟨hl, hr⟩ | ⟨i, hl, hr, hu⟩ := lookup_cases max make inUse e.handleIndex
  · rw [retain_of_unused (used_of_ref hused href hr), hl]
  · rw [retain_of_used (S := scheme) (r := make i) (href.trans hr) ((hused i).trans hu), hl]
    exact (hup i).trans (congrArg (o.pool.setCount (make i)) (Nat.mod_eq_of_lt (hb (make i))))

theorem pool_retain (e : FdEntry) (hb : ∀ r, o.count r + 1 < 2 ^ 32) :
    (o.retainFdEntryRefs e).pool = o.pool.retain scheme e := by
  obtain ⟨kind, index⟩ := e
  cases kind
  case vnode =>
    exact pool_retain_lookup o (e := ⟨.vnode, index⟩) hb rfl (fun _ => rfl)
      (pool_handle_count o · _)
  case pipeReader =>
    exact pool_retain_lookup o (e := ⟨.pipeReader, index⟩) hb rfl (fun _ => rfl)
      (pool_reader_count o · _)
  case pipeWriter =>
    exact pool_retain_lookup o (e := ⟨.pipeWriter, index⟩) hb rfl (fun _ => rfl)
      (pool_writer_count o · _)
  case eventfd =>
    exact pool_retain_lookup o (e := ⟨.eventfd, index⟩) hb rfl (fun _ => rfl)
      (pool_eventfd_count o · _)
  case socket =>
    exact pool_retain_lookup o (e := ⟨.socket, index⟩) hb rfl (fun _ => rfl)
      (pool_socket_count o · _)
  all_goals rfl

/-! ## Releasing -/

/-- No socket holds more descriptors than the kernel has room for. -/
def Bounded (o : FdObjects) : Prop :=
  ∀ i, (o.sockets i).rxAncillaryFds.length ≤ socketAncillaryFdMax

lemma Bounded.setSocket {o : FdObjects} (h : o.Bounded) {i : Nat}
    (hs : s.rxAncillaryFds.length ≤ socketAncillaryFdMax) : (o.setSocket i s).Bounded := by
  intro j
  by_cases e : j = i
  · subst e
    simpa [FdObjects.setSocket] using hs
  · simpa [FdObjects.setSocket, update_of_ne e] using h j

lemma pool_setState (state : SocketState) :
    (o.setSocket i { o.sockets i with state := state }).pool = o.pool :=
  pool_setSocket_same o i rfl rfl rfl

lemma closeSocketState_spec (h : o.Bounded) (i : Nat) :
    (o.closeSocketState i).pool = o.pool ∧ (o.closeSocketState i).Bounded := by
  simp only [closeSocketState]
  split
  · split
    · exact ⟨pool_setState o i .closed, h.setSocket (h i)⟩
    rename_i peer _
    have hpeer : (o.setSocket peer { o.sockets peer with state := .closed }).Bounded :=
      h.setSocket (h peer)
    exact ⟨(pool_setState _ i .closed).trans (pool_setState o peer .closed),
      hpeer.setSocket (hpeer i)⟩
  · exact ⟨pool_setState o i .closed, h.setSocket (h i)⟩

lemma release_single (p : Pool FdEntry Ref Object) (fuel : Nat) (hr : e.ref = some r)
    (hu : p.used r.object = true) (hends : r.object.ends = [r]) :
    p.release scheme (fuel + 1) e =
      if p.count r - 1 = 0 then
        (p.inner r.object).foldl (fun p e => p.release scheme fuel e)
          ((p.setCount r 0).free r.object)
      else p.setCount r (p.count r - 1) := by
  rw [release_of_used (S := scheme) hr hu]
  have hun : (p.drop r).unreferenced scheme r.object = true ↔ p.count r - 1 = 0 := by
    change (r.object.ends.all _) = true ↔ _
    simp [hends, drop, setCount]
  change (if (p.drop r).unreferenced scheme r.object = true then _ else _) = _
  by_cases hz : p.count r - 1 = 0
  · rw [if_pos (hun.2 hz), if_pos hz, drop, hz]
    rfl
  · rw [if_neg (fun h => hz (hun.1 h)), if_neg hz, drop]

lemma pool_releaseFileHandle (index : Int) (fuel : Nat) :
    (o.releaseFileHandle index).pool = o.pool.release scheme (fuel + 1) ⟨.vnode, index⟩ := by
  obtain ⟨hl, hr⟩ | ⟨i, hl, hr, hu⟩ :=
    lookup_cases maxFileHandles .handle (fun i => (o.handles i).inUse) index
  · rw [release_of_unused (used_of_ref (fun _ => rfl) rfl hr)]
    simp only [releaseFileHandle, getFileHandleByIndex, hl]
  rw [release_single o.pool (e := ⟨.vnode, index⟩) (r := .handle i) fuel hr hu rfl]
  simp only [releaseFileHandle, getFileHandleByIndex, hl]
  split
  · rename_i hz
    rw [if_pos (show o.pool.count (.handle i) - 1 = 0 from hz), pool_setHandle]
    rw [free_of_empty rfl]
    rfl
  · rename_i hz
    rw [if_neg (show ¬ o.pool.count (.handle i) - 1 = 0 from hz)]
    exact pool_handle_count o i _

lemma pool_releaseEventfdRef (index : Int) (fuel : Nat) :
    (o.releaseEventfdRef index).pool = o.pool.release scheme (fuel + 1) ⟨.eventfd, index⟩ := by
  obtain ⟨hl, hr⟩ | ⟨i, hl, hr, hu⟩ :=
    lookup_cases maxEventfdObjects .eventfd (fun i => (o.eventfds i).inUse) index
  · rw [release_of_unused (used_of_ref (fun _ => rfl) rfl hr)]
    simp only [releaseEventfdRef, getEventfdObjectByIndex, hl]
  rw [release_single o.pool (e := ⟨.eventfd, index⟩) (r := .eventfd i) fuel hr hu rfl]
  simp only [releaseEventfdRef, getEventfdObjectByIndex, hl]
  split
  · rename_i hz
    rw [if_pos (show o.pool.count (.eventfd i) - 1 = 0 from hz), pool_setEventfd]
    rw [free_of_empty rfl]
    rfl
  · rename_i hz
    rw [if_neg (show ¬ o.pool.count (.eventfd i) - 1 = 0 from hz)]
    exact pool_eventfd_count o i _

lemma release_pipe {i : Nat} (fuel : Nat) (hr : e.ref = some r) (hri : r.object = .pipe i)
    (hu : (o.pipes i).inUse = true) {n m : Nat}
    (hpool : o.pool.drop r = (o.pool.setCount (.reader i) n).setCount (.writer i) m) :
    o.pool.release scheme (fuel + 1) e =
      (if n = 0 ∧ m = 0 then o.setPipe i PipeObject.zero
        else o.setPipe i { o.pipes i with readRefs := n, writeRefs := m }).pool := by
  have hused : o.pool.used (scheme.object r) = true := by
    change o.pool.used r.object = true
    rw [hri]
    exact hu
  have hun : (o.pool.drop r).unreferenced scheme (.pipe i) = true ↔ n = 0 ∧ m = 0 := by
    rw [hpool]
    change (Object.ends (.pipe i)).all _ = true ↔ _
    simp [Object.ends, setCount]
  rw [release_of_used (S := scheme) hr hused]
  change (if (o.pool.drop r).unreferenced scheme r.object = true then
    (o.pool.inner r.object).foldl _ ((o.pool.drop r).free r.object) else _) = _
  rw [hri]
  split
  · rename_i h
    obtain ⟨rfl, rfl⟩ := hun.1 h
    rw [if_pos ⟨rfl, rfl⟩, pool_setPipe, hpool]
    rw [free_of_empty rfl]
    rfl
  · rename_i h
    rw [if_neg (fun hz => h (hun.2 hz)), hpool, pool_pipe_counts]

lemma pool_releasePipeRef_reader (index : Int) (fuel : Nat) :
    (o.releasePipeRef index .pipeReader).pool =
      o.pool.release scheme (fuel + 1) ⟨.pipeReader, index⟩ := by
  obtain ⟨hl, hr⟩ | ⟨i, hl, hr, hu⟩ :=
    lookup_cases maxPipeObjects .reader (fun i => (o.pipes i).inUse) index
  · rw [release_of_unused (used_of_ref (fun _ => rfl) rfl hr)]
    simp only [releasePipeRef, getPipeObjectByIndex, hl]
  have hpool := (pool_reader_count o i ((o.pipes i).readRefs - 1)).symm.trans
    (pool_pipe_counts o i ((o.pipes i).readRefs - 1) (o.pipes i).writeRefs)
  rw [release_pipe o (e := ⟨.pipeReader, index⟩) (r := .reader i) fuel hr rfl hu hpool]
  simp only [releasePipeRef, getPipeObjectByIndex, hl, if_true, reduceCtorEq, if_false]

lemma pool_releasePipeRef_writer (index : Int) (fuel : Nat) :
    (o.releasePipeRef index .pipeWriter).pool =
      o.pool.release scheme (fuel + 1) ⟨.pipeWriter, index⟩ := by
  obtain ⟨hl, hr⟩ | ⟨i, hl, hr, hu⟩ :=
    lookup_cases maxPipeObjects .writer (fun i => (o.pipes i).inUse) index
  · rw [release_of_unused (used_of_ref (fun _ => rfl) rfl hr)]
    simp only [releasePipeRef, getPipeObjectByIndex, hl]
  have hpool := (pool_writer_count o i ((o.pipes i).writeRefs - 1)).symm.trans
    (pool_pipe_counts o i (o.pipes i).readRefs ((o.pipes i).writeRefs - 1))
  rw [release_pipe o (e := ⟨.pipeWriter, index⟩) (r := .writer i) fuel hr rfl hu hpool]
  simp only [releasePipeRef, getPipeObjectByIndex, hl, if_true, reduceCtorEq, if_false]

lemma pool_foldl_release (ih : ∀ (e : FdEntry) (o : FdObjects), o.Bounded →
      (releaseEntry fuel e o).pool = o.pool.release scheme fuel e ∧ (releaseEntry fuel e o).Bounded)
    (l : List FdEntry) (o : FdObjects) (h : o.Bounded) :
    (l.foldl (fun o e => releaseEntry fuel e o) o).pool =
        l.foldl (fun p e => p.release scheme fuel e) o.pool ∧
      (l.foldl (fun o e => releaseEntry fuel e o) o).Bounded := by
  induction l generalizing o with
  | nil => exact ⟨rfl, h⟩
  | cons e l ihl =>
    obtain ⟨hpool, hb⟩ := ih e o h
    simp only [List.foldl_cons]
    rw [← hpool]
    exact ihl _ hb

lemma pool_closeSocketRef (ih : ∀ (e : FdEntry) (o : FdObjects), o.Bounded →
      (releaseEntry fuel e o).pool = o.pool.release scheme fuel e ∧ (releaseEntry fuel e o).Bounded)
    (o : FdObjects) (h : o.Bounded) (index : Int) :
    (closeSocketRefWith (releaseEntry fuel) o index).pool =
        o.pool.release scheme (fuel + 1) ⟨.socket, index⟩ ∧
      (closeSocketRefWith (releaseEntry fuel) o index).Bounded := by
  obtain ⟨hl, hr⟩ | ⟨i, hl, hr, hu⟩ :=
    lookup_cases maxSocketObjects .socket (fun i => (o.sockets i).inUse) index
  · rw [Pool.release_of_unused (used_of_ref (fun _ => rfl) rfl hr)]
    simpa only [closeSocketRefWith, getSocketByIndex, hl] using ⟨trivial, h⟩
  simp only [closeSocketRefWith, getSocketByIndex, hl]
  -- only the states of the socket and its peer have changed before the release
  generalize ho' : (if (o.sockets i).refcount ≤ 1 then o.closeSocketState i else o) = o'
  have hspec : o'.pool = o.pool ∧ o'.Bounded := by
    rw [← ho']
    split
    · exact closeSocketState_spec o h i
    · exact ⟨rfl, h⟩
  obtain ⟨hpool, hb⟩ := hspec
  have hu' : (o'.sockets i).inUse = true :=
    (congrFun (congrArg Pool.used hpool) (.socket i)).trans hu
  have hl' : lookup maxSocketObjects (fun i => (o'.sockets i).inUse) index = some i := by
    simp only [lookup] at hl ⊢
    split at hl
    · simp at hl
    rename_i hrange
    rw [if_neg hrange]
    split at hl
    · simp at hl
    · cases hl
      simp [hu']
  rw [← hpool, release_single o'.pool (e := ⟨.socket, index⟩) (r := .socket i) fuel hr hu' rfl]
  simp only [releaseSocketRefWith, getSocketByIndex, hl']
  split
  · rename_i hz
    rw [if_pos (show o'.pool.count (.socket i) - 1 = 0 from hz), List.take_of_length_le (hb i)]
    have hz' := pool_foldl_release ih (o'.sockets i).rxAncillaryFds
      (o'.setSocket i SocketObject.zero) (hb.setSocket (by simp [SocketObject.zero]))
    refine ⟨hz'.1.trans ?_, hz'.2⟩
    rw [pool_setSocket]
    rfl
  · rename_i hz
    rw [if_neg (show ¬ o'.pool.count (.socket i) - 1 = 0 from hz)]
    exact ⟨pool_socket_count o' i _, hb.setSocket (hb i)⟩

lemma releaseFileHandle_sockets (index : Int) :
    (o.releaseFileHandle index).sockets = o.sockets := by
  simp only [releaseFileHandle]
  split
  · rfl
  · split <;> rfl

lemma releasePipeRef_sockets (index : Int) (kind : FdKind) :
    (o.releasePipeRef index kind).sockets = o.sockets := by
  simp only [releasePipeRef]
  split
  · rfl
  · exact (apply_ite FdObjects.sockets _ _ _).trans (ite_self _)

lemma releaseEventfdRef_sockets (index : Int) :
    (o.releaseEventfdRef index).sockets = o.sockets := by
  simp only [releaseEventfdRef]
  split
  · rfl
  · split <;> rfl

lemma Bounded.of_sockets {o o' : FdObjects} (h : o.Bounded) (hs : o'.sockets = o.sockets) :
    o'.Bounded := fun i => by rw [hs]; exact h i

/-- `release_fd_entry_refs` is the release of the pool. -/
theorem pool_releaseEntry (fuel : Nat) (e : FdEntry) (o : FdObjects) (h : o.Bounded) :
    (releaseEntry fuel e o).pool = o.pool.release scheme fuel e ∧
      (releaseEntry fuel e o).Bounded := by
  induction fuel generalizing e o with
  | zero => exact ⟨rfl, h⟩
  | succ fuel ih =>
    obtain ⟨kind, index⟩ := e
    cases kind
    case vnode =>
      exact ⟨pool_releaseFileHandle o index fuel, h.of_sockets (releaseFileHandle_sockets o index)⟩
    case pipeReader =>
      exact ⟨pool_releasePipeRef_reader o index fuel,
        h.of_sockets (releasePipeRef_sockets o index _)⟩
    case pipeWriter =>
      exact ⟨pool_releasePipeRef_writer o index fuel,
        h.of_sockets (releasePipeRef_sockets o index _)⟩
    case eventfd =>
      exact ⟨pool_releaseEventfdRef o index fuel, h.of_sockets (releaseEventfdRef_sockets o index)⟩
    case socket => exact pool_closeSocketRef ih o h index
    all_goals exact ⟨rfl, h⟩

end FdObjects

end AosKernel.Fd
