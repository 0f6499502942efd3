import AosKernel.Fd.References

/-!
# Descriptor calls keep the counts

`FdState.Counted s T` says that the objects count the references of the calling process's table,
of the descriptors in transit, and of `T`, the tables of the other processes. Every call that makes,
copies or closes descriptors keeps it: the installing calls, `counted_dupFdCommon` and
`counted_closeFdInternal`.
-/

namespace AosKernel.Fd

open Lib Lib.RefCount Lib.ObjectPool Vfs Function FdEntry FdObjects FdState List

/-! ## Counted objects -/

/-- The objects count `T` and the descriptors in transit, of which no socket has too many. -/
structure FdObjects.Counted (o : FdObjects) (T : Ref → Nat) : Prop where
  balanced : o.pool.Balanced scheme T
  bounded : o.Bounded

namespace FdObjects

variable {o o' : FdObjects} {T T' : Ref → Nat}

lemma Bounded.of_pool (h : o.Bounded) (hp : o'.pool = o.pool) : o'.Bounded := fun i => by
  have hi : o'.pool.inner (.socket i) = o.pool.inner (.socket i) := by rw [hp]
  exact (congrArg length hi).trans_le (h i)

lemma Counted.of_pool (h : o.Counted T) (hp : o'.pool = o.pool) : o'.Counted T :=
  ⟨hp ▸ h.balanced, h.bounded.of_pool hp⟩

lemma Counted.congr (h : o.Counted T) (hT : ∀ r, T' r = T r) : o.Counted T' :=
  ⟨h.balanced.congr hT, h.bounded⟩

lemma Bounded.pending_le (h : o.Bounded) (r : Ref) :
    o.pendingReferences r ≤ maxSocketObjects * socketAncillaryFdMax := by
  have := heldIn_le ref (s := Finset.range maxSocketObjects)
    (b := socketAncillaryFdMax) (fun i _ => h i) r
  simpa [pendingReferences] using this

lemma Counted.count_le (h : o.Counted T) (r : Ref) : o.count r ≤ T r + 128 := by
  have hc : o.count r = T r + o.pendingReferences r := by
    exact h.balanced.count r
  have hp := h.bounded.pending_le r
  simp only [maxSocketObjects, socketAncillaryFdMax] at hp
  omega

lemma Counted.used (h : o.Counted T) {r : Ref} (hr : 0 < T r) : o.used r.object = true :=
  h.balanced.used_of_pos hr

/-- The entry `e` may be copied: what it refers to is in use. -/
def Live (o : FdObjects) (e : FdEntry) : Prop := ∀ r, e.ref = some r → o.used r.object = true

/-- Counts of this size do not wrap when they are incremented. -/
theorem Counted.pool_retain (h : o.Counted T) (hT : ∀ r, T r < 2 ^ 31) (e : FdEntry) :
    (o.retainFdEntryRefs e).pool = o.pool.retain scheme e :=
  FdObjects.pool_retain o e fun r => by
    have := h.count_le r
    have := hT r
    omega

/-- The same slots are taken, and the sockets hold the same descriptors. -/
def SameHolders (o o' : FdObjects) : Prop :=
  o'.pool.used = o.pool.used ∧ o'.pool.inner = o.pool.inner

variable {e : FdEntry}

lemma SameHolders.live (h : o.SameHolders o') (he : o.Live e) : o'.Live e :=
  fun r hr => (congrFun h.1 r.object).trans (he r hr)

lemma Counted.retain_sameHolders (h : o.Counted T) (hT : ∀ r, T r < 2 ^ 31) (e : FdEntry) :
    o.SameHolders (o.retainFdEntryRefs e) := by
  rw [SameHolders, h.pool_retain hT e]
  exact ⟨Pool.retain_used e o.pool, Pool.retain_inner e o.pool⟩

theorem Counted.retain (h : o.Counted T) (he : o.Live e) (hT : ∀ r, T r < 2 ^ 31) :
    (o.retainFdEntryRefs e).Counted fun r => T r + held ref [e] r := by
  refine ⟨h.pool_retain hT e ▸ h.balanced.retain (e := e) he, fun i => ?_⟩
  have hi := congrFun (h.retain_sameHolders hT e).2 (.socket i)
  exact (congrArg length hi).trans_le (h.bounded i)

lemma Counted.retainAll (h : o.Counted T) {l : List FdEntry} (hl : ∀ e ∈ l, o.Live e)
    (hT : ∀ r, T r + l.length < 2 ^ 31) :
    (l.foldl (fun o e => o.retainFdEntryRefs e) o).Counted
        (fun r => T r + held ref l r) ∧
      o.SameHolders (l.foldl (fun o e => o.retainFdEntryRefs e) o) := by
  induction l generalizing o T with
  | nil => exact ⟨by simpa using h, rfl, rfl⟩
  | cons e l ih =>
    have hT' : ∀ r, T r < 2 ^ 31 := fun r => by have := hT r; simp at this; omega
    have hsame := h.retain_sameHolders hT' e
    have h1 := h.retain (hl e (by simp)) hT'
    obtain ⟨h2, hsame2⟩ := ih h1
      (fun e' he' => hsame.live (hl e' (mem_cons_of_mem _ he'))) fun r => by
        have hle := held_le_length ref [e] r
        have hr := hT r
        simp only [length_cons, length_nil] at hle hr
        omega
    refine ⟨h2.congr fun r => ?_, hsame2.1.trans hsame.1, hsame2.2.trans hsame.2⟩
    rw [held_cons]
    omega

lemma card_usedContainers_lt (o : FdObjects) :
    (Pool.usedContainers scheme o.pool).card < maxSocketObjects + 1 := by
  refine Nat.lt_succ_of_le ((Finset.card_filter_le _ _).trans ?_)
  simp [scheme]

theorem Counted.release (h : o.Counted fun r => T r + held ref [e] r) :
    (o.releaseFdEntryRefs e).Counted T := by
  obtain ⟨hp, hb⟩ := pool_releaseEntry (maxSocketObjects + 1) e o h.bounded
  refine ⟨?_, hb⟩
  rw [releaseFdEntryRefs, hp]
  exact h.balanced.release (card_usedContainers_lt o)

lemma Counted.releaseAll {l : List FdEntry} (h : o.Counted fun r => T r + held ref l r) :
    (l.foldl (fun o e => o.releaseFdEntryRefs e) o).Counted T := by
  induction l generalizing o with
  | nil => simpa using h
  | cons e l ih =>
    refine ih (Counted.release (e := e) (h.congr fun r => ?_))
    rw [held_cons ref e l]
    omega

end FdObjects

/-! ## Tables -/

def FdTable.entries (t : FdTable) : List FdEntry := (List.range processFdMax).map t

def FdTable.references (t : FdTable) (r : Ref) : Nat := held FdEntry.ref (entries t) r

namespace FdTable

variable (t : FdTable)

lemma held_map_range (n : Nat) (r : Ref) :
    held ref ((range n).map t) r =
      heldIn ref (Finset.range n) (fun fd => [t fd]) r := by
  induction n with
  | zero => rfl
  | succ n ih =>
    rw [range_succ, map_append, held_append, ih]
    simp only [heldIn, Finset.sum_range_succ, map_cons, map_nil]

lemma references_eq (r : Ref) :
    references t r = heldIn ref (Finset.range processFdMax) (fun fd => [t fd]) r :=
  held_map_range t processFdMax r

variable {fd : Nat}

lemma references_update (hfd : fd < processFdMax) (e : FdEntry) (r : Ref) :
    references (update t fd e) r + held ref [t fd] r =
      references t r + held ref [e] r := by
  have hlists : (fun j => [update t fd e j]) = update (fun j => [t j]) fd [e] :=
    funext fun j => apply_update (fun _ x => [x]) t fd e j
  rw [references_eq, references_eq, hlists]
  exact heldIn_update ref (Finset.mem_range.2 hfd) (fun j => [t j]) [e] r

lemma ref_of_free {e : FdEntry} (h : e.kind = .free) : e.ref = none := by
  simp [ref, h]

lemma references_fill (hfd : fd < processFdMax) (hfree : (t fd).kind = .free) (e : FdEntry)
    (r : Ref) : references (update t fd e) r = references t r + held ref [e] r := by
  have := references_update t hfd e r
  rw [held_singleton_of_none _ (ref_of_free hfree)] at this
  exact this

lemma references_close (hfd : fd < processFdMax) (r : Ref) :
    references t r = references (update t fd closed) r + held ref [t fd] r := by
  have hclosed : held ref [closed] r = 0 :=
    held_singleton_of_none _ (ref_of_free rfl) r
  have := references_update t hfd closed r
  omega

lemma references_pos (hfd : fd < processFdMax) {r : Ref} (hr : (t fd).ref = some r) :
    0 < references t r :=
  held_pos_of_mem ref (mem_map_of_mem (mem_range.2 hfd)) hr

lemma references_le (r : Ref) : references t r ≤ processFdMax := by
  have := held_le_length ref (entries t) r
  simpa [references, entries] using this

end FdTable

lemma getFdEntry_spec {fd : Nat} {t : FdTable} {e : FdEntry} (h : getFdEntry fd t = some e) :
    fd < processFdMax ∧ e.kind ≠ .free ∧ t fd = e := by
  unfold getFdEntry at h
  split at h
  · simp at h
  split at h
  · simp at h
  · cases h
    exact ⟨by omega, by assumption, rfl⟩

lemma allocateFdSlot_spec {start fd : Nat} {t : FdTable} (h : allocateFdSlot start t = some fd) :
    start ≤ fd ∧ fd < processFdMax ∧ (t fd).kind = .free := by
  obtain ⟨j, hj, rfl⟩ := mem_drop_iff_getElem.1 (mem_of_find?_eq_some h)
  have hp := find?_some h
  simp only [length_range, getElem_range] at hj hp ⊢
  exact ⟨by omega, by omega, by simpa using hp⟩

lemma freeObject_spec {max i : Nat} {inUse : Nat → Bool} (h : freeObject max inUse = some i) :
    i < max ∧ inUse i = false := by
  have hmem := mem_of_find?_eq_some h
  have hp := find?_some h
  exact ⟨mem_range.1 hmem, by simpa using hp⟩

/-! ## New objects -/

namespace FdObjects

variable {o : FdObjects} {T : Ref → Nat}

lemma pool_createHandle (o : FdObjects) (i : Nat) {h : FileHandle} (hu : h.inUse = true)
    (hc : h.refcount = 1) : (o.setHandle i h).pool = o.pool.create scheme (.handle i) := by
  rw [pool_setHandle, hu, hc]
  refine Pool.ext (funext fun r => ?_) rfl (funext fun x => ?_)
  · cases r <;> simp [Pool.create, scheme, Ref.object, update_apply]
  · cases x <;> simp [Pool.create, update_apply, pool, inner]

lemma pool_createEventfd (o : FdObjects) (i : Nat) {e : EventfdObject} (hu : e.inUse = true)
    (hc : e.refcount = 1) : (o.setEventfd i e).pool = o.pool.create scheme (.eventfd i) := by
  rw [pool_setEventfd, hu, hc]
  refine Pool.ext (funext fun r => ?_) rfl (funext fun x => ?_)
  · cases r <;> simp [Pool.create, scheme, Ref.object, update_apply]
  · cases x <;> simp [Pool.create, update_apply, pool, inner]

lemma pool_createPipe (o : FdObjects) (i : Nat) {p : PipeObject} (hu : p.inUse = true)
    (hr : p.readRefs = 1) (hw : p.writeRefs = 1) :
    (o.setPipe i p).pool = o.pool.create scheme (.pipe i) := by
  rw [pool_setPipe, hu, hr, hw]
  refine Pool.ext (funext fun r => ?_) rfl (funext fun x => ?_)
  · cases r <;> simp [Pool.create, scheme, Ref.object, update_apply]
  · cases x <;> simp [Pool.create, update_apply, pool, inner]

lemma pool_createSocket (o : FdObjects) (i : Nat) {s : SocketObject} (hu : s.inUse = true)
    (hc : s.refcount = 1) (ha : s.rxAncillaryFds = []) :
    (o.setSocket i s).pool = o.pool.create scheme (.socket i) := by
  rw [pool_setSocket, hu, hc, ha]
  refine Pool.ext (funext fun r => ?_) rfl rfl
  cases r <;> simp [Pool.create, scheme, Ref.object, update_apply]

theorem Counted.create {o' : FdObjects} (h : o.Counted T) {x : Object} (r₀ : Ref)
    (hr₀ : r₀.object = x) (hx : o.used x = false) (hp : o'.pool = o.pool.create scheme x) :
    o'.Counted fun r => T r + if r.object = x then 1 else 0 := by
  refine ⟨hp ▸ h.balanced.create hr₀ hx, fun i => ?_⟩
  have hi : o'.pool.inner (.socket i) = o.pool.inner (.socket i) ∨
      o'.pool.inner (.socket i) = [] := by
    rw [hp]
    simp only [Pool.create, update_apply]
    split
    · exact .inr rfl
    · exact .inl rfl
  cases hi with
  | inl hi => exact (congrArg length hi).trans_le (h.bounded i)
  | inr hi => exact (congrArg length hi).trans_le (Nat.zero_le _)

end FdObjects

/-! ## Calls -/

namespace FdState

/-- The objects count the table of the caller, the descriptors in transit, and `T`, the tables of
the other processes. -/
def Counted (s : FdState) (T : Ref → Nat) : Prop :=
  s.objects.Counted fun r => FdTable.references s.table r + T r

variable {s : FdState} {T : Ref → Nat}

lemma Counted.live (h : s.Counted T) {fd : Nat} (hfd : fd < processFdMax) :
    s.objects.Live (s.table fd) := by
  intro r hr
  have := FdTable.references_pos s.table hfd hr
  exact FdObjects.Counted.used h (by omega)

lemma refBelow_of_lt {max i : Nat} (make : Nat → Ref) (h : i < max) :
    refBelow max make (i : Int) = some (make i) := by
  simp only [refBelow]
  rw [if_neg (by omega)]
  simp

lemma Counted.install (h : s.Counted T) {o' : FdObjects} {x : Object} {max i fd start : Nat}
    {inUse : Nat → Bool} {make : Nat → Ref} {e : FdEntry} (hi : freeObject max inUse = some i)
    (hfd : allocateFdSlot start s.table = some fd) (hx : s.objects.used x = inUse i)
    (he : e.ref = refBelow max make i) (hends : x.ends = [make i])
    (hp : o'.pool = s.objects.pool.create scheme x) :
    FdState.Counted ({ s with objects := o' }.setEntry fd e) T := by
  obtain ⟨hlt, hu⟩ := freeObject_spec hi
  obtain ⟨-, hfd1, hfree⟩ := allocateFdSlot_spec hfd
  rw [refBelow_of_lt make hlt] at he
  have hr₀ : (make i).object = x := (scheme.mem_ends _ x).1 (by change _ ∈ x.ends; simp [hends])
  refine (FdObjects.Counted.create h _ hr₀ (hx.trans hu) hp).congr fun r => ?_
  have hend : r.object = x ↔ r = make i := by
    have := scheme.mem_ends r x
    change r ∈ x.ends ↔ r.object = x at this
    rw [← this, hends, mem_singleton]
  have hheld : held ref [e] r = if r.object = x then 1 else 0 := by
    rw [held_singleton, he]
    simp only [Option.some.injEq, hend, eq_comm]
  have := FdTable.references_fill s.table hfd1 hfree e r
  simp only [setEntry]
  omega

lemma counted_installVnodeFd (h : s.Counted T) (node : VfsNode) (openFlags : UInt64) :
    (s.installVnodeFd node openFlags).2.Counted T := by
  unfold installVnodeFd
  split
  · exact h
  rename_i handle hh
  split
  · exact h
  rename_i fd hfd
  exact h.install (x := .handle handle) hh hfd rfl rfl rfl (pool_createHandle _ _ rfl rfl)

lemma counted_installDeviceFd (h : s.Counted T) {kind : FdKind} {id : Int}
    (hkind : ref ⟨kind, id⟩ = none) : (s.installDeviceFd kind id).2.Counted T := by
  unfold installDeviceFd
  split
  · exact h
  rename_i fd hfd
  obtain ⟨-, hfd1, hfree⟩ := allocateFdSlot_spec hfd
  refine FdObjects.Counted.congr h fun r => ?_
  have := FdTable.references_fill s.table hfd1 hfree ⟨kind, id⟩ r
  rw [held_singleton_of_none _ hkind] at this
  simp only [setEntry]
  omega

lemma counted_sysEventfd2 (h : s.Counted T) (initialValue flags : UInt32) :
    (s.sysEventfd2 initialValue flags).2.Counted T := by
  unfold sysEventfd2
  split
  · exact h
  split
  · exact h
  rename_i object hh
  split
  · exact h
  rename_i fd hfd
  exact h.install (x := .eventfd object) hh hfd rfl rfl rfl (pool_createEventfd _ _ rfl rfl)

lemma counted_installSocketFd (h : s.Counted T) (family : Nat) (type : UInt32) (protocol : Nat) :
    (s.installSocketFd family type protocol).2.Counted T := by
  unfold installSocketFd
  split
  · exact h
  split
  · exact h
  rename_i socket hh
  split
  · exact h
  rename_i fd hfd
  exact h.install (x := .socket socket) hh hfd rfl rfl rfl (pool_createSocket _ _ rfl rfl rfl)

lemma sysPipe_spec (userPipefd : UInt64) (s : FdState) :
    (s.sysPipe userPipefd).2.2 = s ∨
      ∃ pipe readFd writeFd, pipe < maxPipeObjects ∧ (s.objects.pipes pipe).inUse = false ∧
        readFd < processFdMax ∧ (s.table readFd).kind = .free ∧ readFd < writeFd ∧
        writeFd < processFdMax ∧ (s.table writeFd).kind = .free ∧
        (s.sysPipe userPipefd).2.2 =
          ({ s with objects := s.objects.setPipe pipe PipeObject.opened }.setEntry readFd
            ⟨.pipeReader, pipe⟩).setEntry writeFd ⟨.pipeWriter, pipe⟩ := by
  unfold sysPipe
  split
  · exact .inl rfl
  split
  · exact .inl rfl
  rename_i pipe hpipe
  split
  · exact .inl rfl
  rename_i readFd hread
  obtain ⟨hlt, hu⟩ := freeObject_spec hpipe
  obtain ⟨-, hr1, hr2⟩ := allocateFdSlot_spec hread
  -- the entry was free before its kind is set
  have hself : s.setEntry readFd { s.table readFd with kind := .free } = s := by
    rw [setEntry, ← hr2, update_eq_self]
  simp only [hself]
  split
  · exact .inl rfl
  · rename_i writeFd hwrite
    obtain ⟨hlt', hw1, hw2⟩ := allocateFdSlot_spec hwrite
    exact .inr ⟨pipe, readFd, writeFd, hlt, hu, hr1, hr2, by omega, hw1, hw2, rfl⟩

lemma references_fill_two (t : FdTable) {a b : Nat} (ha : a < processFdMax)
    (hfa : (t a).kind = .free) (hab : a < b) (hb : b < processFdMax) (hfb : (t b).kind = .free)
    (e e' : FdEntry) (r : Ref) :
    FdTable.references (update (update t a e) b e') r =
      FdTable.references t r + held ref [e] r + held ref [e'] r := by
  have hfb' : (update t a e b).kind = .free := by
    rw [update_of_ne (by omega)]
    exact hfb
  rw [FdTable.references_fill _ hb hfb', FdTable.references_fill t ha hfa]

lemma counted_sysPipe (h : s.Counted T) (userPipefd : UInt64) :
    (s.sysPipe userPipefd).2.2.Counted T := by
  obtain hs | ⟨pipe, readFd, writeFd, hlt, hu, hr1, hr2, hrw, hw1, hw2, hs⟩ :=
    sysPipe_spec userPipefd s
  · rw [hs]
    exact h
  rw [hs]
  refine (FdObjects.Counted.create h (x := .pipe pipe) (.reader pipe) rfl hu
    (pool_createPipe _ _ rfl rfl rfl)).congr fun r => ?_
  have hfill := references_fill_two s.table hr1 hr2 hrw hw1 hw2 ⟨.pipeReader, pipe⟩
    ⟨.pipeWriter, pipe⟩ r
  have href : ref ⟨.pipeReader, pipe⟩ = some (.reader pipe) := refBelow_of_lt .reader hlt
  have hrefw : ref ⟨.pipeWriter, pipe⟩ = some (.writer pipe) := refBelow_of_lt .writer hlt
  have hends : held ref [⟨.pipeReader, pipe⟩] r + held ref [⟨.pipeWriter, pipe⟩] r =
      if r.object = .pipe pipe then 1 else 0 := by
    rw [held_singleton, held_singleton, href, hrefw]
    cases r <;> simp [Ref.object, eq_comm]
  simp only [setEntry]
  omega

lemma counted_sysPipe2 (h : s.Counted T) (userPipefd flags : UInt64) :
    (s.sysPipe2 userPipefd flags).2.2.Counted T := by
  unfold sysPipe2
  split
  · exact h
  · exact counted_sysPipe h userPipefd

lemma filter_range_two {n a b : Nat} {l : List Nat} {p : Nat → Bool}
    (h : (range n).filter p = a :: b :: l) : a < n ∧ b < n ∧ a ≠ b ∧ p a ∧ p b := by
  have hnodup : (a :: b :: l).Nodup := h ▸ List.Nodup.filter p nodup_range
  have ha : a ∈ (range n).filter p := h ▸ mem_cons_self
  have hb : b ∈ (range n).filter p := h ▸ mem_cons_of_mem _ mem_cons_self
  rw [mem_filter, mem_range] at ha hb
  have hne : a ≠ b := by
    rintro rfl
    simp at hnodup
  exact ⟨ha.1, hb.1, hne, ha.2, hb.2⟩

lemma counted_sysSocketpair (h : s.Counted T) (domain : Nat) (type : UInt32) (protocol : Nat)
    (userFds : UInt64) : (s.sysSocketpair domain type protocol userFds).2.2.Counted T := by
  simp only [sysSocketpair]
  split
  · exact h
  split
  · exact h
  split
  · rename_i first second rest hunused
    obtain ⟨hf, hs, hne, huf, hus⟩ := filter_range_two hunused
    split
    · exact h
    rename_i firstFd hfirst
    obtain ⟨-, hf1, hf2⟩ := allocateFdSlot_spec hfirst
    split
    · exact h
    rename_i secondFd hsecond
    obtain ⟨hlt, hs1, hs2⟩ := allocateFdSlot_spec hsecond
    have h1 := FdObjects.Counted.create h (x := .socket first) (.socket first) rfl
      (by simpa [used] using huf)
      (pool_createSocket s.objects first
        (s := pairedSocket (type &&& sockTypeMask) second) rfl rfl rfl)
    have hused2 : (s.objects.setSocket first
        (pairedSocket (type &&& sockTypeMask) second)).used (.socket second) = false := by
      simpa [used, setSocket, update_of_ne hne.symm] using hus
    refine (FdObjects.Counted.create h1 (x := .socket second) (.socket second) rfl hused2
      (pool_createSocket _ second
        (s := pairedSocket (type &&& sockTypeMask) first) rfl rfl rfl)).congr fun r => ?_
    have hfill := references_fill_two s.table hf1 hf2 (by omega) hs1 hs2 ⟨.socket, first⟩
      ⟨.socket, second⟩ r
    have hheld : ∀ i < maxSocketObjects, held ref [⟨.socket, (i : Int)⟩] r =
        if r.object = .socket i then 1 else 0 := fun i hi => by
      rw [held_singleton, show ref ⟨.socket, (i : Int)⟩ = some (.socket i) from
        refBelow_of_lt .socket hi]
      cases r <;> simp [Ref.object, eq_comm]
    have hh1 := hheld first hf
    have hh2 := hheld second hs
    simp only [setEntry]
    omega
  · exact h

/-! ## Copying and closing -/

theorem counted_closeFdInternal (h : s.Counted T) (fd : Nat) :
    (s.closeFdInternal fd).Counted T := by
  unfold closeFdInternal
  split
  · exact h
  rename_i e he
  obtain ⟨hfd, -, rfl⟩ := getFdEntry_spec he
  refine FdObjects.Counted.release (e := s.table fd) (FdObjects.Counted.congr h fun r => ?_)
  have := FdTable.references_close s.table hfd r
  simp only [setEntry]
  omega

variable {target : Nat}

lemma counted_dupInto (h : s.Counted T) (hT : ∀ r, T r < 2 ^ 30) {old : FdEntry}
    (hlive : s.objects.Live old) (htarget : target < processFdMax)
    (hfree : (s.table target).kind = .free) : (s.dupInto old target).2.Counted T := by
  have hbound : ∀ r, FdTable.references s.table r + T r < 2 ^ 31 := fun r => by
    have := FdTable.references_le s.table r
    have := hT r
    simp only [processFdMax] at *
    omega
  have h1 := FdObjects.Counted.retain h hlive hbound
  simp only [dupInto]
  split
  · rename_i hcond
    obtain ⟨hkind, hlookup⟩ := hcond
    -- the handle is missing, so the entry refers to nothing
    have hnone : old.ref = none := by
      cases hr : old.ref with
      | none => rfl
      | some r =>
      have hused := (FdObjects.Counted.retain_sameHolders h hbound old).live hlive r hr
      have href : refBelow maxFileHandles .handle old.handleIndex = some r := by
        rw [← hr, ref, hkind]
      obtain ⟨-, hfree'⟩ | ⟨i, hl, -, -⟩ := lookup_cases maxFileHandles .handle
        (fun i => ((s.objects.retainFdEntryRefs old).handles i).inUse) old.handleIndex
      · obtain ⟨i, rfl, hi⟩ := hfree' r href
        exact absurd hused (by simp [Ref.object, used, hi])
      · exact absurd hlookup (by simp [getFileHandleByIndex, setEntry, hl])
    refine h1.congr fun r => ?_
    have hold := held_singleton_of_none ref hnone r
    have hclosed : held ref [closed] r = 0 :=
      held_singleton_of_none _ (FdTable.ref_of_free rfl) r
    have := FdTable.references_fill s.table htarget hfree closed r
    simp only [setEntry, update_idem]
    omega
  · refine h1.congr fun r => ?_
    have := FdTable.references_fill s.table htarget hfree old r
    simp only [setEntry]
    omega

lemma closeFdInternal_table {fd : Nat} (hne : fd ≠ target) (s : FdState) :
    (s.closeFdInternal target).table fd = s.table fd := by
  unfold closeFdInternal
  split
  · rfl
  · simp [setEntry, update_of_ne hne]

lemma closeFdInternal_free (ht : target < processFdMax) (s : FdState) :
    ((s.closeFdInternal target).table target).kind = .free := by
  unfold closeFdInternal
  cases hget : getFdEntry target s.table with
  | none =>
    simp only [getFdEntry] at hget
    split at hget
    · omega
    · split at hget
      · assumption
      · simp at hget
  | some => simp [setEntry, closed]

theorem counted_dupFdCommon (h : s.Counted T) (hT : ∀ r, T r < 2 ^ 30) (oldfd : Nat)
    (requested : Int) (overwrite : Bool) :
    (s.dupFdCommon oldfd requested overwrite).2.Counted T := by
  unfold dupFdCommon
  split
  · exact h
  rename_i old hold
  obtain ⟨hfd, -, rfl⟩ := getFdEntry_spec hold
  split
  · simp only
    split
    · exact h
    split
    · exact h
    rename_i hne
    split
    · have hclose := counted_closeFdInternal h requested.toNat
      refine counted_dupInto hclose hT ?_ (by omega) (closeFdInternal_free (by omega) s)
      rw [← closeFdInternal_table (fun e => hne e.symm) s]
      exact hclose.live hfd
    · split
      · exact h
      · rename_i hfree
        exact counted_dupInto h hT (h.live hfd) (by omega) (by simpa using hfree)
  · split
    · exact h
    · rename_i target htarget
      obtain ⟨-, ht1, ht2⟩ := allocateFdSlot_spec htarget
      exact counted_dupInto h hT (h.live hfd) ht1 ht2

lemma counted_sysFcntl (h : s.Counted T) (hT : ∀ r, T r < 2 ^ 30) (fd : Nat) (cmd : UInt64) :
    (s.sysFcntl fd cmd).2.Counted T := by
  unfold sysFcntl
  split
  · exact h
  split
  · exact counted_dupFdCommon h hT fd (-1) false
  split
  · exact h
  split
  · split
    · split <;> exact h
    · exact h
  · exact h

lemma counted_sysClose (h : s.Counted T) (fd : Nat) : (s.sysClose fd).2.Counted T := by
  unfold sysClose
  split
  · exact h
  · exact counted_closeFdInternal h fd

end FdState

end AosKernel.Fd
