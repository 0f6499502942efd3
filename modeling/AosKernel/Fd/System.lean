import AosKernel.Fd.Passing
import AosKernel.Process.Descriptors

/-!
# Processes and descriptors together

The entries of `Process.Lifecycle`, the descriptor calls of the current process, and the transfers,
over any file system. `FdCall.run` is what a call does to the table of its caller and to the
objects; `Sys.step` puts the result back and ends the call, or gives up the processor.
`reference_counts` is about every state of every run from boot. -/

namespace AosKernel.Fd

open Lib Lib.RefCount Vfs Proc Function FdTable IoState FdState

/-! ## Calls -/

/-- The devices that `open` has a kind of its own for. -/
inductive Device where
  | null
  | random
  | tty
  deriving DecidableEq, Repr

def Device.kind : Device → FdKind
  | .null => .null
  | .random => .random
  | .tty => .tty

/-- What the calls that are not modelled one by one may change: lock modes and positions of open
files (`sys_flock`, `sys_getdents64`), and the fields of sockets that are neither counts, nor
descriptors in transit, nor the peer (`sys_bind`, `sys_connect`, `sys_listen`, `sys_setsockopt`,
`sys_socket_shutdown`). -/
structure OtherChange where
  flockMode : Nat → Nat
  offset : Nat → Nat
  sockets : Nat → SocketObject

def FdObjects.afterOther (o : FdObjects) (c : OtherChange) : FdObjects :=
  { o with
    handles := fun i => { o.handles i with flockMode := c.flockMode i, offset := c.offset i }
    sockets := fun i => { c.sockets i with
      inUse := (o.sockets i).inUse
      refcount := (o.sockets i).refcount
      rxAncillaryFds := (o.sockets i).rxAncillaryFds
      peerIndex := (o.sockets i).peerIndex } }

/-- The calls on descriptors. `openNode` and `openDevice` are the ends of `open_path_with_flags`. -/
inductive FdCall where
  | openNode (node : VfsNode) (flags : UInt64)
  | openDevice (device : Device) (id : Int)
  | eventfd2 (initialValue flags : UInt32)
  | pipe (userPipefd : UInt64)
  | pipe2 (userPipefd flags : UInt64)
  | socket (family : Nat) (type : UInt32) (protocol : Nat)
  | socketpair (domain : Nat) (type : UInt32) (protocol : Nat) (userFds : UInt64)
  | dup (oldfd : Nat)
  | dup2 (oldfd : Nat) (newfd : Int)
  | fcntl (fd : Nat) (cmd : UInt64)
  | close (fd : Nat)
  | sendmsg (fd : Nat) (message : Option SendMessage)
  | recvmsg (fd : Nat) (message : Option RecvMessage)
  | read
  | readv (iov : List ReadVec)
  | write (data : List UInt8)
  | writev (iov : List WriteVec)
  | lseek (fd : Nat) (offset : Int) (whence : UInt64)
  | ftruncate (fd : Nat) (size : Int)
  | other (value : Int) (change : OtherChange)

section Calls

variable {σ : Type}

/-- A call that works on the descriptors alone. -/
def IoState.onFds (regs : SyscallRegs) (f : FdState → Int × FdState) (s : IoState σ) :
    IoReply × IoState σ :=
  let r := f s.toFdState
  (.returned regs r.1 [], { r.2 with fs := s.fs })

def FdCall.run (F : FileSystem σ) (env : Surroundings) (regs : SyscallRegs) :
    FdCall → IoState σ → IoReply × IoState σ
  | .openNode node flags => onFds regs (installVnodeFd node flags)
  | .openDevice device id => onFds regs (installDeviceFd device.kind id)
  | .eventfd2 initialValue flags => onFds regs (sysEventfd2 initialValue flags)
  | .pipe userPipefd =>
      onFds regs fun s => ((s.sysPipe userPipefd).1, (s.sysPipe userPipefd).2.2)
  | .pipe2 userPipefd flags =>
      onFds regs fun s =>
        ((s.sysPipe2 userPipefd flags).1, (s.sysPipe2 userPipefd flags).2.2)
  | .socket family type protocol =>
      onFds regs (installSocketFd family type protocol)
  | .socketpair domain type protocol userFds =>
      onFds regs fun s =>
        ((s.sysSocketpair domain type protocol userFds).1,
          (s.sysSocketpair domain type protocol userFds).2.2)
  | .dup oldfd => onFds regs (sysDup oldfd)
  | .dup2 oldfd newfd => onFds regs (sysDup2 oldfd newfd)
  | .fcntl fd cmd => onFds regs (sysFcntl fd cmd)
  | .close fd => onFds regs (sysClose fd)
  | .sendmsg fd message => onFds regs (sysSendmsg env.sender env.tcp fd message)
  | .recvmsg fd message =>
      onFds regs fun s =>
        ((s.sysRecvmsg env.tcp fd message).1.value, (s.sysRecvmsg env.tcp fd message).2)
  | .read => sysRead F env regs
  | .readv iov => sysReadv F env regs iov
  | .write data => sysWrite F env regs data
  | .writev iov => sysWritev F env regs iov
  | .lseek fd offset whence => fun s =>
      (.returned regs (s.sysLseek fd offset whence).1 [], (s.sysLseek fd offset whence).2)
  | .ftruncate fd size => fun s =>
      (.returned regs (s.sysFtruncate F fd size).1 [], (s.sysFtruncate F fd size).2)
  | .other value change => fun s =>
      (.returned regs value [], s.withObjects (s.objects.afterOther change))

/-! ## The system -/

structure Sys (σ : Type) where
  kernel : Kernel
  fs : σ

/-- An entry of the system: one of the process table, or a call on descriptors. -/
inductive SysOp where
  | proc (op : Op)
  | call (regs : SyscallRegs) (env : Surroundings) (c : FdCall)

namespace Sys

def io (s : Sys σ) : IoState σ :=
  ⟨⟨(s.kernel.procs s.kernel.current).fdTable, s.kernel.objects⟩, s.fs⟩

def withIo (s : Sys σ) (r : IoState σ) : Sys σ where
  kernel := { s.kernel.modifyProc s.kernel.current fun p => { p with fdTable := r.table } with
    objects := r.objects }
  fs := r.fs

/-- The calls of `schedule` that a call makes, up to the first that goes to another process. -/
def giveUp : List SyscallRegs → Kernel → Bool × Kernel
  | [], k => (false, k)
  | regs :: rest, k =>
      match k.schedule regs with
      | (true, k) => (true, k)
      | (false, k) => giveUp rest k

def finishCall (reply : IoReply) (s : Sys σ) : Outcome × Sys σ :=
  match giveUp reply.saved s.kernel with
  | (true, k) => (.switched, { s with kernel := k })
  | (false, k) => (.returned reply.value, { s with kernel := k.sysret reply.regs reply.value })

def step (F : FileSystem σ) (op : SysOp) (s : Sys σ) : Outcome × Sys σ :=
  match op with
  | .proc op => ((s.kernel.step op).1, { s with kernel := (s.kernel.step op).2 })
  | .call regs env c =>
      let r := c.run F env regs s.io
      finishCall r.1 (s.withIo r.2)

/-- The states that entries lead to from `s₀`, and whether the last one has stopped the machine. -/
inductive Runs (F : FileSystem σ) (s₀ : Sys σ) : Bool → Sys σ → Prop where
  | start : Runs F s₀ false s₀
  | step {s : Sys σ} (h : Runs F s₀ false s) (op : SysOp) :
      Runs F s₀ (decide ((s.step F op).1 = .halted)) (s.step F op).2

def run (F : FileSystem σ) (ops : List SysOp) (s : Sys σ) : Sys σ :=
  ops.foldl (fun s op => (s.step F op).2) s

/-- None of the entries stops the machine. -/
def keepsGoing (F : FileSystem σ) : List SysOp → Sys σ → Bool
  | [], _ => true
  | op :: ops, s => decide ((s.step F op).1 ≠ .halted) && keepsGoing F ops (s.step F op).2

theorem Runs.run {F : FileSystem σ} {s₀ s : Sys σ} (h : Runs F s₀ false s) {ops : List SysOp}
    (hgo : keepsGoing F ops s = true) : Runs F s₀ false (s.run F ops) := by
  induction ops generalizing s with
  | nil => exact h
  | cons op ops ih =>
    simp only [keepsGoing, Bool.and_eq_true, decide_eq_true_eq] at hgo
    have hnext := Runs.step h op
    rw [decide_eq_false hgo.1] at hnext
    exact ih hnext hgo.2

end Sys

end Calls

/-! ## Counting the tables -/

def tableReferences (tables : Nat → FdTable) (r : Ref) : Nat :=
  heldIn FdEntry.ref (Finset.range maxProcesses) (fun i => entries (tables i)) r

variable (tables : Nat → FdTable)

lemma tableReferences_update {i : Nat} (hi : i < maxProcesses) (t : FdTable) (r : Ref) :
    tableReferences (update tables i t) r + references (tables i) r =
      tableReferences tables r + references t r := by
  have hlists : (fun j => entries (update tables i t j)) =
      update (fun j => entries (tables j)) i (entries t) :=
    funext fun j => apply_update (fun _ => entries) tables i t j
  unfold tableReferences
  rw [hlists]
  exact heldIn_update FdEntry.ref (Finset.mem_range.2 hi) _ _ r

lemma references_le_tableReferences {i : Nat} (hi : i < maxProcesses) (r : Ref) :
    references (tables i) r ≤ tableReferences tables r :=
  held_le_heldIn FdEntry.ref (Finset.mem_range.2 hi) (fun i => entries (tables i)) r

lemma tableReferences_le (r : Ref) : tableReferences tables r ≤ maxProcesses * processFdMax := by
  have hlength : ∀ i ∈ Finset.range maxProcesses,
      (entries (tables i)).length ≤ processFdMax := fun i _ => by simp [entries]
  have hle : tableReferences tables r ≤ (Finset.range maxProcesses).card * processFdMax :=
    heldIn_le FdEntry.ref hlength r
  simpa using hle

lemma tableReferences_eq_zero {tables : Nat → FdTable} {r : Ref}
    (h : ∀ i, references (tables i) r = 0) : tableReferences tables r = 0 :=
  heldIn_eq_zero fun i _ => h i

lemma references_of_free {t : FdTable} (h : ∀ fd, (t fd).kind = .free) (r : Ref) :
    references t r = 0 := by
  rw [references_eq]
  refine Finset.sum_eq_zero fun fd _ => ?_
  exact held_singleton_of_none _ (ref_of_free (h fd)) r

@[simp] lemma references_closedTable (r : Ref) : references closedTable r = 0 :=
  references_of_free (fun _ => rfl) r

@[simp] lemma references_zeroTable (r : Ref) : references zeroTable r = 0 :=
  references_of_free (fun _ => rfl) r

end AosKernel.Fd

namespace AosKernel.Proc

open Lib.RefCount Fd Function

/-- The objects count the tables of all slots and the descriptors in transit; a slot that is gone
has no descriptors. -/
structure Holders.Counted (v : Holders) : Prop where
  objects : v.objects.Counted (tableReferences v.tables)
  gone : ∀ i, v.gone i → ∀ r, FdTable.references (v.tables i) r = 0

lemma foldl_release_entries (t : FdTable) (o : FdObjects) :
    o.releaseFdTableEntries t =
      (FdTable.entries t).foldl (fun o e => o.releaseFdEntryRefs e) o := by
  simp [FdObjects.releaseFdTableEntries, FdTable.entries, List.foldl_map]

variable {v : Holders}

lemma Holders.Counted.live (h : v.Counted) {i : Nat} (hi : i < maxProcesses) :
    ∀ e ∈ FdTable.entries (v.tables i), v.objects.Live e := by
  intro e he r hr
  have hpos : 0 < FdTable.references (v.tables i) r := held_pos_of_mem FdEntry.ref he hr
  have hle := references_le_tableReferences v.tables hi r
  exact h.objects.used (by omega)

lemma HolderStep.counted {v' : Holders} (hstep : HolderStep v v') (h : v.Counted) :
    v'.Counted := by
  cases hstep with
  | keep hgone => exact ⟨h.objects, fun i hi => h.gone i (hgone i hi)⟩
  | @copy i c gone hi hc hfree hgone =>
    refine ⟨?_, fun j hj r => ?_⟩
    · have hbound : ∀ r, tableReferences v.tables r + (FdTable.entries (v.tables i)).length <
          2 ^ 31 := fun r => by
        have := tableReferences_le v.tables r
        simp only [maxProcesses, processFdMax] at this
        simp only [FdTable.entries, List.length_map, List.length_range, processFdMax]
        omega
      have hretain := (h.objects.retainAll (h.live hi) hbound).1
      refine hretain.congr fun r => ?_
      have hup := tableReferences_update v.tables hc (v.tables i) r
      have hc0 := h.gone c hfree r
      change _ = _ + FdTable.references (v.tables i) r
      dsimp only
      omega
    · obtain ⟨hj', hne⟩ := hgone j hj
      simpa [update_of_ne hne] using h.gone j hj' r
  | @release i hi =>
    refine ⟨?_, fun j hj r => ?_⟩
    · rw [foldl_release_entries]
      refine FdObjects.Counted.releaseAll (h.objects.congr fun r => ?_)
      have hup := tableReferences_update v.tables hi closedTable r
      rw [references_closedTable] at hup
      change _ + FdTable.references (v.tables i) r = _
      omega
    · by_cases e : j = i
      · subst e
        simp
      · simpa [update_of_ne e] using h.gone j hj r
  | @ends i gone hi hgone =>
    refine ⟨h.objects, fun j hj r => ?_⟩
    cases hgone j hj with
    | inl hj' => exact h.gone j hj' r
    | inr e =>
      subst e
      simp [hi]
  | @clear i gone hlt hi hgone =>
    have hempty : ∀ r, FdTable.references (v.tables i) r = 0 := fun r => by
      cases hi with
      | inl hg => exact h.gone i hg r
      | inr hclosed => simp [hclosed]
    refine ⟨h.objects.congr fun r => ?_, fun j hj r => ?_⟩
    · have hup := tableReferences_update v.tables hlt zeroTable r
      rw [references_zeroTable, hempty] at hup
      omega
    · by_cases e : j = i
      · subst e
        simp
      · have hj' : v.gone j := (hgone j hj).resolve_right e
        simpa [update_of_ne e] using h.gone j hj' r

lemma HolderSteps.counted {v' : Holders} (hsteps : HolderSteps v v') (h : v.Counted) :
    v'.Counted := by
  induction hsteps with
  | refl => exact h
  | tail _ hstep ih => exact hstep.counted ih

end AosKernel.Proc

namespace AosKernel.Fd

open Lib Lib.RefCount Vfs Proc Function

/-! ## Calls keep the counts -/

section Counting

variable {σ : Type}

lemma pool_afterOther (o : FdObjects) (c : OtherChange) : (o.afterOther c).pool = o.pool := by
  refine ObjectPool.Pool.ext (funext fun r => ?_) (funext fun x => ?_) (funext fun x => ?_)
  · cases r <;> rfl
  · cases x <;> rfl
  · cases x <;> rfl

lemma Device.ref_none (d : Device) (id : Int) : FdEntry.ref ⟨d.kind, id⟩ = none := by
  cases d <;> rfl

lemma IoState.Quiet.counted {s s' : IoState σ} (h : s.Quiet s') {T : Ref → Nat}
    (hs : s.toFdState.Counted T) : s'.toFdState.Counted T := by
  unfold FdState.Counted at hs ⊢
  rw [h.table]
  exact hs.of_pool h.pool

lemma FdCall.counted (F : FileSystem σ) (env : Surroundings) (regs : SyscallRegs) (c : FdCall)
    (s : IoState σ) {T : Ref → Nat} (hT : ∀ r, T r < 2 ^ 20) (h : s.toFdState.Counted T) :
    (c.run F env regs s).2.toFdState.Counted T := by
  have hT' : ∀ r, T r < 2 ^ 30 := fun r => by have := hT r; omega
  cases c with
  | openNode node flags => exact FdState.counted_installVnodeFd h node flags
  | openDevice device id => exact FdState.counted_installDeviceFd h (device.ref_none id)
  | eventfd2 initialValue flags => exact FdState.counted_sysEventfd2 h initialValue flags
  | pipe userPipefd => exact FdState.counted_sysPipe h userPipefd
  | pipe2 userPipefd flags => exact FdState.counted_sysPipe2 h userPipefd flags
  | socket family type protocol => exact FdState.counted_installSocketFd h family type protocol
  | socketpair domain type protocol userFds =>
    exact FdState.counted_sysSocketpair h domain type protocol userFds
  | dup oldfd => exact FdState.counted_dupFdCommon h hT' oldfd (-1) false
  | dup2 oldfd newfd => exact FdState.counted_dupFdCommon h hT' oldfd newfd true
  | fcntl fd cmd => exact FdState.counted_sysFcntl h hT' fd cmd
  | close fd => exact FdState.counted_sysClose h fd
  | sendmsg fd message => exact FdState.counted_sysSendmsg h hT env.sender env.tcp fd message
  | recvmsg fd message => exact FdState.counted_sysRecvmsg h env.tcp fd message
  | read => exact (IoState.quiet_sysRead F env regs s).counted h
  | readv iov => exact (IoState.quiet_sysReadv F env regs iov s).counted h
  | write data => exact (IoState.quiet_sysWrite F env regs data s).counted h
  | writev iov => exact (IoState.quiet_sysWritev F env regs iov s).counted h
  | lseek fd offset whence => exact (IoState.quiet_sysLseek fd offset whence s).counted h
  | ftruncate fd size => exact (IoState.quiet_sysFtruncate F fd size s).counted h
  | other value change =>
    have hq : s.Quiet (s.withObjects (s.objects.afterOther change)) :=
      ⟨rfl, pool_afterOther s.objects change⟩
    exact hq.counted h

end Counting

namespace Sys

variable {σ : Type} {s : Sys σ}

def others (s : Sys σ) (r : Ref) : Nat :=
  tableReferences (update s.kernel.holders.tables s.kernel.current closedTable) r

lemma others_spec (s : Sys σ) (hcur : s.kernel.current < maxProcesses) (t : FdTable) (r : Ref) :
    tableReferences (update s.kernel.holders.tables s.kernel.current t) r =
      FdTable.references t r + s.others r := by
  have h1 := tableReferences_update s.kernel.holders.tables hcur closedTable r
  have h2 := tableReferences_update s.kernel.holders.tables hcur t r
  rw [references_closedTable] at h1
  unfold others
  omega

lemma others_lt (s : Sys σ) (r : Ref) : s.others r < 2 ^ 20 := by
  have := tableReferences_le (update s.kernel.holders.tables s.kernel.current closedTable) r
  simp only [maxProcesses, processFdMax] at this
  unfold others
  omega

lemma counted_io (h : s.kernel.holders.Counted) (hcur : s.kernel.current < maxProcesses) :
    s.io.toFdState.Counted s.others := by
  refine h.objects.congr fun r => ?_
  have := others_spec s hcur (s.kernel.holders.tables s.kernel.current) r
  rw [update_eq_self] at this
  exact this.symm

lemma holders_withIo (s : Sys σ) (r : IoState σ) :
    (s.withIo r).kernel.holders =
      ⟨update s.kernel.holders.tables s.kernel.current r.table, s.kernel.holders.gone, r.objects⟩ :=
  Kernel.holders_table rfl

lemma counted_withIo (h : s.kernel.holders.Counted) (hact : s.kernel.machine.Active)
    {r : IoState σ} (hr : r.toFdState.Counted s.others) : (s.withIo r).kernel.holders.Counted := by
  obtain ⟨hcur, hlive, -, hzombie⟩ := Kernel.current_of_active hact
  rw [holders_withIo]
  refine ⟨hr.congr fun x => others_spec s hcur r.table x, fun j hj x => ?_⟩
  by_cases e : j = s.kernel.current
  · subst e
    exact absurd hj (fun hg => hg.elim hlive hzombie)
  · simpa [update_of_ne e] using h.gone j hj x

lemma keepsFds_giveUp (l : List SyscallRegs) (k : Kernel) : k.KeepsFds (giveUp l k).2 := by
  induction l generalizing k with
  | nil => exact .of_eq rfl rfl
  | cons regs l ih =>
    have hs := Kernel.keepsFds_schedule k regs
    unfold giveUp
    rcases hsched : k.schedule regs with ⟨b, k1⟩
    rw [hsched] at hs
    cases b with
    | true => exact hs
    | false => exact hs.trans (ih k1)

lemma keepsFds_finishCall (reply : IoReply) (s : Sys σ) :
    s.kernel.KeepsFds (finishCall reply s).2.kernel := by
  have hg := keepsFds_giveUp reply.saved s.kernel
  unfold finishCall
  rcases hgive : giveUp reply.saved s.kernel with ⟨b, k⟩
  rw [hgive] at hg
  cases b with
  | true => exact hg
  | false => exact hg.trans (.of_eq rfl rfl)

variable (F : FileSystem σ)

lemma counted_step (op : SysOp) (h : s.kernel.holders.Counted) (hact : s.kernel.machine.Active) :
    (s.step F op).2.kernel.holders.Counted := by
  obtain ⟨hcur, -⟩ := Kernel.current_of_active hact
  cases op with
  | proc op => exact HolderSteps.counted (Kernel.step_holders s.kernel op hcur) h
  | call regs env c =>
    have hrun := c.counted F env regs s.io s.others_lt (counted_io h hcur)
    exact (keepsFds_finishCall _ _).step.counted (counted_withIo h hact hrun)

/-! ## Runs -/

lemma machine_withIo (s : Sys σ) (r : IoState σ) :
    (s.withIo r).kernel.machine = s.kernel.machine :=
  Kernel.machine_modifyProc_same s.kernel s.kernel.current
    (f := fun p => { p with fdTable := r.table }) rfl

lemma active_giveUp (l : List SyscallRegs) {k : Kernel} (h : k.machine.Active) :
    (giveUp l k).2.machine.Active := by
  induction l generalizing k with
  | nil => exact h
  | cons regs l ih =>
    have hs := Kernel.active_step h (.schedule regs)
    unfold giveUp
    simp only [Kernel.step] at hs
    rcases hsched : k.schedule regs with ⟨b, k1⟩
    rw [hsched] at hs
    cases b with
    | true => exact hs (by simp)
    | false => exact ih (hs (by simp))

lemma active_sysStep (op : SysOp) (h : s.kernel.machine.Active)
    (hout : (s.step F op).1 ≠ .halted) : (s.step F op).2.kernel.machine.Active := by
  cases op with
  | proc op => exact Kernel.active_step h op hout
  | call regs env c =>
  have hio : (s.withIo (c.run F env regs s.io).2).kernel.machine.Active := by
    rw [machine_withIo]
    exact h
  have hg := active_giveUp (c.run F env regs s.io).1.saved hio
  simp only [step, finishCall]
  rcases hgive : giveUp (c.run F env regs s.io).1.saved
    (s.withIo (c.run F env regs s.io).2).kernel with ⟨b, k⟩
  rw [hgive] at hg
  cases b with
  | true => exact hg
  | false => exact hg

/-- The number of descriptors of live processes that refer to `r`. -/
def liveReferences (s : Sys σ) (r : Ref) : Nat :=
  tableReferences (fun i => if (s.kernel.procs i).status = .dead ∨
    (s.kernel.procs i).status = .zombie then zeroTable else (s.kernel.procs i).fdTable) r

/-- Each count is the number of descriptors of live processes and of descriptors in transit that
refer to the object, and a slot is free exactly when that number is zero for all it counts. -/
structure ReferenceCounts (s : Sys σ) : Prop where
  count : ∀ r, s.kernel.objects.count r = s.liveReferences r + s.kernel.objects.pendingReferences r
  free : ∀ x, s.kernel.objects.used x = false ↔
    ∀ r ∈ x.ends, s.liveReferences r + s.kernel.objects.pendingReferences r = 0

lemma liveReferences_eq (h : s.kernel.holders.Counted) (r : Ref) :
    s.liveReferences r = tableReferences s.kernel.holders.tables r := by
  unfold liveReferences tableReferences heldIn
  refine Finset.sum_congr rfl fun i _ => ?_
  dsimp only
  split
  · rename_i hg
    exact (references_zeroTable r).trans (h.gone i hg r).symm
  · rfl

lemma referenceCounts_of_counted (h : s.kernel.holders.Counted) : s.ReferenceCounts := by
  have hcount : ∀ r, s.kernel.objects.count r =
      s.liveReferences r + s.kernel.objects.pendingReferences r := fun r => by
    rw [liveReferences_eq h, ← FdObjects.pool_pending]
    exact h.objects.balanced.count r
  refine ⟨hcount, fun x => ?_⟩
  have hused := h.objects.balanced.used x
  have hends : ∀ r, r ∈ x.ends ↔ r.object = x := fun r => scheme.mem_ends r x
  constructor
  · intro hx r hr
    rw [← hcount]
    by_contra hne
    have := hused.2 ⟨r, (hends r).1 hr, pos_of_ne_zero hne⟩
    exact Bool.false_ne_true (hx.symm.trans this)
  · intro hx
    by_contra hne
    obtain ⟨r, hr, hpos⟩ := hused.1 (Bool.not_eq_false _ ▸ hne)
    have := hx r ((hends r).2 hr)
    rw [← hcount] at this
    exact absurd this (Nat.pos_iff_ne_zero.1 hpos)

lemma counted_boot (p4 : Nat) : (Kernel.initProcess p4).holders.Counted := by
  have htables : ∀ i r, FdTable.references ((Kernel.initProcess p4).holders.tables i) r = 0 := by
    intro i r
    unfold Kernel.holders Kernel.initProcess
    dsimp only
    split
    · rw [FdTable.references_eq]
      refine Finset.sum_eq_zero fun fd _ => ?_
      simp only [initProcessFdTable]
      split
      · rfl
      · split
        · rfl
        · split <;> rfl
    · exact references_zeroTable r
  have hzero : ∀ r, tableReferences (Kernel.initProcess p4).holders.tables r = 0 := fun r =>
    tableReferences_eq_zero fun i => htables i r
  refine ⟨FdObjects.Counted.congr (T := fun _ => 0) ⟨⟨fun r => ?_, fun x => ?_, fun x _ => ?_,
    fun x _ => ?_⟩, fun i => ?_⟩ hzero, fun i _ r => htables i r⟩
  · have hpending : FdObjects.zero.pendingReferences r = 0 :=
      heldIn_eq_zero fun i _ => held_nil FdEntry.ref r
    change FdObjects.zero.count r = 0 + FdObjects.zero.pendingReferences r
    rw [hpending]
    cases r <;> rfl
  · refine iff_of_false ?_ ?_
    · cases x <;> exact Bool.false_ne_true
    · rintro ⟨r, -, hpos⟩
      cases r <;> exact absurd hpos (Nat.lt_irrefl 0)
  · cases x <;> rfl
  · cases x <;> rfl
  · exact Nat.zero_le _

lemma counted_of_runs (p4 : Nat) (fs : σ) {halted : Bool}
    (h : Runs F ⟨Kernel.initProcess p4, fs⟩ halted s) :
    s.kernel.holders.Counted ∧ (halted = false → s.kernel.machine.Active) := by
  induction h with
  | start => exact ⟨counted_boot p4, fun _ => Kernel.active_initProcess p4⟩
  | step h op ih =>
    obtain ⟨hc, ha⟩ := ih
    refine ⟨counted_step F op hc (ha rfl), fun hout => active_sysStep F op (ha rfl) ?_⟩
    simpa using hout

/-- In every state of every run, the counts are the numbers of references. -/
theorem reference_counts (F : FileSystem σ) (p4 : Nat) (fs : σ) {halted : Bool}
    (h : Runs F ⟨Kernel.initProcess p4, fs⟩ halted s) : s.ReferenceCounts :=
  referenceCounts_of_counted (counted_of_runs F p4 fs h).1

def noFiles : FileSystem Unit where
  readNode := fun _ _ _ _ => none
  writeNode := fun _ _ _ s => (none, s)
  resizeNode := fun _ _ s => (false, s)

/-- Surroundings where nothing is allowed and nothing arrives. -/
def still : Surroundings where
  canMutate := fun _ => false
  random := fun _ => []
  ttyRead := fun _ => []
  ttyWrite := fun _ => 0
  sender := ⟨1, 0, 0⟩
  tcp := fun _ => ⟨0, [], .closed, .zero⟩

/-- A process makes a pipe, forks, and closes the read end. -/
def pipeAndFork : Sys Unit :=
  run noFiles [.call .zero still (.pipe 0x400000), .proc (.fork .zero 0x20000),
    .call .zero still (.close 3)] ⟨Kernel.initProcess 0x10000, ()⟩

theorem reference_counts_pipe : pipeAndFork.ReferenceCounts ∧
    pipeAndFork.liveReferences (.reader 0) = 1 ∧ pipeAndFork.liveReferences (.writer 0) = 2 :=
  ⟨reference_counts noFiles 0x10000 () (Runs.start.run (by decide +kernel)), by decide +kernel,
    by decide +kernel⟩

end Sys

end AosKernel.Fd
