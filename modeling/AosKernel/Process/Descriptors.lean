import AosKernel.Process.Moves
import AosKernel.Process.TableInvariant

/-!
# Descriptors of the processes

What the entries of `Process.Lifecycle` do to the descriptor tables and to the objects behind them.
A slot is *gone* when it is dead or a zombie. `HolderStep` has the four things that happen: a table
is copied and retained, a table is released, a slot with an empty table ends, and such a slot is
cleared. An entry of the kernel is a sequence of these steps (`Kernel.step_holders`).
-/

namespace AosKernel.Proc

open Lib Fd Function

/-! ## Holders -/

/-- The descriptor tables by slot, the slots that are gone, and the objects. -/
structure Holders where
  tables : Nat → FdTable
  gone : Nat → Prop
  objects : FdObjects

def Kernel.holders (k : Kernel) : Holders where
  tables := fun i => (k.procs i).fdTable
  gone := fun i => (k.procs i).status.Gone
  objects := k.objects

inductive HolderStep (v : Holders) : Holders → Prop where
  | keep {gone : Nat → Prop} (hgone : ∀ i, gone i → v.gone i) :
      HolderStep v ⟨v.tables, gone, v.objects⟩
  | copy {i c : Nat} {gone : Nat → Prop} (hi : i < maxProcesses) (hc : c < maxProcesses)
      (hfree : v.gone c) (hgone : ∀ j, gone j → v.gone j ∧ j ≠ c) :
      HolderStep v ⟨update v.tables c (v.tables i), gone,
        v.objects.retainFdTableEntries (v.tables i)⟩
  | release {i : Nat} (hi : i < maxProcesses) :
      HolderStep v ⟨update v.tables i closedTable, v.gone,
        v.objects.releaseFdTableEntries (v.tables i)⟩
  | ends {i : Nat} {gone : Nat → Prop} (hi : v.tables i = closedTable)
      (hgone : ∀ j, gone j → v.gone j ∨ j = i) : HolderStep v ⟨v.tables, gone, v.objects⟩
  | clear {i : Nat} {gone : Nat → Prop} (hlt : i < maxProcesses)
      (hi : v.gone i ∨ v.tables i = closedTable) (hgone : ∀ j, gone j → v.gone j ∨ j = i) :
      HolderStep v ⟨update v.tables i zeroTable, gone, v.objects⟩

abbrev HolderSteps : Holders → Holders → Prop := Relation.ReflTransGen HolderStep

/-! ## Entries that keep the descriptors -/

/-- The tables and the objects are as before, and no process has ended. -/
structure Kernel.KeepsFds (k k' : Kernel) : Prop where
  objects : k'.objects = k.objects
  table : ∀ i, (k'.procs i).fdTable = (k.procs i).fdTable
  gone : ∀ i, (k'.procs i).status.Gone → (k.procs i).status.Gone

namespace Kernel

variable {k k' k'' : Kernel}

theorem KeepsFds.trans (h : k.KeepsFds k') (h' : k'.KeepsFds k'') : k.KeepsFds k'' :=
  ⟨h'.objects.trans h.objects, fun i => (h'.table i).trans (h.table i),
    fun i hi => h.gone i (h'.gone i hi)⟩

theorem KeepsFds.step (h : k.KeepsFds k') : HolderStep k.holders k'.holders := by
  have hv : k'.holders = ⟨k.holders.tables, k'.holders.gone, k.holders.objects⟩ := by
    unfold holders
    rw [h.objects, funext h.table]
  rw [hv]
  exact .keep h.gone

variable {m : Kernel} {cur : Nat} {f : Process → Process}

lemma keepsFds_modifyProc (k : Kernel) (i : Nat)
    (ht : (f (k.procs i)).fdTable = (k.procs i).fdTable)
    (hg : (f (k.procs i)).status.Gone → (k.procs i).status.Gone) :
    k.KeepsFds (k.modifyProc i f) := by
  refine ⟨rfl, fun j => ?_, fun j => ?_⟩
  all_goals
    by_cases e : j = i
    · subst e
      simpa [modifyProc, setProc]
    · simp [modifyProc, setProc, update_of_ne e]

lemma keepsFds_setStatus (k : Kernel) (i : Nat) {status : Status} (h : ¬ status.Gone) :
    k.KeepsFds (k.setStatus i status) :=
  keepsFds_modifyProc k i rfl fun hg => absurd hg h

lemma KeepsFds.of_eq (ho : k'.objects = k.objects) (hp : k'.procs = k.procs) : k.KeepsFds k' :=
  ⟨ho, fun i => by rw [hp], fun i h => by rwa [hp] at h⟩

lemma Keeps.keepsFds (h : k.Keeps k') : k.KeepsFds k' :=
  ⟨h.objects, fun i => (h.procs i).table, fun i => (h.procs i).gone⟩

lemma not_gone_running : ¬ Status.Gone .running := by simp [Status.Gone]
lemma not_gone_ready : ¬ Status.Gone .ready := by simp [Status.Gone]

lemma keepsFds_handover {context : Process → InterruptFrame} {taken : Bool}
    (h : Handover context k cur taken k') : k.KeepsFds k' := by
  cases h with
  | stay hsame => exact hsame.keeps.keepsFds.trans (keepsFds_setStatus _ cur not_gone_running)
  | switch hsame =>
    exact (hsame.keeps.keepsFds.trans (keepsFds_setStatus _ _ not_gone_running)).trans
      (.of_eq rfl rfl)

lemma keepsFds_schedule (k : Kernel) (regs : SyscallRegs) : k.KeepsFds (k.schedule regs).2 := by
  have h1 : k.KeepsFds (k.yielded regs) := by
    refine keepsFds_modifyProc k _ rfl fun hg => ?_
    split at hg
    · exact absurd hg not_gone_ready
    · exact hg
  exact h1.trans (keepsFds_handover (schedule_handover k regs))

/-! ## Ending -/

variable {i : Nat}

lemma holders_update {p : Process} (hp : m.procs = update k.procs i p) :
    m.holders = ⟨update k.holders.tables i p.fdTable, m.holders.gone, m.objects⟩ ∧
      ∀ j ≠ i, m.holders.gone j → k.holders.gone j := by
  constructor
  · unfold holders
    rw [hp]
    congr 1
    exact funext fun j => apply_update (fun _ => Process.fdTable) k.procs i p j
  · intro j e hj
    simpa [holders, hp, update_of_ne e] using hj

lemma holders_table {t : FdTable}
    (hp : m.procs = update k.procs i { k.procs i with fdTable := t }) :
    m.holders = ⟨update k.holders.tables i t, k.holders.gone, m.objects⟩ := by
  have hgone : m.holders.gone = k.holders.gone := by
    funext j
    simp only [holders, hp]
    exact congrArg Status.Gone (modifyProc_field k i j Process.status
      (f := fun p => { p with fdTable := t }) fun _ => rfl)
  rw [(holders_update hp).1, hgone]

lemma holders_releaseFds (k : Kernel) (hi : i < maxProcesses) :
    HolderStep k.holders (k.releaseFds i).holders := by
  rw [holders_table (m := k.releaseFds i) rfl]
  exact .release hi

lemma holders_ends (k : Kernel) (hclosed : (k.procs i).fdTable = closedTable)
    (hf : (f (k.procs i)).fdTable = (k.procs i).fdTable) :
    HolderStep k.holders (k.modifyProc i f).holders := by
  obtain ⟨hv, hgone⟩ := holders_update (k := k) (m := k.modifyProc i f) rfl
  rw [hv, hf]
  rw [show update k.holders.tables i (k.procs i).fdTable = k.holders.tables from update_eq_self _ _]
  exact .ends hclosed fun j hj => or_iff_not_imp_right.2 fun e => hgone j e hj

lemma holders_clearSlot (k : Kernel) (hi : i < maxProcesses)
    (h : (k.procs i).status.Gone ∨ (k.procs i).fdTable = closedTable) :
    HolderStep k.holders (k.clearSlot i).holders := by
  obtain ⟨hv, hgone⟩ := holders_update (k := k) (m := k.clearSlot i) rfl
  rw [hv]
  exact .clear hi h fun j hj => or_iff_not_imp_right.2 fun e => hgone j e hj

variable {child : Nat}

section

variable (k)

/-! ## Creating -/

lemma holders_create {p : Process} {t : FdTable} (hi : i < maxProcesses)
    (hc : child < maxProcesses) (hfree : (k.procs child).status = .dead)
    (hit : (k.procs i).fdTable = t) (ht : p.fdTable = t) (hs : ¬ p.status.Gone) :
    HolderStep k.holders ({ k.setProc child p with
      objects := k.objects.retainFdTableEntries t } : Kernel).holders := by
  subst hit
  obtain ⟨hv, hgone⟩ := holders_update (k := k) (m := { k.setProc child p with
    objects := k.objects.retainFdTableEntries (k.procs i).fdTable }) rfl
  rw [hv, ht]
  refine .copy hi hc (.inl hfree) fun j hj => ?_
  have e : j ≠ child := by
    rintro rfl
    simp only [holders, setProc, update_self] at hj
    exact hs hj
  exact ⟨hgone j e hj, e⟩

lemma holders_sysFork (regs : SyscallRegs) (copied : Nat) (hcur : k.current < maxProcesses) :
    HolderSteps k.holders (k.sysFork regs copied).2.holders := by
  unfold sysFork
  split
  · exact .refl
  rename_i child hchild
  obtain ⟨hc, hdead, -⟩ := freeSlot_some hchild
  split
  · have h1 : k.KeepsFds { k with nextPid := k.nextPid + 1 } := .of_eq rfl rfl
    exact .tail (.single h1.step) (holders_clearSlot _ hc (.inl (.inl hdead)))
  · exact .single (holders_create k hcur hc hdead (p := throttleChild k.thermalPolicyActive
      (forkChild (k.procs k.current) k.nextPid regs copied)) rfl rfl not_gone_ready)

lemma keepsFds_vforkSwitch (regs : SyscallRegs) (parent child : Nat) :
    k.KeepsFds (k.vforkSwitch regs parent child) := by
  unfold vforkSwitch
  dsimp only
  generalize hk1 : k.modifyProc child _ = k1
  have h1 : k.KeepsFds k1 := by
    rw [← hk1]
    exact keepsFds_modifyProc k child rfl id
  generalize hk2 : k1.modifyProc parent _ = k2
  have h2 : k1.KeepsFds k2 := by
    rw [← hk2]
    exact keepsFds_modifyProc k1 parent rfl fun hg => absurd hg (by simp [Status.Gone])
  refine ((h1.trans h2).trans (keepsFds_setStatus k2 child not_gone_running)).trans ?_
  exact .of_eq rfl rfl

lemma holders_sysClone (regs : SyscallRegs) (copied : Nat) (hcur : k.current < maxProcesses) :
    HolderSteps k.holders (k.sysClone regs copied).2.holders := by
  have h := clones_sysClone k regs copied
  -- The child has a copy of the table.
  have hcopy : ∀ {c : Nat} {words : Nat → UInt64 → UInt32}, k.freeSlot = some c →
      HolderSteps k.holders (k.cloned regs c words).holders := by
    intro c words hslot
    obtain ⟨hc, hdead, -⟩ := freeSlot_some hslot
    generalize hk1 : ({ k with nextPid := k.nextPid + 1 } : Kernel).modifyProc k.current
      (fun p => { p with sharesAddressSpace := true }) = k1
    have h1 : k.KeepsFds k1 := by
      rw [← hk1]
      refine KeepsFds.trans ?_ (keepsFds_modifyProc _ k.current rfl id)
      exact .of_eq rfl rfl
    have hstatus : (k1.procs c).status = .dead := by
      rw [← hk1]
      by_cases e : c = k.current
      · subst e
        simpa [modifyProc, setProc] using hdead
      · simpa [modifyProc, setProc, update_of_ne e] using hdead
    have h2 := holders_create k1 hcur hc hstatus (h1.table k.current)
      (p := throttleChild k.thermalPolicyActive (cloneChild (k.procs k.current) k.nextPid regs))
      rfl not_gone_ready
    rw [← hk1] at h1 h2
    exact .tail (.single h1.step) h2
  generalize k.sysClone regs copied = r at h ⊢
  cases h with
  | fork => exact holders_sysFork k regs copied hcur
  | refused => exact .refl
  | created hslot => exact hcopy hslot
  | vforked hslot => exact (hcopy hslot).tail (keepsFds_vforkSwitch _ regs k.current _).step

end

/-! ## Entries -/

theorem Move.holders {ends : Bool} (hcur : cur < maxProcesses) (h : Move cur ends k k') :
    HolderStep k.holders k'.holders := by
  have hlt : ∀ {i}, i = cur ∨ i < maxProcesses → i < maxProcesses :=
    fun hi => hi.elim (fun e => e ▸ hcur) id
  cases h with
  | keep h => exact h.keepsFds.step
  | @edit i f _ htable hgone =>
    by_cases hclosed : (k.procs i).fdTable = closedTable
    · exact holders_ends k hclosed htable
    · exact (keepsFds_modifyProc k i htable fun hg => (hgone hg).resolve_right hclosed).step
  | release hi => exact holders_releaseFds k (hlt hi)
  | clear hi h => exact holders_clearSlot k (hlt hi) h

lemma holders_finish (regs : SyscallRegs) (r : Outcome × Kernel) :
    (finish regs r).2.holders = r.2.holders := by
  rcases r with ⟨out, k⟩
  cases out <;> rfl

/-- An entry of the kernel is a sequence of steps on the descriptors. -/
theorem step_holders (k : Kernel) (op : Op) (hcur : k.current < maxProcesses) :
    HolderSteps k.holders (k.step op).2.holders := by
  cases op with
  | fork regs copied =>
    simp only [step, holders_finish]
    exact holders_sysFork k regs copied hcur
  | clone regs copied =>
    simp only [step, holders_finish]
    exact holders_sysClone k regs copied hcur
  | _ => exact (step_moves k rfl).lift holders fun _ _ => Move.holders hcur

end Kernel

end AosKernel.Proc
