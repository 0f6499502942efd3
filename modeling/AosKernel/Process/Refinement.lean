import AosKernel.Process.Tasks

/-!
# The kernel refines the task system

`Kernel.step_refines`: every kernel entry that does not stop the machine is a `TaskStep`. The
memory, the descriptors and the thermal policy do not touch the tasks (`machine_*` lemmas below);
each function of the process code is then a composition of the updates that `TaskStep` names. -/

namespace AosKernel.Proc

open Lib Fd Function Machine Process TaskStep Option

namespace Machine

variable (m : Machine)

lemma modify_modify (i : Nat) (f g : Task → Task) :
    (m.modify i f).modify i g = m.modify i fun t => g (f t) := by
  unfold modify set
  simp [update_idem, map_map, Function.comp_def]

lemma modify_id (i : Nat) {f : Task → Task} (h : ∀ t, m.tasks i = some t → f t = t) :
    m.modify i f = m := by
  have hmap : (m.tasks i).map f = m.tasks i := by
    cases ht : m.tasks i with
    | none => rfl
    | some t => simp [h t ht]
  unfold modify set
  rw [hmap, update_eq_self]

end Machine

def Process.switchContext (p : Process) : InterruptFrame := ⟨p.regs, p.regs.rcx, p.regs.r11, true⟩

namespace Kernel

@[simp] abbrev Alive (k : Kernel) : Prop := (k.procs k.current).status ≠ .dead

/-! ## Updates that the tasks see -/

section Updates

variable {k : Kernel} {i : Nat}

lemma machine_tasks (k : Kernel) {i : Nat} (hi : i < maxProcesses) :
    k.machine.tasks i = (k.procs i).task := by
  simp [machine, hi]

lemma machine_tasks_some {t : Task} (h : k.machine.tasks i = some t) :
    i < maxProcesses ∧ (k.procs i).status ≠ .dead ∧ t = (k.procs i).toTask := by
  by_cases hi : i < maxProcesses
  · rw [machine_tasks k hi] at h
    unfold task at h
    split at h
    · simp at h
    · next hd => exact ⟨hi, hd, (some.inj h).symm⟩
  · simp [machine, hi] at h

lemma machine_tasks_eq (hi : i < maxProcesses) (h : (k.procs i).status ≠ .dead) :
    k.machine.tasks i = some (k.procs i).toTask := by
  rw [machine_tasks k hi, task, if_neg h]

lemma machine_tasks_none (h : (k.procs i).status = .dead) : k.machine.tasks i = none := by
  by_cases hi : i < maxProcesses
  · rw [machine_tasks k hi, task, if_pos h]
  · simp [machine, hi]

lemma machine_setProc (k : Kernel) {i : Nat} (hi : i < maxProcesses) (p : Process) :
    (k.setProc i p).machine = k.machine.set i p.task := by
  have htasks : (k.setProc i p).machine.tasks = update k.machine.tasks i p.task := by
    funext j
    by_cases hj : j = i
    · subst hj
      simp [machine, setProc, hi]
    · simp [machine, setProc, update_of_ne hj]
  unfold Machine.set
  rw [← htasks]
  rfl

lemma machine_clearSlot (k : Kernel) {i : Nat} (hi : i < maxProcesses) :
    (k.clearSlot i).machine = k.machine.set i none :=
  k.machine_setProc hi zero

variable {f : Process → Process}

/-- An update of a process that maps its task, if it has one, by `g`. -/
lemma machine_modifyProc (k : Kernel) {i : Nat} (hi : i < maxProcesses) {g : Task → Task}
    (h : (f (k.procs i)).task = (k.procs i).task.map g) :
    (k.modifyProc i f).machine = k.machine.modify i g := by
  unfold modifyProc Machine.modify
  rw [machine_setProc k hi, h, machine_tasks k hi]

lemma machine_modifyProc_live (k : Kernel) {i : Nat} (hi : i < maxProcesses) {g : Task → Task}
    (hlive : (k.procs i).status ≠ .dead) (hstatus : (f (k.procs i)).status ≠ .dead)
    (h : (f (k.procs i)).toTask = g (k.procs i).toTask) :
    (k.modifyProc i f).machine = k.machine.modify i g := by
  refine machine_modifyProc k hi ?_
  unfold task
  rw [if_neg hlive, if_neg hstatus, h]
  rfl

lemma machine_modifyProc_same (k : Kernel) (i : Nat)
    (h : (f (k.procs i)).task = (k.procs i).task) : (k.modifyProc i f).machine = k.machine := by
  by_cases hi : i < maxProcesses
  · rw [machine_modifyProc k hi (g := id) (by rw [h, map_id]; rfl)]
    exact modify_id _ _ fun _ _ => rfl
  have htasks : (k.modifyProc i f).machine.tasks = k.machine.tasks := by
    funext j
    by_cases hj : j = i
    · subst hj
      simp [machine, hi]
    · simp [machine, modifyProc, setProc, update_of_ne hj]
  unfold machine at htasks ⊢
  simp only [modifyProc, setProc] at htasks ⊢
  rw [htasks]

lemma modifyProc_field {α : Type} (k : Kernel) (j i : Nat) (field : Process → α)
    (h : ∀ p, field (f p) = field p) : field ((k.modifyProc j f).procs i) = field (k.procs i) := by
  by_cases hij : i = j
  · subst hij
    simp [modifyProc, setProc, h]
  · simp [modifyProc, setProc, update_of_ne hij]

variable {p : Process → Bool}

lemma findSlot_eq (k : Kernel) {q : Task → Bool} (h : ∀ x : Process, p x = x.task.any q) :
    k.findSlot p = k.machine.find q := by
  apply List.find?_congr
  intro i hi
  rw [machine_tasks k (List.mem_range.1 hi), h]

lemma findSlot_some (h : k.findSlot p = some i) : i < maxProcesses ∧ p (k.procs i) = true := by
  have hp := List.find?_some h
  exact ⟨List.mem_range.1 (List.mem_of_find?_eq_some h), hp⟩

lemma findSlot_none (h : k.findSlot p = none) (hi : i < maxProcesses) :
    p (k.procs i) = false := by
  have hall := List.find?_eq_none.1 h i (List.mem_range.2 hi)
  simpa using hall

lemma findProcessByPid_eq (k : Kernel) (pid : UInt32) :
    k.findProcessByPid pid = k.machine.findPid pid := by
  refine findSlot_eq k fun x => ?_
  unfold task
  by_cases hd : x.status = .dead
  · simp [hd]
  · simp [hd, toTask]

end Updates

/-! ## Updates that the tasks do not see -/

section Frames

variable (k : Kernel) (i : Nat) (root : Nat)

@[simp] lemma machine_switchPageTable : (k.switchPageTable root).machine = k.machine := rfl

@[simp] lemma machine_loadFsBase (fsBase : UInt64) :
    (k.loadFsBase fsBase).machine = k.machine := rfl

@[simp] lemma machine_storeWord (address : UInt64) (value : UInt32) :
    (k.storeWord address value).machine = k.machine := rfl

@[simp] lemma machine_writeProcessU32 (prepare : Prepare) (address : UInt64) (value : UInt32) :
    (k.writeProcessU32 prepare i address value).2.machine = k.machine := by
  unfold writeProcessU32
  split <;> rfl

@[simp] lemma machine_releaseFds : (k.releaseFds i).machine = k.machine :=
  machine_modifyProc_same k i (f := fun p => { p with fdTable := closedTable }) rfl

@[simp] lemma machine_vmmDestroyUserSpace : (k.vmmDestroyUserSpace root).machine = k.machine := by
  unfold vmmDestroyUserSpace
  split <;> rfl

@[simp] lemma machine_processReleaseAddressSpace :
    (k.processReleaseAddressSpace root i).machine = k.machine := by
  unfold processReleaseAddressSpace
  split
  · rfl
  · split
    · rfl
    · exact machine_vmmDestroyUserSpace k root

@[simp] lemma machine_releaseProcessMemory : (k.releaseProcessMemory i).machine = k.machine := by
  unfold releaseProcessMemory
  dsimp only
  split
  · rfl
  · rw [machine_processReleaseAddressSpace]
    exact machine_modifyProc_same k i rfl

@[simp] lemma machine_switchToProcess :
    (k.switchToProcess i).machine = { k.machine with loaded := i } := rfl

lemma machine_setStatus_running (hi : i < maxProcesses) (hlive : (k.procs i).status ≠ .dead) :
    (k.setStatus i .running).machine = k.machine.modify i fun t => { t with status := .running } :=
  machine_modifyProc_live k hi hlive (by simp) rfl

end Frames

/-! ## The scheduler -/

/-- The kernels differ at most in the skip phases of the throttled processes. -/
structure SamePhases (k k' : Kernel) : Prop where
  rest : { k' with procs := k.procs } = k
  procs : ∀ i, k'.procs i = { k.procs i with thermalSkipPhase := (k'.procs i).thermalSkipPhase }

lemma SamePhases.refl (k : Kernel) : SamePhases k k := ⟨rfl, fun _ => rfl⟩

variable {k k' : Kernel}

theorem SamePhases.trans {k'' : Kernel} (h : SamePhases k k') (h' : SamePhases k' k'') :
    SamePhases k k'' where
  rest := by
    have hrest : { k'' with procs := k.procs } = { k' with procs := k.procs } := by
      rw [← h'.rest]
    rw [hrest, h.rest]
  procs := fun i => by rw [h'.procs, h.procs]

lemma SamePhases.machine (h : SamePhases k k') : k'.machine = k.machine := by
  have htask : ∀ i, (k'.procs i).task = (k.procs i).task := by
    intro i
    rw [h.procs]
    rfl
  have hcurrent := congrArg Kernel.current h.rest
  have hloaded := congrArg Kernel.loaded h.rest
  have hnext := congrArg Kernel.nextPid h.rest
  simp only at hcurrent hloaded hnext
  unfold Kernel.machine
  simp only [htask, hcurrent, hloaded, hnext]

lemma SamePhases.status (h : SamePhases k k') (i : Nat) :
    (k'.procs i).status = (k.procs i).status := by
  rw [h.procs]

lemma SamePhases.current (h : SamePhases k k') : k'.current = k.current := by
  have hcurrent := congrArg Kernel.current h.rest
  exact hcurrent

lemma selectLoop_spec : ∀ (n idx : Nat) (fallback : Option Nat) (k : Kernel),
    (∀ j, fallback = some j → j < maxProcesses ∧ (k.procs j).status = .ready) →
      SamePhases k (selectLoop n idx fallback k).2 ∧
        ∀ j, (selectLoop n idx fallback k).1 = some j →
          j < maxProcesses ∧ (k.procs j).status = .ready := by
  intro n
  induction n with
  | zero =>
    intro idx fallback k hfallback
    exact ⟨SamePhases.refl k, hfallback⟩
  | succ n ih =>
    intro idx fallback k hfallback
    have hlt : idx % maxProcesses < maxProcesses := Nat.mod_lt _ (by decide)
    unfold selectLoop
    dsimp only
    by_cases hready : (k.procs (idx % maxProcesses)).status = .ready
    swap
    · rw [if_pos hready]
      exact ih (idx + 1) fallback k hfallback
    rw [if_neg (by simp [hready])]
    split
    swap
    · refine ⟨SamePhases.refl k, ?_⟩
      rintro j ⟨rfl⟩
      exact ⟨hlt, hready⟩
    -- A throttled candidate: its phase advances, and it is the fallback if it is the first one.
    generalize hphase : ((k.procs (idx % maxProcesses)).thermalSkipPhase + 1) &&& 3 = phase
    generalize hk : k.setProc (idx % maxProcesses)
      { k.procs (idx % maxProcesses) with thermalSkipPhase := phase } = k1
    have hsame : SamePhases k k1 := by
      subst hk
      refine ⟨rfl, fun i => ?_⟩
      by_cases hi : i = idx % maxProcesses
      · subst hi
        simp [setProc]
      · simp [setProc, update_of_ne hi]
    have hfallback' : ∀ j, (if fallback.isNone then some (idx % maxProcesses) else fallback) =
        some j → j < maxProcesses ∧ (k1.procs j).status = .ready := by
      intro j hj
      rw [hsame.status]
      split at hj
      · obtain rfl := some.inj hj
        exact ⟨hlt, hready⟩
      · exact hfallback j hj
    split
    · obtain ⟨hs, hr⟩ := ih (idx + 1) _ k1 hfallback'
      refine ⟨hsame.trans hs, fun j hj => ?_⟩
      rw [← hsame.status]
      exact hr j hj
    · refine ⟨hsame, ?_⟩
      rintro j ⟨rfl⟩
      exact ⟨hlt, hready⟩

lemma processSelectNextReady_spec (k : Kernel) (current : Nat) :
    SamePhases k (k.processSelectNextReady current).2 ∧
      ∀ j, (k.processSelectNextReady current).1 = some j →
        j < maxProcesses ∧ (k.procs j).status = .ready :=
  selectLoop_spec maxProcesses (current + 1) none k fun j hj => by simp at hj

/-- The state in which `schedule` looks for another process. -/
def yielded (k : Kernel) (regs : SyscallRegs) : Kernel :=
  k.modifyProc k.current fun p => { p with
    regs := regs
    hasInterruptContext := false
    status := if p.status = .running then .ready else p.status }

/-- The state in which a timer interrupt looks for another process. -/
def interrupted (k : Kernel) (frame : InterruptFrame) : Kernel :=
  k.modifyProc k.current fun p => { saveInterruptContext p frame with status := .ready }

/-- Slot `next` runs, with its page table, and goes on with the context. -/
def handTo (k : Kernel) (next : Nat) (user : InterruptFrame) : Kernel :=
  { k.setStatus next .running with
    current := next
    loaded := next
    cr3 := (k.procs next).p4Table
    fsBase := (k.procs next).fsBase
    user := user }

/-- How `schedule` and the timer interrupt go on from the state in which slot `cur` has been saved:
with this slot, or with another one that is ready, whose context is given by `context`. -/
inductive Handover (context : Process → InterruptFrame) (k : Kernel) (cur : Nat) :
    Bool → Kernel → Prop where
  | stay {k2 : Kernel} (h : SamePhases k k2) :
      Handover context k cur false (k2.setStatus cur .running)
  | switch {k2 : Kernel} {next : Nat} (h : SamePhases k k2) (hlt : next < maxProcesses)
      (hready : (k2.procs next).status = .ready) (hne : next ≠ cur) :
      Handover context k cur true (k2.handTo next (context (k2.procs next)))

lemma schedule_handover (k : Kernel) (regs : SyscallRegs) :
    Handover switchContext (k.yielded regs) k.current (k.schedule regs).1
      (k.schedule regs).2 := by
  unfold schedule yielded
  dsimp only
  generalize k.modifyProc k.current _ = k1
  obtain ⟨hsame, hready⟩ := processSelectNextReady_spec k1 k.current
  rcases hsel : k1.processSelectNextReady k.current with ⟨r, k2⟩
  rw [hsel] at hsame hready
  cases r with
  | none => exact .stay hsame
  | some next =>
  obtain ⟨hlt, hnext⟩ := hready next rfl
  dsimp only
  split
  · exact .stay hsame
  next hne =>
  have h : Handover switchContext k1 k.current true _ :=
    .switch hsame hlt (by rw [hsame.status]; exact hnext) hne
  simpa [handTo, switchToProcess, loadFsBase, setStatus, modifyProc, setProc, switchContext] using h

lemma interrupted_eq (k : Kernel) (frame : InterruptFrame) :
    (k.modifyProc k.current fun p => saveInterruptContext p frame).setStatus k.current .ready =
      k.interrupted frame := by
  simp [setStatus, interrupted, modifyProc, setProc]

lemma preempt_handover {frame : InterruptFrame}
    (h : ¬ (frame.fromUser = false ∨ (k.procs k.current).status ≠ .running)) :
    ∃ taken, Handover restoreInterruptContext (k.interrupted frame) k.current taken
      (k.preemptFromInterrupt frame) := by
  unfold preemptFromInterrupt
  rw [if_neg h]
  dsimp only
  rw [interrupted_eq]
  generalize k.interrupted frame = k1
  obtain ⟨hsame, hready⟩ := processSelectNextReady_spec k1 k.current
  rcases hsel : k1.processSelectNextReady k.current with ⟨r, k2⟩
  rw [hsel] at hsame hready
  cases r with
  | none => exact ⟨_, .stay hsame⟩
  | some next =>
  obtain ⟨hlt, hnext⟩ := hready next rfl
  dsimp only
  split
  · exact ⟨_, .stay hsame⟩
  next hne =>
  have h : Handover restoreInterruptContext k1 k.current true _ :=
    .switch hsame hlt (by rw [hsame.status]; exact hnext) hne
  refine ⟨true, ?_⟩
  simpa [handTo, switchPageTable, loadFsBase, setStatus, modifyProc, setProc] using h

section Switches

variable {k : Kernel}

lemma machine_run (k : Kernel) {next : Nat} (hnext : next < maxProcesses)
    (hready : (k.procs next).status = .ready) :
    (({ k with current := next }.setStatus next .running).switchToProcess next).machine =
      k.machine.run next := by
  rw [machine_switchToProcess, machine_setStatus_running _ _ hnext (by simp [hready])]
  rfl

variable {stored : Nat → UInt64 → UInt32 → Prop}

lemma handover_refines (op : Op) (out : Outcome) (hop : op.Yields)
    {context : Process → InterruptFrame} {k1 k' : Kernel} {rax : UInt64} {taken : Bool}
    (hcur : k.current < maxProcesses)
    (hm1 : k1.machine = k.machine.modify k.current fun t => { t with
      rax := rax, status := if t.status = .running then .ready else t.status })
    (hlive1 : (k1.procs k.current).status ≠ .dead)
    (hothers : ∀ i, i ≠ k.current → (k1.procs i).status = (k.procs i).status)
    (h : Handover context k1 k.current taken k') :
    TaskStep stored k.machine op (if taken then .switched else out) k'.machine := by
  cases h with
  | stay hsame =>
    rw [machine_setStatus_running _ _ hcur (by rw [hsame.status]; exact hlive1), hsame.machine, hm1,
      modify_modify]
    exact .stay op out rax hop
  | @switch k2 next hsame hlt hready hne =>
    have hm2 : (k2.handTo next (context (k2.procs next))).machine = k2.machine.run next := by
      rw [← machine_run k2 hlt hready]
      rfl
    rw [hm2, hsame.machine, hm1]
    rw [hsame.status, hothers next hne] at hready
    exact .switch op rax hop hne (machine_tasks_eq hlt (by simp [hready])) hready

lemma schedule_refines (regs : SyscallRegs) (hcur : k.current < maxProcesses) (hlive : k.Alive) :
    TaskStep stored k.machine (.schedule regs) (k.step (.schedule regs)).1
      (k.step (.schedule regs)).2.machine := by
  have hstatus : ∀ p : Process, p.status ≠ .dead →
      (if p.status = .running then Status.ready else p.status) ≠ .dead := by
    intro p hp
    split
    · simp
    · exact hp
  have hstep : TaskStep stored k.machine (.schedule regs) _ _ :=
    handover_refines (.schedule regs) (.returned (signed regs.rax)) trivial hcur
      (machine_modifyProc_live k hcur hlive (hstatus _ hlive) rfl)
      (by simpa [yielded, modifyProc, setProc] using hstatus _ hlive)
      (fun i hi => by simp [modifyProc, setProc, update_of_ne hi])
      (schedule_handover k regs)
  unfold step
  dsimp only
  split <;>
  · next hs =>
    rw [hs] at hstep
    exact hstep

variable (frame : InterruptFrame)

lemma preemptFromInterrupt_refines (thermal : Option Bool) (hcur : k.current < maxProcesses) :
    TaskStep stored k.machine (.timer frame thermal) .switched
      (k.preemptFromInterrupt frame).machine := by
  by_cases hkeep : frame.fromUser = false ∨ (k.procs k.current).status ≠ .running
  · rw [preemptFromInterrupt, if_pos hkeep]
    exact .ignored frame thermal
  obtain ⟨taken, h⟩ := preempt_handover hkeep
  simp only [not_or, Decidable.not_not] at hkeep
  have hm1 : (k.interrupted frame).machine = k.machine.modify k.current fun t => { t with
      rax := frame.gpr.rax, status := if t.status = .running then .ready else t.status } := by
    refine machine_modifyProc_live k hcur (by simp [hkeep.2]) (by simp) ?_
    simp [toTask, saveInterruptContext, hkeep.2]
  have hstep : TaskStep stored k.machine (.timer frame thermal) _ _ :=
    handover_refines (.timer frame thermal) .switched trivial hcur hm1
      (by simp [interrupted, modifyProc, setProc])
      (fun i hi => by simp [interrupted, modifyProc, setProc, update_of_ne hi]) h
  rwa [ite_self] at hstep

lemma machine_updateThermalPolicy (k : Kernel) (active : Bool) :
    (k.updateThermalPolicy active).machine = k.machine := by
  have htask : ∀ p : Process, (thermalSlot active p).task = p.task := by
    intro p
    unfold thermalSlot
    split <;> rfl
  have htasks : (k.updateThermalPolicy active).machine.tasks = k.machine.tasks := by
    funext i
    by_cases hi : i < maxProcesses
    · simp [machine, updateThermalPolicy, hi, htask]
    · simp [machine, hi]
  unfold machine at htasks ⊢
  simp only [updateThermalPolicy] at htasks ⊢
  rw [htasks]

/-- What the timer handler does before it looks for another process. -/
def timerPrologue (thermal : Option Bool) (k : Kernel) : Kernel :=
  let k :=
    if (k.procs k.current).status = .running then
      k.modifyProc k.current fun p => { p with cpuTicks := p.cpuTicks + 1 }
    else k
  let k :=
    match thermal with
    | none => k
    | some active => k.updateThermalPolicy active
  { k with user := if frame.fromUser then frame else k.user }

lemma timerHandler_eq (thermal : Option Bool) (k : Kernel) :
    k.timerHandler frame thermal = (k.timerPrologue frame thermal).preemptFromInterrupt frame := rfl

lemma machine_timerPrologue (thermal : Option Bool) (k : Kernel) :
    (k.timerPrologue frame thermal).machine = k.machine := by
  unfold timerPrologue
  generalize hk1 : (if (k.procs k.current).status = .running then k.modifyProc _ _ else k) = k1
  have hm1 : k1.machine = k.machine := by
    rw [← hk1]
    split
    · exact machine_modifyProc_same k k.current rfl
    · rfl
  cases thermal with
  | none => exact hm1
  | some active => exact (machine_updateThermalPolicy k1 active).trans hm1

lemma timerPrologue_current (thermal : Option Bool) (k : Kernel) :
    (k.timerPrologue frame thermal).current = k.current :=
  congrArg Machine.current (machine_timerPrologue frame thermal k)

lemma timerHandler_refines (thermal : Option Bool) (hcur : k.current < maxProcesses) :
    TaskStep stored k.machine (.timer frame thermal) .switched
      (k.timerHandler frame thermal).machine := by
  rw [timerHandler_eq, ← machine_timerPrologue]
  exact preemptFromInterrupt_refines frame thermal (by rwa [timerPrologue_current])

end Switches

/-! ## Creation -/

section Creation

variable {k : Kernel} {stored : Nat → UInt64 → UInt32 → Prop}

lemma freeSlot_some {c : Nat} (h : k.freeSlot = some c) :
    c < maxProcesses ∧ (k.procs c).status = .dead ∧ k.machine.tasks c = none := by
  obtain ⟨hlt, hdead⟩ := findSlot_some h
  have hd : (k.procs c).status = .dead := by simpa using hdead
  exact ⟨hlt, hd, machine_tasks_none hd⟩

lemma task_forkChild (active : Bool) (parent : Process) (pid : UInt32) (regs : SyscallRegs)
    (root : Nat) :
    (throttleChild active (forkChild parent pid regs root)).task =
      some (childTask parent.toTask pid false) := rfl

lemma task_cloneChild (active : Bool) (parent : Process) (pid : UInt32) (regs : SyscallRegs) :
    (throttleChild active (cloneChild parent pid regs)).task =
      some (childTask parent.toTask pid (hasFlag regs.rdi cloneThread)) := rfl

lemma freeSlot_none (h : k.freeSlot = none) : ¬ k.machine.HasRoom := by
  rintro ⟨c, hc, hfree⟩
  have hdead := findSlot_none h hc
  rw [machine_tasks_eq hc (by simpa using hdead)] at hfree
  simp at hfree

lemma hasRoom_of_freeSlot {c : Nat} (h : k.freeSlot = some c) : k.machine.HasRoom :=
  ⟨c, (freeSlot_some h).1, (freeSlot_some h).2.2⟩

lemma sysFork_refines {op : Op} (regs : SyscallRegs) (copied : Nat)
    (hcreates : k.machine.Creates op ↔ copied ≠ 0 ∧ k.machine.HasRoom)
    (hrefuses : ∀ value, ¬ k.machine.Creates op → k.machine.Refuses op value)
    (hcur : k.current < maxProcesses) (hlive : k.Alive) :
    TaskStep stored k.machine op (k.sysFork regs copied).1 (k.sysFork regs copied).2.machine := by
  unfold sysFork
  cases hslot : k.freeSlot with
  | none =>
    refine refused op _ (hrefuses _ fun h => ?_)
    exact freeSlot_none hslot (hcreates.1 h).2
  | some c =>
  obtain ⟨hc, hdead, hfree⟩ := freeSlot_some hslot
  dsimp only
  split
  · next hcopied =>
    -- The slot was dead and stays so.
    have hm : ({ k with nextPid := k.nextPid + 1 }.clearSlot c).machine =
        { k.machine with nextPid := k.machine.nextPid + 1 } := by
      rw [machine_clearSlot _ hc]
      have hself : update k.machine.tasks c none = k.machine.tasks := by
        rw [← hfree, update_eq_self]
      exact congrArg (fun tasks => (⟨tasks, k.current, k.loaded, k.nextPid + 1⟩ : Machine)) hself
    rw [hm]
    exact spend op _ (hrefuses _ fun h => (hcreates.1 h).1 hcopied)
  · next hcopied =>
    have hm : ({ k with nextPid := k.nextPid + 1 }.setProc c
        (throttleChild k.thermalPolicyActive
          (forkChild (k.procs k.current) k.nextPid regs copied))).machine =
        k.machine.created c (k.procs k.current).toTask false := by
      rw [machine_setProc _ hc, task_forkChild]
      rfl
    exact hm ▸ create op false (hcreates.2 ⟨hcopied, hasRoom_of_freeSlot hslot⟩) hc hfree
      (machine_tasks_eq hcur hlive)

lemma machine_vforkSwitch (k : Kernel) (regs : SyscallRegs) {parent child : Nat}
    (hp : parent < maxProcesses) (hc : child < maxProcesses) (hne : child ≠ parent)
    (hlivep : (k.procs parent).status ≠ .dead) (hlivec : (k.procs child).status ≠ .dead) :
    (k.vforkSwitch regs parent child).machine =
      ((((k.machine.modify child fun t => { t with vforkParent := (k.procs parent).pid }).modify
        parent fun t => { t with
          vforkChild := (k.procs child).pid
          rax := UInt64.ofNat (k.procs child).pid.toNat
          status := .waiting }).modify child fun t => { t with
            status := .running }).take child) := by
  unfold vforkSwitch
  dsimp only
  generalize hk1 : k.modifyProc child _ = k1
  have hm1 : k1.machine = k.machine.modify child fun t =>
      { t with vforkParent := (k.procs parent).pid } := by
    rw [← hk1]
    exact machine_modifyProc_live k hc hlivec hlivec rfl
  have hp1 : k1.procs parent = k.procs parent := by
    rw [← hk1]
    simp [modifyProc, setProc, update_of_ne hne.symm]
  have hc1 : (k1.procs child).status ≠ .dead := by
    rw [← hk1]
    simpa [modifyProc, setProc] using hlivec
  generalize hk2 : k1.modifyProc parent _ = k2
  have hm2 : k2.machine = k1.machine.modify parent fun t => { t with
      vforkChild := (k.procs child).pid
      rax := UInt64.ofNat (k.procs child).pid.toNat
      status := .waiting } := by
    rw [← hk2]
    exact machine_modifyProc_live k1 hp (by rw [hp1]; exact hlivep) (by simp) rfl
  have hc2 : (k2.procs child).status ≠ .dead := by
    rw [← hk2]
    simpa [modifyProc, setProc, update_of_ne hne] using hc1
  have hm3 := machine_setStatus_running k2 child hc hc2
  rw [← hm1, ← hm2, ← hm3]
  rfl

/-- The kernel with the child of a `sys_clone` in slot `c`; `words` are the memory after the stores
of its pid. -/
def cloned (regs : SyscallRegs) (c : Nat) (words : Nat → UInt64 → UInt32) (k : Kernel) : Kernel :=
  { k with
    nextPid := k.nextPid + 1
    procs := update (update k.procs k.current { k.procs k.current with sharesAddressSpace := true })
      c (throttleChild k.thermalPolicyActive (cloneChild (k.procs k.current) k.nextPid regs))
    objects := k.objects.retainFdTableEntries (k.procs k.current).fdTable
    words := words }

/-- What `sys_clone` can do. -/
inductive Clones (regs : SyscallRegs) (copied : Nat) (k : Kernel) : Outcome × Kernel → Prop where
  | fork (hvm : hasFlag regs.rdi cloneVm = false) : Clones regs copied k (k.sysFork regs copied)
  | refused (value : Int) (hno : ¬ k.machine.Creates (.clone regs copied)) :
      Clones regs copied k (.returned value, k)
  | created {c : Nat} {words : Nat → UInt64 → UInt32} (hslot : k.freeSlot = some c)
      (hop : k.machine.Creates (.clone regs copied)) :
      Clones regs copied k (.returned k.nextPid.toNat, k.cloned regs c words)
  | vforked {c : Nat} {words : Nat → UInt64 → UInt32} (hslot : k.freeSlot = some c)
      (hop : k.machine.Creates (.clone regs copied)) :
      Clones regs copied k (.switched, (k.cloned regs c words).vforkSwitch regs k.current c)

lemma clones_sysClone (k : Kernel) (regs : SyscallRegs) (copied : Nat) :
    Clones regs copied k (k.sysClone regs copied) := by
  unfold sysClone
  by_cases hvm : hasFlag regs.rdi cloneVm = false
  · rw [if_pos hvm]
    exact .fork hvm
  rw [if_neg hvm]
  have hcreates : k.machine.Creates (.clone regs copied) ↔
      ¬ (hasFlag regs.rdi cloneParentSettid ∧ regs.rdx = 0) ∧
        ¬ (hasFlag regs.rdi cloneChildSettid ∧ regs.r10 = 0) ∧ k.machine.HasRoom := by
    simp [Machine.Creates, hvm]
  split
  · next h => exact .refused _ fun hc => (hcreates.1 hc).1 h
  next hptr =>
  split
  · next h => exact .refused _ fun hc => (hcreates.1 hc).2.1 h
  next htid =>
  cases hslot : k.freeSlot with
  | none => exact .refused _ fun hc => freeSlot_none hslot (hcreates.1 hc).2.2
  | some =>
  have hop := hcreates.2 ⟨hptr, htid, hasRoom_of_freeSlot hslot⟩
  dsimp only
  split
  · split_ifs <;> exact .vforked hslot hop
  · split_ifs <;> exact .created hslot hop

lemma machine_cloned (regs : SyscallRegs) {c : Nat} (words : Nat → UInt64 → UInt32)
    (hc : c < maxProcesses) : (k.cloned regs c words).machine =
      k.machine.created c (k.procs k.current).toTask (hasFlag regs.rdi cloneThread) := by
  have h1 := machine_modifyProc_same { k with nextPid := k.nextPid + 1 } k.current
    (f := fun p => { p with sharesAddressSpace := true }) rfl
  have h2 := machine_setProc ({ k with nextPid := k.nextPid + 1 }.modifyProc k.current
    fun p => { p with sharesAddressSpace := true }) hc
    (throttleChild k.thermalPolicyActive (cloneChild (k.procs k.current) k.nextPid regs))
  rw [task_cloneChild, h1] at h2
  exact h2

lemma sysClone_refines (regs : SyscallRegs) (copied : Nat) (hcur : k.current < maxProcesses)
    (hlive : k.Alive) :
    TaskStep stored k.machine (.clone regs copied) (k.sysClone regs copied).1
      (k.sysClone regs copied).2.machine := by
  have h := clones_sysClone k regs copied
  have hp := machine_tasks_eq hcur hlive
  generalize k.sysClone regs copied = r at h ⊢
  cases h with
  | fork hvm =>
    exact sysFork_refines regs copied (by simp [Machine.Creates, hvm]) (fun _ h => h) hcur hlive
  | refused value hno => exact .refused _ _ hno
  | created hslot hop =>
    obtain ⟨hc, -, hfree⟩ := freeSlot_some hslot
    rw [machine_cloned regs _ hc]
    exact .create _ _ hop hc hfree hp
  | @vforked c words hslot hop =>
    -- The parent is suspended and the child runs.
    obtain ⟨hc, hdead, hfree⟩ := freeSlot_some hslot
    have hne : c ≠ k.current := by
      rintro rfl
      exact hlive hdead
    have hprocp : (k.cloned regs c words).procs k.current =
        { k.procs k.current with sharesAddressSpace := true } := by
      simp [cloned, update_of_ne hne.symm]
    have hswitch := machine_vforkSwitch (k.cloned regs c words) regs hcur hc hne
      (by rw [hprocp]; exact hlive) (by simp [cloned, throttleChild, cloneChild, forkChild])
    have hpidc : ((k.cloned regs c words).procs c).pid = k.nextPid := by
      simp [cloned, throttleChild, cloneChild, forkChild]
    have hpidp : ((k.cloned regs c words).procs k.current).pid = (k.procs k.current).pid := by
      rw [hprocp]
    rw [hswitch, hpidc, hpidp, machine_cloned regs _ hc]
    refine (congrArg (TaskStep stored k.machine (.clone regs copied) .switched) ?_).mpr
      (.vfork regs copied (hasFlag regs.rdi cloneThread) hop hc hfree hp)
    -- Both sides update the slots of the child and of the parent.
    have hupdate : ∀ (x y z : Option Task) (f : Nat → Option Task),
        update (update (update f c x) k.current y) c z = update (update f c z) k.current y := by
      intro x y z f
      rw [update_comm hne.symm, update_idem]
    simp [Machine.created, Machine.vforked, Machine.modify, Machine.set, Machine.take,
      update_of_ne hne.symm, update_of_ne hne, hupdate, childTask, toTask, Kernel.machine]

end Creation

/-! ## Programs -/

lemma machine_processCompleteVfork (k : Kernel) {c : Nat} (hc : c < maxProcesses)
    (hlive : (k.procs c).status ≠ .dead) :
    (k.processCompleteVfork c).machine = k.machine.completeVfork c := by
  unfold processCompleteVfork completeVfork
  rw [machine_tasks_eq hc hlive]
  dsimp only
  have hparent : (k.procs c).toTask.vforkParent = (k.procs c).vforkParentPid := rfl
  rw [hparent]
  split
  · rfl
  generalize hk1 : k.modifyProc c _ = k1
  have hm1 : k1.machine = k.machine.modify c fun t => { t with vforkParent := 0 } := by
    rw [← hk1]
    exact machine_modifyProc_live k hc hlive hlive rfl
  have hfind : (k1.findSlot fun p => p.status != .dead &&
      p.pid == (k.procs c).vforkParentPid && p.vforkChildPid == (k.procs c).pid) =
      k1.machine.find fun p =>
        p.pid == (k.procs c).vforkParentPid && p.vforkChild == (k.procs c).pid := by
    refine findSlot_eq k1 fun x => ?_
    unfold task
    by_cases hd : x.status = .dead
    · simp [hd]
    · have hb : (x.status != .dead) = true := by simpa using hd
      simp [hd, hb, toTask]
  have hpid : (k.procs c).toTask.pid = (k.procs c).pid := rfl
  rw [hfind, hpid, ← hm1]
  cases hp : k1.machine.find fun p =>
      p.pid == (k.procs c).vforkParentPid && p.vforkChild == (k.procs c).pid with
  | none => rfl
  | some p =>
    obtain ⟨-, t, ht, -⟩ := find_some hp
    obtain ⟨hlt, hlivep, -⟩ := machine_tasks_some ht
    refine machine_modifyProc_live k1 hlt hlivep ?_ rfl
    split
    · simp
    · exact hlivep

lemma execLoaded_machine (newP4 : Nat) (entry stack : UInt64) (command : CString)
    (hcur : k.current < maxProcesses) (hlive : k.Alive) :
    (k.execLoaded newP4 entry stack command).machine = k.machine.completeVfork k.current := by
  unfold execLoaded
  dsimp only
  generalize hk1 : ({ k with spaces := update k.spaces newP4 true } : Kernel).modifyProc
    k.current (fun p => { p with
      fsBase := 0
      clearChildTid := 0
      command := command
      p4Table := newP4 }) = k1
  have hm1 : k1.machine = k.machine := by
    rw [← hk1]
    exact machine_modifyProc_same _ _ rfl
  generalize hk2 : ((k1.switchPageTable newP4).processReleaseAddressSpace
    (k.procs k.current).p4Table k.current).loadFsBase 0 = k2
  have hm2 : k2.machine = k.machine := by
    rw [← hk2, machine_loadFsBase, machine_processReleaseAddressSpace, machine_switchPageTable, hm1]
  obtain ⟨-, hlive2, -⟩ := machine_tasks_some ((congrFun (congrArg tasks hm2) _).trans
    (machine_tasks_eq hcur hlive))
  have hm := machine_processCompleteVfork k2 hcur hlive2
  rw [hm2] at hm
  exact hm

variable (regs : SyscallRegs)

lemma execProgram_refines {stored : Nat → UInt64 → UInt32 → Prop} (result : ExecResult)
    (hcur : k.current < maxProcesses) (hlive : k.Alive) :
    TaskStep stored k.machine (.exec regs result) (k.execProgram result).1
      (k.execProgram result).2.machine := by
  unfold execProgram
  cases result with
  | refused => exact .refused _ _ (by simp [Machine.Refuses])
  | failed =>
    dsimp only
    split
    · exact .refused _ _ (by simp [Machine.Refuses])
    · rw [machine_vmmDestroyUserSpace]
      exact .refused _ _ (by simp [Machine.Refuses])
  | loaded newP4 entry stack command =>
    dsimp only
    split
    · next h0 =>
      refine .refused _ _ fun root entry' stack' command' hroot heq => hroot ?_
      injection heq with hp4
      rw [← hp4, h0]
    · rw [execLoaded_machine newP4 entry stack command hcur hlive]
      exact .exec regs newP4 entry stack command

/-! ## Waiting -/

section Waiting

variable {k : Kernel} {requested : Int}

variable {i j : Nat} {status : Status} {p t : Task}

lemma findSlot_waitsFor
    (h : k.findSlot (fun p => waitsFor (k.procs k.current).pid requested p && p.status == status) =
      some j) :
    j < maxProcesses ∧ k.machine.tasks j = some (k.procs j).toTask ∧ (k.procs j).status = status ∧
      (k.procs j).toTask.ChildFor (k.procs k.current).toTask requested := by
  obtain ⟨hlt, hp⟩ := findSlot_some h
  simp only [waitsFor, Bool.and_eq_true, bne_iff_ne, beq_iff_eq] at hp
  obtain ⟨⟨⟨hlive, hparent⟩, hmatch⟩, hstatus⟩ := hp
  exact ⟨hlt, machine_tasks_eq hlt hlive, hstatus, hparent, hmatch⟩

/-- A scan for the children of the current process sees all of them. -/
lemma waitsFor_of_childFor (ht : k.machine.tasks i = some t)
    (hp : k.machine.tasks k.current = some p) (h : t.ChildFor p requested) :
    i < maxProcesses ∧ t = (k.procs i).toTask ∧
      waitsFor (k.procs k.current).pid requested (k.procs i) = true := by
  obtain ⟨hi, hlive, rfl⟩ := machine_tasks_some ht
  obtain ⟨-, -, rfl⟩ := machine_tasks_some hp
  refine ⟨hi, rfl, ?_⟩
  simp only [waitsFor, Bool.and_eq_true, bne_iff_ne, beq_iff_eq]
  exact ⟨⟨hlive, h.1⟩, h.2⟩

lemma status_ne_of_findSlot_none
    (h : k.findSlot (fun p => waitsFor (k.procs k.current).pid requested p && p.status == status) =
      none) (ht : k.machine.tasks i = some t) (hp : k.machine.tasks k.current = some p)
    (hchild : t.ChildFor p requested) : t.status ≠ status := by
  obtain ⟨hi, rfl, hwaits⟩ := waitsFor_of_childFor ht hp hchild
  have hnone := findSlot_none h hi
  rw [hwaits, Bool.true_and, beq_eq_false_iff_ne] at hnone
  exact hnone

/-- The words of user memory after an entry, as the entry sees them: those of slot `i` are behind
the root that it had before. -/
def Stored (k k' : Kernel) (i : Nat) (address : UInt64) (value : UInt32) : Prop :=
  k.cr3 = (k.procs k.current).p4Table → k'.words (k.procs i).p4Table address = value

lemma storeWord_words (k : Kernel) (address : UInt64) (value : UInt32) :
    (k.storeWord address value).words k.cr3 address = value := by
  simp [storeWord]

variable (prepare : Prepare)

lemma reapZombie_refines (regs : SyscallRegs) (hcur : k.current < maxProcesses)
    (hlive : k.Alive) {z : Nat}
    (h : k.findSlot (fun p => waitsFor (k.procs k.current).pid (signed regs.rdi) p && p.status ==
      .zombie) = some z) :
    TaskStep (Stored k (k.reapZombie prepare regs.rsi z).2) k.machine (.wait4 regs prepare)
      (k.reapZombie prepare regs.rsi z).1 (k.reapZombie prepare regs.rsi z).2.machine := by
  obtain ⟨hz, htask, hstatus, hchild⟩ := findSlot_waitsFor h
  have hp := machine_tasks_eq hcur hlive
  unfold reapZombie
  by_cases hptr : regs.rsi = 0
  · simp only [hptr, if_true]
    rw [machine_clearSlot k hz]
    exact .reap regs prepare htask hp hstatus hchild fun hne => absurd hptr hne
  simp only [hptr, if_false]
  unfold writeProcessU32
  by_cases hw : regs.rsi = 0 ∨ prepare (k.procs k.current).p4Table regs.rsi = false
  · simp only [hw, if_true]
    exact .refused _ _ (.inr (.inl rfl))
  simp only [hw, if_false]
  rw [machine_clearSlot _ hz, machine_storeWord]
  refine .reap regs prepare htask hp hstatus hchild fun _ hcr3 => ?_
  have hword := storeWord_words k regs.rsi (k.procs z).exitStatus
  rw [hcr3] at hword
  exact hword

lemma blockInWait_refines {stored : Nat → UInt64 → UInt32 → Prop} (regs : SyscallRegs)
    (hcur : k.current < maxProcesses) (hrun : k.Alive)
    (h : k.findSlot (fun p => waitsFor (k.procs k.current).pid (signed regs.rdi) p && p.status ==
      .ready) = some j) :
    TaskStep stored k.machine (.wait4 regs prepare) .switched
      (k.blockInWait regs (signed regs.rdi) j).machine := by
  obtain ⟨hj, htask, hstatus, hchild⟩ := findSlot_waitsFor h
  unfold blockInWait
  generalize hk1 : k.modifyProc k.current _ = k1
  have hm1 : k1.machine = k.machine.modify k.current fun t => { t with
      rax := regs.rax, status := .waiting
      waitTarget := signed regs.rdi, waitPtr := regs.rsi } := by
    rw [← hk1]
    exact machine_modifyProc_live k hcur hrun (by simp) rfl
  have hlive : (k1.procs j).status ≠ .dead := by
    rw [← hk1]
    by_cases hjc : j = k.current
    · subst hjc
      simp [modifyProc, setProc]
    · simp [modifyProc, setProc, update_of_ne hjc, hstatus]
  rw [machine_switchToProcess, machine_loadFsBase,
    machine_setStatus_running ({ k1 with current := j } : Kernel) j hj hlive]
  have hstep : TaskStep stored k.machine _ _ _ :=
    .block regs prepare htask (machine_tasks_eq hcur hrun) hstatus hchild
  refine (congrArg (TaskStep stored k.machine (.wait4 regs prepare) .switched) ?_).mpr hstep
  rw [← show k.machine.current = k.current from rfl] at hm1
  rw [← hm1]
  rfl

lemma sysWait4_refines (regs : SyscallRegs) (hcur : k.current < maxProcesses) (hlive : k.Alive) :
    TaskStep (Stored k (k.sysWait4 prepare regs).2) k.machine (.wait4 regs prepare)
      (k.sysWait4 prepare regs).1 (k.sysWait4 prepare regs).2.machine := by
  unfold sysWait4
  dsimp only
  split
  · exact .refused _ _ (.inl rfl)
  split
  · exact .refused _ _ (.inl rfl)
  cases hz : k.findSlot (fun p => waitsFor (k.procs k.current).pid (signed regs.rdi) p &&
      p.status == .zombie) with
  | some => exact reapZombie_refines prepare regs hcur hlive hz
  | none =>
    cases hany : k.findSlot fun p => waitsFor (k.procs k.current).pid (signed regs.rdi) p with
    | none =>
      refine .refused _ _ (.inr (.inr (.inr ⟨rfl, .inr ?_⟩)))
      intro i t p ht hp hchild
      obtain ⟨hi, -, hwaits⟩ := waitsFor_of_childFor ht hp hchild
      simp [findSlot_none hany hi] at hwaits
    | some i =>
      by_cases hhang : regs.rdx &&& 1 = 0
      swap
      · rw [if_pos hhang]
        exact .refused _ _ (.inr (.inr (.inl rfl)))
      rw [if_neg (not_not.2 hhang)]
      cases hj : k.findSlot (fun p => waitsFor (k.procs k.current).pid (signed regs.rdi) p &&
          p.status == .ready) with
      | some => exact blockInWait_refines prepare regs hcur hlive hj
      | none =>
        -- There are children for the wait, but none has ended and none is ready.
        refine .refused _ _ (.inr (.inr (.inr ⟨rfl, .inl ⟨hhang, ?_⟩⟩)))
        have hp := machine_tasks_eq hcur hlive
        refine ⟨(k.procs k.current).toTask, hp, ?_, fun i t ht hchild => ?_⟩
        · obtain ⟨hi, hwaits⟩ := findSlot_some hany
          simp only [waitsFor, Bool.and_eq_true, bne_iff_ne, beq_iff_eq] at hwaits
          exact ⟨i, _, machine_tasks_eq hi hwaits.1.1, hwaits.1.2, hwaits.2⟩
        · exact ⟨status_ne_of_findSlot_none hz ht hp hchild,
            status_ne_of_findSlot_none hj ht hp hchild⟩

end Waiting

/-! ## Termination -/

section Termination

variable {k : Kernel} {c : Nat} (prepare : Prepare)

lemma machine_exitPrologue (hc : c < maxProcesses) (hlive : (k.procs c).status ≠ .dead) :
    (k.exitPrologue prepare c).machine = k.machine.completeVfork c := by
  unfold exitPrologue
  rw [machine_releaseFds]
  split
  · rw [machine_writeProcessU32, machine_processCompleteVfork k hc hlive]
  · exact machine_processCompleteVfork k hc hlive

/-- The roots of the processes are those of the start of the exit. -/
lemma exitPrologue_roots (c i : Nat) :
    ((k.exitPrologue prepare c).procs i).p4Table = (k.procs i).p4Table := by
  have hvfork : ((k.processCompleteVfork c).procs i).p4Table = (k.procs i).p4Table := by
    unfold processCompleteVfork
    dsimp only
    split
    · rfl
    split
    · exact modifyProc_field k c i p4Table (by simp)
    · exact (modifyProc_field _ _ i p4Table (by simp)).trans
        (modifyProc_field k c i p4Table (by simp))
  unfold exitPrologue releaseFds
  dsimp only
  refine (modifyProc_field _ c i p4Table (by simp)).trans (Eq.trans ?_ hvfork)
  split
  · unfold writeProcessU32
    split <;> rfl
  · rfl

lemma nextAfterThread_ready {group : UInt32} {j : Nat} (h : k.nextAfterThread group = some j) :
    j < maxProcesses ∧ (k.procs j).status = .ready := by
  unfold nextAfterThread at h
  split at h
  · next j' hfind =>
    obtain rfl := some.inj h
    obtain ⟨hlt, hp⟩ := findSlot_some hfind
    simp only [Bool.and_eq_true, beq_iff_eq] at hp
    exact ⟨hlt, hp.1⟩
  · obtain ⟨hlt, hp⟩ := findSlot_some h
    exact ⟨hlt, by simpa using hp⟩

lemma exitThread_machine (hc : c < maxProcesses) (hout : (k.exitThread c).1 ≠ .halted) :
    ∃ j next, (k.machine.set c none).tasks j = some next ∧ next.status = .ready ∧
      (k.exitThread c).1 = .switched ∧
        (k.exitThread c).2.machine = (k.machine.set c none).run j := by
  unfold exitThread at hout ⊢
  dsimp only at hout ⊢
  generalize hk1 : (k.releaseProcessMemory c).clearSlot c = k1 at hout ⊢
  have hm1 : k1.machine = k.machine.set c none := by
    rw [← hk1, machine_clearSlot _ hc, machine_releaseProcessMemory]
  cases hnext : k1.nextAfterThread (k.procs c).threadGroupId with
  | none => simp [hnext] at hout
  | some j =>
  obtain ⟨hlt, hready⟩ := nextAfterThread_ready hnext
  refine ⟨j, (k1.procs j).toTask, ?_, hready, rfl, ?_⟩
  · rw [← hm1, machine_tasks_eq hlt (by rw [hready]; simp)]
  · rw [← hm1]
    exact machine_run k1 hlt hready

lemma releaseProcessMemory_words (k : Kernel) (c : Nat) :
    (k.releaseProcessMemory c).words = k.words := by
  unfold releaseProcessMemory processReleaseAddressSpace vmmDestroyUserSpace
  dsimp only
  repeat' split
  all_goals rfl

variable {i p : Nat}

lemma releaseProcessMemory_procs (h : i ≠ c) :
    (k.releaseProcessMemory c).procs i = k.procs i := by
  unfold releaseProcessMemory processReleaseAddressSpace vmmDestroyUserSpace
  dsimp only
  repeat' split
  all_goals simp [modifyProc, setProc, update_of_ne h]

lemma exitToWaiter_machine (raw : UInt32) (hc : c < maxProcesses) (hp : p < maxProcesses)
    (hlive : (k.procs p).status ≠ .dead) :
    ∃ rax, (k.exitToWaiter prepare c p raw).machine =
        ((k.machine.modify p fun t => t.wake rax .running).set c none).take p ∧
      (rax = UInt64.ofInt (-efault) ∧ (k.procs p).waitStatusPtr ≠ 0 ∨
        rax = UInt64.ofNat (k.procs c).pid.toNat ∧ ((k.procs p).waitStatusPtr ≠ 0 →
          (k.exitToWaiter prepare c p raw).words (k.procs p).p4Table (k.procs p).waitStatusPtr =
            raw)) := by
  unfold exitToWaiter
  dsimp only
  generalize hwritable : ((k.procs p).waitStatusPtr == 0 ||
    prepare (k.procs p).p4Table (k.procs p).waitStatusPtr) = writable
  generalize hk1 : (if (k.procs p).waitStatusPtr ≠ 0 ∧ writable = true then
    (k.switchPageTable (k.procs p).p4Table).storeWord (k.procs p).waitStatusPtr raw
    else k.switchPageTable (k.procs p).p4Table) = k1
  have hm1 : k1.machine = k.machine := by
    rw [← hk1]
    split <;> rfl
  generalize hk2 : k1.releaseProcessMemory c = k2
  have hm2 : k2.machine = k.machine := by rw [← hk2, machine_releaseProcessMemory, hm1]
  have hwords : k2.words = k1.words := by rw [← hk2, releaseProcessMemory_words]
  obtain ⟨-, hlive2, -⟩ := machine_tasks_some ((congrFun (congrArg tasks hm2) _).trans
    (machine_tasks_eq hp hlive))
  generalize hrax : (if writable = true then UInt64.ofNat (k.procs c).pid.toNat
    else UInt64.ofInt (-efault)) = rax
  refine ⟨rax, ?_, ?_⟩
  · generalize hk3 : k2.modifyProc p _ = k3
    have hm3 : k3.machine = k2.machine.modify p fun t => t.wake rax .running := by
      rw [← hk3]
      exact machine_modifyProc_live k2 hp hlive2 (by simp [clearWait]) rfl
    rw [machine_switchToProcess, machine_loadFsBase, ← hm2, ← hm3, ← machine_clearSlot k3 hc]
    rfl
  · cases writable with
    | false => exact .inl ⟨hrax.symm, fun h => by simp [h] at hwritable⟩
    | true =>
    refine .inr ⟨hrax.symm, fun hptr => ?_⟩
    have hword := storeWord_words (k.switchPageTable (k.procs p).p4Table)
      (k.procs p).waitStatusPtr raw
    rw [if_pos ⟨hptr, rfl⟩] at hk1
    rw [hk1, ← hwords] at hword
    exact hword

lemma exitToParent_machine (hp : p < maxProcesses) (hlive : (k.procs p).status ≠ .dead) :
    (k.exitToParent c p).machine = (k.machine.modify p fun t =>
      if t.status = .ready ∨ t.status = .waiting then t.wake t.rax .running else t).take p := by
  unfold exitToParent
  dsimp only
  generalize hk1 : (({ k with current := p } : Kernel).switchPageTable
    (k.procs p).p4Table).releaseProcessMemory c = k1
  have hm1 : k1.machine = { k.machine with current := p } := by
    rw [← hk1, machine_releaseProcessMemory]
    rfl
  obtain ⟨-, hlive1, -⟩ := machine_tasks_some ((congrFun (congrArg tasks hm1) _).trans
    (machine_tasks_eq hp hlive))
  generalize hk2 : k1.modifyProc p _ = k2
  have hm2 : k2.machine = k1.machine.modify p fun t =>
      if t.status = .ready ∨ t.status = .waiting then t.wake t.rax .running else t := by
    rw [← hk2]
    by_cases hstatus : (k1.procs p).status = .ready ∨ (k1.procs p).status = .waiting
    · refine machine_modifyProc_live k1 hp hlive1 (by simp [hstatus, clearWait]) ?_
      rw [if_pos hstatus]
      exact (if_pos (c := (k1.procs p).toTask.status = .ready ∨ _) hstatus).symm
    · refine machine_modifyProc_live k1 hp hlive1 (by simp only [if_neg hstatus]; exact hlive1) ?_
      rw [if_neg hstatus]
      exact (if_neg (c := (k1.procs p).toTask.status = .ready ∨ _) hstatus).symm
  rw [machine_switchToProcess, machine_loadFsBase, hm2, hm1]
  rfl

lemma processExitAndWakeParent_refines (code : UInt64) (hcur : k.current < maxProcesses)
    (hlive : k.Alive) (hpid : (k.procs k.current).pid ≠ 1)
    (hout : (k.processExitAndWakeParent prepare code).1 ≠ .halted) :
    TaskStep (Stored k (k.processExitAndWakeParent prepare code).2) k.machine (.exit code prepare)
      (k.processExitAndWakeParent prepare code).1
      (k.processExitAndWakeParent prepare code).2.machine := by
  have hroots := exitPrologue_roots (k := k) prepare k.current
  have hm1 := machine_exitPrologue (k := k) prepare hcur hlive
  unfold processExitAndWakeParent at hout ⊢
  dsimp only at hout ⊢
  generalize k.exitPrologue prepare k.current = k1 at hm1 hroots hout ⊢
  -- The current task is still there, with its pid.
  obtain ⟨c, hc, hrel⟩ := released_of_completeVfork (c := k.current)
    (machine_tasks_eq hcur hlive)
  have hpid1 : c.pid ≠ 1 := by rwa [hrel.pid]
  have hc1 : k1.machine.tasks k.current = some c := by rw [hm1]; exact hc
  obtain ⟨-, hlive1, rfl⟩ := machine_tasks_some hc1
  by_cases hthread : (k1.procs k.current).isThread = true
  · rw [if_pos hthread] at hout ⊢
    obtain ⟨j, next, hj, hready, hswitched, hm⟩ := exitThread_machine hcur hout
    rw [hm, hm1, hswitched]
    rw [hm1] at hj
    exact TaskStep.exitThread code prepare hc hthread hpid1 hj hready
  have hnot : (k1.procs k.current).toTask.isThread = false :=
    (Bool.not_eq_true _).mp hthread
  rw [if_neg hthread] at hout ⊢
  cases hfind : k1.findProcessByPid (k1.procs k.current).parentPid with
  | none => simp [hfind] at hout
  | some p =>
  simp only [hfind] at hout ⊢
  have hfind1 : (k.machine.completeVfork k.machine.current).findPid
      (k1.procs k.current).toTask.parentPid = some p := by
    rw [findProcessByPid_eq, hm1] at hfind
    exact hfind
  obtain ⟨hlt, t, ht, -⟩ := find_some hfind1
  have ht1 : k1.machine.tasks p = some t := by rw [hm1]; exact ht
  obtain ⟨-, hlivep, rfl⟩ := machine_tasks_some ht1
  by_cases hwait : (k1.procs p).status = .waiting ∧
      waitPidMatches (k1.procs p).waitTargetPid (k1.procs k.current).pid = true
  · rw [if_pos hwait]
    obtain ⟨rax, hm, hrax⟩ :=
      exitToWaiter_machine (k := k1) prepare (rawStatus code) hcur hlt hlivep
    rw [hm, hm1]
    refine TaskStep.exitToWaiter code prepare rax hc hnot hpid1 hfind1 ht hwait ?_
    refine hrax.imp_right fun ⟨hval, hword⟩ => ⟨hval, fun hptr _ => ?_⟩
    rw [← hroots p]
    exact hword hptr
  · rw [if_neg hwait] at hout ⊢
    generalize hz : k1.modifyProc k.current _ = z at hout ⊢
    have hmz : z.machine = k1.machine.zombied k.current (rawStatus code) := by
      rw [← hz]
      exact machine_modifyProc_live k1 hcur hlive1 (by simp) rfl
    by_cases hend : (z.procs p).status ≠ .dead ∧ (z.procs p).status ≠ .zombie
    · rw [if_pos hend]
      rw [exitToParent_machine hlt hend.1, hmz, hm1]
      have hne : p ≠ k.current := by
        rintro rfl
        exact hend.2 (by rw [← hz]; simp [modifyProc, setProc])
      have hzombie : (k1.procs p).status ≠ .zombie := by
        rw [← hz] at hend
        simpa [modifyProc, setProc, update_of_ne hne] using hend.2
      exact TaskStep.exitToParent code prepare hc hnot hpid1 hfind1 ht hwait hne hzombie
    · simp [hend] at hout

lemma wakeParentIfWaiting_machine (raw : UInt32) :
    (∃ p q rax, k.machine.findPid (k.procs i).parentPid = some p ∧ k.machine.tasks p = some q ∧
      q.WaitsFor (k.procs i).pid ∧ (k.wakeParentIfWaiting prepare i raw).1 = true ∧
      (k.wakeParentIfWaiting prepare i raw).2.machine =
        (k.machine.modify p fun t => t.wake rax .ready) ∧
      (rax = UInt64.ofInt (-efault) ∧ q.waitPtr ≠ 0 ∨ rax = UInt64.ofNat (k.procs i).pid.toNat ∧
        (q.waitPtr ≠ 0 → (k.wakeParentIfWaiting prepare i raw).2.words
          (k.procs p).p4Table q.waitPtr = raw))) ∨
    ((∀ p q, k.machine.findPid (k.procs i).parentPid = some p → k.machine.tasks p = some q →
        ¬ q.WaitsFor (k.procs i).pid) ∧
      k.wakeParentIfWaiting prepare i raw = (false, k)) := by
  unfold wakeParentIfWaiting
  rw [findProcessByPid_eq]
  cases hfind : k.machine.findPid (k.procs i).parentPid with
  | none => exact Or.inr ⟨fun p q h => by simp at h, rfl⟩
  | some p =>
  obtain ⟨hlt, q, hq, -⟩ := find_some hfind
  obtain ⟨-, hlive, rfl⟩ := machine_tasks_some hq
  dsimp only
  by_cases hwait : (k.procs p).status ≠ .waiting ∨
      waitPidMatches (k.procs p).waitTargetPid (k.procs i).pid = false
  · right
    rw [if_pos hwait]
    refine ⟨?_, rfl⟩
    rintro p' q' ⟨rfl⟩ hq'
    rw [hq, some.injEq] at hq'
    subst hq'
    rintro ⟨hstatus, hmatch⟩
    rcases hwait with h | h
    · exact h hstatus
    · rw [show (k.procs p).toTask.waitTarget = (k.procs p).waitTargetPid from rfl, h] at hmatch
      simp at hmatch
  · left
    rw [if_neg hwait]
    have hwaits : (k.procs p).toTask.WaitsFor (k.procs i).pid := by
      rw [not_or, Bool.not_eq_false, not_not] at hwait
      exact hwait
    split
    · next hptr =>
      refine ⟨p, _, UInt64.ofInt (-efault), rfl, hq, hwaits, rfl, ?_, Or.inl ⟨rfl, hptr.1⟩⟩
      dsimp only
      exact machine_modifyProc_live k hlt hlive (by simp [clearWait]) rfl
    dsimp only
    -- The detour through the parent's page table leaves the table of processes alone.
    generalize hk1 : (if (k.procs p).waitStatusPtr ≠ 0 then _ else k) = k1
    have hm1 : k1.machine = k.machine ∧ k1.procs = k.procs := by
      rw [← hk1]
      split
      · split <;> exact ⟨rfl, rfl⟩
      · exact ⟨rfl, rfl⟩
    refine ⟨p, _, UInt64.ofNat (k.procs i).pid.toNat, rfl, hq, hwaits, rfl, ?_,
      Or.inr ⟨rfl, fun hptr => ?_⟩⟩
    · rw [← hm1.1]
      exact machine_modifyProc_live k1 hlt (by rw [hm1.2]; exact hlive) (by simp [clearWait]) rfl
    · have hword := storeWord_words (k.switchPageTable (k.procs p).p4Table)
        (k.procs p).waitStatusPtr raw
      have hk1w : k1.words = ((k.switchPageTable (k.procs p).p4Table).storeWord
          (k.procs p).waitStatusPtr raw).words := by
        have hp : (k.procs p).waitStatusPtr ≠ 0 := hptr
        rw [← hk1, if_pos hp]
        split <;> rfl
      rw [← hk1w] at hword
      exact hword

lemma sysProcessKill_refines (regs : SyscallRegs) :
    TaskStep (Stored k (k.sysProcessKill prepare regs).2) k.machine (.kill regs prepare)
      (k.sysProcessKill prepare regs).1 (k.sysProcessKill prepare regs).2.machine := by
  unfold sysProcessKill
  rw [findProcessByPid_eq]
  cases hfind : k.machine.findPid regs.rdi.toUInt32 with
  | none => exact refused _ _ (Or.inl (by decide))
  | some i =>
  obtain ⟨hi, t, ht, -⟩ := Machine.find_some hfind
  obtain ⟨-, hlive, rfl⟩ := machine_tasks_some ht
  dsimp only
  split
  · exact refused _ _ (Or.inl (by decide))
  next hself =>
  split
  · exact refused _ _ (Or.inl (by decide))
  split
  · next hzombie =>
    refine refused _ _ (Or.inr fun j t hj ht' => ?_)
    rw [hfind, some.injEq] at hj
    subst hj
    rw [ht, some.injEq] at ht'
    exact ht' ▸ hzombie
  next hzombie =>
  obtain ⟨hpid, hne⟩ := not_or.1 hself
  generalize hk1 : (k.releaseFds i).releaseProcessMemory i = k1
  have hm1 : k1.machine = k.machine := by
    rw [← hk1, machine_releaseProcessMemory, machine_releaseFds]
  have ht1 : k1.machine.tasks i = some (k.procs i).toTask := by rw [hm1]; exact ht
  obtain ⟨-, hlive1, htask1⟩ := machine_tasks_some ht1
  generalize hk2 : k1.modifyProc i _ = k2
  have hm2 : k2.machine = k.machine.zombied i (rawStatus regs.rsi) := by
    rw [← hk2, ← hm1]
    exact machine_modifyProc_live k1 hi hlive1 (by simp) rfl
  have hparent2 : (k2.procs i).parentPid = (k.procs i).toTask.parentPid := by
    rw [← hk2, htask1]
    simp [modifyProc, setProc, toTask]
  have hpid2 : (k2.procs i).pid = (k.procs i).toTask.pid := by
    rw [← hk2, htask1]
    simp [modifyProc, setProc, toTask]
  rcases wakeParentIfWaiting_machine (k := k2) prepare (i := i) (rawStatus regs.rsi) with
    ⟨p, q, rax, hp, hq, hwaits, hb, hm, hrax⟩ | ⟨hnone, hw⟩
  · generalize k2.wakeParentIfWaiting prepare i (rawStatus regs.rsi) = w at hb hm hrax
    obtain ⟨b, k3⟩ := w
    subst hb
    rw [machine_clearSlot k3 hi, hm]
    -- The parent is not the slot that has just become a zombie.
    have hpi : p ≠ i := by
      rintro rfl
      rw [hm2] at hq
      simp only [Machine.zombied, Machine.modify_tasks, update_self, ht, map_some, some.injEq] at hq
      rw [← hq] at hwaits
      exact absurd hwaits.1 (by simp)
    have hroot2 : (k2.procs p).p4Table = (k.procs p).p4Table := by
      rw [← hk2, ← hk1]
      simp only [modifyProc, setProc, update_of_ne hpi]
      rw [releaseProcessMemory_procs hpi]
      simp [releaseFds, modifyProc, setProc, update_of_ne hpi]
    have hq0 : k.machine.tasks p = some q := by
      rw [hm2] at hq
      simpa [Machine.zombied, update_of_ne hpi] using hq
    obtain ⟨-, q', hq', hpidq⟩ := Machine.find_some hp
    rw [hq, some.injEq] at hq'
    subst hq'
    have hmachine : (k2.machine.modify p fun t => t.wake rax .ready).set i none =
        (k.machine.modify p fun t => t.wake rax .ready).set i none := by
      rw [hm2]
      unfold Machine.zombied Machine.modify Machine.set
      simp only [update_of_ne hpi]
      rw [update_comm hpi, update_idem, update_comm hpi]
    rw [hmachine]
    rw [hpid2] at hwaits hrax
    refine killedAwaited regs prepare rax hne ht hfind hpid hzombie hpi hq0
      (by rw [← hparent2]; simpa using hpidq) hwaits ?_
    refine hrax.imp_right fun ⟨hval, hword⟩ => ⟨hval, fun hptr _ => ?_⟩
    rw [← hroot2]
    exact hword hptr
  · rw [hw]
    rw [hm2, hparent2, hpid2] at hnone
    rw [hm2]
    exact killed regs prepare hne ht hfind hpid hzombie hnone

variable (uid : UInt32)

lemma machine_terminateSlot (exceptPid : UInt32) (hi : i < maxProcesses) :
    (k.terminateSlot uid exceptPid i).machine = k.machine.set i
      ((k.machine.tasks i).filter fun t => t.pid == exceptPid || t.uid != uid) := by
  have hself : k.machine = k.machine.set i (k.machine.tasks i) := by
    unfold Machine.set
    rw [update_eq_self]
  unfold terminateSlot
  rw [machine_tasks k hi] at hself ⊢
  by_cases hdead : (k.procs i).status = .dead
  · simpa [task, hdead] using hself
  have htask : (k.procs i).task = some (k.procs i).toTask := by rw [task, if_neg hdead]
  rw [htask] at hself ⊢
  by_cases hstay : (k.procs i).pid = exceptPid ∨ (k.procs i).uid ≠ uid
  · rw [if_pos (.inr hstay), filter_some, if_pos]
    · exact hself
    · simpa [toTask] using hstay
  · rw [if_neg (not_or.2 ⟨hdead, hstay⟩), filter_some, if_neg]
    · rw [machine_clearSlot _ hi, machine_releaseProcessMemory, machine_releaseFds]
    · simpa [toTask] using hstay

lemma machine_terminateSlots (exceptPid : UInt32) (slots : List Nat)
    (hslots : ∀ i ∈ slots, i < maxProcesses) (k : Kernel) :
    (slots.foldl (terminateSlot uid exceptPid) k).machine =
      { k.machine with tasks := fun i => if i ∈ slots then
          (k.machine.tasks i).filter fun t => t.pid == exceptPid || t.uid != uid
        else k.machine.tasks i } := by
  induction slots generalizing k with
  | nil => simp
  | cons i slots ih =>
    obtain ⟨hi, hrest⟩ := List.forall_mem_cons.1 hslots
    rw [List.foldl_cons, ih hrest, machine_terminateSlot uid exceptPid hi]
    refine congrArg (fun tasks => (⟨tasks, k.current, k.loaded, k.nextPid⟩ : Machine))
      (funext fun j => ?_)
    by_cases hji : j = i
    · subst hji
      by_cases hj : j ∈ slots
      · simp [hj, filter_filter]
      · simp [hj]
    · simp [hji]

lemma terminateUidProcesses_machine (exceptPid : UInt32) :
    (k.terminateUidProcesses uid exceptPid).machine =
      { k.machine with tasks := fun i =>
          (k.machine.tasks i).filter fun t => t.pid == exceptPid || t.uid != uid } := by
  unfold terminateUidProcesses
  rw [machine_terminateSlots uid exceptPid _ fun i hi => List.mem_range.1 hi]
  refine congrArg (fun tasks => (⟨tasks, k.current, k.loaded, k.nextPid⟩ : Machine))
    (funext fun i => ?_)
  split
  · rfl
  next hi =>
  have hnone : k.machine.tasks i = none := by
    simp [machine, show ¬ i < maxProcesses from fun h => hi (List.mem_range.2 h)]
  simp [hnone]

lemma machine_processSetIdentity (hcur : k.current < maxProcesses)
    (hlive : (k.procs k.current).status ≠ .dead) :
    (k.processSetIdentity uid).machine =
      k.machine.modify k.current fun t => { t with uid := uid } :=
  machine_modifyProc_live k hcur hlive hlive rfl

variable {stored : Nat → UInt64 → UInt32 → Prop}

lemma sessionLogin_refines (installed : Bool) (verdict : Int) (hcur : k.current < maxProcesses)
    (hlive : k.Alive) :
    TaskStep stored k.machine (.login regs installed verdict)
      (k.sessionLogin installed verdict).1 (k.sessionLogin installed verdict).2.machine := by
  unfold sessionLogin
  dsimp only
  split
  · exact .refused _ _ trivial
  next hguard =>
  split
  · exact .refused _ _ trivial
  rw [machine_processSetIdentity sessionUid hcur hlive]
  simp only [not_or, Decidable.not_not] at hguard
  exact .login regs installed verdict (machine_tasks_eq hcur hlive) hguard.2.1

lemma sessionLogout_refines (installed : Bool) (hcur : k.current < maxProcesses)
    (hlive : k.Alive) :
    TaskStep stored k.machine (.logout regs installed)
      (k.sessionLogout installed).1 (k.sessionLogout installed).2.machine := by
  unfold sessionLogout
  dsimp only
  split
  · exact .refused _ _ trivial
  next hguard =>
  simp only [not_or, Decidable.not_not] at hguard
  have hp := machine_tasks_eq hcur hlive
  generalize hk1 : k.terminateUidProcesses (k.procs k.current).uid (k.procs k.current).pid = k1
  have hm1 := terminateUidProcesses_machine (k := k) (k.procs k.current).uid (k.procs k.current).pid
  rw [hk1] at hm1
  have hcur1 : k1.current = k.current := congrArg Machine.current hm1
  -- The caller survives, since its pid is the excepted one.
  have htask1 : k1.machine.tasks k.current = some (k.procs k.current).toTask := by
    rw [hm1]
    simp [hp, toTask]
  obtain ⟨-, hlive1, -⟩ := machine_tasks_some htask1
  have hset := machine_processSetIdentity (k := k1) loginUid (by rw [hcur1]; exact hcur)
    (by rw [hcur1]; exact hlive1)
  rw [hset, hm1, hcur1]
  exact .logout regs installed hp hguard.2.1

lemma sysSudoAuth_refines (verdict : Int) :
    TaskStep stored k.machine (.sudoAuth regs verdict) (k.sysSudoAuth verdict).1
      (k.sysSudoAuth verdict).2.machine := by
  unfold sysSudoAuth
  split
  · have hm : k.processBecomeRoot.machine = k.machine := machine_modifyProc_same k k.current rfl
    rw [hm]
    exact .refused _ _ trivial
  · exact .refused _ _ trivial

lemma sysProcessPause_refines :
    TaskStep stored k.machine (.pause regs) (k.sysProcessPause regs).1
      (k.sysProcessPause regs).2.machine := by
  unfold sysProcessPause
  rw [findProcessByPid_eq]
  cases hfind : k.machine.findPid regs.rdi.toUInt32 with
  | none => exact refused _ _ trivial
  | some i =>
  obtain ⟨hi, t, ht, -⟩ := find_some hfind
  obtain ⟨-, hlive, rfl⟩ := machine_tasks_some ht
  dsimp only
  split
  · exact refused _ _ trivial
  next hself =>
  split
  · next hready =>
    have hm : (k.setStatus i .paused).machine =
        k.machine.modify i fun t => { t with status := .paused } :=
      machine_modifyProc_live k hi hlive (by simp) rfl
    rw [hm]
    exact pause regs (not_or.1 hself).2 ht hready
  · split <;> exact refused _ _ trivial

lemma sysProcessResume_refines :
    TaskStep stored k.machine (.resume regs) (k.sysProcessResume regs).1
      (k.sysProcessResume regs).2.machine := by
  unfold sysProcessResume
  rw [findProcessByPid_eq]
  cases hfind : k.machine.findPid regs.rdi.toUInt32 with
  | none => exact refused _ _ trivial
  | some i =>
  obtain ⟨hi, t, ht, -⟩ := find_some hfind
  obtain ⟨-, hlive, rfl⟩ := machine_tasks_some ht
  dsimp only
  split
  · next hpaused =>
    have hm : (k.setStatus i .ready).machine =
        k.machine.modify i fun t => { t with status := .ready } :=
      machine_modifyProc_live k hi hlive (by simp) rfl
    rw [hm]
    exact resume regs ht hpaused
  · exact refused _ _ trivial

end Termination

/-! ## The step -/

@[simp] lemma machine_finish (r : Outcome × Kernel) :
    (finish regs r).2.machine = r.2.machine := by
  obtain ⟨outcome, k⟩ := r
  cases outcome <;> rfl

@[simp] lemma finish_fst (r : Outcome × Kernel) : (finish regs r).1 = r.1 := by
  obtain ⟨outcome, k⟩ := r
  cases outcome <;> rfl

lemma stored_finish (k : Kernel) (r : Outcome × Kernel) :
    Stored k (finish regs r).2 = Stored k r.2 := by
  obtain ⟨outcome, k'⟩ := r
  cases outcome <;> rfl

/-- A kernel entry is a step of the task system, unless it is the end of a process and stops the
machine. -/
lemma step_refines_or_exit (op : Op) (hcur : k.current < maxProcesses) (hlive : k.Alive)
    (hout : ∀ code prepare, op = .exit code prepare → (k.step op).1 ≠ .halted) :
    TaskStep (Stored k (k.step op).2) k.machine op (k.step op).1 (k.step op).2.machine := by
  cases op with
  | fork regs copied =>
    simp only [step, machine_finish, finish_fst]
    exact sysFork_refines regs copied Iff.rfl (fun _ h => h) hcur hlive
  | clone regs copied =>
    simp only [step, machine_finish, finish_fst]
    exact sysClone_refines regs copied hcur hlive
  | exec regs result =>
    simp only [step, machine_finish, finish_fst]
    exact execProgram_refines regs result hcur hlive
  | exit code prepare =>
    replace hout := hout code prepare rfl
    unfold step at hout ⊢
    dsimp only at hout ⊢
    split at hout
    · next hpid =>
      rw [if_pos hpid]
      exact .refused _ _ ⟨_, machine_tasks_eq hcur hlive, hpid⟩
    · next hpid =>
      rw [if_neg hpid]
      exact processExitAndWakeParent_refines prepare code hcur hlive hpid hout
  | wait4 regs prepare =>
    simp only [step, machine_finish, finish_fst, stored_finish]
    exact sysWait4_refines prepare regs hcur hlive
  | kill regs prepare =>
    simp only [step, machine_finish, finish_fst, stored_finish]
    exact sysProcessKill_refines prepare regs
  | pause regs =>
    simp only [step, machine_finish, finish_fst]
    exact sysProcessPause_refines regs
  | resume regs =>
    simp only [step, machine_finish, finish_fst]
    exact sysProcessResume_refines regs
  | schedule regs => exact schedule_refines regs hcur hlive
  | timer frame thermal => exact timerHandler_refines frame thermal hcur
  | login regs installed verdict =>
    simp only [step, machine_finish, finish_fst]
    exact sessionLogin_refines regs installed verdict hcur hlive
  | logout regs installed =>
    simp only [step, machine_finish, finish_fst]
    exact sessionLogout_refines regs installed hcur hlive
  | sudoAuth regs verdict =>
    simp only [step, machine_finish, finish_fst]
    exact sysSudoAuth_refines regs verdict

/-- **Refinement.** A kernel entry that does not stop the machine is a step of the task system. -/
theorem step_refines (op : Op) (hcur : k.current < maxProcesses)
    (hlive : k.Alive) (hout : (k.step op).1 ≠ .halted) :
    TaskStep (Stored k (k.step op).2) k.machine op (k.step op).1 (k.step op).2.machine :=
  step_refines_or_exit op hcur hlive fun _ _ _ => hout

end Kernel

end AosKernel.Proc
