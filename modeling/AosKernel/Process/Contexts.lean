import AosKernel.Process.Vfork
import AosKernel.Process.Moves

/-!
# Suspended processes keep their registers

What happens to the registers of a process between the moment it loses the processor and the moment
it is taken again. `Kernel.step_context`: an entry leaves the saved registers of every slot but the
current one alone, except that the end of a child puts its pid into the `rax` of a parent that
waits. `TaskStep.unanswered` says which child that is.

The histories (`ContextRun`) record how each suspended process was suspended. `registers_preserved`
is the round trip. It needs two conditions. `switch_to_process` returns by `sysret`, which takes the
instruction pointer from `rcx` and the flags from `r11`, so a process that the timer has interrupted
gets its own `rcx` and `r11` back only from the timer. And a process suspended by a vfork is given
the pid of any child that ends. -/

namespace AosKernel.Proc

open Lib Fd Option Machine

namespace TaskStep

open Machine

variable {stored : Nat → UInt64 → UInt32 → Prop} {m m' : Machine} {op : Op} {out : Outcome}

lemma current_eq {value : Int} (hstep : TaskStep stored m op (.returned value) m') :
    m'.current = m.current := by
  cases hstep <;> rfl

end TaskStep

/-- The user context that an entry leaves for a process it takes: the timer interrupt restores the
interrupt frame, every other entry goes through `switch_to_process`. -/
def Op.resumeContext : Op → Process → InterruptFrame
  | .timer _ _, p => Kernel.restoreInterruptContext p
  | _, p => p.switchContext

namespace Kernel

/-- The user context is that of the current process, as `switch_to_process` leaves it. -/
def SwitchLoaded (k : Kernel) : Prop := k.user = (k.procs k.current).switchContext

variable {k : Kernel} {regs : SyscallRegs}

lemma switchLoaded_schedule (h : (k.schedule regs).1 = true) :
    (k.schedule regs).2.SwitchLoaded := by
  have hover := schedule_handover k regs
  rw [h] at hover
  generalize (k.schedule regs).2 = k' at hover
  cases hover with
  | switch =>
    simp [SwitchLoaded, handTo, setStatus, modifyProc, setProc, Process.switchContext]

lemma schedule_stays (h : (k.schedule regs).1 = false) :
    (k.schedule regs).2.current = k.current := by
  have hover := schedule_handover k regs
  rw [h] at hover
  generalize (k.schedule regs).2 = k' at hover
  cases hover with
  | stay hsame => exact hsame.current

lemma restored_preemptFromInterrupt {frame : InterruptFrame}
    (h : (k.preemptFromInterrupt frame).current ≠ k.current) :
    (k.preemptFromInterrupt frame).user = restoreInterruptContext
      ((k.preemptFromInterrupt frame).procs (k.preemptFromInterrupt frame).current) := by
  by_cases hkeep : frame.fromUser = false ∨ (k.procs k.current).status ≠ .running
  · rw [preemptFromInterrupt, if_pos hkeep] at h
    exact absurd rfl h
  obtain ⟨taken, hover⟩ := preempt_handover hkeep
  generalize k.preemptFromInterrupt frame = k' at h hover
  cases hover with
  | stay hsame => exact absurd hsame.current h
  | switch => simp [handTo, setStatus, modifyProc, setProc, restoreInterruptContext]

lemma switchLoaded_sysClone {copied : Nat} (h : (k.sysClone regs copied).1 = .switched) :
    (k.sysClone regs copied).2.SwitchLoaded := by
  have hclones := clones_sysClone k regs copied
  generalize k.sysClone regs copied = r at h hclones ⊢
  cases hclones with
  | fork =>
    unfold sysFork at h
    split at h
    · simp at h
    · split at h <;> simp at h
  | refused => simp at h
  | created => simp at h
  | vforked => rfl

lemma switchLoaded_sysWait4 {prepare : Prepare} :
    (k.sysWait4 prepare regs).1 = .switched → (k.sysWait4 prepare regs).2.SwitchLoaded := by
  unfold sysWait4
  dsimp only
  split
  · simp
  split
  · simp
  split
  · unfold reapZombie
    dsimp only
    split
    · simp
    · split <;> simp
  split
  · simp
  split
  · simp
  split
  · simp
  · exact fun _ => rfl

lemma switchLoaded_exitToParent (k : Kernel) (child parent : Nat) :
    (k.exitToParent child parent).SwitchLoaded := by
  unfold exitToParent
  dsimp only
  generalize hk1 : ({ k with current := parent }.switchPageTable
    (k.procs parent).p4Table).releaseProcessMemory child = k1
  have hcur : k1.current = parent := by
    have h := congrArg Machine.current (machine_releaseProcessMemory
      ({ k with current := parent }.switchPageTable (k.procs parent).p4Table) child)
    rw [hk1] at h
    exact h
  simp [SwitchLoaded, Process.switchContext, switchToProcess, loadFsBase, modifyProc, setProc, hcur]

lemma switchLoaded_exit {prepare : Prepare} {code : UInt64} :
    (k.processExitAndWakeParent prepare code).1 = .switched →
      (k.processExitAndWakeParent prepare code).2.SwitchLoaded := by
  unfold processExitAndWakeParent
  dsimp only
  split
  · unfold exitThread
    dsimp only
    split
    · simp
    · exact fun _ => rfl
  split
  · simp
  split
  · exact fun _ => rfl
  split
  · exact fun _ => switchLoaded_exitToParent _ _ _
  · simp

/-- A process that an entry takes resumes with the registers that were saved for it. -/
lemma user_step (op : Op) (hcur : k.current < maxProcesses)
    (hlive : (k.procs k.current).status ≠ .dead) (hout : (k.step op).1 ≠ .halted)
    (hne : (k.step op).2.current ≠ k.current) :
    (k.step op).2.user = op.resumeContext ((k.step op).2.procs (k.step op).2.current) := by
  have hstep := step_refines op hcur hlive hout
  have hsame : (k.step op).2.machine.current ≠ k.machine.current := hne
  have hswitched : (k.step op).1 = .switched := by
    cases h : (k.step op).1 with
    | returned =>
      rw [h] at hstep
      exact absurd hstep.current_eq hsame
    | switched => rfl
    | halted => exact absurd h hout
  have hfinish : ∀ regs (r : Outcome × Kernel), r.1 = .switched → finish regs r = r := by
    rintro regs ⟨out, k'⟩ ⟨rfl⟩
    rfl
  cases op with
  | clone =>
    simp only [step, finish_fst] at hswitched ⊢
    rw [hfinish _ _ hswitched]
    exact switchLoaded_sysClone hswitched
  | wait4 =>
    simp only [step, finish_fst] at hswitched ⊢
    rw [hfinish _ _ hswitched]
    exact switchLoaded_sysWait4 hswitched
  | exit =>
    unfold step at hswitched ⊢
    dsimp only at hswitched ⊢
    split at hswitched
    · simp at hswitched
    · next hpid =>
      rw [if_neg hpid]
      exact switchLoaded_exit hswitched
  | schedule regs =>
    unfold step at hswitched ⊢
    dsimp only at hswitched ⊢
    split at hswitched
    · next k' hs =>
      have hfst : (k.schedule regs).1 = true := by rw [hs]
      have h := switchLoaded_schedule hfst
      rw [hs] at h
      exact h
    · simp at hswitched
  | timer frame thermal =>
    refine restored_preemptFromInterrupt fun heq => hne (heq.trans ?_)
    cases thermal with
    | none =>
      dsimp only
      split <;> rfl
    | some =>
      simp only [updateThermalPolicy]
      split <;> rfl
  | _ =>
    -- The other entries do not switch, or keep the current process.
    rw [hswitched] at hstep
    generalize (k.step _).2.machine = m' at hstep hsame
    cases hstep <;> simp_all [Op.Yields]

end Kernel

open Function

/-! ## Saved registers -/

/-- The slot has been freed, or has the same saved registers. -/
def Process.KeptContext (p p' : Process) : Prop := p'.status = .dead ∨ p.SameContext p'

variable {p p' : Process}

lemma Process.KeptContext.refl (p : Process) : p.KeptContext p := Or.inr (.refl p)

theorem Process.KeptContext.trans {p'' : Process} (h : p.KeptContext p') (h' : p'.KeptContext p'') :
    p.KeptContext p'' := by
  rcases h' with hd | h'
  · exact .inl hd
  · rcases h with hd | h
    · exact .inl (h'.dead hd)
    · exact .inr (h.trans h')

namespace Kernel

def KeepsContext (j : Nat) (k k' : Kernel) : Prop := (k.procs j).KeptContext (k'.procs j)

variable {j : Nat} {k k' k'' : Kernel}

theorem KeepsContext.trans (h : KeepsContext j k k') (h' : KeepsContext j k' k'') :
    KeepsContext j k k'' :=
  Process.KeptContext.trans h h'

lemma KeepsContext.of_procs (h : k'.procs j = k.procs j) : KeepsContext j k k' := by
  unfold KeepsContext
  rw [h]
  exact .refl _

variable {f : Process → Process}

lemma keepsContext_modifyProc (k : Kernel) (i : Nat)
    (h : i = j → (k.procs j).KeptContext (f (k.procs j))) :
    KeepsContext j k (k.modifyProc i f) := by
  by_cases e : i = j
  · subst e
    simpa [KeepsContext, modifyProc, setProc] using h rfl
  · exact .of_procs (by simp [modifyProc, setProc, update_of_ne (Ne.symm e)])

lemma keepsContext_field (k : Kernel) (i : Nat)
    (h : ∀ p, (f p).regs = p.regs ∧ (f p).hasInterruptContext = p.hasInterruptContext ∧
      (f p).interruptedRcx = p.interruptedRcx ∧ (f p).interruptedR11 = p.interruptedR11 ∧
      (f p).status = p.status) : KeepsContext j k (k.modifyProc i f) := by
  refine keepsContext_modifyProc k i fun _ => .inr ?_
  obtain ⟨h1, h2, h3, h4, h5⟩ := h (k.procs j)
  exact ⟨h1, h2, h3, h4, fun hw => h5 ▸ hw, fun hd => h5.trans hd⟩

lemma keepsContext_clearSlot (k : Kernel) (i : Nat) : KeepsContext j k (k.clearSlot i) := by
  by_cases e : i = j
  · subst e
    exact .inl (by simp [clearSlot, setProc, Process.zero])
  · exact .of_procs (by simp [clearSlot, setProc, update_of_ne (Ne.symm e)])

/-! ## Creation -/

variable {child : Nat}

lemma keepsContext_setProc (k : Kernel) (p : Process) (hj : j ≠ child) :
    KeepsContext j k (k.setProc child p) :=
  .of_procs (by simp [setProc, update_of_ne hj])

lemma keepsContext_sysFork (k : Kernel) (regs : SyscallRegs) (copied : Nat)
    (hlive : (k.procs j).status ≠ .dead) : KeepsContext j k (k.sysFork regs copied).2 := by
  unfold sysFork
  split
  · exact .of_procs rfl
  next child hchild =>
  obtain ⟨-, hdead, -⟩ := freeSlot_some hchild
  have hne : j ≠ child := fun e => hlive (e ▸ hdead)
  split
  · have h1 : KeepsContext j k { k with nextPid := k.nextPid + 1 } := .of_procs rfl
    exact h1.trans (keepsContext_clearSlot _ child)
  · have h1 : KeepsContext j k { k with nextPid := k.nextPid + 1 } := .of_procs rfl
    exact (h1.trans (keepsContext_setProc _ _ hne)).trans (.of_procs rfl)

variable {parent : Nat}

lemma keepsContext_vforkSwitch (k : Kernel) (regs : SyscallRegs) (hp : j ≠ parent)
    (hc : j ≠ child) : KeepsContext j k (k.vforkSwitch regs parent child) := by
  refine .of_procs ?_
  simp [vforkSwitch, modifyProc, setProc, setStatus, switchPageTable, loadFsBase, switchToProcess,
    update_of_ne hp, update_of_ne hc]

lemma keepsContext_sysClone (k : Kernel) (regs : SyscallRegs) (copied : Nat)
    (hj : j ≠ k.current) (hlive : (k.procs j).status ≠ .dead) :
    KeepsContext j k (k.sysClone regs copied).2 := by
  have h := clones_sysClone k regs copied
  generalize k.sysClone regs copied = r at h ⊢
  have hne : ∀ {c : Nat}, k.freeSlot = some c → j ≠ c :=
    fun hslot e => hlive (e ▸ (freeSlot_some hslot).2.1)
  have hcopy : ∀ {c : Nat} {words : Nat → UInt64 → UInt32}, k.freeSlot = some c →
      KeepsContext j k (k.cloned regs c words) := fun hslot =>
    .of_procs (by simp [cloned, update_of_ne (hne hslot), update_of_ne hj])
  cases h with
  | fork => exact keepsContext_sysFork k regs copied hlive
  | refused => exact .of_procs rfl
  | created hslot => exact hcopy hslot
  | vforked hslot =>
    exact (hcopy hslot).trans (keepsContext_vforkSwitch _ regs hj (hne hslot))

/-! ## Entries -/

/-- The context after the end of a process: kept, or with the result that the process waited for. -/
def GivesResult (j : Nat) (k k' : Kernel) : Prop :=
  KeepsContext j k k' ∨ (k.procs j).GivenResult (k'.procs j)

theorem GivesResult.trans (h : GivesResult j k k') (h' : GivesResult j k' k'') :
    GivesResult j k k'' := by
  rcases h with h | h
  · rcases h' with h' | h'
    · exact .inl (h.trans h')
    rcases h with hd | h
    · exact absurd h'.waiting (by simp [hd])
    · exact .inr ⟨h.waiting h'.waiting, h'.released, h.regs ▸ h'.regs⟩
  · rcases h' with (hd | h') | h'
    · exact .inl (.inl hd)
    · exact .inr ⟨h.waiting, fun hw => h.released (h'.waiting hw), h'.regs ▸ h.regs⟩
    · exact absurd h'.waiting h.released

variable {cur : Nat} {ends : Bool}

lemma Move.context (hj : j ≠ cur) (h : Move cur ends k k') :
    GivesResult j k k' ∧ (ends = false → KeepsContext j k k') := by
  have hkept : ∀ {k'}, KeepsContext j k k' →
      GivesResult j k k' ∧ (ends = false → KeepsContext j k k') := fun h => ⟨.inl h, fun _ => h⟩
  cases h with
  | keep h => exact hkept (.inr (h.procs j).context)
  | @edit i f hcontext =>
    rcases hcontext with rfl | hsame | ⟨hends, hgiven⟩
    · exact hkept (keepsContext_modifyProc k _ fun e => absurd e.symm hj)
    · exact hkept (keepsContext_modifyProc k i fun e => .inr (e ▸ hsame))
    · by_cases e : j = i
      · subst e
        exact ⟨.inr (by simpa [modifyProc, setProc] using hgiven), fun h => by simp [hends] at h⟩
      · exact hkept (.of_procs (by simp [modifyProc, setProc, update_of_ne e]))
  | @release i =>
    exact hkept ((keepsContext_field k i (f := fun p => { p with fdTable := closedTable })
      fun _ => ⟨rfl, rfl, rfl, rfl, rfl⟩).trans (.of_procs rfl))
  | @clear i => exact hkept (keepsContext_clearSlot k i)

lemma Moves.context (hj : j ≠ cur) (h : Moves cur ends k k') :
    GivesResult j k k' ∧ (ends = false → KeepsContext j k k') := by
  induction h with
  | refl => exact ⟨.inl (.of_procs rfl), fun _ => .of_procs rfl⟩
  | tail _ hlast ih =>
    obtain ⟨hgives, hkeeps⟩ := hlast.context hj
    exact ⟨ih.1.trans hgives, fun h => (ih.2 h).trans (hkeeps h)⟩

lemma keepsContext_schedule (k : Kernel) (regs : SyscallRegs) (hj : j ≠ k.current) :
    KeepsContext j k (k.schedule regs).2 := by
  have h : Moves k.current false k (k.schedule regs).2 := moves_schedule k regs
  exact (h.context hj).2 rfl

end Kernel

/-- An entry leaves the saved registers of the other processes alone, but for the result of a wait
at the end of a process. -/
theorem Kernel.step_context {j : Nat} (k : Kernel) (op : Op) (hj : j ≠ k.current)
    (hlive : (k.procs j).status ≠ .dead) :
    KeepsContext j k (k.step op).2 ∨
      op.endsProcess = true ∧ (k.procs j).GivenResult ((k.step op).2.procs j) := by
  cases op with
  | fork regs copied =>
    exact .inl ((keepsContext_sysFork k regs copied hlive).trans
      (.inr ((keeps_finish regs _).procs j).context))
  | clone regs copied =>
    exact .inl ((keepsContext_sysClone k regs copied hj hlive).trans
      (.inr ((keeps_finish regs _).procs j).context))
  | exit | kill => exact ((step_moves k rfl).context hj).1.imp_right fun h => ⟨rfl, h⟩
  | _ => exact .inl (((step_moves k rfl).context hj).2 rfl)

/-! ## Which process is taken -/

variable {stored : Nat → UInt64 → UInt32 → Prop} {m m' : Machine} {op : Op} {out : Outcome}
  {t : Task}

/-- The process that an entry ends, if its end is reported to its parent. -/
def Machine.ended (m : Machine) : Op → Option Task
  | .exit _ _ => (m.tasks m.current).filter fun c => !c.isThread
  | .kill regs _ => (m.findPid regs.rdi.toUInt32).bind m.tasks
  | _ => none

/-- The pid of the child of `t` that an entry ends, if a wait for `target` is about it. -/
def Machine.reported (m : Machine) (op : Op) (t : Task) (target : Int) : Option UInt32 :=
  ((m.ended op).filter fun c => c.parentPid == t.pid && waitPidMatches target c.pid).map Task.pid

/-- The saved result and, while the task waits, what it waits for are the same. -/
structure Task.Unanswered (t t' : Task) : Prop where
  rax : t'.rax = t.rax
  waiting : t'.status = .waiting → t.status = .waiting ∧ t'.waitTarget = t.waitTarget

lemma Task.Unanswered.refl (t : Task) : t.Unanswered t := ⟨rfl, fun h => ⟨h, rfl⟩⟩

theorem Task.Unanswered.trans {t' t'' : Task} (h : t.Unanswered t') (h' : t'.Unanswered t'') :
    t.Unanswered t'' := by
  refine ⟨h'.rax.trans h.rax, fun hw => ?_⟩
  obtain ⟨hw', htarget⟩ := h'.waiting hw
  exact ⟨(h.waiting hw').1, htarget.trans (h.waiting hw').2⟩

lemma TaskStep.waitTarget_eq {regs : SyscallRegs} {prepare : Prepare} {t' : Task}
    (hstep : TaskStep stored m (.wait4 regs prepare) out m') (hne : m'.current ≠ m.current)
    (ht' : m'.tasks m.current = some t') : t'.waitTarget = signed regs.rdi := by
  cases hstep with
  | block _ _ hj hp =>
    rw [run_current] at hne
    simp only [run_tasks, update_of_ne hne.symm] at ht'
    simp only [modify_tasks, update_self, hp, map_some, some.injEq] at ht'
    rw [← ht']
  | switch op rax hop => exact hop.elim
  | stay op out rax hop => exact hop.elim
  | _ => exact absurd rfl hne

/-! ## Histories of suspensions -/

/-- How a process has lost the processor: by the timer in user mode, with the interrupt frame, or in
a system call, with the registers saved there, what it waits for if the call is `wait4`, and the pid
of the child whose end it has been told since. -/
inductive Suspension where
  | preempted (frame : InterruptFrame)
  | inCall (regs : SyscallRegs) (target : Option Int) (result : Option UInt32)
  deriving DecidableEq

abbrev Suspensions := Nat → Option Suspension

/-- The suspension after an entry, which may end a child that a `wait4` is about. -/
def Suspension.note (op : Op) (m : Machine) (p p' : Process) : Suspension → Suspension
  | .preempted frame => .preempted frame
  | .inCall regs target result => .inCall regs target <|
      if p.status = .waiting ∧ p'.status ≠ .waiting then target.bind (m.reported op p.toTask)
      else result

/-- The suspension of the current process by an entry that takes another one. -/
def Suspension.begin (op : Op) (p' : Process) : Suspension :=
  match op with
  | .timer frame _ => .preempted frame
  | .wait4 regs _ => .inCall p'.regs (some (signed regs.rdi)) none
  | _ => .inCall p'.regs none none

def Suspensions.after (op : Op) (k k' : Kernel) (g : Suspensions) : Suspensions := fun i =>
  if (k'.procs i).status = .dead ∨ i = k'.current then none
  else if i = k.current then some (.begin op (k'.procs i))
  else (g i).map (Suspension.note op k.machine (k.procs i) (k'.procs i))

/-- The result register: as saved, unless the end of a child has been told. -/
def ResultOk (saved rax : UInt64) (result : Option UInt32) : Prop :=
  rax = saved ∨ ∃ pid ∈ result, rax = UInt64.ofNat pid.toNat ∨ rax = UInt64.ofInt (-efault)

/-- What the saved registers say of a suspension. -/
def Suspension.Fits (p : Process) : Suspension → Prop
  | .preempted frame =>
      p.regs = { frame.gpr with rcx := frame.rip, r11 := frame.rflags } ∧
        p.hasInterruptContext = true ∧ p.interruptedRcx = frame.gpr.rcx ∧
        p.interruptedR11 = frame.gpr.r11 ∧ p.status ≠ .waiting
  | .inCall regs target result =>
      { p.regs with rax := regs.rax } = regs ∧ ResultOk regs.rax p.regs.rax result ∧
        (p.status = .waiting → p.regs.rax = regs.rax ∧ ∀ x ∈ target, p.waitTargetPid = x)

/-- Every suspension recorded is that of a live slot other than the current one, and fits its saved
registers. -/
def Suspensions.Recorded (g : Suspensions) (k : Kernel) : Prop := ∀ i s, g i = some s →
  i < maxProcesses ∧ i ≠ k.current ∧ (k.procs i).status ≠ .dead ∧ s.Fits (k.procs i)

section Fits

variable {regs : SyscallRegs} {target : Option Int} {result : Option UInt32}

end Fits

lemma Suspension.Fits.same {frame : InterruptFrame} (h : (Suspension.preempted frame).Fits p)
    (hp : p.SameContext p') : (Suspension.preempted frame).Fits p' := by
  obtain ⟨hregs, hhas, hrcx, hr11, hwait⟩ := h
  exact ⟨hp.regs.trans hregs, hp.hasInterruptContext.trans hhas, hp.interruptedRcx.trans hrcx,
    hp.interruptedR11.trans hr11, fun hw => hwait (hp.waiting hw)⟩

variable {s : Suspension}

namespace Kernel

variable {k : Kernel}

lemma fits_preemptFromInterrupt {frame : InterruptFrame}
    (h : (k.preemptFromInterrupt frame).current ≠ k.current) :
    (Suspension.preempted frame).Fits ((k.preemptFromInterrupt frame).procs k.current) := by
  by_cases hkeep : frame.fromUser = false ∨ (k.procs k.current).status ≠ .running
  · rw [preemptFromInterrupt, if_pos hkeep] at h
    exact absurd rfl h
  obtain ⟨taken, hover⟩ := preempt_handover hkeep
  have hfits : (Suspension.preempted frame).Fits ((k.interrupted frame).procs k.current) := by
    simp [Suspension.Fits, interrupted, modifyProc, setProc, saveInterruptContext]
  generalize k.preemptFromInterrupt frame = k' at h hover ⊢
  cases hover with
  | stay hsame => exact absurd hsame.current h
  | switch hsame hlt hready hne =>
    simp only [handTo, setStatus, modifyProc, setProc, update_of_ne hne.symm]
    rw [hsame.procs]
    exact hfits

/-- The suspension of the current process fits what is saved for it. -/
lemma fits_begin (op : Op) (hact : k.machine.Active) (hout : (k.step op).1 ≠ .halted)
    (hne : (k.step op).2.current ≠ k.current)
    (hlive : ((k.step op).2.procs k.current).status ≠ .dead) :
    (Suspension.begin op ((k.step op).2.procs k.current)).Fits ((k.step op).2.procs k.current) := by
  obtain ⟨hcur, hlivec, -⟩ := current_of_active hact
  cases op with
  | timer frame thermal =>
    have hcur := timerPrologue_current frame thermal k
    have hswitch : ((k.timerPrologue frame thermal).preemptFromInterrupt frame).current ≠
        (k.timerPrologue frame thermal).current := fun heq => hne (heq.trans hcur)
    have h := fits_preemptFromInterrupt hswitch
    rw [hcur] at h
    exact h
  | wait4 regs prepare =>
    have htarget := (step_refines _ hcur hlivec hout).waitTarget_eq hne
      (machine_tasks_eq hcur hlive)
    exact ⟨rfl, .inl rfl, fun _ => ⟨rfl, fun x hx => htarget.trans (some.inj hx)⟩⟩
  | _ => exact ⟨rfl, .inl rfl, fun _ => ⟨rfl, by simp⟩⟩

end Kernel

end AosKernel.Proc
