import AosKernel.Process.Pids

/-!
# The life of a process

`TaskStep.carries` says what a kernel entry has to be to end a process or to take away a zombie. So
over every run the first process never ends, another one ends only by its own `exit`, a kill or a
logout, and a zombie keeps its exit status until its parent has got it.
-/

namespace AosKernel.Proc

open Lib Fd Function Option

/-- The task goes on as the same process; a zombie stays one, with its exit status. -/
structure Task.Continues (t t' : Task) : Prop where
  pid : t'.pid = t.pid
  parentPid : t'.parentPid = t.parentPid
  zombie : t'.status = .zombie ↔ t.status = .zombie
  exitStatus : t.status = .zombie → t'.exitStatus = t.exitStatus

lemma Task.Continues.trans {t t' t'' : Task} (h : t.Continues t') (h' : t'.Continues t'') :
    t.Continues t'' :=
  ⟨h'.pid.trans h.pid, h'.parentPid.trans h.parentPid, h'.zombie.trans h.zombie, fun hz =>
    (h'.exitStatus (h.zombie.2 hz)).trans (h.exitStatus hz)⟩

/-- The entry is none of those that may end the task of slot `i` or take it away: its own `exit`, a
kill of its pid and a logout of its user, unless it is the first process, and a `wait4` that gives
its pid and exit status to its parent. -/
structure Machine.Spares (stored : Nat → UInt64 → UInt32 → Prop) (m : Machine) (op : Op)
    (out : Outcome) (i : Nat) (t : Task) : Prop where
  exit : t.pid ≠ 1 → t.status ≠ .zombie → ∀ code prepare, op = .exit code prepare → i ≠ m.current
  kill : t.pid ≠ 1 → t.status ≠ .zombie → ∀ regs prepare, op = .kill regs prepare →
    t.pid ≠ regs.rdi.toUInt32
  logout : t.pid ≠ 1 → ∀ regs installed p, op = .logout regs installed →
    m.tasks m.current = some p → p.pid = 1 → t.uid ≠ p.uid
  wait : t.status = .zombie → ∀ regs prepare p, op = .wait4 regs prepare →
    out = .returned t.pid.toNat → m.tasks m.current = some p → t.parentPid = p.pid →
    ¬ (regs.rsi ≠ 0 → stored m.current regs.rsi t.exitStatus)

namespace Machine

variable {m : Machine} {i j : Nat} {t u : Task} {f : Task → Task}

/-- The task goes on in slot `i` of `m`. -/
def Carries (m : Machine) (i : Nat) (t : Task) : Prop := ∃ t', m.tasks i = some t' ∧ t.Continues t'

lemma carries_self (ht : m.tasks i = some t) : m.Carries i t :=
  ⟨t, ht, rfl, rfl, Iff.rfl, fun _ => rfl⟩

section

variable (h : m.Carries i t)
include h

lemma Carries.set_other (hi : i ≠ j) (u : Option Task) : (m.set j u).Carries i t := by
  obtain ⟨t', ht', hc⟩ := h
  exact ⟨t', by simpa [update_of_ne hi] using ht', hc⟩

lemma Carries.modify (hu : m.tasks j = some u) (hlive : u.status ≠ .zombie)
    (hf : (f u).pid = u.pid ∧ (f u).parentPid = u.parentPid ∧ (f u).status ≠ .zombie) :
    (m.modify j f).Carries i t := by
  by_cases hi : i = j
  · subst hi
    obtain ⟨t', ht', hc⟩ := h
    rw [hu, some.injEq] at ht'
    subst ht'
    have hlive' : t.status ≠ .zombie := fun hz => hlive (hc.zombie.2 hz)
    exact ⟨f u, by simp [hu], hf.1.trans hc.pid, hf.2.1.trans hc.parentPid,
      iff_of_false hf.2.2 hlive', fun hz => absurd hz hlive'⟩
  · exact h.set_other hi _

end

lemma carries_completeVfork (ht : m.tasks i = some t) (c : Nat) :
    (m.completeVfork c).Carries i t := by
  obtain ⟨t', ht', hrel⟩ := released_of_completeVfork (c := c) ht
  refine ⟨t', ht', hrel.pid, hrel.parentPid, ?_, fun _ => by rw [hrel.same]⟩
  rcases hrel.status with hs | ⟨hw, hr⟩
  · rw [hs]
  · simp [hw, hr]

end Machine

namespace TaskStep

open Machine

variable {stored : Nat → UInt64 → UInt32 → Prop} {m m' : Machine} {op : Op} {out : Outcome}
  {i : Nat} {t : Task}

/-- A process goes on unless the entry is one of those that may end it. -/
theorem carries (hstep : TaskStep stored m op out m') (hact : m.Active) (ht : m.tasks i = some t)
    (h : m.Spares stored op out i t) : m'.Carries i t := by
  have hself := carries_self ht
  have hvfork := carries_completeVfork ht m.current
  obtain ⟨v, hv, -, hlive⟩ := hact.current
  have hother : ∀ c, m.tasks c = none → i ≠ c := by
    rintro c hc rfl
    simp [ht] at hc
  -- The current task, as `exit` sees it.
  have hexit : ∀ {u}, (m.completeVfork m.current).tasks m.current = some u → u.pid ≠ 1 →
      ∀ {code prepare}, op = .exit code prepare → i ≠ m.current := by
    rintro u hu hpid code prepare hop rfl
    rw [hv, some.injEq] at ht
    obtain ⟨w, hw, hc⟩ := hvfork
    rw [hu, some.injEq] at hw
    exact h.exit (hc.pid ▸ hw ▸ hpid) (ht ▸ hlive) code prepare hop rfl
  -- The task that a kill is about.
  have hkill : ∀ {regs j u}, m.findPid regs.rdi.toUInt32 = some j → m.tasks j = some u →
      u.pid ≠ 1 → u.status ≠ .zombie → ∀ {prepare}, op = .kill regs prepare → i ≠ j := by
    rintro regs j u hfind hu hpid hzombie prepare hop rfl
    obtain ⟨-, w, hw, hfound⟩ := find_some hfind
    rw [ht, some.injEq] at hu hw
    subst hu hw
    exact h.kill hpid hzombie regs prepare hop (by simpa using hfound)
  cases hstep with
  | refused | spend | ignored => exact hself
  | stay | login => exact hself.modify hv hlive (by simp [hlive])
  | @switch _ _ _ next n hne hn hready =>
    refine Carries.modify (u := n) (hself.modify hv hlive ⟨rfl, rfl, ?_⟩)
      (by simpa [update_of_ne hne] using hn) (by simp [hready]) (by simp)
    dsimp only
    split
    · simp
    · exact hlive
  | create _ _ _ _ hfree => exact hself.set_other (hother _ hfree) _
  | @vfork _ _ _ c _ _ _ hfree =>
    -- The slot of the child was free, so it is not that of the parent.
    have hne := hact.ne_current (i := c) (by simp [hfree])
    exact Carries.modify (u := v) (hself.set_other (hother c hfree) _)
      (by simpa [update_of_ne hne.symm] using hv) hlive (by simp)
  | exec => exact hvfork
  | @reap regs prepare z u p hz hp hzombie hchild hword =>
    by_cases hi : i = z
    · subst hi
      rw [hz, some.injEq] at ht
      subst ht
      exact absurd hword (h.wait hzombie regs prepare p rfl rfl hp hchild.1)
    · exact hself.set_other hi none
  | @block regs _ j u _ hj _ hready =>
    have hwait := hself.modify (f := fun t => { t with
      rax := regs.rax
      status := .waiting
      waitTarget := signed regs.rdi
      waitPtr := regs.rsi }) hv hlive (by simp)
    -- Nothing says here that the ready child is not the current task itself.
    by_cases hjc : j = m.current
    · subst hjc
      exact hwait.modify (by simp [hj]; rfl) (by simp) (by simp)
    · exact hwait.modify (u := u) (by simpa [update_of_ne hjc] using hj) (by simp [hready])
        (by simp)
  | exitThread _ _ hc _ hpid hj hready =>
    exact (hvfork.set_other (hexit hc hpid rfl) none).modify hj (by simp [hready]) (by simp)
  | exitToWaiter _ _ _ hc _ hpid _ hp hwait =>
    exact (hvfork.modify hp (by simp [hwait.1]) (by simp [Task.wake])).set_other
      (hexit hc hpid rfl) none
  | @exitToParent _ _ _ u p hc _ hpid _ hp _ hne hzombie =>
    refine Carries.modify (j := p) (u := u) (hvfork.set_other (hexit hc hpid rfl) _)
      (by simpa [zombied, update_of_ne hne] using hp) hzombie ?_
    split <;> simp [Task.wake, hzombie]
  | killed _ _ _ hu hfind hpid hzombie =>
    exact hself.set_other (hkill hfind hu hpid hzombie rfl) _
  | killedAwaited _ _ _ _ hu hfind hpid hzombie _ hp _ hwait =>
    exact (hself.modify hp (by simp [hwait.1]) (by simp [Task.wake])).set_other
      (hkill hfind hu hpid hzombie rfl) none
  | pause _ _ hu hstatus | resume _ hu hstatus =>
    exact hself.modify hu (by simp [hstatus]) (by simp)
  | @logout regs installed p hp hpid =>
    rw [hp, some.injEq] at hv
    subst hv
    have hkeep : t.pid = p.pid ∨ t.uid ≠ p.uid :=
      or_iff_not_imp_left.2 fun hne => h.logout (hpid ▸ hne) regs installed p rfl hp hpid
    refine (carries_self (m := m.withoutUser p) ?_).modify (u := p) ?_ hlive ⟨rfl, rfl, hlive⟩
    · simpa [withoutUser, ht] using hkeep
    · simp [withoutUser, hp]

lemma older (hstep : TaskStep stored m op out m') (hinv : m.PidInv)
    (h : ∀ i t, m.tasks i = some t → t.parentPid < t.pid) :
    ∀ i t, m'.tasks i = some t → t.parentPid < t.pid := by
  intro i t' ht'
  obtain ⟨m₁, ha, -, hfrom⟩ := hstep.ids
  obtain ⟨t, ht, hpid, hparent⟩ := hfrom.2 i t' ht'
  rw [hpid, hparent]
  cases ha with
  | keep | spend => exact h i t ht
  | @add thread c p u hc hfree hp hu hparent =>
    by_cases hi : i = c
    · subst hi
      simp only [set_tasks, update_self, some.injEq] at ht
      rw [← ht, hu, hparent]
      exact hinv.childTask_parentPid hp thread
    · exact h i t (by simpa [update_of_ne hi] using ht)

lemma nextPid_le (hstep : TaskStep stored m op out m') (hleft : m.PidLeft) :
    m.nextPid ≤ m'.nextPid := by
  obtain ⟨m₁, ha, -, hfrom⟩ := hstep.ids
  rw [hfrom.1]
  cases ha with
  | keep => exact UInt32.le_refl _
  | spend | add => exact UInt32.le_of_lt hleft.lt_succ

end TaskStep

/-! ## Runs -/

namespace Kernel

open Machine

variable {p4 : Nat} {k k' : Kernel} {good : Kernel → Op → Prop} {i : Nat}

lemma Reaches.active (h : Reaches good k k') (hact : k.machine.Active) : k'.machine.Active := by
  induction h with
  | start => exact hact
  | step op _ _ hout ih => exact active_step ih op hout

def Spares (i : Nat) (k : Kernel) (op : Op) : Prop :=
  k.machine.Spares (Stored k (k.step op).2) op (k.step op).1 i (k.procs i).toTask

lemma Reaches.carries (h : Reaches good k k') (hact : k.machine.Active) {t : Task}
    (ht : k.machine.tasks i = some t)
    (hgood : ∀ k op, t.Continues (k.procs i).toTask → good k op → k.Spares i op) :
    k'.machine.Carries i t := by
  induction h with
  | start => exact carries_self ht
  | @step k op h hg hout ih =>
    obtain ⟨u, hu, hc⟩ := ih
    obtain ⟨hcur, hlive, -⟩ := current_of_active (h.active hact)
    obtain ⟨-, -, rfl⟩ := machine_tasks_some hu
    obtain ⟨u', hu', hc'⟩ := (step_refines op hcur hlive hout).carries (h.active hact) hu
      (hgood k op hc hg)
    exact ⟨u', hu', hc.trans hc'⟩

/-- The first process makes a child and gives way to it. -/
def childRuns : Kernel := (initProcess 1).run [.fork .zero 2, .schedule .zero]

/-- The child ends. -/
def childEnds : Kernel := (childRuns.step (.exit 7 fun _ _ => true)).2

lemma childEnds_facts :
    (((initProcess 1).step (.fork .zero 2)).1 ≠ .halted ∧
      (((initProcess 1).run [.fork .zero 2]).step (.schedule .zero)).1 ≠ .halted ∧
      (childRuns.step (.exit 7 fun _ _ => true)).1 ≠ .halted ∧
      (childEnds.step (.schedule .zero)).1 ≠ .halted) ∧
    ((initProcess 1).run [.fork .zero 2]).nextPid < 0xFFFFFFFF ∧
    childRuns.nextPid < 0xFFFFFFFF ∧
    (childEnds.procs 1).status ≠ .dead := by
  decide +kernel

lemma reaches_childRuns (hfork : good (initProcess 1) (.fork .zero 2))
    (hschedule : good ((initProcess 1).run [.fork .zero 2]) (.schedule .zero)) :
    Reaches good (initProcess 1) childRuns :=
  .step _ (.step _ .start hfork childEnds_facts.1.1) hschedule childEnds_facts.1.2.1

/-- **The first process never ends.** Its own `exit` relaunches the shell, which is an `exec`. -/
theorem first_process_survives (h : Reaches (fun _ _ => True) (initProcess p4) k) :
    (k.procs 0).pid = 1 ∧ (k.procs 0).status ≠ .dead ∧ (k.procs 0).status ≠ .zombie := by
  have hstart : (initProcess p4).machine.tasks 0 = some ((initProcess p4).procs 0).toTask :=
    machine_tasks_eq (by decide) (by simp [initProcess])
  have hrunning : ((initProcess p4).procs 0).toTask.status ≠ .zombie := by
    simp [Process.toTask, initProcess]
  obtain ⟨t, ht, hc⟩ := h.carries (active_initProcess p4) hstart fun k op hc _ =>
    ⟨fun hpid => absurd hc.pid hpid, fun hpid => absurd hc.pid hpid,
      fun hpid => absurd hc.pid hpid, fun hz => absurd (hc.zombie.1 hz) hrunning⟩
  obtain ⟨-, hlive, rfl⟩ := machine_tasks_some ht
  exact ⟨hc.pid, hlive, mt hc.zombie.1 hrunning⟩

theorem first_process_survives_exit : (childEnds.procs 0).status ≠ .zombie :=
  (first_process_survives (.step _ (reaches_childRuns trivial trivial) trivial
    childEnds_facts.1.2.2.1)).2.2

/-- **A process goes on**, from any state after boot and over every run whose entries spare it. -/
theorem process_goes_on (hreach : Reaches (fun _ _ => True) (initProcess p4) k)
    (hi : i < maxProcesses) (hlive : (k.procs i).status ≠ .dead) (h : Reaches (Spares i) k k') :
    (k'.procs i).status ≠ .dead ∧ (k.procs i).toTask.Continues (k'.procs i).toTask := by
  obtain ⟨t, ht, hc⟩ := h.carries (hreach.active (active_initProcess p4))
    (machine_tasks_eq hi hlive) fun _ _ _ hspares => hspares
  obtain ⟨-, hdead, rfl⟩ := machine_tasks_some ht
  exact ⟨hdead, hc⟩

/-- The exit status of the child is still there after its parent has been scheduled. -/
theorem child_goes_on :
    (childEnds.procs 1).toTask.Continues ((childEnds.step (.schedule .zero)).2.procs 1).toTask :=
  (process_goes_on (.step _ (reaches_childRuns trivial trivial) trivial childEnds_facts.1.2.2.1)
    (by decide) childEnds_facts.2.2.2 (.step _ .start
      ⟨by simp, by simp, by simp, by simp⟩ childEnds_facts.1.2.2.2)).2

lemma Reaches.pids (h : Reaches (fun k _ => k.machine.PidLeft) k k') (hact : k.machine.Active)
    (hpids : k.machine.PidInv) (hold : ∀ i t, k.machine.tasks i = some t → t.parentPid < t.pid) :
    k'.machine.PidInv ∧ k.nextPid ≤ k'.nextPid ∧
      ∀ i t', k'.machine.tasks i = some t' → t'.parentPid < t'.pid ∧ (t'.pid < k.nextPid →
        ∃ t, k.machine.tasks i = some t ∧ t.pid = t'.pid) := by
  induction h with
  | start => exact ⟨hpids, UInt32.le_refl _, fun i t ht => ⟨hold i t ht, fun _ => ⟨t, ht, rfl⟩⟩⟩
  | @step k₁ op h hleft hout ih =>
    obtain ⟨hinv, hle, hslots⟩ := ih
    obtain ⟨hcur, hlive, -⟩ := current_of_active (h.active hact)
    have hstep := step_refines op hcur hlive hout
    refine ⟨hstep.pidInv hinv hleft, UInt32.le_trans hle (hstep.nextPid_le hleft), fun i t' ht' =>
      ⟨hstep.older hinv (fun j t ht => (hslots j t ht).1) i t' ht', fun hlt => ?_⟩⟩
    -- A new process has the counter as its pid, which is not below the earlier one.
    rcases hstep.pid_old_or_new ht' with ⟨t, ht, hpid⟩ | ⟨-, hnew⟩
    · rw [hpid] at hlt ⊢
      exact (hslots i t ht).2 hlt
    · rw [hnew] at hlt
      exact absurd hlt (UInt32.not_lt.2 hle)

/-- **Pids.** While the counter does not wrap, the pids in use are distinct, a process is younger
than its parent, and a pid that was given out is not given to another process: a process with a pid
below an earlier `next_pid` was then in the same slot. -/
theorem pids_never_reused (hreach : Reaches (fun k _ => k.machine.PidLeft) (initProcess p4) k)
    (h : Reaches (fun k _ => k.machine.PidLeft) k k') (hi : i < maxProcesses)
    (hlive : (k'.procs i).status ≠ .dead) :
    (k'.procs i).parentPid < (k'.procs i).pid ∧
      (∀ j < maxProcesses, (k'.procs j).status ≠ .dead → (k'.procs j).pid = (k'.procs i).pid →
        j = i) ∧
      ((k'.procs i).pid < k.nextPid →
        (k.procs i).status ≠ .dead ∧ (k.procs i).pid = (k'.procs i).pid) := by
  have hact := active_initProcess p4
  obtain ⟨hinv, -, hold⟩ := hreach.pids hact (pidInv_initProcess p4) fun i t ht => by
    rw [(initProcess_tasks p4 i t ht).2]
    exact (by decide : (0 : UInt32) < 1)
  obtain ⟨hinv', -, hslots⟩ := h.pids (hreach.active hact) hinv fun i t ht => (hold i t ht).1
  have ht' := machine_tasks_eq hi hlive
  refine ⟨(hslots i _ ht').1, fun j hj hlivej hpid =>
    hinv'.distinct j i _ _ (machine_tasks_eq hj hlivej) ht' hpid, fun hlt => ?_⟩
  obtain ⟨t, ht, hpid⟩ := (hslots i _ ht').2 hlt
  obtain ⟨-, hlive, rfl⟩ := machine_tasks_some ht
  exact ⟨hlive, hpid⟩

theorem child_pid : (childEnds.procs 1).parentPid < (childEnds.procs 1).pid :=
  (pids_never_reused (reaches_childRuns (by decide : (2 : UInt32) < 0xFFFFFFFF) childEnds_facts.2.1)
    (.step _ .start childEnds_facts.2.2.1 childEnds_facts.1.2.2.1) (by decide)
    childEnds_facts.2.2.2).1

end Kernel

end AosKernel.Proc
