import AosKernel.Process.TableInvariant

/-!
# Pids

A pid is given out once, as long as the counter does not wrap. `TaskStep.ids` says what a kernel
entry does with pids and parents, `PidInv` is the invariant it keeps (`TaskStep.pidInv`), and a slot
in use keeps its pid (`TaskStep.pid_eq`).
-/

namespace AosKernel.Proc

open Lib Fd Function

namespace Machine

/-! ## The invariant -/

/-- The pids given out so far: those of the slots in use and of their parents are below `next_pid`,
and no process is its own parent. -/
structure PidInv (m : Machine) : Prop where
  bounded : ∀ i t, m.tasks i = some t → i < maxProcesses
  distinct : m.DistinctPids
  nonzero : ∀ i t, m.tasks i = some t → t.pid ≠ 0
  below : ∀ i t, m.tasks i = some t → t.pid < m.nextPid ∧ t.parentPid < m.nextPid
  parent : ∀ i t, m.tasks i = some t → t.parentPid ≠ t.pid
  next : 1 < m.nextPid

/-- The slots in use of `m'` were in use in `m`, with the same pid and the same parent. -/
def IdsFrom (m m' : Machine) : Prop :=
  m'.nextPid = m.nextPid ∧ ∀ i t', m'.tasks i = some t' →
    ∃ t, m.tasks i = some t ∧ t'.pid = t.pid ∧ t'.parentPid = t.parentPid

lemma IdsFrom.refl (m : Machine) : IdsFrom m m := ⟨rfl, fun _ t h => ⟨t, h, rfl, rfl⟩⟩

variable {m m' : Machine}

theorem IdsFrom.trans {m'' : Machine} (h : IdsFrom m m') (h' : IdsFrom m' m'') : IdsFrom m m'' := by
  refine ⟨h'.1.trans h.1, fun i t'' ht'' => ?_⟩
  obtain ⟨t', ht', hpid', hparent'⟩ := h'.2 i t'' ht''
  obtain ⟨t, ht, hpid, hparent⟩ := h.2 i t' ht'
  exact ⟨t, ht, hpid'.trans hpid, hparent'.trans hparent⟩

section

variable (m)

lemma idsFrom_modify (i : Nat) {f : Task → Task}
    (hf : ∀ t, (f t).pid = t.pid ∧ (f t).parentPid = t.parentPid) : IdsFrom m (m.modify i f) := by
  refine ⟨rfl, fun j t' ht' => ?_⟩
  by_cases hj : j = i
  · subst hj
    simp only [modify_tasks, update_self, Option.map_eq_some_iff] at ht'
    obtain ⟨t, ht, rfl⟩ := ht'
    exact ⟨t, ht, hf t⟩
  · exact ⟨t', by simpa [update_of_ne hj] using ht', rfl, rfl⟩

lemma idsFrom_set_none (i : Nat) : IdsFrom m (m.set i none) := by
  refine ⟨rfl, fun j t' ht' => ?_⟩
  have hj : j ≠ i := by
    rintro rfl
    simp at ht'
  exact ⟨t', by simpa [update_of_ne hj] using ht', rfl, rfl⟩

lemma idsFrom_take (i : Nat) : IdsFrom m (m.take i) := IdsFrom.refl m

lemma idsFrom_run (i : Nat) : IdsFrom m (m.run i) :=
  idsFrom_modify m i fun _ => ⟨rfl, rfl⟩

lemma completeVfork_nextPid (c : Nat) : (m.completeVfork c).nextPid = m.nextPid := by
  unfold completeVfork
  split
  · rfl
  split
  · rfl
  dsimp only
  split <;> rfl

lemma idsFrom_completeVfork (c : Nat) : IdsFrom m (m.completeVfork c) := by
  refine ⟨completeVfork_nextPid m c, fun i t' ht' => ?_⟩
  obtain ⟨t, ht, hrel⟩ := released_completeVfork ht'
  exact ⟨t, ht, hrel.pid, hrel.parentPid⟩

lemma idsFrom_withoutUser (p : Task) : IdsFrom m (m.withoutUser p) :=
  ⟨rfl, fun _ t ht => ⟨t, withoutUser_tasks ht, rfl, rfl⟩⟩

end

lemma PidInv.from (h : m.PidInv) (hfrom : IdsFrom m m') : m'.PidInv where
  bounded := by
    intro i t' ht'
    obtain ⟨t, ht, -⟩ := hfrom.2 i t' ht'
    exact h.bounded i t ht
  distinct := by
    intro i j t' u' ht' hu' hpid
    obtain ⟨t, ht, htp, -⟩ := hfrom.2 i t' ht'
    obtain ⟨u, hu, hup, -⟩ := hfrom.2 j u' hu'
    exact h.distinct i j t u ht hu (by rw [← htp, ← hup, hpid])
  nonzero := by
    intro i t' ht'
    obtain ⟨t, ht, hpid, -⟩ := hfrom.2 i t' ht'
    rw [hpid]
    exact h.nonzero i t ht
  below := by
    intro i t' ht'
    obtain ⟨t, ht, hpid, hparent⟩ := hfrom.2 i t' ht'
    rw [hpid, hparent, hfrom.1]
    exact h.below i t ht
  parent := by
    intro i t' ht'
    obtain ⟨t, ht, hpid, hparent⟩ := hfrom.2 i t' ht'
    rw [hpid, hparent]
    exact h.parent i t ht
  next := by
    rw [hfrom.1]
    exact h.next

def PidLeft (m : Machine) : Prop := m.nextPid < 0xFFFFFFFF

lemma PidLeft.lt_succ (h : m.PidLeft) : m.nextPid < m.nextPid + 1 := by
  unfold PidLeft at h
  rw [UInt32.lt_iff_toNat_lt] at h ⊢
  rw [UInt32.toNat_add]
  have hmax : (0xFFFFFFFF : UInt32).toNat = 4294967295 := rfl
  have hone : (1 : UInt32).toNat = 1 := rfl
  omega

lemma PidInv.spend (h : m.PidInv) (hleft : m.PidLeft) :
    ({ m with nextPid := m.nextPid + 1 } : Machine).PidInv where
  bounded := h.bounded
  distinct := h.distinct
  nonzero := h.nonzero
  below := fun i t ht =>
    ⟨UInt32.lt_trans (h.below i t ht).1 hleft.lt_succ,
      UInt32.lt_trans (h.below i t ht).2 hleft.lt_succ⟩
  parent := h.parent
  next := UInt32.lt_trans h.next hleft.lt_succ

lemma PidInv.add (h : m.PidInv) (hleft : m.PidLeft) {c : Nat} {t : Task} (hc : c < maxProcesses)
    (hfree : m.tasks c = none) (hpid : t.pid = m.nextPid) (hparent : t.parentPid < m.nextPid) :
    ({ m.set c (some t) with nextPid := m.nextPid + 1 } : Machine).PidInv := by
  have hcases : ∀ i u, (m.set c (some t)).tasks i = some u →
      i = c ∧ u = t ∨ m.tasks i = some u := by
    intro i u hu
    by_cases hi : i = c
    · subst hi
      simp only [set_tasks, update_self, Option.some.injEq] at hu
      exact .inl ⟨rfl, hu.symm⟩
    · exact .inr (by simpa [update_of_ne hi] using hu)
  have hnew : ∀ j u, m.tasks j = some u → u.pid ≠ t.pid := by
    intro j u hu heq
    have hlt := (h.below j u hu).1
    rw [heq, hpid] at hlt
    exact absurd hlt (UInt32.lt_irrefl _)
  refine ⟨?_, (distinctPids_set_some h.distinct t hfree).2 hnew, ?_, ?_, ?_, ?_⟩
  · intro i u hu
    rcases hcases i u hu with ⟨rfl, -⟩ | hold
    · exact hc
    · exact h.bounded i u hold
  · intro i u hu
    rcases hcases i u hu with ⟨-, rfl⟩ | hold
    · rw [hpid]
      intro h0
      have hnext := h.next
      rw [h0] at hnext
      exact absurd hnext (by decide)
    · exact h.nonzero i u hold
  · intro i u hu
    rcases hcases i u hu with ⟨-, rfl⟩ | hold
    · rw [hpid]
      exact ⟨hleft.lt_succ, UInt32.lt_trans hparent hleft.lt_succ⟩
    · exact (h.spend hleft).below i u hold
  · intro i u hu
    rcases hcases i u hu with ⟨-, rfl⟩ | hold
    · intro heq
      rw [heq, hpid] at hparent
      exact absurd hparent (UInt32.lt_irrefl _)
    · exact h.parent i u hold
  · exact (h.spend hleft).next

lemma PidInv.childTask_parentPid (h : m.PidInv) {p : Task} {i : Nat} (hp : m.tasks i = some p)
    (thread : Bool) : (childTask p m.nextPid thread).parentPid < m.nextPid := by
  unfold childTask
  split
  · exact (h.below i p hp).2
  · exact (h.below i p hp).1

lemma PidInv.findPid_eq (h : m.PidInv) {p : Nat} {P : Task} (hP : m.tasks p = some P) :
    m.findPid P.pid = some p := by
  cases hfind : m.findPid P.pid with
  | none => simpa using find_none hfind (h.bounded p P hP) hP
  | some j =>
    obtain ⟨-, u, hu, hpid⟩ := find_some hfind
    rw [h.distinct j p u P hu hP (by simpa using hpid)]

/-- What a kernel entry does with pids: nothing, use one up, or give one to a new child of the
current process. -/
inductive Allots (m : Machine) : Machine → Prop where
  | keep : m.Allots m
  | spend : m.Allots { m with nextPid := m.nextPid + 1 }
  | add (thread : Bool) {c : Nat} {p t : Task} (hc : c < maxProcesses) (hfree : m.tasks c = none)
      (hp : m.tasks m.current = some p) (hpid : t.pid = m.nextPid)
      (hparent : t.parentPid = (childTask p m.nextPid thread).parentPid) :
      m.Allots { m.set c (some t) with nextPid := m.nextPid + 1 }

lemma PidInv.allots (h : m.PidInv) (hleft : m.PidLeft) (ha : m.Allots m') : m'.PidInv := by
  cases ha with
  | keep => exact h
  | spend => exact h.spend hleft
  | add thread hc hfree hp hpid hparent =>
    exact h.add hleft hc hfree hpid (by rw [hparent]; exact h.childTask_parentPid hp thread)

/-- A task after an allotment is an old one, or the new one in a slot that was free. -/
lemma Allots.old_or_new (ha : m.Allots m') {i : Nat} {t : Task} (ht : m'.tasks i = some t) :
    m.tasks i = some t ∨ m.tasks i = none ∧ t.pid = m.nextPid := by
  cases ha with
  | keep | spend => exact .inl ht
  | @add thread c p u hc hfree hp hpid =>
    by_cases hi : i = c
    · subst hi
      simp only [set_tasks, update_self, Option.some.injEq] at ht
      exact .inr ⟨hfree, by rw [← ht, hpid]⟩
    · exact .inl (by simpa [update_of_ne hi] using ht)

end Machine

namespace TaskStep

open Machine

variable {stored : Nat → UInt64 → UInt32 → Prop} {m m' : Machine} {op : Op} {out : Outcome}

section

variable (hstep : TaskStep stored m op out m')
include hstep

/-- The pids and the parents are fixed when a process is made. -/
theorem ids : ∃ m₁, m.Allots m₁ ∧ (m₁.tasks = m.tasks ∨ m.Creates op) ∧ IdsFrom m₁ m' := by
  have h1 := idsFrom_completeVfork m m.current
  cases hstep with
  | refused | ignored => exact ⟨_, .keep, .inl rfl, .refl m⟩
  | spend => exact ⟨_, .spend, .inl rfl, .refl _⟩
  | stay | killed | pause | resume | login =>
    exact ⟨_, .keep, .inl rfl, idsFrom_modify m _ (by simp)⟩
  | switch | block =>
    exact ⟨_, .keep, .inl rfl, (idsFrom_modify m _ (by simp)).trans (idsFrom_run _ _)⟩
  | create _ thread hop hc hfree hp =>
    exact ⟨_, .add thread hc hfree hp rfl rfl, .inr hop, .refl _⟩
  | @vfork regs copied thread c p hop hc hfree hp =>
    refine ⟨_, .add thread hc hfree hp (t := { childTask p m.nextPid thread with
      status := .running, vforkParent := p.pid }) rfl rfl, .inr hop, ?_⟩
    refine (idsFrom_modify _ m.current (f := fun t => { t with
      vforkChild := m.nextPid
      rax := UInt64.ofNat m.nextPid.toNat
      status := .waiting }) ?_).trans (idsFrom_take _ c)
    simp
  | exec => exact ⟨_, .keep, .inl rfl, h1⟩
  | reap => exact ⟨_, .keep, .inl rfl, idsFrom_set_none m _⟩
  | exitThread =>
    exact ⟨_, .keep, .inl rfl, (h1.trans (idsFrom_set_none _ _)).trans (idsFrom_run _ _)⟩
  | exitToWaiter =>
    exact ⟨_, .keep, .inl rfl, ((h1.trans (idsFrom_modify _ _ (by simp [Task.wake]))).trans
      (idsFrom_set_none _ _)).trans (idsFrom_take _ _)⟩
  | exitToParent =>
    refine ⟨_, .keep, .inl rfl, ((h1.trans (idsFrom_modify _ _ (by simp))).trans
      (idsFrom_modify _ _ fun t => ?_)).trans (idsFrom_take _ _)⟩
    split <;> exact ⟨rfl, rfl⟩
  | killedAwaited =>
    exact ⟨_, .keep, .inl rfl, (idsFrom_modify m _ (by simp [Task.wake])).trans
      (idsFrom_set_none _ _)⟩
  | logout =>
    exact ⟨_, .keep, .inl rfl, (idsFrom_withoutUser m _).trans (idsFrom_modify _ _ (by simp))⟩

theorem pidInv (h : m.PidInv) (hleft : m.PidLeft) : m'.PidInv := by
  obtain ⟨m₁, ha, -, hfrom⟩ := hstep.ids
  exact (h.allots hleft ha).from hfrom

lemma pid_old_or_new {i : Nat} {t' : Task} (ht' : m'.tasks i = some t') :
    (∃ t, m.tasks i = some t ∧ t'.pid = t.pid) ∨ m.tasks i = none ∧ t'.pid = m.nextPid := by
  obtain ⟨m₁, ha, -, hfrom⟩ := hstep.ids
  obtain ⟨t, ht, hpid, -⟩ := hfrom.2 i t' ht'
  exact (ha.old_or_new ht).imp (fun hold => ⟨t, hold, hpid⟩) fun ⟨hfree, hnew⟩ =>
    ⟨hfree, hpid.trans hnew⟩

theorem pid_eq {i : Nat} {t t' : Task} (ht : m.tasks i = some t) (ht' : m'.tasks i = some t') :
    t'.pid = t.pid := by
  rcases hstep.pid_old_or_new ht' with ⟨u, hu, hpid⟩ | ⟨hfree, -⟩
  · rw [ht, Option.some.injEq] at hu
    rw [hpid, hu]
  · rw [ht] at hfree
    simp at hfree

end

end TaskStep

namespace Kernel

lemma initProcess_tasks (p4 : Nat) (i : Nat) (t : Task)
    (ht : (initProcess p4).machine.tasks i = some t) :
    i = 0 ∧ t = ((initProcess p4).procs 0).toTask := by
  obtain ⟨-, hlive, rfl⟩ := machine_tasks_some ht
  by_cases hi : i = 0
  · exact ⟨hi, by rw [hi]⟩
  · exact absurd (by simp [initProcess, hi, Process.zero]) hlive

lemma pidInv_initProcess (p4 : Nat) : (initProcess p4).machine.PidInv := by
  have hslots := initProcess_tasks p4
  refine ⟨fun i t ht => ?_, fun i j t u ht hu _ => ?_, fun i t ht => ?_, fun i t ht => ?_,
    fun i t ht => ?_, (by decide : (1 : UInt32) < 2)⟩
  · rw [(hslots i t ht).1]
    decide
  · rw [(hslots i t ht).1, (hslots j u hu).1]
  · rw [(hslots i t ht).2]
    exact (by decide : (1 : UInt32) ≠ 0)
  · rw [(hslots i t ht).2]
    exact (by decide : (1 : UInt32) < 2 ∧ (0 : UInt32) < 2)
  · rw [(hslots i t ht).2]
    exact (by decide : (0 : UInt32) ≠ 1)

end Kernel

end AosKernel.Proc
