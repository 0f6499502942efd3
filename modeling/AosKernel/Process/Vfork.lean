import AosKernel.Process.Exits
import AosKernel.Process.Pids

/-!
# The order of vfork

A process that has made a child with `CLONE_VM` and `CLONE_VFORK` is suspended in status `WAITING`
until the child loads a program or ends. `VforkInv` holds in every run whose steps are `VforkSafe`
(`Kernel.vfork_ordering`). The suspended parent shares its status with a process blocked in
`sys_wait4`, so the end of any other child releases it early (`other_child_releases_parent`).
-/

namespace AosKernel.Proc

open Lib Fd Function Option

namespace Machine

/-! ## Suspended parents -/

/-- Slot `p` is suspended by slot `v`, its vfork child. -/
def Suspended (m : Machine) (p v : Nat) : Prop :=
  ∃ P V, m.tasks p = some P ∧ m.tasks v = some V ∧ P.status ≠ .zombie ∧ V.status ≠ .zombie ∧
    V.vforkParent = P.pid ∧ P.vforkChild = V.pid

def Ended (m : Machine) (i : Nat) : Prop := ∀ t, m.tasks i = some t → t.status = .zombie

/-- What a suspended parent and its child look like. -/
structure SuspendedOk (P V : Task) : Prop where
  waiting : P.status = .waiting
  target : P.waitTarget = -1
  uid : P.uid = V.uid
  child : V.pid ≠ 1
  parent : V.isThread = false → V.parentPid = P.pid

/-- The invariant of the vfork suspensions. -/
structure VforkInv (m : Machine) : Prop where
  pids : m.PidInv
  target : ∀ i t, m.tasks i = some t → t.status ≠ .waiting → t.status ≠ .zombie → t.waitTarget = -1
  suspended : ∀ p v P V, m.tasks p = some P → m.tasks v = some V → P.status ≠ .zombie →
    V.status ≠ .zombie → V.vforkParent = P.pid → P.vforkChild = V.pid → SuspendedOk P V

/-- The entry respects the suspensions: a vfork shares the address space, no other child of a
suspended process ends, and no vfork child is killed that is not a child of the suspended
process. -/
def VforkSafe (m : Machine) : Op → Prop
  | .clone regs _ => hasFlag regs.rdi cloneVfork = true → hasFlag regs.rdi cloneVm = true
  | .exit _ _ => ∀ c, m.tasks m.current = some c → c.isThread = false → ∀ p P v,
      m.tasks p = some P → P.pid = c.parentPid → m.Suspended p v → v = m.current
  | .kill regs _ => ∀ i t, m.findPid regs.rdi.toUInt32 = some i → m.tasks i = some t → ∀ p P v,
      m.tasks p = some P → m.Suspended p v → (P.pid = t.parentPid ↔ v = i)
  | _ => True

section VforkInv

variable {m : Machine}

lemma Suspended.ok {p v : Nat} {P : Task} (h : m.VforkInv) (hs : m.Suspended p v)
    (hp : m.tasks p = some P) : P.status = .waiting ∧ P.waitTarget = -1 := by
  obtain ⟨P', V, hP, hV, hzP, hzV, hparent, hchild⟩ := hs
  rw [hp, some.injEq] at hP
  subst hP
  have hok := h.suspended p v P V hp hV hzP hzV hparent hchild
  exact ⟨hok.waiting, hok.target⟩

variable {i : Nat}

lemma VforkInv.not_suspended (h : m.VforkInv) {t : Task} (ht : m.tasks i = some t)
    (hstatus : t.status ≠ .waiting) (v : Nat) : ¬ m.Suspended i v :=
  fun hs => hstatus (hs.ok h ht).1

/-- A change of a task that a suspension does not see. -/
structure Unseen (t t' : Task) : Prop where
  pid : t'.pid = t.pid
  vforkParent : t'.vforkParent = t.vforkParent
  vforkChild : t'.vforkChild = t.vforkChild
  uid : t'.uid = t.uid
  parentPid : t'.parentPid = t.parentPid
  isThread : t'.isThread = t.isThread
  zombie : t'.status ≠ .zombie → t.status ≠ .zombie
  target : t'.status ≠ .waiting → t'.status ≠ .zombie → t'.waitTarget = -1

section

variable (h : m.VforkInv)
include h

/-- Tasks that are changed in ways that no suspension sees; a suspended process keeps waiting. -/
lemma VforkInv.changed {m' : Machine} (hpids : m'.PidInv)
    (hfrom : ∀ i t', m'.tasks i = some t' → ∃ t, m.tasks i = some t ∧ Unseen t t' ∧ (∀ v,
      m.Suspended i v → m'.Suspended i v → t'.status = .waiting ∧ t'.waitTarget = -1)) :
    m'.VforkInv where
  pids := hpids
  target := by
    intro i t' ht' hstatus hz
    obtain ⟨t, -, hunseen, -⟩ := hfrom i t' ht'
    exact hunseen.target hstatus hz
  suspended := by
    intro p v P' V' hP' hV' hzP hzV hparent hchild
    obtain ⟨P, hP, hunP, hkeep⟩ := hfrom p P' hP'
    obtain ⟨V, hV, hunV, -⟩ := hfrom v V' hV'
    have hparent' : V.vforkParent = P.pid := by rw [← hunV.vforkParent, hparent, hunP.pid]
    have hchild' : P.vforkChild = V.pid := by rw [← hunP.vforkChild, hchild, hunV.pid]
    have hold : m.Suspended p v :=
      ⟨P, V, hP, hV, hunP.zombie hzP, hunV.zombie hzV, hparent', hchild'⟩
    have hok := h.suspended p v P V hP hV (hunP.zombie hzP) (hunV.zombie hzV) hparent' hchild'
    obtain ⟨hwait, htarget⟩ := hkeep v hold ⟨P', V', hP', hV', hzP, hzV, hparent, hchild⟩
    refine ⟨hwait, htarget, by rw [hunP.uid, hunV.uid, hok.uid], ?_, fun hthread => ?_⟩
    · rw [hunV.pid]
      exact hok.child
    · rw [hunV.parentPid, hunP.pid]
      exact hok.parent (by rw [← hunV.isThread, hthread])

variable {t : Task} {f : Task → Task}

lemma Unseen.refl (ht : m.tasks i = some t) : Unseen t t :=
  ⟨rfl, rfl, rfl, rfl, rfl, rfl, id, h.target i t ht⟩

lemma VforkInv.modify (hids : ∀ t, (f t).pid = t.pid ∧ (f t).parentPid = t.parentPid)
    (hf : ∀ t, m.tasks i = some t → Unseen t (f t))
    (hkeep : ∀ t v, m.tasks i = some t → m.Suspended i v → (f t).status ≠ .zombie → (f t).status =
      .waiting ∧ (f t).waitTarget = -1) : (m.modify i f).VforkInv := by
  refine h.changed (h.pids.from (idsFrom_modify m i hids)) fun j t' ht' => ?_
  by_cases hj : j = i
  · subst hj
    simp only [modify_tasks, update_self, map_eq_some_iff] at ht'
    obtain ⟨t, ht, rfl⟩ := ht'
    refine ⟨t, ht, hf t ht, fun v hs hs' => hkeep t v ht hs ?_⟩
    obtain ⟨P, V, hP, -, hzP, -⟩ := hs'
    simp only [modify_tasks, update_self, ht, map_some, some.injEq] at hP
    exact hP ▸ hzP
  · have ht : m.tasks j = some t' := by simpa [update_of_ne hj] using ht'
    exact ⟨t', ht, Unseen.refl h ht, fun v hs _ => hs.ok h ht⟩

lemma VforkInv.set_none (i : Nat) : (m.set i none).VforkInv := by
  refine h.changed (h.pids.from (idsFrom_set_none m i)) fun j t' ht' => ?_
  have hj : j ≠ i := by
    rintro rfl
    simp at ht'
  have ht : m.tasks j = some t' := by simpa [update_of_ne hj] using ht'
  exact ⟨t', ht, Unseen.refl h ht, fun v hs _ => hs.ok h ht⟩

/-- The current slot is no matter of the suspensions. -/
theorem VforkInv.take (i : Nat) : (m.take i).VforkInv :=
  ⟨h.pids.from (idsFrom_take m i), h.target, h.suspended⟩

/-- A task that neither waits nor has ended goes on, with another status of that kind. -/
lemma VforkInv.rerun
    (hids : ∀ t, (f t).pid = t.pid ∧ (f t).parentPid = t.parentPid ∧ (f t).isThread = t.isThread ∧
      (f t).vforkParent = t.vforkParent ∧ (f t).vforkChild = t.vforkChild ∧ (f t).uid = t.uid ∧ (f
      t).waitTarget = t.waitTarget)
    (hold : ∀ t, m.tasks i = some t → t.status ≠ .waiting ∧ t.status ≠ .zombie) :
    (m.modify i f).VforkInv := by
  refine h.modify (fun t => ⟨(hids t).1, (hids t).2.1⟩) (fun t ht => ?_) fun t v ht hs _ => ?_
  · obtain ⟨hwait, hz⟩ := hold t ht
    obtain ⟨hpid, hppid, hthread, hparent, hchild, huid, htarget⟩ := hids t
    exact ⟨hpid, hparent, hchild, huid, hppid, hthread, fun _ => hz, fun _ _ => by
      rw [htarget]
      exact h.target i t ht hwait hz⟩
  · exact absurd hs (h.not_suspended ht (hold t ht).1 v)

theorem VforkInv.run {j : Nat} (hj : m.tasks j = some t) (hready : t.status = .ready) :
    (m.run j).VforkInv := by
  refine VforkInv.take (h.rerun (by simp) fun u hu => ?_) j
  rw [hj, some.injEq] at hu
  simp [← hu, hready]

end

end VforkInv

/-! ## The end of a suspension -/

section CompleteVfork

variable {m : Machine} {c : Nat} {t : Task}

/-- The parent that the end of a suspension finds. -/
def vforkParentOf (m : Machine) (c : Nat) (t : Task) : Option Nat :=
  (m.modify c fun t => { t with vforkParent := 0 }).find fun p =>
    p.pid == t.vforkParent && p.vforkChild == t.pid

/-- The end of the suspension that slot `c` holds is up to the slots `c` and the parent found. -/
lemma completeVfork_cases (ht : m.tasks c = some t) :
    t.vforkParent = 0 ∧ m.completeVfork c = m ∨
    t.vforkParent ≠ 0 ∧ m.vforkParentOf c t = none ∧
      m.completeVfork c = m.modify c (fun t => { t with vforkParent := 0 }) ∨
    ∃ p, t.vforkParent ≠ 0 ∧ m.vforkParentOf c t = some p ∧ m.completeVfork c =
      (m.modify c fun t => { t with vforkParent := 0 }).modify p fun t => { t with
        vforkChild := 0
        status := if t.status = .waiting then .ready else t.status } := by
  unfold completeVfork vforkParentOf
  rw [ht]
  dsimp only
  split
  · exact .inl ⟨by assumption, rfl⟩
  next h0 =>
  right
  split
  · next hfind => exact .inl ⟨h0, hfind, rfl⟩
  · next p hfind => exact .inr ⟨p, h0, hfind, rfl⟩

/-- What the end of the suspension that slot `c` holds does to slot `i`. -/
structure Completes (c : Nat) (t : Task) (i : Nat) (u u' : Task) : Prop where
  released : Released u u'
  self : i = c → u'.vforkParent = 0
  other : i ≠ c → u'.vforkParent = u.vforkParent
  parent : u'.vforkChild = u.vforkChild ∧ u'.status = u.status ∨
    u'.vforkChild = 0 ∧ u.pid = t.vforkParent ∧ u.vforkChild = t.pid

variable {i v : Nat} {u' : Task}

lemma completes_child (ht : m.tasks c = some t)
    (h : (m.modify c fun t => { t with vforkParent := 0 }).tasks i = some u') :
    ∃ u, m.tasks i = some u ∧ Completes c t i u u' := by
  by_cases hi : i = c
  · subst hi
    simp only [modify_tasks, update_self, ht, map_some, some.injEq] at h
    subst h
    exact ⟨t, ht, ⟨rfl, .inl rfl⟩, fun _ => rfl, fun h => absurd rfl h, .inl ⟨rfl, rfl⟩⟩
  · refine ⟨u', by simpa [update_of_ne hi] using h, Released.refl u', fun h => absurd h hi,
      fun _ => rfl, .inl ⟨rfl, rfl⟩⟩

lemma completeVfork_slot (ht : m.tasks c = some t) (h : (m.completeVfork c).tasks i = some u') :
    ∃ u, m.tasks i = some u ∧ Completes c t i u u' := by
  rcases completeVfork_cases ht with ⟨h0, hm⟩ | ⟨-, -, hm⟩ | ⟨p, h0, hfind, hm⟩
  · rw [hm] at h
    refine ⟨u', h, Released.refl u', ?_, fun _ => rfl, .inl ⟨rfl, rfl⟩⟩
    rintro rfl
    rw [ht, some.injEq] at h
    rw [← h, h0]
  · rw [hm] at h
    exact completes_child ht h
  rw [hm] at h
  by_cases hi : i = p
  · -- The parent: it was found by its pid and by the pid of its child.
    subst hi
    obtain ⟨-, w, hw, hpred⟩ := find_some hfind
    simp only [modify_tasks, update_self] at h hw
    simp only [hw, map_some, some.injEq] at h
    subst h
    obtain ⟨u, hu, hcompletes⟩ := completes_child (i := i) ht hw
    simp only [Bool.and_eq_true, beq_iff_eq] at hpred
    refine ⟨u, hu, ?_, hcompletes.self, hcompletes.other, .inr ⟨rfl, ?_, ?_⟩⟩
    · refine hcompletes.released.trans ⟨rfl, ?_⟩
      by_cases hwait : w.status = .waiting
      · exact .inr ⟨hwait, if_pos hwait⟩
      · exact .inl (if_neg hwait)
    · rw [← hcompletes.released.pid, hpred.1]
    · rcases hcompletes.parent with ⟨hc, -⟩ | ⟨-, -, hc⟩
      · rw [← hc, hpred.2]
      · exact hc
  · have hw : (m.modify c fun t => { t with vforkParent := 0 }).tasks i = some u' := by
      rw [modify_tasks, update_of_ne hi] at h
      exact h
    exact completes_child ht hw

variable {p : Nat} (h : m.VforkInv) (ht : m.tasks c = some t)
include h ht

lemma vforkParentOf_eq (hs : m.Suspended p c) :
    t.vforkParent ≠ 0 ∧ m.vforkParentOf c t = some p := by
  obtain ⟨P, V, hP, hV, -, -, hparent, hchild⟩ := hs
  rw [ht, some.injEq] at hV
  subst hV
  refine ⟨by rw [hparent]; exact h.pids.nonzero p P hP, ?_⟩
  cases hfind : m.vforkParentOf c t with
  | none =>
    have hsome : ∃ P', (m.modify c fun t => { t with vforkParent := 0 }).tasks p = some P' ∧
        P'.pid = P.pid ∧ P'.vforkChild = P.vforkChild := by
      by_cases hpc : p = c
      · subst hpc
        exact ⟨{ P with vforkParent := 0 }, by simp [hP], rfl, rfl⟩
      · exact ⟨P, by simpa [update_of_ne hpc] using hP, rfl, rfl⟩
    obtain ⟨P', hP', hpid', hchild'⟩ := hsome
    have hnone := find_none hfind (h.pids.bounded p P hP) hP'
    simp [hpid', hchild', hparent, hchild] at hnone
  | some i =>
    obtain ⟨-, u', hu', hpred⟩ := find_some hfind
    simp only [Bool.and_eq_true, beq_iff_eq] at hpred
    obtain ⟨u, hu, hcompletes⟩ := completes_child ht hu'
    rw [h.pids.distinct i p u P hu hP (by rw [← hcompletes.released.pid, hpred.1, hparent])]

/-- No suspension by slot `c` is left, and no new one has come. -/
lemma suspended_of_completeVfork (hs : (m.completeVfork c).Suspended p v) :
    v ≠ c ∧ m.Suspended p v := by
  obtain ⟨P', V', hP', hV', hzP, hzV, hparent, hchild⟩ := hs
  obtain ⟨P, hP, hcP⟩ := completeVfork_slot ht hP'
  obtain ⟨V, hV, hcV⟩ := completeVfork_slot ht hV'
  have hpid : P'.pid ≠ 0 := by
    rw [hcP.released.pid]
    exact h.pids.nonzero p P hP
  have hv : v ≠ c := fun hv => hpid (by rw [← hparent, hcV.self hv])
  refine ⟨hv, P, V, hP, hV, mt hcP.released.zombie_iff.2 hzP, mt hcV.released.zombie_iff.2 hzV,
    ?_, ?_⟩
  · rw [← hcV.other hv, hparent, hcP.released.pid]
  · rcases hcP.parent with ⟨hc, -⟩ | ⟨hc, -, -⟩
    · rw [← hc, hchild, hcV.released.pid]
    · rw [hc] at hchild
      exact absurd (by rw [← hcV.released.pid, ← hchild]) (h.pids.nonzero v V hV)

/-- The end of a suspension by a process that has not ended keeps the invariant. -/
lemma VforkInv.completeVfork (hz : t.status ≠ .zombie) : (m.completeVfork c).VforkInv where
  pids := h.pids.from (idsFrom_completeVfork m c)
  target := by
    intro i u' hu' hstatus hz'
    obtain ⟨u, hu, hc⟩ := completeVfork_slot ht hu'
    have htarget : u'.waitTarget = u.waitTarget := by rw [hc.released.same]
    rw [htarget]
    by_cases hw : u.status = .waiting
    · -- A released parent was suspended, so its wait target is -1.
      rcases hc.parent with ⟨-, hst⟩ | ⟨-, hpid, hchild⟩
      · exact absurd (hst.trans hw) hstatus
      · exact (h.suspended i c u t hu ht (by simp [hw]) hz hpid.symm hchild).target
    · exact h.target i u hu hw fun hzu => hz' ((hc.released.status_eq hw).trans hzu)
  suspended := by
    intro p v P' V' hP' hV' hzP hzV hparent hchild
    obtain ⟨hv, P0, V0, hP0, hV0, hzP0, hzV0, hparent0, hchild0⟩ :=
      suspended_of_completeVfork h ht ⟨P', V', hP', hV', hzP, hzV, hparent, hchild⟩
    obtain ⟨P, hP, hcP⟩ := completeVfork_slot ht hP'
    obtain ⟨V, hV, hcV⟩ := completeVfork_slot ht hV'
    rw [hP, some.injEq] at hP0
    rw [hV, some.injEq] at hV0
    subst hP0 hV0
    have hok := h.suspended p v P V hP hV hzP0 hzV0 hparent0 hchild0
    have hstatus : P'.status = P.status := by
      rcases hcP.parent with ⟨-, hst⟩ | ⟨hc, -, -⟩
      · exact hst
      · rw [hc] at hchild
        exact absurd (by rw [← hcV.released.pid, ← hchild]) (h.pids.nonzero v V hV)
    refine ⟨by rw [hstatus]; exact hok.waiting, by rw [hcP.released.same]; exact hok.target,
      by rw [hcP.released.same, hcV.released.same]; exact hok.uid,
      by rw [hcV.released.pid]; exact hok.child, fun hthread => ?_⟩
    rw [hcV.released.parentPid, hcP.released.pid]
    exact hok.parent (by rw [← hcV.released.isThread, hthread])

lemma Suspended.completeVfork (hs : m.Suspended p v) (hv : v ≠ c) :
    (m.completeVfork c).Suspended p v := by
  obtain ⟨P, V, hP, hV, hzP, hzV, hparent, hchild⟩ := hs
  obtain ⟨P', hP', hrelP⟩ := released_of_completeVfork (c := c) hP
  obtain ⟨V', hV', hrelV⟩ := released_of_completeVfork (c := c) hV
  obtain ⟨P0, hP0, hcP⟩ := completeVfork_slot ht hP'
  obtain ⟨V0, hV0, hcV⟩ := completeVfork_slot ht hV'
  rw [hP, some.injEq] at hP0
  rw [hV, some.injEq] at hV0
  subst hP0 hV0
  refine ⟨P', V', hP', hV', mt hrelP.zombie_iff.1 hzP, mt hrelV.zombie_iff.1 hzV, ?_, ?_⟩
  · rw [hcV.other hv, hrelP.pid, hparent]
  · rcases hcP.parent with ⟨hc, -⟩ | ⟨-, -, hc⟩
    · rw [hc, hchild, hrelV.pid]
    · -- The child of the parent found is slot `c` itself.
      exact absurd (h.pids.distinct v c V t hV ht (by rw [← hchild, hc])) hv

lemma Suspended.released (hs : m.Suspended p c) :
    ∃ P, (m.completeVfork c).tasks p = some P ∧ P.status = .ready := by
  obtain ⟨h0, hfind⟩ := vforkParentOf_eq h ht hs
  obtain ⟨-, u, hu, -⟩ := find_some hfind
  have hwait : u.status = .waiting := by
    obtain ⟨u0, hu0, hst⟩ := modify_from (R := fun t t' => t'.status = t.status)
      (f := fun t => { t with vforkParent := 0 }) (fun _ => rfl) m c (fun _ => rfl) hu
    rw [hst]
    exact (hs.ok h hu0).1
  rcases completeVfork_cases ht with ⟨h0', -⟩ | ⟨-, hnone, -⟩ | ⟨p', -, hsome, hm⟩
  · exact absurd h0' h0
  · simp [hfind] at hnone
  · rw [hfind, some.injEq] at hsome
    subst hsome
    rw [hm]
    exact ⟨_, by rw [modify_tasks, update_self, hu]; rfl, by simp [hwait]⟩

end CompleteVfork

/-! ## New processes -/

section New

variable {m : Machine} {c : Nat} {p : Task} (thread : Bool)

lemma VforkInv.created (h : m.VforkInv) (hleft : m.PidLeft) (hc : c < maxProcesses)
    (hfree : m.tasks c = none) (hp : m.tasks m.current = some p) :
    (m.created c p thread).VforkInv := by
  have hpids : (m.created c p thread).PidInv :=
    h.pids.add hleft hc hfree rfl (h.pids.childTask_parentPid hp thread)
  have hcases : ∀ i u, (m.created c p thread).tasks i = some u →
      u = childTask p m.nextPid thread ∨ m.tasks i = some u := by
    intro i u hu
    by_cases hi : i = c
    · subst hi
      exact .inl (by simpa [Machine.created] using hu.symm)
    · exact .inr (by simpa [Machine.created, update_of_ne hi] using hu)
  refine ⟨hpids, fun i u hu hstatus hz => ?_, fun q v Q V hQ hV hzQ hzV hparent hchild => ?_⟩
  · rcases hcases i u hu with rfl | hold
    · rfl
    · exact h.target i u hold hstatus hz
  · rcases hcases v V hV with rfl | hVold
    · exact absurd hparent.symm (hpids.nonzero q Q hQ)
    rcases hcases q Q hQ with rfl | hQold
    · exact absurd hchild.symm (hpids.nonzero v V hV)
    exact h.suspended q v Q V hQold hVold hzQ hzV hparent hchild

lemma vforked_pair (hfree : m.tasks c = none) (hp : m.tasks m.current = some p) :
    (m.vforked c p thread).tasks m.current = some { p with
      vforkChild := m.nextPid
      rax := UInt64.ofNat m.nextPid.toNat
      status := .waiting } ∧
    (m.vforked c p thread).tasks c = some { childTask p m.nextPid thread with
      status := .running, vforkParent := p.pid } := by
  have hne : m.current ≠ c := by
    rintro rfl
    rw [hp] at hfree
    simp at hfree
  exact ⟨by simp [vforked, update_of_ne hne, hp], by simp [vforked, update_of_ne hne.symm]⟩

lemma vforked_tasks (hfree : m.tasks c = none) (hp : m.tasks m.current = some p) {i : Nat}
    {u : Task} (hu : (m.vforked c p thread).tasks i = some u) :
    i = c ∧ u = { childTask p m.nextPid thread with status := .running, vforkParent := p.pid } ∨
    i = m.current ∧ u = { p with
      vforkChild := m.nextPid
      rax := UInt64.ofNat m.nextPid.toNat
      status := .waiting } ∨
    i ≠ c ∧ i ≠ m.current ∧ m.tasks i = some u := by
  obtain ⟨hparent, hchild⟩ := vforked_pair thread hfree hp
  by_cases hi : i = m.current
  · subst hi
    rw [hparent, some.injEq] at hu
    exact .inr (.inl ⟨rfl, hu.symm⟩)
  by_cases hic : i = c
  · subst hic
    rw [hchild, some.injEq] at hu
    exact .inl ⟨rfl, hu.symm⟩
  · exact .inr (.inr ⟨hic, hi, by
      simpa [vforked, update_of_ne hi, update_of_ne hic] using hu⟩)

lemma VforkInv.vforked (h : m.VforkInv) (hpids : (m.vforked c p thread).PidInv)
    (hfree : m.tasks c = none) (hp : m.tasks m.current = some p) (hwait : p.status ≠ .waiting)
    (hz : p.status ≠ .zombie) : (m.vforked c p thread).VforkInv := by
  have htarget : p.waitTarget = -1 := h.target _ p hp hwait hz
  refine ⟨hpids, fun i u hu hstatus hzu => ?_, fun q v Q V hQ hV hzQ hzV hparent hchild => ?_⟩
  · rcases vforked_tasks thread hfree hp hu with ⟨-, rfl⟩ | ⟨-, rfl⟩ | ⟨-, -, hold⟩
    · rfl
    · exact htarget
    · exact h.target i u hold hstatus hzu
  rcases vforked_tasks thread hfree hp hV with ⟨-, rfl⟩ | hVold
  · -- The new child: its parent is the current process.
    rcases vforked_tasks thread hfree hp hQ with ⟨-, rfl⟩ | ⟨-, rfl⟩ | ⟨-, hqc, hQold⟩
    · exact absurd hchild.symm (hpids.nonzero v _ hV)
    · refine ⟨rfl, htarget, rfl, fun h1 => ?_, fun hthread => ?_⟩
      · have hnext := h.pids.next
        rw [show m.nextPid = 1 from h1] at hnext
        exact absurd hnext (UInt32.lt_irrefl 1)
      · have hthread' : thread = false := hthread
        simp [childTask, hthread']
    · exact absurd (h.pids.distinct q m.current Q p hQold hp hparent.symm) hqc
  · -- An old child: its pid is not the new one.
    have hV0 : ∃ V0, m.tasks v = some V0 ∧ V.pid = V0.pid ∧ V.vforkParent = V0.vforkParent ∧
        V.uid = V0.uid ∧ V.parentPid = V0.parentPid ∧ V.isThread = V0.isThread ∧
        V0.status ≠ .zombie := by
      rcases hVold with ⟨rfl, rfl⟩ | ⟨-, -, hVm⟩
      · exact ⟨p, hp, rfl, rfl, rfl, rfl, rfl, hz⟩
      · exact ⟨V, hVm, rfl, rfl, rfl, rfl, rfl, hzV⟩
    obtain ⟨V0, hVm, hpidV, hparentV, huidV, hppidV, hthreadV, hzV0⟩ := hV0
    rcases vforked_tasks thread hfree hp hQ with ⟨-, rfl⟩ | ⟨-, rfl⟩ | ⟨-, -, hQold⟩
    · exact absurd hchild.symm (hpids.nonzero v V hV)
    · have hlt := (h.pids.below v V0 hVm).1
      rw [← hpidV, ← hchild] at hlt
      exact absurd hlt (UInt32.lt_irrefl _)
    have hok := h.suspended q v Q V0 hQold hVm hzQ hzV0 (by rw [← hparentV, hparent])
      (by rw [hchild, hpidV])
    exact ⟨hok.waiting, hok.target, by rw [huidV]; exact hok.uid, by rw [hpidV]; exact hok.child,
      fun hthread => by rw [hppidV]; exact hok.parent (by rw [← hthreadV, hthread])⟩

end New

/-! ## Suspensions under a step -/

section Suspended

variable {m m' : Machine} {p v : Nat}

section

variable (hs : m.Suspended p v)
include hs

/-- A suspension lasts as long as both tasks keep their marks and do not end. -/
lemma Suspended.of_marks
    (hp : ∀ P, m.tasks p = some P → P.status ≠ .zombie → ∃ P', m'.tasks p = some P' ∧ P'.status ≠
      .zombie ∧ P'.pid = P.pid ∧ P'.vforkChild = P.vforkChild)
    (hv : ∀ V, m.tasks v = some V → V.status ≠ .zombie → ∃ V', m'.tasks v = some V' ∧ V'.status ≠
      .zombie ∧ V'.pid = V.pid ∧ V'.vforkParent = V.vforkParent) : m'.Suspended p v := by
  obtain ⟨P, V, hP, hV, hzP, hzV, hparent, hchild⟩ := hs
  obtain ⟨P', hP', hzP', hpidP, hchildP⟩ := hp P hP hzP
  obtain ⟨V', hV', hzV', hpidV, hparentV⟩ := hv V hV hzV
  exact ⟨P', V', hP', hV', hzP', hzV', by rw [hparentV, hparent, hpidP],
    by rw [hchildP, hchild, hpidV]⟩

lemma Suspended.modify {i : Nat} {f : Task → Task}
    (hf : ∀ t, (f t).pid = t.pid ∧ (f t).vforkParent = t.vforkParent ∧ (f t).vforkChild =
      t.vforkChild)
    (hz : i = p ∨ i = v → ∀ t, m.tasks i = some t → t.status ≠ .zombie → (f t).status ≠ .zombie) :
    (m.modify i f).Suspended p v := by
  refine hs.of_marks (fun P hP hzP => ?_) fun V hV hzV => ?_
  · by_cases hi : p = i
    · subst hi
      exact ⟨f P, by simp [hP], hz (.inl rfl) P hP hzP, (hf P).1, (hf P).2.2⟩
    · exact ⟨P, by simpa [update_of_ne hi] using hP, hzP, rfl, rfl⟩
  · by_cases hi : v = i
    · subst hi
      exact ⟨f V, by simp [hV], hz (.inr rfl) V hV hzV, (hf V).1, (hf V).2.1⟩
    · exact ⟨V, by simpa [update_of_ne hi] using hV, hzV, rfl, rfl⟩

lemma Suspended.set_other {i : Nat} (t : Option Task) (hp : p ≠ i) (hv : v ≠ i) :
    (m.set i t).Suspended p v := by
  refine hs.of_marks (fun P hP hzP => ?_) fun V hV hzV => ?_
  · exact ⟨P, by simpa [update_of_ne hp] using hP, hzP, rfl, rfl⟩
  · exact ⟨V, by simpa [update_of_ne hv] using hV, hzV, rfl, rfl⟩

theorem Suspended.run (j : Nat) : (m.run j).Suspended p v :=
  hs.modify (f := fun t => { t with status := .running }) (by simp) (by simp)

theorem Suspended.take (j : Nat) : (m.take j).Suspended p v := hs

lemma Suspended.ne_current (h : m.VforkInv) (hact : m.Active) : p ≠ m.current :=
  hact.ne_current fun _ ht => .inl (hs.ok h ht).1

lemma Suspended.waitsFor (h : m.VforkInv) {P : Task} (hP : m.tasks p = some P) (pid : UInt32) :
    P.WaitsFor pid := by
  obtain ⟨hwait, htarget⟩ := hs.ok h hP
  exact ⟨hwait, by simp [waitPidMatches, htarget]⟩

end

lemma suspended_of_set_none {i : Nat} (hs : (m.set i none).Suspended p v) :
    v ≠ i ∧ m.Suspended p v := by
  obtain ⟨P, V, hP, hV, hrest⟩ := hs
  have hp : p ≠ i := by
    rintro rfl
    simp at hP
  have hv : v ≠ i := by
    rintro rfl
    simp at hV
  exact ⟨hv, P, V, by simpa [update_of_ne hp] using hP, by simpa [update_of_ne hv] using hV, hrest⟩

end Suspended

section Users

variable {m : Machine}

/-- The first process becomes another user: it is not a vfork child, and it is not suspended. -/
lemma VforkInv.setUid (h : m.VforkInv) {i : Nat} {t : Task} (ht : m.tasks i = some t)
    (hpid : t.pid = 1) (hwait : t.status ≠ .waiting) (hz : t.status ≠ .zombie) (uid : UInt32) :
    (m.modify i fun t => { t with uid := uid }).VforkInv := by
  have hcases : ∀ j u, (m.modify i fun t => { t with uid := uid }).tasks j = some u →
      j = i ∧ u = { t with uid := uid } ∨ m.tasks j = some u := by
    intro j u hu
    by_cases hj : j = i
    · subst hj
      exact .inl ⟨rfl, by simpa [ht] using hu.symm⟩
    · exact .inr (by simpa [update_of_ne hj] using hu)
  refine ⟨h.pids.from (idsFrom_modify m i (by simp)), fun j u hu hwu hzu => ?_,
    fun p v P V hP hV hzP hzV hparent hchild => ?_⟩
  · rcases hcases j u hu with ⟨-, rfl⟩ | hold
    · exact h.target i t ht hwait hz
    · exact h.target j u hold hwu hzu
  · rcases hcases v V hV with ⟨rfl, rfl⟩ | hVold
    · rcases hcases p P hP with ⟨rfl, rfl⟩ | hPold
      · exact absurd hpid (h.suspended _ _ t t ht ht hz hz hparent hchild).child
      · exact absurd hpid (h.suspended _ _ P t hPold ht hzP hz hparent hchild).child
    · rcases hcases p P hP with ⟨rfl, rfl⟩ | hPold
      · exact absurd (h.suspended _ _ t V ht hVold hz hzV hparent hchild).waiting hwait
      · exact h.suspended p v P V hPold hVold hzP hzV hparent hchild

lemma VforkInv.withoutUser (h : m.VforkInv) (p : Task) : (m.withoutUser p).VforkInv :=
  h.changed (h.pids.from (idsFrom_withoutUser m p)) fun _ t ht =>
    ⟨t, withoutUser_tasks ht, Unseen.refl h (withoutUser_tasks ht),
      fun _ hs _ => hs.ok h (withoutUser_tasks ht)⟩

end Users

end Machine

/-! ## Steps -/

namespace TaskStep

open Machine

variable {stored : Nat → UInt64 → UInt32 → Prop} {m m' : Machine} {op : Op} {out : Outcome}

/-- The parent that waits for the process that ends is not suspended by another one. -/
lemma not_suspended_of_exit (h : m.VforkInv) {code : UInt64} {prepare : Prepare}
    (hsafe : m.VforkSafe (.exit code prepare)) {c t : Task} {p : Nat}
    (hc : (m.completeVfork m.current).tasks m.current = some c) (hthread : c.isThread = false)
    (hfind : (m.completeVfork m.current).findPid c.parentPid = some p)
    (hp : (m.completeVfork m.current).tasks p = some t) (v : Nat) :
    ¬ (m.completeVfork m.current).Suspended p v := by
  intro hs
  obtain ⟨c0, hc0, hrelc⟩ := released_completeVfork hc
  obtain ⟨t0, ht0, hrelt⟩ := released_completeVfork hp
  obtain ⟨hv, hs0⟩ := suspended_of_completeVfork h hc0 hs
  obtain ⟨-, t', ht', hpid⟩ := find_some hfind
  rw [hp, some.injEq] at ht'
  subst ht'
  refine hv (hsafe c0 hc0 (by rw [← hrelc.isThread, hthread]) p t0 v ht0 ?_ hs0)
  rw [← hrelt.pid, ← hrelc.parentPid]
  simpa using hpid

/-- The machine in which a process ends whose parent waits for it, in the order in which the
suspensions are easier to see. -/
lemma killedAwaited_eq (m : Machine) {p i : Nat} (hne : p ≠ i) (f : Task → Task) :
    (m.modify p f).set i none = (m.set i none).modify p f := by
  unfold Machine.modify Machine.set
  simp only [update_of_ne hne]
  rw [update_comm hne]

lemma vforkInv (hstep : TaskStep stored m op out m') (hact : m.Active) (h : m.VforkInv)
    (hleft : m.PidLeft) (hsafe : m.VforkSafe op) : m'.VforkInv := by
  have hpids := hstep.pidInv h.pids hleft
  obtain ⟨q, hq, hqw, hqz⟩ := hact.current
  have hcurrent : ∀ t, m.tasks m.current = some t → t.status ≠ .waiting ∧ t.status ≠ .zombie := by
    intro t ht
    rw [hq, some.injEq] at ht
    exact ht ▸ ⟨hqw, hqz⟩
  have h1 := h.completeVfork hq hqz
  cases hstep with
  | refused => exact h
  | spend => exact ⟨hpids, h.target, h.suspended⟩
  | ignored => exact h
  | stay => exact h.rerun (by simp) hcurrent
  | @switch _ rax hop next n hne hn hready =>
    exact (h.rerun (by simp) hcurrent).run (t := n) (by simpa [update_of_ne hne] using hn) hready
  | create _ thread hop hc hfree hp => exact h.created thread hleft hc hfree hp
  | vfork regs copied thread hop hc hfree hp =>
    obtain ⟨hw, hz⟩ := hcurrent _ hp
    exact h.vforked thread hpids hfree hp hw hz
  | exec => exact h1
  | reap => exact h.set_none _
  | @block regs prepare j t p hj hp hready hchild =>
    have hne : j ≠ m.current := by
      rintro rfl
      rw [hp, some.injEq] at hj
      subst hj
      exact h.pids.parent _ _ hp hchild.1
    refine VforkInv.run (t := t) (h.modify (by simp) (fun u hu => ?_) ?_)
      (by simpa [update_of_ne hne] using hj) hready
    · exact ⟨rfl, rfl, rfl, rfl, rfl, rfl, fun _ => (hcurrent u hu).2, fun hw => absurd rfl hw⟩
    · exact fun u v hu hs _ => absurd hs (h.not_suspended hu (hcurrent u hu).1 v)
  | exitThread code prepare hc hthread hpid hj hready => exact (h1.set_none _).run hj hready
  | @exitToWaiter code prepare rax c t p hc hthread hpid hfind hp hwait =>
    refine ((h1.modify (by simp [Task.wake]) (fun u hu => ?_) ?_).set_none _).take _
    · rw [hp, some.injEq] at hu
      subst hu
      exact ⟨rfl, rfl, rfl, rfl, rfl, rfl, fun _ => by simp [hwait.1], fun _ _ => rfl⟩
    · exact fun u v _ hs _ => absurd hs (not_suspended_of_exit h hsafe hc hthread hfind hp v)
  | @exitToParent code prepare c t p hc hthread hpid hfind hp hwait hne hzombie =>
    have h2 : ((m.completeVfork m.current).zombied m.current (rawStatus code)).VforkInv := by
      refine h1.modify (by simp) (fun u hu => ?_) (by simp)
      exact ⟨rfl, rfl, rfl, rfl, rfl, rfl, fun hz => absurd rfl hz, fun _ hz => absurd rfl hz⟩
    have hp2 : ((m.completeVfork m.current).zombied m.current (rawStatus code)).tasks p =
        some t := by
      simpa [zombied, update_of_ne hne] using hp
    refine (h2.modify (fun u => ?_) (fun u hu => ?_) fun u v hu hs _ => ?_).take _
    · split <;> exact ⟨rfl, rfl⟩
    · rw [hp2, some.injEq] at hu
      subst hu
      split
      · exact ⟨rfl, rfl, rfl, rfl, rfl, rfl, fun _ => hzombie, fun _ _ => rfl⟩
      · exact ⟨rfl, rfl, rfl, rfl, rfl, rfl, id, h1.target p t hp⟩
    · -- A suspended parent waits for every child.
      rw [hp2, some.injEq] at hu
      exact absurd (hs.waitsFor h2 hp2 c.pid) hwait
  | killed =>
    refine h.modify (by simp) (fun u hu => ?_) (by simp)
    exact ⟨rfl, rfl, rfl, rfl, rfl, rfl, fun hz => absurd rfl hz, fun _ hz => absurd rfl hz⟩
  | @killedAwaited regs prepare rax i p t q' hi ht hfind hpid hzombie hne hp hparent hwait =>
    rw [killedAwaited_eq m hne]
    have hp' : (m.set i none).tasks p = some q' := by simpa [update_of_ne hne] using hp
    refine (h.set_none i).modify (by simp [Task.wake]) (fun u hu => ?_) fun u v hu hs _ => ?_
    · rw [hp', some.injEq] at hu
      subst hu
      exact ⟨rfl, rfl, rfl, rfl, rfl, rfl, fun _ => by simp [hwait.1], fun _ _ => rfl⟩
    · obtain ⟨hv, hs0⟩ := suspended_of_set_none hs
      exact absurd ((hsafe i t hfind ht p q' v hp hs0).1 hparent) hv
  | @pause regs i t hi ht hready =>
    refine h.rerun (by simp) fun u hu => ?_
    rw [ht, some.injEq] at hu
    simp [← hu, hready]
  | @resume regs i t ht hpaused =>
    refine h.rerun (by simp) fun u hu => ?_
    rw [ht, some.injEq] at hu
    simp [← hu, hpaused]
  | login regs installed verdict hp hpid =>
    obtain ⟨hw, hz⟩ := hcurrent _ hp
    exact h.setUid hp hpid hw hz sessionUid
  | @logout regs installed p hp hpid =>
    obtain ⟨hw, hz⟩ := hcurrent _ hp
    exact (h.withoutUser p).setUid (t := p) (by simp [withoutUser, hp]) hpid hw hz loginUid

end TaskStep

/-! ## What becomes of a suspension -/

/-- The entry loads a program into the process of slot `v`. -/
def Machine.Execs (m : Machine) (op : Op) (out : Outcome) (v : Nat) : Prop :=
  m.current = v ∧ out = .switched ∧ ∃ regs result, op = .exec regs result

/-- What a step does to the suspension of slot `p` by slot `v`. -/
inductive SuspensionStep (m : Machine) (op : Op) (out : Outcome) (m' : Machine) (p v : Nat) : Prop
  where
  /-- The parent has ended. -/
  | gone (h : m'.Ended p)
  /-- The suspension goes on. -/
  | lasts (h : m'.Suspended p v) (hexec : ¬ m.Execs op out v)
  /-- The child is done, and the parent can run. -/
  | released {P : Task} (hdone : m'.Ended v ∨ m.Execs op out v) (hP : m'.tasks p = some P)
      (hstatus : P.status = .ready ∨ P.status = .running)

namespace TaskStep

open Machine

variable {stored : Nat → UInt64 → UInt32 → Prop} {m m' : Machine} {op : Op} {out : Outcome}
  {p v : Nat}

lemma ended_none (h : m.tasks p = none) : m.Ended p := by
  intro t ht
  rw [h] at ht
  simp at ht

/-- The parent of the process that ends is ready before another process is chosen. -/
lemma suspended_exit (h : m.VforkInv) (hact : m.Active) (hs : m.Suspended p v) :
    p ≠ m.current ∧ ((v ≠ m.current ∧ (m.completeVfork m.current).Suspended p v) ∨
      v = m.current ∧ ∃ P, (m.completeVfork m.current).tasks p = some P ∧ P.status = .ready) := by
  obtain ⟨c, hc, -⟩ := hact.current
  refine ⟨hs.ne_current h hact, ?_⟩
  by_cases hv : v = m.current
  · subst hv
    exact .inr ⟨rfl, hs.released h hc⟩
  · exact .inl ⟨hv, hs.completeVfork h hc hv⟩

/-- A safe step ends a suspension only with the child or with the parent. -/
lemma suspension (hstep : TaskStep stored m op out m') (hact : m.Active) (h : m.VforkInv)
    (hsafe : m.VforkSafe op) (hs : m.Suspended p v) : SuspensionStep m op out m' p v := by
  obtain ⟨hpc, hexit⟩ := suspended_exit h hact hs
  have ⟨P, V, hP, hV, hzP, hzV, hparent, hchild⟩ := hs
  -- A step of another kind than `exec` loads no program.
  have hlasts : m'.Suspended p v → (∀ regs result, op ≠ .exec regs result) →
      SuspensionStep m op out m' p v := by
    intro hs' hop
    refine .lasts hs' ?_
    rintro ⟨-, -, regs, result, heq⟩
    exact hop regs result heq
  cases hstep with
  | refused | spend => exact .lasts hs (by simp [Machine.Execs])
  | ignored => exact hlasts hs (by simp)
  | stay _ _ rax hop =>
    refine hlasts (hs.modify (by simp) (by simp)) fun regs result heq => ?_
    simp [heq, Op.Yields] at hop
  | switch _ rax hop =>
    refine hlasts ((hs.modify (by simp) fun _ t _ hz => ?_).run _) fun regs result heq => ?_
    · split
      · simp
      · exact hz
    · simp [heq, Op.Yields] at hop
  | @create _ thread c q hop hc hfree =>
    refine hlasts (hs.set_other _ ?_ ?_) fun regs result heq => ?_
    · rintro rfl
      simp [hP] at hfree
    · rintro rfl
      simp [hV] at hfree
    · simp [heq, Machine.Creates] at hop
  | @vfork regs copied thread c q hop hc hfree =>
    have hpc' : p ≠ c := by
      rintro rfl
      simp [hP] at hfree
    have hvc : v ≠ c := by
      rintro rfl
      simp [hV] at hfree
    -- Only the mark of the current process for its child changes, and it is not suspended.
    refine hlasts (hs.of_marks (fun Q hQ hz => ?_) fun U hU hz => ?_) (by simp)
    · exact ⟨Q, by simpa [vforked, update_of_ne hpc, update_of_ne hpc'] using hQ, hz, rfl, rfl⟩
    · by_cases hv : v = m.current
      · subst hv
        simp [vforked, update_of_ne hvc, hU]
      · exact ⟨U, by simpa [vforked, update_of_ne hv, update_of_ne hvc] using hU, hz, rfl, rfl⟩
  | exec regs =>
    rcases hexit with ⟨hv, hs1⟩ | ⟨rfl, P', hP', hready⟩
    · refine .lasts hs1 ?_
      rintro ⟨heq, -⟩
      exact hv heq.symm
    · exact .released (.inr ⟨rfl, rfl, regs, _, rfl⟩) hP' (.inl hready)
  | @reap regs prepare z t q hz hq hzombie =>
    refine hlasts (hs.set_other _ ?_ ?_) (by simp)
    · rintro rfl
      rw [hP, some.injEq] at hz
      exact hzP (hz ▸ hzombie)
    · rintro rfl
      rw [hV, some.injEq] at hz
      exact hzV (hz ▸ hzombie)
  | block =>
    exact hlasts ((hs.modify (by simp) (by simp)).run _) (by simp)
  | @exitThread code prepare c next j hc hthread hpid hj =>
    rcases hexit with ⟨hv, hs1⟩ | ⟨rfl, P', hP', hready'⟩
    · exact hlasts ((hs1.set_other none hpc hv).run _) (by simp)
    have hjc : m.current ≠ j := by
      rintro rfl
      simp at hj
    have hP1 : ((m.completeVfork m.current).set m.current none).tasks p = some P' := by
      simpa [update_of_ne hpc] using hP'
    have hend : Ended (((m.completeVfork m.current).set m.current none).run j) m.current :=
      ended_none (by simp [update_of_ne hjc])
    by_cases hpj : p = j
    · subst hpj
      exact .released (.inl hend) (by rw [run_tasks, update_self, hP1]; rfl) (.inr rfl)
    · exact .released (.inl hend) (by rw [run_tasks, update_of_ne hpj, hP1]) (.inl hready')
  | @exitToWaiter code prepare rax c t q hc hthread hpid hfind hq hwait =>
    rcases hexit with ⟨hv, hs1⟩ | ⟨rfl, P', hP', hready'⟩
    · exact hlasts (((hs1.modify (by simp [Task.wake]) (by simp [Task.wake])).set_other none hpc
        hv).take q) (by simp)
    have hpq : p ≠ q := by
      rintro rfl
      rw [hP', some.injEq] at hq
      subst hq
      exact absurd hwait.1 (by simp [hready'])
    exact .released (.inl (ended_none (by simp))) (by
      simpa [update_of_ne hpc, update_of_ne hpq] using hP') (.inl hready')
  | @exitToParent code prepare c t q hc hthread hpid hfind hq hwait hne =>
    rcases hexit with ⟨hv, hs1⟩ | ⟨rfl, P', hP', hready'⟩
    · have hs2 : ((m.completeVfork m.current).zombied m.current (rawStatus code)).Suspended p v :=
        hs1.modify (by simp) fun hi => by
          rcases hi with rfl | rfl
          · exact absurd rfl hpc
          · exact absurd rfl hv
      refine hlasts ((hs2.modify (fun u => ?_) fun _ u _ hz => ?_).take q) (by simp)
      · split <;> exact ⟨rfl, rfl, rfl⟩
      · split
        · simp [Task.wake]
        · exact hz
    · have hend : Ended ((((m.completeVfork m.current).zombied m.current
          (rawStatus code)).modify q fun t => if t.status = .ready ∨ t.status = .waiting then
            t.wake t.rax .running else t).take q) m.current := by
        intro u hu
        simp only [zombied, take_tasks, modify_tasks, update_of_ne hne.symm,
          update_self, hc, map_some, some.injEq] at hu
        rw [← hu]
      by_cases hpq : p = q
      · subst hpq
        refine .released (.inl hend) (P := P'.wake P'.rax .running) ?_ (.inr rfl)
        simp [zombied, update_of_ne hne, hP', hready']
      · refine .released (.inl hend) (P := P') ?_ (.inl hready')
        simpa [zombied, update_of_ne hpq, update_of_ne hpc] using hP'
  | @killed regs prepare i t hi ht hfind hpid hzombie hwait =>
    by_cases hpi : p = i
    · subst hpi
      refine .gone fun u hu => ?_
      simp only [zombied, modify_tasks, update_self, ht, map_some, some.injEq] at hu
      rw [← hu]
    by_cases hvi : v = i
    · -- The parent of the child waits for it, so it is not left as a zombie.
      subst hvi
      have hpar : P.pid = t.parentPid := (hsafe v t hfind ht p P v hP hs).2 rfl
      have hP' : (m.zombied v (rawStatus regs.rsi)).tasks p = some P := by
        simpa [zombied, update_of_ne hpi] using hP
      have hpids : (m.zombied v (rawStatus regs.rsi)).PidInv :=
        h.pids.from (idsFrom_modify m v (by simp))
      exact absurd (hs.waitsFor h hP t.pid)
        (hwait p P (by rw [← hpar]; exact hpids.findPid_eq hP') hP')
    · refine hlasts (hs.modify (by simp) fun hi => ?_) (by simp)
      rcases hi with rfl | rfl
      · exact absurd rfl hpi
      · exact absurd rfl hvi
  | @killedAwaited regs prepare rax i q t Q hi ht hfind hpid hzombie hne hq hpar =>
    by_cases hpi : p = i
    · subst hpi
      exact .gone (ended_none (by simp))
    by_cases hvi : v = i
    · subst hvi
      have hpq : p = q := h.pids.distinct p q P Q hP hq (by
        rw [hpar]
        exact (hsafe v t hfind ht p P v hP hs).2 rfl)
      subst hpq
      refine .released (.inl (ended_none (by simp))) (P := P.wake rax .ready) ?_ (.inl rfl)
      simp [update_of_ne hpi, hP]
    · exact hlasts ((hs.modify (by simp [Task.wake]) (by simp [Task.wake])).set_other none hpi
        hvi) (by simp)
  | pause | resume | login => exact hlasts (hs.modify (by simp) (by simp)) (by simp)
  | @logout regs installed q hq =>
    have hne : P.pid ≠ q.pid := fun heq => hpc (h.pids.distinct p m.current P q hP hq heq)
    have huid := (h.suspended p v P V hP hV hzP hzV hparent hchild).uid
    by_cases hu : P.uid = q.uid
    · -- The parent is of the user whose processes end, and so is the child.
      refine .gone (ended_none ?_)
      simp [withoutUser, update_of_ne hpc, hP, hne, hu]
    · refine hlasts (Suspended.modify ?_ (by simp) (by simp)) (by simp)
      exact ⟨P, V, by simp [withoutUser, hP, hu], by simp [withoutUser, hV, ← huid, hu], hzP, hzV,
        hparent, hchild⟩

end TaskStep

/-! ## Runs -/

namespace Kernel

def Gone (k : Kernel) (pid : UInt32) : Prop :=
  ∀ i < maxProcesses, (k.procs i).pid = pid →
    (k.procs i).status = .dead ∨ (k.procs i).status = .zombie

/-- The entry loads a program into the process with the pid, or the process has ended after it. -/
def Finishes (k : Kernel) (op : Op) (pid : UInt32) : Prop :=
  ((k.procs k.current).pid = pid ∧ (k.step op).1 = .switched ∧ ∃ regs result,
    op = .exec regs result) ∨ (k.step op).2.Gone pid

/-- The entry respects the suspensions, and there is a pid to give out. -/
def VforkGood (k : Kernel) (op : Op) : Prop := k.machine.VforkSafe op ∧ k.machine.PidLeft

/-- The states of the `good` runs from `k₀` in which the process with the pid `parent` has made the
child `child` by a `sys_clone` with `CLONE_VFORK`, the child has neither loaded a program nor ended
since, and the parent has not ended. -/
inductive Outstanding (good : Kernel → Op → Prop) (k₀ : Kernel) (parent child : UInt32) :
    Kernel → Prop where
  | clone {k : Kernel} (regs : SyscallRegs) (copied : Nat) (h : k₀.Reaches good k)
      (hgood : good k (.clone regs copied)) (hvfork : hasFlag regs.rdi cloneVfork = true)
      (hop : k.machine.Creates (.clone regs copied))
      (hparent : (k.procs k.current).pid = parent) (hchild : k.nextPid = child) :
      Outstanding good k₀ parent child (k.step (.clone regs copied)).2
  | step {k : Kernel} (op : Op) (h : Outstanding good k₀ parent child k) (hgood : good k op)
      (hout : (k.step op).1 ≠ .halted) (hchild : ¬ k.Finishes op child)
      (hparent : ¬ (k.step op).2.Gone parent) : Outstanding good k₀ parent child (k.step op).2

lemma vforkInv_initProcess (p4 : Nat) : (initProcess p4).machine.VforkInv := by
  have hslots := initProcess_tasks p4
  refine ⟨pidInv_initProcess p4, fun i t ht _ _ => ?_, fun p v P V hP hV _ _ hparent _ => ?_⟩
  · rw [(hslots i t ht).2]
    rfl
  · rw [(hslots p P hP).2, (hslots v V hV).2] at hparent
    exact absurd hparent (by decide : (0 : UInt32) ≠ 1)

variable {k : Kernel}

lemma vforkInv_of_reaches {p4 : Nat} (h : (initProcess p4).Reaches VforkGood k) :
    k.machine.Active ∧ k.machine.VforkInv := by
  induction h with
  | start => exact ⟨active_initProcess p4, vforkInv_initProcess p4⟩
  | step op _ hgood hout ih =>
    obtain ⟨hcur, hlive, -⟩ := current_of_active ih.1
    exact ⟨active_step ih.1 op hout,
      (step_refines op hcur hlive hout).vforkInv ih.1 ih.2 hgood.2 hgood.1⟩

/-- The suspension of the process with the pid `parent` by the one with the pid `child`. -/
structure SuspendedPids (m : Machine) (parent child : UInt32) (p v : Nat) : Prop where
  suspended : m.Suspended p v
  parentPid : ∀ P, m.tasks p = some P → P.pid = parent
  childPid : ∀ V, m.tasks v = some V → V.pid = child

lemma gone_iff_ended {op : Op} (hcur : k.current < maxProcesses)
    (hlive : k.Alive) (hout : (k.step op).1 ≠ .halted)
    (h : k.machine.VforkInv) {i : Nat} {t : Task} (ht : k.machine.tasks i = some t) :
    (k.step op).2.Gone t.pid ↔ (k.step op).2.machine.Ended i := by
  have hstep := step_refines op hcur hlive hout
  constructor
  · intro hgone t' ht'
    have hpid := hstep.pid_eq ht ht'
    obtain ⟨hi, hlive', rfl⟩ := machine_tasks_some ht'
    exact (hgone i hi hpid).resolve_left hlive'
  · intro hend j hj hpid
    by_cases hdead : ((k.step op).2.procs j).status = .dead
    · exact .inl hdead
    refine .inr ?_
    have hj' := machine_tasks_eq hj hdead
    rcases hstep.pid_old_or_new hj' with ⟨u, hu, hpidu⟩ | ⟨-, hnew⟩
    · obtain rfl := h.pids.distinct j i u t hu ht (by rw [← hpidu]; exact hpid)
      exact hend _ hj'
    · have hlt := (h.pids.below i t ht).1
      rw [← hnew, show ((k.step op).2.procs j).toTask.pid = t.pid from hpid] at hlt
      exact absurd hlt (UInt32.lt_irrefl t.pid)

/-- A vfork in the address space of the parent goes on with the child. -/
lemma switched_of_vfork {regs : SyscallRegs} {copied : Nat}
    (hvfork : hasFlag regs.rdi cloneVfork = true) (hvm : hasFlag regs.rdi cloneVm = true)
    (hop : k.machine.Creates (.clone regs copied)) :
    (k.step (.clone regs copied)).1 = .switched := by
  rw [Machine.Creates, if_neg (by simp [hvm])] at hop
  obtain ⟨hptr, htid, hroom⟩ := hop
  simp only [step, finish_fst]
  unfold sysClone
  rw [if_neg (by simp [hvm]), if_neg hptr, if_neg htid]
  cases hslot : k.freeSlot with
  | none => exact absurd hroom (freeSlot_none hslot)
  | some child =>
    dsimp only
    rw [if_pos hvfork]

lemma suspended_clone {regs : SyscallRegs} {copied : Nat} (hact : k.machine.Active)
    (hout : (k.step (.clone regs copied)).1 = .switched) :
    ∃ v, SuspendedPids (k.step (.clone regs copied)).2.machine (k.procs k.current).pid k.nextPid
      k.current v := by
  obtain ⟨hcur, hlive, -, hz⟩ := current_of_active hact
  have hp := machine_tasks_eq hcur hlive
  have hstep := step_refines (.clone regs copied) hcur hlive (by simp [hout])
  rw [hout] at hstep
  generalize (k.step (.clone regs copied)).2.machine = m' at hstep
  cases hstep with
  | stay _ _ rax hop | switch _ rax hop => exact absurd hop (by simp [Op.Yields])
  | @vfork _ _ thread c p hop hc hfree hp' =>
    have hpt : p = (k.procs k.current).toTask := by
      rw [show k.machine.current = k.current from rfl, hp, some.injEq] at hp'
      exact hp'.symm
    obtain ⟨hparent, hchild⟩ := Machine.vforked_pair thread hfree hp'
    refine ⟨c, ⟨_, _, hparent, hchild, by simp, by simp, rfl, rfl⟩, fun P hP => ?_, fun V hV => ?_⟩
    · rw [show k.machine.current = k.current from rfl, hP, some.injEq] at hparent
      rw [hparent, hpt]
      rfl
    · rw [hV, some.injEq] at hchild
      rw [hchild]
      rfl

lemma Outstanding.suspended {p4 : Nat} {parent child : UInt32}
    (h : (initProcess p4).Outstanding VforkGood parent child k) :
    (initProcess p4).Reaches VforkGood k ∧ ∃ p v, SuspendedPids k.machine parent child p v := by
  induction h with
  | clone regs copied hreach hgood hvfork hop hparent hchild =>
    obtain ⟨hact, -⟩ := vforkInv_of_reaches hreach
    have hout := switched_of_vfork hvfork (hgood.1 hvfork) hop
    obtain ⟨v, hs⟩ := suspended_clone hact hout
    rw [hparent, hchild] at hs
    exact ⟨.step _ hreach hgood (by simp [hout]), _, v, hs⟩
  | @step k op h hgood hout hchild hparent ih =>
    obtain ⟨hreach, p, v, hs, hpp, hpv⟩ := ih
    obtain ⟨hact, hinv⟩ := vforkInv_of_reaches hreach
    obtain ⟨hcur, hlive, -⟩ := current_of_active hact
    have hstep := step_refines op hcur hlive hout
    refine ⟨.step op hreach hgood hout, p, v, ?_⟩
    have ⟨P, V, hP, hV, _⟩ := hs
    cases hstep.suspension hact hinv hgood.1 hs with
    | gone hend =>
      refine absurd ?_ hparent
      rw [← hpp P hP]
      exact (gone_iff_ended hcur hlive hout hinv hP).2 hend
    | lasts hs' =>
      refine ⟨hs', fun P' hP' => ?_, fun V' hV' => ?_⟩
      · rw [hstep.pid_eq hP hP', hpp P hP]
      · rw [hstep.pid_eq hV hV', hpv V hV]
    | released hdone =>
      refine absurd ?_ hchild
      rcases hdone with hend | ⟨hcurv, hswitched, hop⟩
      · refine .inr ?_
        rw [← hpv V hV]
        exact (gone_iff_ended hcur hlive hout hinv hV).2 hend
      refine .inl ⟨?_, hswitched, hop⟩
      rw [← hcurv, show k.machine.current = k.current from rfl, machine_tasks_eq hcur hlive,
        some.injEq] at hV
      rw [← hpv V (by rw [← hV, ← hcurv]; exact machine_tasks_eq hcur hlive), ← hV]
      rfl

end Kernel

/-- A task step that stops the machine would be a request for another process. -/
lemma TaskStep.yields_of_halted {stored : Nat → UInt64 → UInt32 → Prop} {m m' : Machine}
    {op : Op} (hstep : TaskStep stored m op .halted m') : op.Yields := by
  cases hstep with
  | stay _ _ rax hop => exact hop

namespace Kernel

lemma exit_of_halted {k : Kernel} {op : Op} (hcur : k.current < maxProcesses) (hlive : k.Alive)
    (hout : (k.step op).1 = .halted) : ∃ code prepare, op = .exit code prepare := by
  by_contra hexit
  have hstep := step_refines_or_exit op hcur hlive
    fun code prepare hop => absurd ⟨code, prepare, hop⟩ hexit
  rw [hout] at hstep
  have hyields := hstep.yields_of_halted
  cases op with
  | schedule =>
    simp only [step] at hout
    split at hout <;> simp at hout
  | timer => simp [step] at hout
  | _ => exact hyields

/-- The end of a process that has a ready parent, or of a thread beside a ready process, does not
stop the machine. -/
lemma exit_not_halted {k : Kernel} {code : UInt64} {prepare : Prepare} {p : Nat}
    (hcan : k.CanRun k.current p) (hparent : (k.procs k.current).isThread = false →
      k.findProcessByPid (k.procs k.current).parentPid = some p) :
    (k.step (.exit code prepare)).1 ≠ .halted := by
  have hfinds : k.FindsSuccessor := by
    by_cases hthread : (k.procs k.current).isThread = true
    · exact .inl hthread
    · exact .inr (.inr ⟨p, hparent (by simpa using hthread), hcan⟩)
  unfold step
  dsimp only
  split
  · simp
  · exact fun hhalt => ((exit_hands_over prepare code).2 hfinds).2 hhalt p hcan

/-- **The order of vfork.** In every run from `init_process` whose steps respect the suspensions, as
long as a vfork child is outstanding its parent waits and is not loaded. The end of the child does
not stop the machine, and after the step that ends the child or loads its program the parent is
ready or running, unless it has ended itself. -/
theorem vfork_ordering {p4 : Nat} {k : Kernel} {parent child : UInt32}
    (h : (initProcess p4).Outstanding VforkGood parent child k) :
    (∃ p < maxProcesses, (k.procs p).pid = parent ∧ (k.procs p).status = .waiting) ∧
      (k.procs k.loaded).pid ≠ parent ∧
      ∀ op, k.VforkGood op →
        ((k.step op).1 = .halted → (k.procs k.current).pid ≠ child) ∧
        ((k.step op).1 ≠ .halted → k.Finishes op child → ¬ (k.step op).2.Gone parent →
          ∃ p < maxProcesses, ((k.step op).2.procs p).pid = parent ∧
            (((k.step op).2.procs p).status = .ready ∨
              ((k.step op).2.procs p).status = .running)) := by
  obtain ⟨hreach, p, v, hs, hpp, hpv⟩ := h.suspended
  obtain ⟨hact, hinv⟩ := vforkInv_of_reaches hreach
  obtain ⟨hcur, hlive, -⟩ := current_of_active hact
  have ⟨P, V, hP, hV, hzP, hzV, hparent, hchild⟩ := hs
  have hpc := hs.ne_current hinv hact
  have hwait := (hs.ok hinv hP).1
  have hcurTask := machine_tasks_eq hcur hlive
  have hloaded : k.loaded = k.current := hact.loaded
  refine ⟨?_, ?_, fun op hgood => ⟨fun hhalt hpid => ?_, fun hout hdone halive => ?_⟩⟩
  · obtain ⟨hp, -, rfl⟩ := machine_tasks_some hP
    exact ⟨p, hp, hpp _ hP, hwait⟩
  · intro hpid
    rw [hloaded] at hpid
    exact hpc (hinv.pids.distinct p k.current P _ hP hcurTask (by rw [hpp P hP]; exact hpid.symm))
  · obtain ⟨code, prepare, rfl⟩ := exit_of_halted hcur hlive hhalt
    have hv : v = k.current :=
      hinv.pids.distinct v k.current V _ hV hcurTask (by rw [hpv V hV]; exact hpid.symm)
    subst hv
    obtain ⟨P', hP', hready⟩ := hs.released hinv hV
    rw [← machine_exitPrologue prepare hcur hlive] at hP'
    obtain ⟨hp, -, rfl⟩ := machine_tasks_some hP'
    have hstatus := (exitPrologue_status k prepare k.current p).symm.trans hready
    refine exit_not_halted ⟨hp, hpc, .inl hstatus⟩ (fun hthread => ?_) hhalt
    have hpar : V.isThread = false → V.parentPid = P.pid :=
      (hinv.suspended p k.current P V hP hV hzP hzV hparent hchild).parent
    rw [hcurTask, some.injEq] at hV
    subst hV
    rw [findProcessByPid_eq, show (k.procs k.current).parentPid = P.pid from hpar hthread]
    exact hinv.pids.findPid_eq hP
  · have hstep := step_refines op hcur hlive hout
    cases hstep.suspension hact hinv hgood.1 hs with
    | gone hend =>
      refine absurd ?_ halive
      rw [← hpp P hP]
      exact (gone_iff_ended hcur hlive hout hinv hP).2 hend
    | lasts hs' hexec =>
      rcases hdone with ⟨hpid, hswitched, hop⟩ | hgone
      · exact absurd ⟨hinv.pids.distinct k.current v _ V hcurTask hV (by
          rw [hpv V hV]
          exact hpid), hswitched, hop⟩ hexec
      · rw [← hpv V hV] at hgone
        obtain ⟨P', V', -, hV', -, hzV', -⟩ := hs'
        exact absurd ((gone_iff_ended hcur hlive hout hinv hV).1 hgone V' hV') hzV'
    | released hend hP' hstatus =>
      have hpid := hstep.pid_eq hP hP'
      rw [hpp P hP] at hpid
      obtain ⟨hp, -, rfl⟩ := machine_tasks_some hP'
      exact ⟨p, hp, hpid, hstatus⟩

def vforkRegs : SyscallRegs := { SyscallRegs.zero with rdi := cloneVm ||| cloneVfork }

/-- A fork, and a vfork of a third process that gives way to the second one, which ends. -/
def otherChildEnds : Kernel := (initProcess 1).run
  [.fork .zero 2, .clone vforkRegs 0, .schedule .zero, .exit 0 fun _ _ => true]

/-- A vfork without `CLONE_VM`. -/
def vforkCopied : Kernel :=
  (initProcess 1).run [.clone { SyscallRegs.zero with rdi := cloneVfork } 2]

/-- The first process is loaded while its vfork child has not loaded a program: after the end of
another child, and at once after a vfork without `CLONE_VM`, which is a fork. -/
theorem other_child_releases_parent :
    ((initProcess 1).Outstanding (fun _ _ => True) 1 3 otherChildEnds ∧
      (otherChildEnds.procs otherChildEnds.loaded).pid = 1) ∧
    (initProcess 1).Outstanding (fun _ _ => True) 1 2 vforkCopied ∧
      (vforkCopied.procs vforkCopied.loaded).pid = 1 := by
  have hgone : ∀ {k : Kernel} {pid : UInt32} {i : Nat}, i < maxProcesses → (k.procs i).pid = pid →
      (k.procs i).status ≠ .dead ∧ (k.procs i).status ≠ .zombie → ¬ k.Gone pid :=
    fun hi hpid ⟨hdead, hz⟩ h => (h _ hi hpid).elim hdead hz
  have hroom : ∀ {k : Kernel}, (k.procs 5).status = .dead → k.machine.HasRoom :=
    fun hdead => ⟨5, by decide, machine_tasks_none hdead⟩
  refine ⟨⟨.step _ (.step _ (.clone vforkRegs 0 (.step (.fork .zero 2) .start trivial
    (by decide +kernel)) trivial rfl ⟨by decide, by decide, hroom (by decide +kernel)⟩
    (by decide +kernel) (by decide +kernel))
    trivial (by decide +kernel) ?_ ?_) trivial (by decide +kernel) ?_ ?_, by decide +kernel⟩,
    .clone _ 2 .start trivial rfl ⟨by decide, hroom (by decide +kernel)⟩ rfl rfl, by decide +kernel⟩
  · rintro (⟨-, -, regs, result, hop⟩ | h)
    · simp at hop
    · exact hgone (i := 2) (by decide) (by decide +kernel) (by decide +kernel) h
  · exact hgone (i := 0) (by decide) (by decide +kernel) (by decide +kernel)
  · rintro (⟨-, -, regs, result, hop⟩ | h)
    · simp at hop
    · exact hgone (i := 2) (by decide) (by decide +kernel) (by decide +kernel) h
  · exact hgone (i := 0) (by decide) (by decide +kernel) (by decide +kernel)

/-- The vfork child of the first process loads a program, and the first process can run again. -/
theorem exec_releases_parent :
    ∃ p < maxProcesses,
      ((((initProcess 1).run [.clone vforkRegs 0]).step
        (.exec .zero (.loaded 2 0 0 []))).2.procs p).pid = 1 ∧
      (((((initProcess 1).run [.clone vforkRegs 0]).step
          (.exec .zero (.loaded 2 0 0 []))).2.procs p).status = .ready ∨
        ((((initProcess 1).run [.clone vforkRegs 0]).step
          (.exec .zero (.loaded 2 0 0 []))).2.procs p).status = .running) := by
  have h : (initProcess 1).Outstanding VforkGood 1 2 ((initProcess 1).run [.clone vforkRegs 0]) :=
    .clone vforkRegs 0 .start ⟨fun _ => rfl, (by decide : (2 : UInt32) < 0xFFFFFFFF)⟩ rfl
      ⟨by decide, by decide, 5, by decide, by decide +kernel⟩ rfl rfl
  refine ((vfork_ordering h).2.2 (.exec .zero (.loaded 2 0 0 [])) ⟨trivial, ?_⟩).2
    (by decide +kernel) (.inl ⟨by decide +kernel, by decide +kernel, _, _, rfl⟩) fun hgone => ?_
  · exact (by decide +kernel : ((initProcess 1).run [.clone vforkRegs 0]).nextPid < 0xFFFFFFFF)
  · have hstatus : ((((initProcess 1).run [.clone vforkRegs 0]).step
        (.exec .zero (.loaded 2 0 0 []))).2.procs 0).status = .ready := by decide +kernel
    have := hgone 0 (by decide) (by decide +kernel)
    simp [hstatus] at this

end Kernel

end AosKernel.Proc
