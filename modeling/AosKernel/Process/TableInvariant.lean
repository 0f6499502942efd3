import AosKernel.Process.Refinement

/-!
# The process table invariant

`TableInv`: exactly one slot runs and it is the current one, the pids of the slots in use are
distinct, and the loaded registers are those of a process that is not paused, waiting or a zombie.
Two kernel entries break it (`tableInv_step_iff`). In one of them `process_exit_and_wake_parent`
runs a paused parent and leaves its status as it is (`exit_to_paused_parent`). -/

namespace AosKernel.Proc

open Lib Fd Function Option

namespace Machine

/-! ## The pids of the slots in use -/

def DistinctPids (m : Machine) : Prop :=
  ∀ i j t u, m.tasks i = some t → m.tasks j = some u → t.pid = u.pid → i = j

/-- The slots in use of `m'` were in use in `m`, with the same pid. -/
def PidsFrom (m m' : Machine) : Prop :=
  ∀ i t', m'.tasks i = some t' → ∃ t, m.tasks i = some t ∧ t.pid = t'.pid

lemma PidsFrom.refl (m : Machine) : PidsFrom m m := fun _ t h => ⟨t, h, rfl⟩

variable {m m' : Machine}

theorem PidsFrom.trans {m'' : Machine} (h : PidsFrom m m') (h' : PidsFrom m' m'') :
    PidsFrom m m'' := by
  intro i t'' ht''
  obtain ⟨t', ht', hpid'⟩ := h' i t'' ht''
  obtain ⟨t, ht, hpid⟩ := h i t' ht'
  exact ⟨t, ht, hpid.trans hpid'⟩

lemma PidsFrom.distinct (h : PidsFrom m m') (hm : m.DistinctPids) : m'.DistinctPids := by
  intro i j t' u' hi hj hpid
  obtain ⟨t, ht, htp⟩ := h i t' hi
  obtain ⟨u, hu, hup⟩ := h j u' hj
  exact hm i j t u ht hu (by rw [htp, hup, hpid])

variable {f : Task → Task}

lemma pidsFrom_modify (m : Machine) (i : Nat) (hf : ∀ t, (f t).pid = t.pid) :
    PidsFrom m (m.modify i f) := by
  intro j t' ht'
  by_cases hj : j = i
  · subst hj
    simp only [modify_tasks, update_self, map_eq_some_iff] at ht'
    obtain ⟨t, ht, rfl⟩ := ht'
    exact ⟨t, ht, (hf t).symm⟩
  · exact ⟨t', by simpa [update_of_ne hj] using ht', rfl⟩

lemma distinctPids_modify (m : Machine) (i : Nat) (hf : ∀ t, (f t).pid = t.pid) :
    (m.modify i f).DistinctPids ↔ m.DistinctPids := by
  refine ⟨fun h => PidsFrom.distinct (fun j t ht => ?_) h, (pidsFrom_modify m i hf).distinct⟩
  by_cases hj : j = i
  · subst hj
    exact ⟨f t, by simp [ht], hf t⟩
  · exact ⟨t, by simpa [update_of_ne hj] using ht, rfl⟩

variable {i : Nat}

lemma distinctPids_set_some (h : m.DistinctPids) (t : Task) (hfree : m.tasks i = none) :
    (m.set i (some t)).DistinctPids ↔ ∀ j u, m.tasks j = some u → u.pid ≠ t.pid := by
  constructor
  · intro hset j u hu hpid
    have hj : j ≠ i := by
      rintro rfl
      rw [hu] at hfree
      simp at hfree
    exact hj (hset j i u t (by simpa [update_of_ne hj] using hu) (by simp) hpid)
  · intro hnew j l u v hu hv hpid
    -- Two old slots are distinct by hypothesis, an old one and the new one by `hnew`.
    by_cases hj : j = i <;> by_cases hl : l = i
    · rw [hj, hl]
    · subst hj
      simp only [set_tasks, update_self, some.injEq] at hu
      exact absurd (hpid.symm.trans (congrArg Task.pid hu.symm))
        (hnew l v (by simpa [update_of_ne hl] using hv))
    · subst hl
      simp only [set_tasks, update_self, some.injEq] at hv
      exact absurd (hpid.trans (congrArg Task.pid hv.symm))
        (hnew j u (by simpa [update_of_ne hj] using hu))
    · exact h j l u v (by simpa [update_of_ne hj] using hu)
        (by simpa [update_of_ne hl] using hv) hpid

lemma pidsFrom_set_none (m : Machine) (i : Nat) : PidsFrom m (m.set i none) := by
  intro j t' ht'
  by_cases hj : j = i
  · subst hj
    simp at ht'
  · exact ⟨t', by simpa [update_of_ne hj] using ht', rfl⟩

lemma pidsFrom_take (m : Machine) (i : Nat) : PidsFrom m (m.take i) :=
  PidsFrom.refl m

lemma pidsFrom_run (m : Machine) (i : Nat) : PidsFrom m (m.run i) :=
  pidsFrom_modify m i fun _ => rfl

/-! ## The slots that run -/

def RunsOnly (m : Machine) (r : Nat → Prop) : Prop :=
  ∀ i t, m.tasks i = some t → (t.status = .running ↔ r i)

section RunsOnly

variable {m : Machine} {r r' : Nat → Prop} {i : Nat}

lemma RunsOnly.modify (h : m.RunsOnly r) {f : Task → Task}
    (hf : ∀ t, m.tasks i = some t → ((f t).status = .running ↔ r' i))
    (hr : ∀ j, j ≠ i → (r j ↔ r' j)) : (m.modify i f).RunsOnly r' := by
  intro j t' ht'
  by_cases hj : j = i
  · subst hj
    simp only [modify_tasks, update_self, map_eq_some_iff] at ht'
    obtain ⟨t, ht, rfl⟩ := ht'
    exact hf t ht
  · rw [← hr j hj]
    exact h j t' (by simpa [update_of_ne hj] using ht')

lemma RunsOnly.set_none (h : m.RunsOnly r) (hr : ∀ j, j ≠ i → (r j ↔ r' j)) :
    (m.set i none).RunsOnly r' := by
  intro j t' ht'
  by_cases hj : j = i
  · subst hj
    simp at ht'
  · rw [← hr j hj]
    exact h j t' (by simpa [update_of_ne hj] using ht')

lemma RunsOnly.set_some (h : m.RunsOnly r) {t : Task} (ht : t.status = .running ↔ r' i)
    (hr : ∀ j, j ≠ i → (r j ↔ r' j)) : (m.set i (some t)).RunsOnly r' := by
  intro j t' ht'
  by_cases hj : j = i
  · subst hj
    simp only [set_tasks, update_self, some.injEq] at ht'
    rw [← ht']
    exact ht
  · rw [← hr j hj]
    exact h j t' (by simpa [update_of_ne hj] using ht')

/-- A slot that was not running is the next to run. -/
theorem RunsOnly.run (h : m.RunsOnly fun _ => False) (j : Nat) :
    (m.run j).RunsOnly fun i => i = j :=
  h.modify (fun _ _ => by simp) fun _ hi => by simp [hi]

end RunsOnly

/-! ## The end of a suspension -/

variable {t t' : Task}

@[simp] lemma completeVfork_current (m : Machine) (c : Nat) :
    (m.completeVfork c).current = m.current := by
  unfold completeVfork
  split
  · rfl
  split
  · rfl
  dsimp only
  split <;> rfl

@[simp] lemma completeVfork_loaded (m : Machine) (c : Nat) :
    (m.completeVfork c).loaded = m.loaded := by
  unfold completeVfork
  split
  · rfl
  split
  · rfl
  dsimp only
  split <;> rfl

lemma pidsFrom_completeVfork (m : Machine) (c : Nat) : PidsFrom m (m.completeVfork c) := by
  intro i t' ht'
  obtain ⟨t, ht, hrel⟩ := released_completeVfork ht'
  exact ⟨t, ht, hrel.pid.symm⟩

lemma RunsOnly.completeVfork {r : Nat → Prop} (h : m.RunsOnly r) (c : Nat) :
    (m.completeVfork c).RunsOnly r := by
  intro i t' ht'
  obtain ⟨t, ht, hrel⟩ := released_completeVfork ht'
  rw [hrel.running_iff]
  exact h i t ht

/-! ## The invariant -/

structure Inv (m : Machine) : Prop where
  loaded : m.loaded = m.current
  current : ∃ t, m.tasks m.current = some t
  running : m.RunsOnly fun i => i = m.current
  distinct : m.DistinctPids

def PidTaken (m : Machine) : Prop := ∃ i t, m.tasks i = some t ∧ t.pid = m.nextPid

/-- The current process has a parent that is paused, to which its end would switch. -/
def EndsToPaused (m : Machine) : Prop :=
  ∃ c p t, m.tasks m.current = some c ∧ c.isThread = false ∧ c.pid ≠ 1 ∧ m.tasks p = some t ∧
    t.pid = c.parentPid ∧ t.status = .paused

def Breaks (m : Machine) : Op → Prop
  | .exit _ _ => m.EndsToPaused
  | op => m.Creates op ∧ m.PidTaken

lemma Inv.status (h : m.Inv) (ht : m.tasks m.current = some t) : t.status = .running :=
  (h.running _ t ht).2 rfl

/-- A step that keeps the current slot and does not change which slots run. -/
lemma Inv.keep (h : m.Inv) (hcurrent : m'.current = m.current) (hloaded : m'.loaded = m.loaded)
    (hlive : ∃ t, m'.tasks m.current = some t) (hruns : m'.RunsOnly fun i => i = m.current)
    (hpids : PidsFrom m m') : m'.Inv where
  loaded := by rw [hloaded, hcurrent, h.loaded]
  current := by rw [hcurrent]; exact hlive
  running := by rw [hcurrent]; exact hruns
  distinct := hpids.distinct h.distinct

lemma Inv.moved (h : m.Inv) {j : Nat} (hcurrent : m'.current = j) (hloaded : m'.loaded = j)
    (hlive : ∃ t, m'.tasks j = some t) (hruns : m'.RunsOnly fun i => i = j)
    (hpids : PidsFrom m m') : m'.Inv where
  loaded := by rw [hloaded, hcurrent]
  current := by rw [hcurrent]; exact hlive
  running := by rw [hcurrent]; exact hruns
  distinct := hpids.distinct h.distinct

lemma Inv.modify_other (h : m.Inv) (hi : i ≠ m.current) (hpid : ∀ t, (f t).pid = t.pid)
    (hf : ∀ t, (f t).status ≠ .running) : (m.modify i f).Inv := by
  obtain ⟨t, ht⟩ := h.current
  refine h.keep rfl rfl ⟨t, by simpa [update_of_ne hi.symm] using ht⟩ ?_ (pidsFrom_modify m i hpid)
  exact h.running.modify (fun t _ => by simp [hf, hi]) fun _ _ => Iff.rfl

lemma Inv.set_none_other (h : m.Inv) (hi : i ≠ m.current) : (m.set i none).Inv := by
  obtain ⟨t, ht⟩ := h.current
  exact h.keep rfl rfl ⟨t, by simpa [update_of_ne hi.symm] using ht⟩
    (h.running.set_none fun _ _ => Iff.rfl) (pidsFrom_set_none m i)

lemma Inv.completeVfork (h : m.Inv) (c : Nat) : (m.completeVfork c).Inv := by
  obtain ⟨t, ht⟩ := h.current
  obtain ⟨t', ht', -⟩ := released_of_completeVfork (c := c) ht
  exact h.keep (by simp) (by simp) ⟨t', ht'⟩ (h.running.completeVfork c)
    (pidsFrom_completeVfork m c)

end Machine

/-! ## Steps -/

namespace TaskStep

open Machine

variable {stored : Nat → UInt64 → UInt32 → Prop} {m m' : Machine} {op : Op} {out : Outcome}

lemma pidTaken_iff : m.PidTaken ↔ ¬ ∀ j u, m.tasks j = some u → u.pid ≠ m.nextPid := by
  simp [PidTaken]

variable {c j : Nat} {p : Task}

lemma inv_created (thread : Bool) (h : m.Inv) (hfree : m.tasks c = none)
    (hp : m.tasks m.current = some p) : (m.created c p thread).Inv ↔ ¬ m.PidTaken := by
  have hc : m.current ≠ c := by
    rintro rfl
    rw [hp] at hfree
    simp at hfree
  have hpids : (m.created c p thread).DistinctPids ↔ ¬ m.PidTaken := by
    rw [pidTaken_iff, not_not]
    exact distinctPids_set_some h.distinct _ hfree
  rw [← hpids]
  refine ⟨Inv.distinct, fun hdistinct => ⟨h.loaded, ?_, ?_, hdistinct⟩⟩
  · exact ⟨p, by simpa [created, update_of_ne hc] using hp⟩
  · exact h.running.set_some (by simp [childTask, hc.symm, created]) fun _ _ => Iff.rfl

lemma inv_vforked (thread : Bool) (h : m.Inv) (hfree : m.tasks c = none)
    (hp : m.tasks m.current = some p) : (m.vforked c p thread).Inv ↔ ¬ m.PidTaken := by
  have hc : c ≠ m.current := by
    rintro rfl
    rw [hp] at hfree
    simp at hfree
  have hpids : (m.vforked c p thread).DistinctPids ↔ ¬ m.PidTaken := by
    rw [pidTaken_iff, not_not]
    exact (distinctPids_modify (m.set c _) m.current (by simp)).trans
      (distinctPids_set_some h.distinct _ hfree)
  rw [← hpids]
  refine ⟨Inv.distinct, fun hdistinct => ⟨rfl, ?_, ?_, hdistinct⟩⟩
  · exact ⟨_, by simp [vforked, update_of_ne hc]; rfl⟩
  · -- The child is made running, then the parent, which ran, is made waiting.
    have hset : (m.set c (some { childTask p m.nextPid thread with
        status := .running, vforkParent := p.pid })).RunsOnly fun i => i = c ∨ i = m.current :=
      h.running.set_some (by simp) fun j hj => by simp [hj]
    exact hset.modify (fun t _ => by simp [hc.symm, vforked]) fun j hj => by simp [hj, vforked]

lemma inv_switch {next : Nat} {n : Task} (rax : UInt64) (h : m.Inv) (hne : next ≠ m.current)
    (hn : m.tasks next = some n) :
    ((m.modify m.current fun t => { t with
      rax := rax, status := if t.status = .running then .ready else t.status }).run next).Inv := by
  refine h.moved rfl rfl ⟨_, by simp [update_of_ne hne, hn]; rfl⟩ (RunsOnly.run ?_ next)
    ((pidsFrom_modify m _ (by simp)).trans (pidsFrom_run _ _))
  refine h.running.modify (fun t ht => ?_) fun j hj => by simp [hj]
  simp [h.status ht]

variable {t : Task}

lemma inv_block (f : Task → Task) (h : m.Inv) (hj : m.tasks j = some t)
    (hready : t.status = .ready) (hpid : ∀ t, (f t).pid = t.pid)
    (hf : ∀ t, (f t).status = .waiting) : ((m.modify m.current f).run j).Inv := by
  have hne : j ≠ m.current := by
    rintro rfl
    have hrun := h.status hj
    rw [hready] at hrun
    simp at hrun
  refine h.moved rfl rfl ⟨_, by simp [update_of_ne hne, hj]; rfl⟩ (RunsOnly.run ?_ j)
    ((pidsFrom_modify m _ hpid).trans (pidsFrom_run _ _))
  exact h.running.modify (fun t _ => by simp [hf]) fun i hi => by simp [hi]

lemma inv_exitThread {next : Task} (h : m.Inv) (hj : (m.set m.current none).tasks j = some next) :
    ((m.set m.current none).run j).Inv := by
  refine h.moved rfl rfl ⟨{ next with status := .running }, ?_⟩ (RunsOnly.run ?_ j)
    ((pidsFrom_set_none m _).trans (pidsFrom_run _ _))
  · simp only [run_tasks, run_current, update_self, hj, map_some]
  · exact h.running.set_none fun i hi => by simp [hi]

lemma inv_exitToWaiter {p : Nat} (rax : UInt64) (h : m.Inv) (hp : m.tasks p = some t)
    (hwait : t.status = .waiting) :
    (((m.modify p fun t => t.wake rax .running).set m.current none).take p).Inv := by
  have hne : p ≠ m.current := by
    rintro rfl
    have hrun := h.status hp
    rw [hwait] at hrun
    simp at hrun
  refine h.moved rfl rfl ⟨t.wake rax .running, ?_⟩ ?_
    (((pidsFrom_modify m p (by simp [Task.wake])).trans (pidsFrom_set_none _ _)).trans
      (pidsFrom_take _ _))
  · simp [update_of_ne hne, hp]
  · have hboth : (m.modify p fun t => t.wake rax .running).RunsOnly
        fun i => i = p ∨ i = m.current :=
      h.running.modify (fun t _ => by simp [Task.wake]) fun i hi => by simp [hi]
    exact hboth.set_none fun i hi => by simp [show i ≠ m.current from hi]

/-- The end of a process whose parent does not wait: the parent runs, unless it was paused. -/
lemma inv_exitToParent {p : Nat} (raw : UInt32) (h : m.Inv) (hp : m.tasks p = some t)
    (hne : p ≠ m.current) (hzombie : t.status ≠ .zombie) (hdead : t.status ≠ .dead) :
    (((m.zombied m.current raw).modify p fun t =>
      if t.status = .ready ∨ t.status = .waiting then t.wake t.rax .running else t).take p).Inv ↔
        t.status ≠ .paused := by
  have hp' : (m.zombied m.current raw).tasks p = some t := by
    simpa [zombied, update_of_ne hne] using hp
  generalize hm1 : m.zombied m.current raw = m1 at hp' ⊢
  have hstopped : m1.RunsOnly fun _ => False := by
    rw [← hm1]
    exact h.running.modify (fun t _ => by simp) fun i hi => by simp [hi]
  have hpids : PidsFrom m m1 := by
    rw [← hm1]
    exact pidsFrom_modify m _ (by simp)
  constructor
  · -- A paused parent is current with its status unchanged.
    intro hinv hpaused
    have hrun := hinv.status (t := t) (by simp [hp', hpaused])
    rw [hpaused] at hrun
    simp at hrun
  · intro hpaused
    have hstatus : t.status = .ready ∨ t.status = .waiting := by
      have hrun : t.status ≠ .running := fun hr => hne ((h.running p t hp).1 hr)
      cases hs : t.status <;> simp_all
    refine h.moved rfl rfl ⟨t.wake t.rax .running, by simp [hp', hstatus]⟩ ?_
      (hpids.trans (PidsFrom.trans (pidsFrom_modify m1 p fun u => ?_) (pidsFrom_take _ _)))
    · refine hstopped.modify (fun u hu => ?_) fun i hi => by simp [hi]
      rw [hp', some.injEq] at hu
      subst hu
      simp [hstatus, Task.wake]
    · split <;> rfl

lemma not_breaks_of_refuses {value : Int} (h : m.Refuses op value) : ¬ m.Breaks op := by
  cases op with
  | fork | clone => exact fun hb => h hb.1
  | exit =>
    rintro ⟨c, p, t, hc, -, hpid, -⟩
    obtain ⟨c', hc', hpid'⟩ := h
    rw [hc, some.injEq] at hc'
    exact hpid (hc' ▸ hpid')
  | _ => exact fun hb => hb.1

lemma not_breaks_of_yields (h : op.Yields) : ¬ m.Breaks op := by
  cases op with
  | schedule | timer => exact fun hb => hb.1
  | _ => exact h.elim

lemma breaks_iff_of_creates (h : m.Creates op) : m.Breaks op ↔ m.PidTaken := by
  cases op with
  | exit => exact h.elim
  | _ => exact and_iff_right h

lemma inv_nextPid (h : m.Inv) (pid : UInt32) : ({ m with nextPid := pid } : Machine).Inv :=
  ⟨h.loaded, h.current, h.running, h.distinct⟩

lemma inv_stay (h : m.Inv) (rax : UInt64) :
    (m.modify m.current fun t => { t with rax := rax, status := .running }).Inv := by
  obtain ⟨t, ht⟩ := h.current
  refine h.keep rfl rfl ⟨{ t with rax := rax, status := .running }, by simp [ht]⟩ ?_
    (pidsFrom_modify m _ (by simp))
  exact h.running.modify (by simp) fun _ _ => Iff.rfl

lemma inv_login (h : m.Inv) (uid : UInt32) :
    (m.modify m.current fun t => { t with uid := uid }).Inv := by
  obtain ⟨t, ht⟩ := h.current
  refine h.keep rfl rfl ⟨{ t with uid := uid }, by simp [ht]⟩ ?_ (pidsFrom_modify m _ (by simp))
  exact h.running.modify (fun t ht => by simp [h.status ht]) fun _ _ => Iff.rfl

lemma inv_withoutUser (h : m.Inv) (hp : m.tasks m.current = some p) : (m.withoutUser p).Inv := by
  refine h.keep rfl rfl ⟨p, by simp [withoutUser, hp]⟩ ?_ ?_
  · exact fun i t ht => h.running i t (withoutUser_tasks ht)
  · exact fun i t ht => ⟨t, withoutUser_tasks ht, rfl⟩

/-- The parent that the end of the current process finds is the only process with its pid. -/
lemma endsToPaused_iff (h : m.Inv) {c : Task} {p : Nat}
    (hc : (m.completeVfork m.current).tasks m.current = some c) (hthread : c.isThread = false)
    (hpid : c.pid ≠ 1) (hfind : (m.completeVfork m.current).findPid c.parentPid = some p)
    (hp : (m.completeVfork m.current).tasks p = some t) : m.EndsToPaused ↔ t.status = .paused := by
  obtain ⟨c0, hc0, hrelc⟩ := released_completeVfork hc
  obtain ⟨t0, ht0, hrelt⟩ := released_completeVfork hp
  have hparent : t.pid = c.parentPid := by
    obtain ⟨-, t', ht', hpid'⟩ := find_some hfind
    rw [hp, some.injEq] at ht'
    subst ht'
    simpa using hpid'
  have hpaused : t.status = .paused ↔ t0.status = .paused := by
    rcases hrelt.status with hs | ⟨hw, hr⟩
    · rw [hs]
    · simp [hw, hr]
  rw [hpaused]
  constructor
  · rintro ⟨c', p', t', hc', -, -, hp', hpid', hpaused'⟩
    rw [hc0, some.injEq] at hc'
    have hslot : p' = p := h.distinct p' p t' t0 hp' ht0 (by
      rw [hpid', ← hc', ← hrelc.parentPid, ← hparent, hrelt.pid])
    rw [hslot, ht0, some.injEq] at hp'
    rw [hp', hpaused']
  · intro hpaused'
    exact ⟨c0, p, t0, hc0, hrelc.isThread ▸ hthread, hrelc.pid ▸ hpid, ht0,
      by rw [← hrelt.pid, hparent, hrelc.parentPid], hpaused'⟩

/-- A step keeps the invariant exactly if it is none of the two that break it. -/
lemma inv_iff (hstep : TaskStep stored m op out m') (h : m.Inv)
    (hdead : ∀ i t, m.tasks i = some t → t.status ≠ .dead) : m'.Inv ↔ ¬ m.Breaks op := by
  have h1 := h.completeVfork m.current
  cases hstep with
  | refused _ value hrefused => exact iff_of_true h (not_breaks_of_refuses hrefused)
  | spend _ value hrefused => exact iff_of_true (inv_nextPid h _) (not_breaks_of_refuses hrefused)
  | ignored => exact iff_of_true h fun hb => hb.1
  | stay _ _ rax hop => exact iff_of_true (inv_stay h rax) (not_breaks_of_yields hop)
  | switch _ rax hop hne hn =>
    exact iff_of_true (inv_switch rax h hne hn) (not_breaks_of_yields hop)
  | create _ thread hop hc hfree hp =>
    rw [inv_created thread h hfree hp, breaks_iff_of_creates hop]
  | vfork regs copied thread hop hc hfree hp =>
    rw [inv_vforked thread h hfree hp, breaks_iff_of_creates hop]
  | exec => exact iff_of_true h1 fun hb => hb.1
  | reap regs prepare hz hp hzombie =>
    refine iff_of_true (h.set_none_other ?_) fun hb => hb.1
    rintro rfl
    simp [h.status hz] at hzombie
  | block regs prepare hj hp hready =>
    exact iff_of_true (inv_block _ h hj hready (by simp) (by simp)) fun hb => hb.1
  | exitThread code prepare hc hthread hpid hj =>
    refine iff_of_true ?_ ?_
    · have hinv := inv_exitThread h1 (by simpa using hj)
      simpa using hinv
    · rintro ⟨c', p', t', hc', hthread', -⟩
      obtain ⟨c0, hc0, hrelc⟩ := released_completeVfork hc
      rw [hc0, some.injEq] at hc'
      rw [hrelc.isThread, hc', hthread'] at hthread
      simp at hthread
  | exitToWaiter code prepare rax hc hthread hpid hfind hp hwait =>
    refine iff_of_true ?_ ?_
    · have hinv := inv_exitToWaiter rax h1 hp hwait.1
      simpa using hinv
    · change ¬ m.EndsToPaused
      rw [endsToPaused_iff h hc hthread hpid hfind hp, hwait.1]
      simp
  | exitToParent code prepare hc hthread hpid hfind hp hwait hne hzombie =>
    change _ ↔ ¬ m.EndsToPaused
    rw [endsToPaused_iff h hc hthread hpid hfind hp]
    obtain ⟨t0, ht0, hrelt⟩ := released_completeVfork hp
    have hiff := inv_exitToParent (rawStatus code) h1 hp (by simpa using hne) hzombie (by
      rcases hrelt.status with hs | ⟨-, hr⟩
      · rw [hs]
        exact hdead _ _ ht0
      · simp [hr])
    simpa using hiff
  | killed regs prepare hi | pause regs hi =>
    exact iff_of_true (h.modify_other hi (by simp) (by simp)) fun hb => hb.1
  | @killedAwaited regs prepare rax i p t q hi ht hfind hpid hzombie hne hp hparent hwait =>
    refine iff_of_true ?_ fun hb => hb.1
    have hpcur : p ≠ m.current := by
      rintro rfl
      have hrun := h.status hp
      rw [hwait.1] at hrun
      simp at hrun
    exact (h.modify_other hpcur (by simp [Task.wake]) (by simp [Task.wake])).set_none_other hi
  | resume regs ht hpaused =>
    refine iff_of_true (h.modify_other ?_ (by simp) (by simp)) fun hb => hb.1
    rintro rfl
    simp [h.status ht] at hpaused
  | login => exact iff_of_true (inv_login h _) fun hb => hb.1
  | logout regs installed hp =>
    exact iff_of_true (inv_login (inv_withoutUser h hp) loginUid) fun hb => hb.1

end TaskStep

/-! ## The current process -/

/-- The current process is the loaded one, and it neither waits nor has ended. Every step keeps
this (`TaskStep.active`), also those that break the invariant above. -/
structure Machine.Active (m : Machine) : Prop where
  loaded : m.loaded = m.current
  current : ∃ t, m.tasks m.current = some t ∧ t.status ≠ .waiting ∧ t.status ≠ .zombie

namespace Machine

variable {m : Machine}

lemma Active.completeVfork (h : m.Active) (c : Nat) : (m.completeVfork c).Active := by
  obtain ⟨t, ht, hwait, hzombie⟩ := h.current
  obtain ⟨t', ht', hrel⟩ := released_of_completeVfork (c := c) ht
  refine ⟨by simp [h.loaded], t', by simpa using ht', ?_⟩
  rw [hrel.status_eq hwait]
  exact ⟨hwait, hzombie⟩

lemma active_run {j : Nat} {t : Task} (hj : m.tasks j = some t) : (m.run j).Active :=
  ⟨rfl, { t with status := .running }, by simp [hj], by simp⟩

lemma Active.modify_other (h : m.Active) {i : Nat} (hi : i ≠ m.current) (f : Task → Task) :
    (m.modify i f).Active := by
  obtain ⟨t, ht, hstatus⟩ := h.current
  exact ⟨h.loaded, t, by simpa [update_of_ne hi.symm] using ht, hstatus⟩

lemma Active.set_other (h : m.Active) {i : Nat} (hi : i ≠ m.current) (t : Option Task) :
    (m.set i t).Active := by
  obtain ⟨u, hu, hstatus⟩ := h.current
  exact ⟨h.loaded, u, by simpa [update_of_ne hi.symm] using hu, hstatus⟩

lemma Active.modify_current (h : m.Active) {f : Task → Task}
    (hf : ∀ t : Task, t.status ≠ .waiting → t.status ≠ .zombie →
      (f t).status ≠ .waiting ∧ (f t).status ≠ .zombie) : (m.modify m.current f).Active := by
  obtain ⟨t, ht, hwait, hzombie⟩ := h.current
  exact ⟨h.loaded, f t, by simp [ht], hf t hwait hzombie⟩

lemma Active.ne_current (h : m.Active) {i : Nat}
    (hi : ∀ t, m.tasks i = some t → t.status = .waiting ∨ t.status = .zombie) : i ≠ m.current := by
  rintro rfl
  obtain ⟨t, ht, hwait, hzombie⟩ := h.current
  exact (hi t ht).elim hwait hzombie

end Machine

open Machine in
lemma TaskStep.active {stored : Nat → UInt64 → UInt32 → Prop} {m m' : Machine} {op : Op}
    {out : Outcome} (hstep : TaskStep stored m op out m') (h : m.Active) : m'.Active := by
  have h1 := h.completeVfork m.current
  cases hstep with
  | refused => exact h
  | spend => exact ⟨h.loaded, h.current⟩
  | ignored => exact h
  | stay => exact h.modify_current fun t _ _ => by simp
  | @switch _ rax hop next n hne hn =>
    exact active_run (t := n) (by simpa [update_of_ne hne] using hn)
  | @create _ thread c p hop hc hfree =>
    have h2 := h.set_other (h.ne_current (i := c) (by simp [hfree]))
      (some (childTask p m.nextPid thread))
    exact ⟨h2.loaded, h2.current⟩
  | @vfork regs copied thread c p hop hc hfree =>
    have hne := h.ne_current (i := c) (by simp [hfree])
    exact ⟨rfl, { childTask p m.nextPid thread with status := .running, vforkParent := p.pid },
      by simp [vforked, update_of_ne hne], by simp⟩
  | exec => exact h1
  | @reap regs prepare z t p hz hp hzombie =>
    refine h.set_other (h.ne_current fun u hu => .inr ?_) none
    rw [hz, some.injEq] at hu
    exact hu ▸ hzombie
  | @block regs prepare j t p hj =>
    by_cases hjc : j = m.current
    · subst hjc
      exact active_run (t := { t with
        rax := regs.rax
        status := .waiting
        waitTarget := signed regs.rdi
        waitPtr := regs.rsi }) (by simp [hj])
    · exact active_run (t := t) (by simpa [update_of_ne hjc] using hj)
  | exitThread code prepare hc hthread hpid hj => exact active_run hj
  | @exitToWaiter code prepare rax c t p hc hthread hpid hfind hp hwait =>
    have hne : p ≠ m.current := by
      have hne1 := h1.ne_current (i := p) fun u hu => .inl (by
        rw [hp, some.injEq] at hu
        exact hu ▸ hwait.1)
      simpa using hne1
    exact ⟨rfl, t.wake rax .running, by simp [update_of_ne hne, hp], by simp [Task.wake]⟩
  | @exitToParent code prepare c t p hc hthread hpid hfind hp hwait hne hzombie =>
    refine ⟨rfl, if t.status = .ready ∨ t.status = .waiting then t.wake t.rax .running else t,
      by simp [zombied, update_of_ne hne, hp], ?_⟩
    split
    · simp [Task.wake]
    · next hs => exact ⟨fun hw => hs (.inr hw), hzombie⟩
  | killed regs prepare hi ht hfind hpid hzombie hwait | pause regs hi ht hready =>
    exact h.modify_other hi _
  | @killedAwaited regs prepare rax i p t q hi ht hfind hpid hzombie hne hp hparent hwait =>
    refine (h.modify_other (h.ne_current fun u hu => .inl ?_) _).set_other hi none
    rw [hp, some.injEq] at hu
    exact hu ▸ hwait.1
  | @resume regs i t =>
    by_cases hi : i = m.current
    · subst hi
      exact h.modify_current fun t _ _ => by simp
    · exact h.modify_other hi _
  | login =>
    exact h.modify_current fun t hw hz => ⟨hw, hz⟩
  | @logout regs installed p hp =>
    have hrest : (m.withoutUser p).Active := by
      obtain ⟨t, ht, hstatus⟩ := h.current
      rw [hp, some.injEq] at ht
      exact ⟨h.loaded, p, by simp [withoutUser, hp], ht ▸ hstatus⟩
    exact hrest.modify_current fun t hw hz => ⟨hw, hz⟩

/-! ## The kernel -/

/-- **The process table invariant.** -/
structure TableInv (k : Kernel) : Prop where
  current : k.current < maxProcesses
  running : ∀ i < maxProcesses, ((k.procs i).status = .running ↔ i = k.current)
  distinct : ∀ i < maxProcesses, (k.procs i).status ≠ .dead → ∀ j < maxProcesses,
    (k.procs j).status ≠ .dead → (k.procs i).pid = (k.procs j).pid → i = j
  loaded : k.loaded = k.current
  suspended : ∀ i < maxProcesses, ((k.procs i).status = .paused ∨ (k.procs i).status = .waiting ∨
    (k.procs i).status = .zombie) → i ≠ k.loaded

set_option synthInstance.maxSize 512 in
instance (k : Kernel) : Decidable (TableInv k) :=
  decidable_of_iff (k.current < maxProcesses ∧
      (∀ i < maxProcesses, ((k.procs i).status = .running ↔ i = k.current)) ∧
      (∀ i < maxProcesses, (k.procs i).status ≠ .dead → ∀ j < maxProcesses,
        (k.procs j).status ≠ .dead → (k.procs i).pid = (k.procs j).pid → i = j) ∧
      k.loaded = k.current ∧
      ∀ i < maxProcesses, ((k.procs i).status = .paused ∨ (k.procs i).status = .waiting ∨
        (k.procs i).status = .zombie) → i ≠ k.loaded)
    ⟨fun ⟨h1, h2, h3, h4, h5⟩ => ⟨h1, h2, h3, h4, h5⟩, fun h =>
      ⟨h.current, h.running, h.distinct, h.loaded, h.suspended⟩⟩

namespace Kernel

lemma tableInv_iff (k : Kernel) : TableInv k ↔ k.machine.Inv := by
  constructor
  · intro h
    refine ⟨h.loaded, ?_, ?_, ?_⟩
    · have hlive : k.Alive := by simp [(h.running _ h.current).2 rfl]
      exact ⟨_, machine_tasks_eq h.current hlive⟩
    · intro i t ht
      obtain ⟨hi, -, rfl⟩ := machine_tasks_some ht
      exact h.running i hi
    · intro i j t u ht hu hpid
      obtain ⟨hi, hlivei, rfl⟩ := machine_tasks_some ht
      obtain ⟨hj, hlivej, rfl⟩ := machine_tasks_some hu
      exact h.distinct i hi hlivei j hj hlivej hpid
  · intro h
    obtain ⟨t, ht⟩ := h.current
    obtain ⟨hcur, -, rfl⟩ := machine_tasks_some ht
    have hrunning : ∀ i < maxProcesses, ((k.procs i).status = .running ↔ i = k.current) := by
      intro i hi
      by_cases hdead : (k.procs i).status = .dead
      · have hne : i ≠ k.current := by
          rintro rfl
          exact (machine_tasks_some ht).2.1 hdead
        simp [hdead, hne]
      · exact h.running i _ (machine_tasks_eq hi hdead)
    refine ⟨hcur, hrunning, ?_, h.loaded, ?_⟩
    · intro i hi hlivei j hj hlivej hpid
      exact h.distinct i j _ _ (machine_tasks_eq hi hlivei) (machine_tasks_eq hj hlivej) hpid
    · rintro i hi hstatus rfl
      have hrun := (hrunning _ hi).2 h.loaded
      simp [hrun] at hstatus

/-- **The process table invariant.** A completed kernel entry from a state that satisfies the
invariant leads to one that satisfies it, exactly if it does not make a process with a pid in use
and is not the end of a process with a paused parent. -/
theorem tableInv_step_iff (k : Kernel) (op : Op) (h : TableInv k)
    (hout : (k.step op).1 ≠ .halted) : TableInv (k.step op).2 ↔ ¬ k.machine.Breaks op := by
  have hlive : k.Alive := by simp [(h.running _ h.current).2 rfl]
  have hstep := step_refines op h.current hlive hout
  rw [tableInv_iff] at h ⊢
  refine hstep.inv_iff h fun i t ht => ?_
  obtain ⟨-, hlive, rfl⟩ := machine_tasks_some ht
  exact hlive

/-- The states that completed kernel entries lead to from `k₀`, if each of them is `good`. -/
inductive Reaches (good : Kernel → Op → Prop) (k₀ : Kernel) : Kernel → Prop where
  | start : Reaches good k₀ k₀
  | step {k : Kernel} (op : Op) (h : Reaches good k₀ k) (hgood : good k op)
      (hout : (k.step op).1 ≠ .halted) : Reaches good k₀ (k.step op).2

lemma current_of_active {k : Kernel} (h : k.machine.Active) :
    k.current < maxProcesses ∧ k.Alive ∧
      (k.procs k.current).status ≠ .waiting ∧ (k.procs k.current).status ≠ .zombie := by
  obtain ⟨t, ht, hwait, hzombie⟩ := h.current
  obtain ⟨hcur, hlive, rfl⟩ := machine_tasks_some ht
  exact ⟨hcur, hlive, hwait, hzombie⟩

lemma active_step {k : Kernel} (h : k.machine.Active) (op : Op)
    (hout : (k.step op).1 ≠ .halted) : (k.step op).2.machine.Active := by
  obtain ⟨hcur, hlive, -⟩ := current_of_active h
  exact (step_refines op hcur hlive hout).active h

lemma active_initProcess (p4 : Nat) : (initProcess p4).machine.Active := by
  have hstatus : ((initProcess p4).procs 0).status = .running := rfl
  refine ⟨rfl, _, machine_tasks_eq (i := 0) (by decide) (by simp [hstatus]), ?_⟩
  simp [Process.toTask, hstatus]

def run (ops : List Op) (k : Kernel) : Kernel := ops.foldl (fun k op => (k.step op).2) k

/-- The first process makes a second one and gives way to it, which makes a third one and gives way
to it; the third one pauses its parent. -/
def pauseParent : List Op :=
  [.fork .zero 2, .schedule .zero, .fork .zero 3, .schedule .zero,
    .pause { SyscallRegs.zero with rdi := 2 }]

/-- The process with the paused parent ends. The parent becomes the current process and its
registers are loaded, but its status is still `PAUSED`, and no process is `RUNNING`. -/
theorem exit_to_paused_parent :
    TableInv ((initProcess 1).run pauseParent) ∧
      (((initProcess 1).run pauseParent).step (.exit 0 fun _ _ => true)).1 = .switched ∧
      (((initProcess 1).run pauseParent).step (.exit 0 fun _ _ => true)).2.loaded = 1 ∧
      ((((initProcess 1).run pauseParent).step (.exit 0 fun _ _ => true)).2.procs 1).status =
        .paused ∧
      ¬ TableInv (((initProcess 1).run pauseParent).step (.exit 0 fun _ _ => true)).2 := by
  decide +kernel

/-- The invariant is kept by the pause that prepares the failure. -/
theorem tableInv_after_pause :
    TableInv ((initProcess 1).run [.fork .zero 2]) ∧
      TableInv (((initProcess 1).run [.fork .zero 2]).step
        (.pause { SyscallRegs.zero with rdi := 2 })).2 := by
  have h : TableInv ((initProcess 1).run [.fork .zero 2]) := by decide +kernel
  refine ⟨h, (tableInv_step_iff _ _ h (by decide +kernel)).2 ?_⟩
  rintro ⟨hcreates, -⟩
  exact hcreates

end Kernel

end AosKernel.Proc
