import AosKernel.Process.Lifecycle

/-!
# The process table as a transition system

A slot that is not dead is a `Task`: who it is, what it waits for, and what it is suspended on. A
`Machine` is the table of tasks with the current one, and `TaskStep` says everything one kernel
entry can do to it. The kernel refines this system (`Kernel.step_refines`), and the invariants of
the process table are proved from `TaskStep` alone. -/

namespace AosKernel.Proc

open Lib Fd Function

/-! ## Tasks -/

/-- The part of a process that says how it takes part in creation, waiting and termination. -/
structure Task where
  pid : UInt32
  parentPid : UInt32
  threadGroupId : UInt32
  status : Status
  exitStatus : UInt32
  rax : UInt64
  waitTarget : Int
  waitPtr : UInt64
  isThread : Bool
  vforkParent : UInt32
  vforkChild : UInt32
  uid : UInt32
  deriving DecidableEq

def Process.toTask (p : Process) : Task where
  pid := p.pid
  parentPid := p.parentPid
  threadGroupId := p.threadGroupId
  status := p.status
  exitStatus := p.exitStatus
  rax := p.regs.rax
  waitTarget := p.waitTargetPid
  waitPtr := p.waitStatusPtr
  isThread := p.isThread
  vforkParent := p.vforkParentPid
  vforkChild := p.vforkChildPid
  uid := p.uid

/-- The task of a slot that is not dead. -/
def Process.task (p : Process) : Option Task :=
  if p.status = .dead then none else some p.toTask

/-- The tasks by slot, the current slot, the slot whose registers are loaded, the next pid. -/
structure Machine where
  tasks : Nat → Option Task
  current : Nat
  loaded : Nat
  nextPid : UInt32

def Kernel.machine (k : Kernel) : Machine where
  tasks := fun i => if i < maxProcesses then (k.procs i).task else none
  current := k.current
  loaded := k.loaded
  nextPid := k.nextPid

namespace Machine

variable (m : Machine)

def set (i : Nat) (t : Option Task) : Machine :=
  { m with tasks := update m.tasks i t }

def modify (i : Nat) (f : Task → Task) : Machine := m.set i ((m.tasks i).map f)

/-- Slot `i` becomes the current one, with its registers loaded. -/
def take (i : Nat) : Machine := { m with current := i, loaded := i }

def run (i : Nat) : Machine :=
  (m.modify i fun t => { t with status := .running }).take i

def find (m : Machine) (p : Task → Bool) : Option Nat :=
  (List.range maxProcesses).find? fun i => (m.tasks i).any p

def findPid (pid : UInt32) : Option Nat := m.find fun t => t.pid == pid

/-- The end of the suspension that the task of slot `c` holds, if it is a vfork child. -/
def completeVfork (c : Nat) : Machine :=
  match m.tasks c with
  | none => m
  | some t =>
      if t.vforkParent = 0 then m
      else
        let m := m.modify c fun t => { t with vforkParent := 0 }
        match m.find fun p => p.pid == t.vforkParent && p.vforkChild == t.pid with
        | none => m
        | some p => m.modify p fun t => { t with
            vforkChild := 0
            status := if t.status = .waiting then .ready else t.status }

attribute [simps! -fullyApplied] set modify take run

lemma find_some {m : Machine} {p : Task → Bool} {i : Nat} (h : m.find p = some i) :
    i < maxProcesses ∧ ∃ t, m.tasks i = some t ∧ p t = true := by
  have hmem := List.mem_of_find?_eq_some h
  have hp := List.find?_some h
  refine ⟨List.mem_range.1 hmem, ?_⟩
  cases ht : m.tasks i with
  | none => simp [ht] at hp
  | some t => exact ⟨t, rfl, by simpa [ht] using hp⟩

lemma find_none {m : Machine} {p : Task → Bool} (h : m.find p = none) {i : Nat} {t : Task}
    (hi : i < maxProcesses) (ht : m.tasks i = some t) : p t = false := by
  have hall := List.find?_eq_none.1 h i (List.mem_range.2 hi)
  simpa [ht] using hall

end Machine

/-! ## What a kernel entry can do -/

def childTask (parent : Task) (pid : UInt32) (thread : Bool) : Task where
  pid := pid
  parentPid := if thread then parent.parentPid else parent.pid
  threadGroupId := if thread then parent.threadGroupId else pid
  status := .ready
  exitStatus := 0
  rax := 0
  waitTarget := -1
  waitPtr := 0
  isThread := thread
  vforkParent := 0
  vforkChild := 0
  uid := parent.uid

/-- The task with its wait over, and `rax` as the result. -/
def Task.wake (t : Task) (rax : UInt64) (status : Status) : Task :=
  { t with rax := rax, status := status, waitTarget := -1, waitPtr := 0 }

def Task.WaitsFor (t : Task) (pid : UInt32) : Prop :=
  t.status = .waiting ∧ waitPidMatches t.waitTarget pid = true

/-- The task is a child of `parent` that a wait for `target` is about. -/
def Task.ChildFor (t parent : Task) (target : Int) : Prop :=
  t.parentPid = parent.pid ∧ waitPidMatches target t.pid = true

namespace Machine

variable (m : Machine)

def created (c : Nat) (p : Task) (thread : Bool) : Machine :=
  { m.set c (some (childTask p m.nextPid thread)) with nextPid := m.nextPid + 1 }

/-- The machine with a new child of the current task `p` in slot `c`, which runs while `p` is
suspended. -/
def vforked (c : Nat) (p : Task) (thread : Bool) : Machine :=
  { (m.set c (some { childTask p m.nextPid thread with
      status := .running, vforkParent := p.pid })).modify m.current fun t => { t with
        vforkChild := m.nextPid
        rax := UInt64.ofNat m.nextPid.toNat
        status := .waiting } with nextPid := m.nextPid + 1 }.take c

/-- The machine with the task of slot `i` ended and not yet waited for. -/
def zombied (i : Nat) (raw : UInt32) : Machine :=
  m.modify i fun t => { t with status := .zombie, exitStatus := raw }

/-- The machine without the processes of the user of `p`, apart from `p`. -/
def withoutUser (p : Task) : Machine :=
  { m with tasks := fun i => (m.tasks i).filter fun t => t.pid == p.pid || t.uid != p.uid }

lemma withoutUser_tasks {m : Machine} {p : Task} {i : Nat} {t : Task}
    (h : (m.withoutUser p).tasks i = some t) : m.tasks i = some t :=
  (Option.filter_eq_some_iff.1 h).1

def HasRoom : Prop := ∃ c < maxProcesses, m.tasks c = none

def Creates : Op → Prop
  | .fork _ copied => copied ≠ 0 ∧ m.HasRoom
  | .clone regs copied =>
      if hasFlag regs.rdi cloneVm = false then copied ≠ 0 ∧ m.HasRoom
      else ¬ (hasFlag regs.rdi cloneParentSettid ∧ regs.rdx = 0) ∧
        ¬ (hasFlag regs.rdi cloneChildSettid ∧ regs.r10 = 0) ∧ m.HasRoom
  | _ => False

/-- The current task has children for the wait, none of them ended and none of them ready, and has
asked to block. -/
def WaitStuck (regs : SyscallRegs) : Prop :=
  regs.rdx &&& 1 = 0 ∧ ∃ p, m.tasks m.current = some p ∧
    (∃ i t, m.tasks i = some t ∧ t.ChildFor p (signed regs.rdi)) ∧
    ∀ i t, m.tasks i = some t → t.ChildFor p (signed regs.rdi) →
      t.status ≠ .zombie ∧ t.status ≠ .ready

/-- What a call may return without a change to the tasks. -/
def Refuses : Op → Int → Prop
  | .fork regs copied, _ => ¬ m.Creates (.fork regs copied)
  | .clone regs copied, _ => ¬ m.Creates (.clone regs copied)
  | .exec _ result, _ => ∀ newP4 entry stack command, newP4 ≠ 0 →
      result ≠ .loaded newP4 entry stack command
  | .exit _ _, _ => ∃ p, m.tasks m.current = some p ∧ p.pid = 1
  | .wait4 regs _, value => value = -einval ∨ value = -efault ∨ value = 0 ∨
      value = -echild ∧ (m.WaitStuck regs ∨ ∀ i t p, m.tasks i = some t →
        m.tasks m.current = some p → ¬ t.ChildFor p (signed regs.rdi))
  | .kill regs _, value => value ≠ 0 ∨ ∀ i t, m.findPid regs.rdi.toUInt32 = some i →
      m.tasks i = some t → t.status = .zombie
  | .schedule _, _ => False
  | .timer _ _, _ => False
  | _, _ => True

end Machine

def Op.Yields : Op → Prop
  | .schedule _ => True
  | .timer _ _ => True
  | _ => False

/-- One kernel entry, on the tasks. `stored i a w` says that after it the word at address `a` of the
memory of slot `i` is `w`. -/
inductive TaskStep (stored : Nat → UInt64 → UInt32 → Prop) (m : Machine) :
    Op → Outcome → Machine → Prop where
  /-- Nothing changes. -/
  | refused (op : Op) (value : Int) (h : m.Refuses op value) :
      TaskStep stored m op (.returned value) m
  /-- `sys_fork` without memory uses up a pid. -/
  | spend (op : Op) (value : Int) (h : m.Refuses op value) :
      TaskStep stored m op (.returned value) { m with nextPid := m.nextPid + 1 }
  /-- A timer interrupt of the kernel, or of a process that does not run. -/
  | ignored (frame : InterruptFrame) (thermal : Option Bool) :
      TaskStep stored m (.timer frame thermal) .switched m
  /-- The current process goes on. -/
  | stay (op : Op) (out : Outcome) (rax : UInt64) (hop : op.Yields) :
      TaskStep stored m op out (m.modify m.current fun t => { t with
        rax := rax, status := .running })
  /-- The current process gives way to a ready one. -/
  | switch (op : Op) (rax : UInt64) (hop : op.Yields) {next : Nat} {n : Task}
      (hne : next ≠ m.current) (hn : m.tasks next = some n) (hready : n.status = .ready) :
      TaskStep stored m op .switched ((m.modify m.current fun t => { t with
        rax := rax, status := if t.status = .running then .ready else t.status }).run next)
  /-- A new child. -/
  | create (op : Op) (thread : Bool) {c : Nat} {p : Task} (hop : m.Creates op)
      (hc : c < maxProcesses) (hfree : m.tasks c = none) (hp : m.tasks m.current = some p) :
      TaskStep stored m op (.returned m.nextPid.toNat) (m.created c p thread)
  /-- A new child that runs while its parent is suspended. -/
  | vfork (regs : SyscallRegs) (copied : Nat) (thread : Bool) {c : Nat} {p : Task}
      (hop : m.Creates (.clone regs copied)) (hc : c < maxProcesses) (hfree : m.tasks c = none)
      (hp : m.tasks m.current = some p) :
      TaskStep stored m (.clone regs copied) .switched (m.vforked c p thread)
  /-- A program is loaded. -/
  | exec (regs : SyscallRegs) (newP4 : Nat) (entry stack : UInt64) (command : CString) :
      TaskStep stored m (.exec regs (.loaded newP4 entry stack command)) .switched
        (m.completeVfork m.current)
  /-- A wait that finds a zombie. -/
  | reap (regs : SyscallRegs) (prepare : Prepare) {z : Nat} {t p : Task}
      (hz : m.tasks z = some t) (hp : m.tasks m.current = some p) (hzombie : t.status = .zombie)
      (hchild : t.ChildFor p (signed regs.rdi))
      (hword : regs.rsi ≠ 0 → stored m.current regs.rsi t.exitStatus) :
      TaskStep stored m (.wait4 regs prepare) (.returned t.pid.toNat) (m.set z none)
  /-- A wait that blocks, with a ready child to run. -/
  | block (regs : SyscallRegs) (prepare : Prepare) {j : Nat} {t p : Task}
      (hj : m.tasks j = some t) (hp : m.tasks m.current = some p) (hready : t.status = .ready)
      (hchild : t.ChildFor p (signed regs.rdi)) :
      TaskStep stored m (.wait4 regs prepare) .switched ((m.modify m.current fun t => { t with
        rax := regs.rax
        status := .waiting
        waitTarget := signed regs.rdi
        waitPtr := regs.rsi }).run j)
  /-- The end of a thread. -/
  | exitThread (code : UInt64) (prepare : Prepare) {c next : Task} {j : Nat}
      (hc : (m.completeVfork m.current).tasks m.current = some c) (hthread : c.isThread = true)
      (hpid : c.pid ≠ 1)
      (hj : ((m.completeVfork m.current).set m.current none).tasks j = some next)
      (hready : next.status = .ready) :
      TaskStep stored m (.exit code prepare) .switched
        (((m.completeVfork m.current).set m.current none).run j)
  /-- The end of a process whose parent waits for it. -/
  | exitToWaiter (code : UInt64) (prepare : Prepare) (rax : UInt64) {c t : Task} {p : Nat}
      (hc : (m.completeVfork m.current).tasks m.current = some c) (hthread : c.isThread = false)
      (hpid : c.pid ≠ 1)
      (hfind : (m.completeVfork m.current).findPid c.parentPid = some p)
      (hp : (m.completeVfork m.current).tasks p = some t) (hwait : t.WaitsFor c.pid)
      (hrax : rax = UInt64.ofInt (-efault) ∧ t.waitPtr ≠ 0 ∨ rax = UInt64.ofNat c.pid.toNat ∧
        (t.waitPtr ≠ 0 → stored p t.waitPtr (rawStatus code))) :
      TaskStep stored m (.exit code prepare) .switched
        ((((m.completeVfork m.current).modify p fun t => t.wake rax .running).set
          m.current none).take p)
  /-- The end of a process whose parent does not wait for it. -/
  | exitToParent (code : UInt64) (prepare : Prepare) {c t : Task} {p : Nat}
      (hc : (m.completeVfork m.current).tasks m.current = some c) (hthread : c.isThread = false)
      (hpid : c.pid ≠ 1)
      (hfind : (m.completeVfork m.current).findPid c.parentPid = some p)
      (hp : (m.completeVfork m.current).tasks p = some t) (hwait : ¬ t.WaitsFor c.pid)
      (hne : p ≠ m.current) (hzombie : t.status ≠ .zombie) :
      TaskStep stored m (.exit code prepare) .switched
        ((((m.completeVfork m.current).zombied m.current (rawStatus code)).modify p fun t =>
          if t.status = .ready ∨ t.status = .waiting then t.wake t.rax .running else t).take p)
  /-- The end of another process that nobody waits for. -/
  | killed (regs : SyscallRegs) (prepare : Prepare) {i : Nat} {t : Task} (hi : i ≠ m.current)
      (ht : m.tasks i = some t) (hfind : m.findPid regs.rdi.toUInt32 = some i) (hpid : t.pid ≠ 1)
      (hzombie : t.status ≠ .zombie)
      (hwait : ∀ p q, (m.zombied i (rawStatus regs.rsi)).findPid t.parentPid = some p →
        (m.zombied i (rawStatus regs.rsi)).tasks p = some q → ¬ q.WaitsFor t.pid) :
      TaskStep stored m (.kill regs prepare) (.returned 0) (m.zombied i (rawStatus regs.rsi))
  /-- The end of another process whose parent waits for it. -/
  | killedAwaited (regs : SyscallRegs) (prepare : Prepare) (rax : UInt64) {i p : Nat} {t q : Task}
      (hi : i ≠ m.current) (ht : m.tasks i = some t)
      (hfind : m.findPid regs.rdi.toUInt32 = some i) (hpid : t.pid ≠ 1)
      (hzombie : t.status ≠ .zombie) (hne : p ≠ i) (hp : m.tasks p = some q)
      (hparent : q.pid = t.parentPid) (hwait : q.WaitsFor t.pid)
      (hrax : rax = UInt64.ofInt (-efault) ∧ q.waitPtr ≠ 0 ∨ rax = UInt64.ofNat t.pid.toNat ∧
        (q.waitPtr ≠ 0 → stored p q.waitPtr (rawStatus regs.rsi))) :
      TaskStep stored m (.kill regs prepare) (.returned 0)
        ((m.modify p fun t => t.wake rax .ready).set i none)
  /-- A ready process is paused. -/
  | pause (regs : SyscallRegs) {i : Nat} {t : Task} (hi : i ≠ m.current)
      (ht : m.tasks i = some t) (hready : t.status = .ready) :
      TaskStep stored m (.pause regs) (.returned 0)
        (m.modify i fun t => { t with status := .paused })
  /-- A paused process is resumed. -/
  | resume (regs : SyscallRegs) {i : Nat} {t : Task} (ht : m.tasks i = some t)
      (hpaused : t.status = .paused) :
      TaskStep stored m (.resume regs) (.returned 0)
        (m.modify i fun t => { t with status := .ready })
  /-- The session manager becomes another user. -/
  | login (regs : SyscallRegs) (installed : Bool) (verdict : Int) {p : Task}
      (hp : m.tasks m.current = some p) (hpid : p.pid = 1) :
      TaskStep stored m (.login regs installed verdict) (.returned 0)
        (m.modify m.current fun t => { t with uid := sessionUid })
  /-- The other processes of the user of the session manager end. -/
  | logout (regs : SyscallRegs) (installed : Bool) {p : Task} (hp : m.tasks m.current = some p)
      (hpid : p.pid = 1) :
      TaskStep stored m (.logout regs installed) (.returned 0)
        ((m.withoutUser p).modify m.current fun t => { t with uid := loginUid })

/-! ## The end of a suspension -/

namespace Machine

/-- What the end of a suspension can do to a task. -/
structure Released (t t' : Task) : Prop where
  same : t' = { t with
    vforkParent := t'.vforkParent, vforkChild := t'.vforkChild, status := t'.status }
  status : t'.status = t.status ∨ t.status = .waiting ∧ t'.status = .ready

lemma Released.refl (t : Task) : Released t t := ⟨rfl, Or.inl rfl⟩

variable {m : Machine} {i : Nat} {t t' : Task} {f : Task → Task}

section

variable (h : Released t t')
include h

theorem Released.trans {t'' : Task} (h' : Released t' t'') : Released t t'' where
  same := by rw [h'.same, h.same]
  status := by
    rcases h.status with hs | ⟨hw, hr⟩ <;> rcases h'.status with hs' | ⟨hw', hr'⟩
    · exact .inl (hs'.trans hs)
    · exact .inr ⟨hs ▸ hw', hr'⟩
    · exact .inr ⟨hw, hs'.trans hr⟩
    · rw [hr] at hw'
      simp at hw'

lemma Released.pid : t'.pid = t.pid := by rw [h.same]

lemma Released.parentPid : t'.parentPid = t.parentPid := by
  rw [h.same]

lemma Released.isThread : t'.isThread = t.isThread := by
  rw [h.same]

lemma Released.status_eq (ht : t.status ≠ .waiting) : t'.status = t.status :=
  h.status.resolve_right fun hw => ht hw.1

lemma Released.running_iff : t'.status = .running ↔ t.status = .running := by
  rcases h.status with hs | ⟨hw, hr⟩
  · rw [hs]
  · simp [hw, hr]

lemma Released.zombie_iff : t'.status = .zombie ↔ t.status = .zombie := by
  rcases h.status with hs | ⟨hw, hr⟩
  · rw [hs]
  · simp [hw, hr]

end

lemma modify_from {R : Task → Task → Prop} (hrefl : ∀ t, R t t) (m : Machine) (i : Nat)
    (hf : ∀ t, R t (f t)) {j : Nat} (h : (m.modify i f).tasks j = some t') :
    ∃ t, m.tasks j = some t ∧ R t t' := by
  by_cases hj : j = i
  · subst hj
    simp only [modify_tasks, update_self, Option.map_eq_some_iff] at h
    obtain ⟨t, ht, rfl⟩ := h
    exact ⟨t, ht, hf t⟩
  · exact ⟨t', by simpa [update_of_ne hj] using h, hrefl t'⟩

lemma released_completeVfork {c : Nat} (h : (m.completeVfork c).tasks i = some t') :
    ∃ t, m.tasks i = some t ∧ Released t t' := by
  have hchild : ∀ t : Task, Released t { t with vforkParent := 0 } :=
    fun t => ⟨rfl, .inl rfl⟩
  have hparent : ∀ t : Task, Released t { t with
      vforkChild := 0, status := if t.status = .waiting then .ready else t.status } := by
    refine fun t => ⟨rfl, ?_⟩
    by_cases hw : t.status = .waiting
    · exact .inr ⟨hw, if_pos hw⟩
    · exact .inl (if_neg hw)
  unfold completeVfork at h
  split at h
  · exact ⟨t', h, Released.refl t'⟩
  split at h
  · exact ⟨t', h, Released.refl t'⟩
  dsimp only at h
  split at h
  · exact modify_from Released.refl m c hchild h
  · obtain ⟨u, hu, hut⟩ := modify_from Released.refl _ _ hparent h
    obtain ⟨t, ht, htu⟩ := modify_from Released.refl m c hchild hu
    exact ⟨t, ht, htu.trans hut⟩

lemma completeVfork_isSome (m : Machine) (c i : Nat) :
    ((m.completeVfork c).tasks i).isSome = (m.tasks i).isSome := by
  have hmodify : ∀ (m : Machine) (j : Nat) f,
      ((m.modify j f).tasks i).isSome = (m.tasks i).isSome := by
    intro m j f
    by_cases hj : i = j
    · subst hj
      simp
    · simp [update_of_ne hj]
  unfold completeVfork
  split
  · rfl
  split
  · rfl
  dsimp only
  split
  · exact hmodify _ _ _
  · rw [hmodify, hmodify]

lemma released_of_completeVfork {c : Nat} (h : m.tasks i = some t) :
    ∃ t', (m.completeVfork c).tasks i = some t' ∧ Released t t' := by
  have hsome := completeVfork_isSome m c i
  rw [h, Option.isSome_some, Option.isSome_iff_exists] at hsome
  obtain ⟨t', ht'⟩ := hsome
  obtain ⟨u, hu, hrel⟩ := released_completeVfork ht'
  rw [h, Option.some.injEq] at hu
  exact ⟨t', ht', hu ▸ hrel⟩

end Machine

end AosKernel.Proc
