import AosKernel.Process.TableInvariant

/-!
# Who runs after an exit

The three ways in which the running process ends (`Ending`): its own `exit`, a fault and a fatal
signal. All of them end in `process_exit_and_wake_parent`, which looks for a successor among the
ready slots for a thread, but only at the parent for a process (`Kernel.handsOver_iff`).
-/

namespace AosKernel.Proc

open Lib Fd Function

/-! ## Endings -/

def signalIsFatal (signal : Nat) : Bool :=
  signal == 4 || signal == 6 || signal == 7 || signal == 8 || signal == 9 || signal == 11 ||
    signal == 15

/-- How the running process comes to its end: `LINUX_SYS_EXIT` or `LINUX_SYS_EXIT_GROUP`, with the
result of the `exec_initrd_program` that replaces the first process; a fault in user mode; a signal
that the process sends to itself through `sys_tgkill`. -/
inductive Ending where
  | exit (code : UInt64) (shell : ExecResult)
  | fault (code : UInt64)
  | signal (number : Nat)

def ExecResult.fails : ExecResult → Bool
  | .refused error => decide (0 < error)
  | .failed newP4 error => newP4 == 0 || decide (0 < error)
  | .loaded newP4 _ _ _ => newP4 == 0

namespace Kernel

variable (prepare : Prepare)

/-- The branch of `syscall_handler` for `LINUX_SYS_EXIT` and `LINUX_SYS_EXIT_GROUP`. -/
def sysExit (code : UInt64) (shell : ExecResult) (k : Kernel) : Outcome × Kernel :=
  if (k.procs k.current).pid ≠ 1 then k.processExitAndWakeParent prepare code
  else
    match k.execProgram shell with
    | (.returned value, k) => if value < 0 then (.halted, k) else (.returned value, k)
    | r => r

def syscallKillCurrentProcess (code : UInt64) (k : Kernel) : Outcome × Kernel :=
  if (k.procs k.current).pid ≠ 1 then k.processExitAndWakeParent prepare code
  else (.returned 0, k)

/-- The end of `sys_tgkill` for a target that is the caller. -/
def sysTgkillSelf (signal : Nat) (k : Kernel) : Outcome × Kernel :=
  if (k.procs k.current).pid ≠ 1 ∧ signalIsFatal signal = true then
    k.processExitAndWakeParent prepare (UInt64.ofNat (128 + signal))
  else (.returned 0, k)

def endCurrent (ending : Ending) (k : Kernel) : Outcome × Kernel :=
  match ending with
  | .exit code shell => k.sysExit prepare code shell
  | .fault code => k.syscallKillCurrentProcess prepare code
  | .signal number => k.sysTgkillSelf prepare number

/-- The process goes away. The first process stays: its `exit` runs the shell in its place, and no
signal ends it. -/
def Ends (k : Kernel) : Ending → Prop
  | .exit _ _ => (k.procs k.current).pid ≠ 1
  | .fault _ => (k.procs k.current).pid ≠ 1
  | .signal number => (k.procs k.current).pid ≠ 1 ∧ signalIsFatal number = true

/-! ## Who can run -/

/-- The slot that `process_complete_vfork` releases at the end of slot `child`. -/
def vforkWaiter (child : Nat) (k : Kernel) : Option Nat :=
  let c := k.procs child
  if c.vforkParentPid = 0 then none
  else k.findSlot fun p =>
    p.status != .dead && p.pid == c.vforkParentPid && p.vforkChildPid == c.pid

/-- The status of slot `i` after the bookkeeping for the end of slot `child`. -/
def statusAfterExit (child i : Nat) (k : Kernel) : Status :=
  if k.vforkWaiter child = some i ∧ (k.procs i).status = .waiting then .ready
  else (k.procs i).status

/-- Slot `j` holds the parent of the process in slot `child` and is blocked in a wait for it, which
the exit completes. -/
def AwaitsExit (k : Kernel) (child j : Nat) : Prop :=
  (k.procs child).isThread = false ∧ k.findProcessByPid (k.procs child).parentPid = some j ∧
    k.statusAfterExit child j = .waiting ∧
    waitPidMatches (k.procs j).waitTargetPid (k.procs child).pid = true

/-- Slot `j` can run after the end of slot `child`: it is ready, or its wait has come to an end. -/
def CanRun (k : Kernel) (child j : Nat) : Prop :=
  j < maxProcesses ∧ j ≠ child ∧ (k.statusAfterExit child j = .ready ∨ k.AwaitsExit child j)

def OtherReady (k : Kernel) (j : Nat) : Prop :=
  j < maxProcesses ∧ j ≠ k.current ∧ (k.procs j).status = .ready

/-- The processor goes to a process that can run if there is one, and the machine halts only if
there is none. -/
def HandsOver (k : Kernel) (prepare : Prepare) (ending : Ending) : Prop :=
  let r := k.endCurrent prepare ending
  (k.Ends ending →
    ((∃ j, k.CanRun k.current j) → r.1 = .switched ∧ k.CanRun k.current r.2.current) ∧
    (r.1 = .halted → ∀ j, ¬ k.CanRun k.current j)) ∧
  (¬ k.Ends ending → r.1 = .halted → ∀ j, ¬ k.OtherReady j)

/-- The successor that the exit path looks at can run, or nobody can. -/
def FindsSuccessor (k : Kernel) : Prop :=
  (k.procs k.current).isThread = true ∨ (∀ j, ¬ k.CanRun k.current j) ∨
    ∃ p, k.findProcessByPid (k.procs k.current).parentPid = some p ∧ k.CanRun k.current p

/-- The shell can be run in the place of the first process. -/
def KeepsFirst : Ending → Prop
  | .exit _ shell => shell.fails = false
  | _ => True

/-! ## The bookkeeping -/

section Bookkeeping

variable (k : Kernel)

lemma processCompleteVfork_field {α : Type} (field : Process → α) (child i : Nat)
    (hparent : ∀ p v, field { p with vforkParentPid := v } = field p)
    (hchild : ∀ p v s, field { p with vforkChildPid := v, status := s } = field p) :
    field ((k.processCompleteVfork child).procs i) = field (k.procs i) := by
  unfold processCompleteVfork
  dsimp only
  split
  · rfl
  split
  · exact modifyProc_field k child i field fun p => hparent p 0
  · exact (modifyProc_field _ _ i field fun p => hchild p 0 _).trans
      (modifyProc_field k child i field fun p => hparent p 0)

lemma exitPrologue_field {α : Type} (field : Process → α) (prepare : Prepare) (child i : Nat)
    (hfds : ∀ p t, field { p with fdTable := t } = field p) :
    field ((k.exitPrologue prepare child).procs i) =
      field ((k.processCompleteVfork child).procs i) := by
  unfold exitPrologue releaseFds
  refine (modifyProc_field _ child i field fun p => hfds p _).trans ?_
  split
  · unfold writeProcessU32
    split <;> rfl
  · rfl

/-- The release of the vfork parent does not depend on the child's own mark. -/
lemma vforkWaiter_eq {child : Nat} (h : (k.procs child).vforkParentPid ≠ 0) :
    ((k.modifyProc child fun p => { p with vforkParentPid := 0 }).findSlot fun p =>
      p.status != .dead && p.pid == (k.procs child).vforkParentPid &&
        p.vforkChildPid == (k.procs child).pid) = k.vforkWaiter child := by
  unfold vforkWaiter
  rw [if_neg h]
  refine List.find?_congr fun i _ => ?_
  exact modifyProc_field k child i (fun p => p.status != .dead &&
    p.pid == (k.procs child).vforkParentPid && p.vforkChildPid == (k.procs child).pid) fun _ => rfl

lemma processCompleteVfork_status (child i : Nat) :
    ((k.processCompleteVfork child).procs i).status = k.statusAfterExit child i := by
  unfold processCompleteVfork statusAfterExit
  dsimp only
  by_cases hzero : (k.procs child).vforkParentPid = 0
  · rw [if_pos hzero, if_neg (by simp [vforkWaiter, hzero])]
  rw [if_neg hzero, vforkWaiter_eq k hzero]
  have hstatus := modifyProc_field k child i Process.status
    (f := fun p => { p with vforkParentPid := 0 }) fun _ => rfl
  cases hw : k.vforkWaiter child with
  | none => simpa using hstatus
  | some w =>
  by_cases hi : i = w
  · subst hi
    generalize k.modifyProc child _ = k1 at hstatus ⊢
    simp [modifyProc, setProc, hstatus]
  · have hwi : w ≠ i := fun h => hi h.symm
    rw [if_neg (by simp [hwi])]
    exact (congrArg Process.status (update_of_ne hi _ _)).trans hstatus

lemma exitPrologue_status (prepare : Prepare) (child i : Nat) :
    ((k.exitPrologue prepare child).procs i).status = k.statusAfterExit child i :=
  (exitPrologue_field k Process.status prepare child i fun _ _ => rfl).trans
    (processCompleteVfork_status k child i)

/-- The fields by which the exit path finds the successor, apart from the status. -/
lemma exitPrologue_kept (prepare : Prepare) (child i : Nat) :
    let p := (k.exitPrologue prepare child).procs i
    let q := k.procs i
    p.isThread = q.isThread ∧ p.parentPid = q.parentPid ∧ p.pid = q.pid ∧
      p.waitTargetPid = q.waitTargetPid := by
  let field := fun p : Process => (p.isThread, p.parentPid, p.pid, p.waitTargetPid)
  have h := (exitPrologue_field k field prepare child i fun _ _ => rfl).trans
    (processCompleteVfork_field k field child i (fun _ _ => rfl) fun _ _ _ => rfl)
  simpa [field] using h

lemma statusAfterExit_dead (child i : Nat) :
    k.statusAfterExit child i = .dead ↔ (k.procs i).status = .dead := by
  unfold statusAfterExit
  split
  · next h => simp [h.2]
  · rfl

lemma exitPrologue_findProcessByPid (prepare : Prepare) (child : Nat) (pid : UInt32) :
    (k.exitPrologue prepare child).findProcessByPid pid = k.findProcessByPid pid := by
  unfold findProcessByPid findSlot
  refine List.find?_congr fun i _ => ?_
  have hdead : (((k.exitPrologue prepare child).procs i).status != .dead) =
      ((k.procs i).status != .dead) := by
    rw [exitPrologue_status, Bool.eq_iff_iff]
    simp [statusAfterExit_dead]
  dsimp only
  rw [hdead, (exitPrologue_kept k prepare child i).2.2.1]

end Bookkeeping

/-! ## Threads -/

section Threads

variable {k : Kernel}

lemma nextAfterThread_none {group : UInt32} {i : Nat} (h : k.nextAfterThread group = none)
    (hi : i < maxProcesses) : (k.procs i).status ≠ .ready := by
  unfold nextAfterThread at h
  split at h
  · simp at h
  · simpa using findSlot_none h hi

/-- After the end of a thread every other ready slot is a candidate, and no other one is. -/
lemma afterThread_ready (child i : Nat) :
    (((k.releaseProcessMemory child).clearSlot child).procs i).status = .ready ↔
      i ≠ child ∧ (k.procs i).status = .ready := by
  by_cases hi : i = child
  · subst hi
    simp [clearSlot, setProc, Process.zero]
  · simp only [clearSlot, setProc, update_of_ne hi, releaseProcessMemory_procs hi]
    simp [hi]

lemma exitThread_cases (child : Nat) :
    ((k.exitThread child).1 = .switched ∧
        (k.exitThread child).2.current < maxProcesses ∧
        (k.exitThread child).2.current ≠ child ∧
        (k.procs (k.exitThread child).2.current).status = .ready) ∨
      ((k.exitThread child).1 = .halted ∧
        ∀ i, i < maxProcesses → i ≠ child → (k.procs i).status ≠ .ready) := by
  unfold exitThread
  dsimp only
  cases hnext : ((k.releaseProcessMemory child).clearSlot child).nextAfterThread
      (k.procs child).threadGroupId with
  | none =>
    refine .inr ⟨rfl, fun i hi hne hready => ?_⟩
    exact nextAfterThread_none hnext hi ((afterThread_ready child i).2 ⟨hne, hready⟩)
  | some next =>
    obtain ⟨hlt, hready⟩ := nextAfterThread_ready hnext
    exact .inl ⟨rfl, hlt, (afterThread_ready child next).1 hready⟩

end Threads

/-! ## Processes -/

section Processes

variable {k : Kernel}

lemma exitToParent_current (k : Kernel) (child parent : Nat) :
    (k.exitToParent child parent).current = parent :=
  congrArg Machine.current (machine_releaseProcessMemory
    (k := ({ k with current := parent } : Kernel).switchPageTable (k.procs parent).p4Table)
    (i := child))

/-- The successor of a process: its parent, if the parent is there and not a zombie itself. -/
lemma exitProcess_cases (prepare : Prepare) (code : UInt64)
    (hthread : (k.procs k.current).isThread = false) :
    ((k.processExitAndWakeParent prepare code).1 = .switched ∧
        k.findProcessByPid (k.procs k.current).parentPid =
          some (k.processExitAndWakeParent prepare code).2.current) ∨
      ((k.processExitAndWakeParent prepare code).1 = .halted ∧
        ∀ p, k.findProcessByPid (k.procs k.current).parentPid = some p →
          ¬ k.CanRun k.current p) := by
  unfold processExitAndWakeParent
  dsimp only
  obtain ⟨hisThread, hparent, hpid, -⟩ := exitPrologue_kept k prepare k.current k.current
  rw [hisThread, hparent, hpid, exitPrologue_findProcessByPid, hthread, if_neg (by simp)]
  have hstatus := exitPrologue_status k prepare k.current
  cases hfind : k.findProcessByPid (k.procs k.current).parentPid with
  | none => exact Or.inr ⟨rfl, fun p hp => by simp at hp⟩
  | some p =>
  dsimp only
  rw [hstatus, (exitPrologue_kept k prepare k.current p).2.2.2]
  by_cases hwait : k.statusAfterExit k.current p = .waiting ∧
      waitPidMatches (k.procs p).waitTargetPid (k.procs k.current).pid = true
  · rw [if_pos hwait]
    exact Or.inl ⟨rfl, rfl⟩
  rw [if_neg hwait]
  split
  · exact Or.inl ⟨rfl, congrArg some (exitToParent_current _ _ _).symm⟩
  next hgone =>
  refine Or.inr ⟨rfl, fun q hq hcan => hgone ?_⟩
  obtain rfl := Option.some.inj hq
  obtain ⟨-, hne, hready⟩ := hcan
  have hp : k.statusAfterExit k.current p = .ready :=
    hready.resolve_right fun ⟨_, _, hw⟩ => hwait hw
  simp only [modifyProc, setProc, update_of_ne hne]
  rw [hstatus, hp]
  simp

lemma exit_hands_over (prepare : Prepare) (code : UInt64) :
    ((((∃ j, k.CanRun k.current j) → (k.processExitAndWakeParent prepare code).1 = .switched ∧
          k.CanRun k.current (k.processExitAndWakeParent prepare code).2.current) ∧
      ((k.processExitAndWakeParent prepare code).1 = .halted → ∀ j, ¬ k.CanRun k.current j)) ↔
      k.FindsSuccessor) := by
  by_cases hthread : (k.procs k.current).isThread = true
  · -- A thread: the search over the table misses nobody.
    refine iff_of_true ?_ (.inl hthread)
    have hexit : k.processExitAndWakeParent prepare code =
        (k.exitPrologue prepare k.current).exitThread k.current := by
      unfold processExitAndWakeParent
      dsimp only
      rw [(exitPrologue_kept k prepare k.current k.current).1, if_pos hthread]
    rw [hexit]
    rcases exitThread_cases (k := k.exitPrologue prepare k.current) k.current with
      ⟨hout, hlt, hne, hready⟩ | ⟨hout, hnone⟩
    · rw [exitPrologue_status] at hready
      exact ⟨fun _ => ⟨hout, hlt, hne, .inl hready⟩, fun h => by simp [hout] at h⟩
    have hno : ∀ j, ¬ k.CanRun k.current j := by
      rintro j ⟨hlt, hne, hready | hawait⟩
      · exact hnone j hlt hne ((exitPrologue_status k prepare k.current j).trans hready)
      · simp [AwaitsExit, hthread] at hawait
    exact ⟨fun ⟨j, hj⟩ => absurd hj (hno j), fun _ => hno⟩
  · rcases exitProcess_cases prepare code (by simpa using hthread) with
      ⟨hout, hparent⟩ | ⟨hout, hparent⟩
    · constructor
      · intro ⟨hover, _⟩
        by_cases hex : ∃ j, k.CanRun k.current j
        · exact .inr (.inr ⟨_, hparent, (hover hex).2⟩)
        · exact .inr (.inl (not_exists.1 hex))
      · rintro (h | hno | ⟨p, hp, hcan⟩)
        · exact absurd h hthread
        · exact ⟨fun ⟨j, hj⟩ => absurd hj (hno j), fun _ => hno⟩
        · obtain rfl := Option.some.inj (hparent.symm.trans hp)
          exact ⟨fun _ => ⟨hout, hcan⟩, fun h => by simp [hout] at h⟩
    · constructor
      · exact fun ⟨_, hhalt⟩ => .inr (.inl (hhalt hout))
      · rintro (h | hno | ⟨p, hp, hcan⟩)
        · exact absurd h hthread
        · exact ⟨fun ⟨j, hj⟩ => absurd hj (hno j), fun _ => hno⟩
        · exact absurd hcan (hparent p hp)

end Processes

/-! ## The first process -/

lemma sysExit_first (k : Kernel) (prepare : Prepare) (code : UInt64) (shell : ExecResult)
    (hpid : (k.procs k.current).pid = 1) :
    (k.sysExit prepare code shell).1 = .halted ↔ shell.fails = true := by
  unfold sysExit
  rw [if_neg (by simp [hpid])]
  cases shell with
  | refused =>
    simp only [execProgram, ExecResult.fails]
    split <;> simp_all
  | failed newP4 =>
    by_cases hp : newP4 = 0
    · simp [execProgram, ExecResult.fails, hp, enomem]
    · simp only [execProgram, ExecResult.fails, if_neg hp]
      split <;> simp_all
  | loaded newP4 =>
    by_cases hp : newP4 = 0
    · simp [execProgram, ExecResult.fails, hp, enomem]
    · simp [execProgram, ExecResult.fails, hp]

variable {ending : Ending} {k : Kernel}

lemma endCurrent_of_ends (h : k.Ends ending) :
    ∃ code, k.endCurrent prepare ending = k.processExitAndWakeParent prepare code := by
  cases ending with
  | exit code | fault code => exact ⟨code, if_pos h⟩
  | signal => exact ⟨_, if_pos h⟩

lemma endCurrent_of_stays (h : ¬ k.Ends ending) :
    (k.endCurrent prepare ending).1 = .halted ↔ ¬ KeepsFirst ending := by
  cases ending with
  | exit code shell =>
    have hpid : (k.procs k.current).pid = 1 := not_not.1 h
    rw [KeepsFirst, Bool.not_eq_false]
    exact sysExit_first k prepare code shell hpid
  | fault code =>
    have hfirst : k.endCurrent prepare (.fault code) = (.returned 0, k) := if_neg h
    simp [hfirst, KeepsFirst]
  | signal number =>
    have hfirst : k.endCurrent prepare (.signal number) = (.returned 0, k) := if_neg h
    simp [hfirst, KeepsFirst]

/-! ## Result -/

/-- The end of the running process hands the processor to a process that can run, and halts the
machine only if there is none, exactly if: it is a thread, or its parent is ready or waits for it,
or nobody can run at all. The first process does not end; its `exit` halts the machine exactly if
the shell cannot be run in its place. -/
theorem handsOver_iff (k : Kernel) (prepare : Prepare) (ending : Ending) :
    k.HandsOver prepare ending ↔
      (k.Ends ending → k.FindsSuccessor) ∧
      (¬ k.Ends ending → KeepsFirst ending ∨ ∀ j, ¬ k.OtherReady j) := by
  unfold HandsOver
  by_cases hends : k.Ends ending
  · obtain ⟨code, hexit⟩ := endCurrent_of_ends prepare hends
    rw [hexit]
    simpa [hends] using exit_hands_over (k := k) prepare code
  · have hhalt := endCurrent_of_stays prepare hends
    tauto

/-- The first process makes a second one and gives way to it, which makes a third one and exits; the
first process gives way to the third one. -/
def orphanRuns : List Op :=
  [.fork .zero 2, .schedule .zero, .fork .zero 3, .exit 0 fun _ _ => true, .schedule .zero]

/-- The exit of the orphan halts the machine, with the first process ready. -/
theorem orphan_exit_halts :
    (((initProcess 1).run orphanRuns).endCurrent (fun _ _ => true)
        (.exit 0 (.refused 2))).1 = .halted ∧
      ((initProcess 1).run orphanRuns).CanRun ((initProcess 1).run orphanRuns).current 0 ∧
      ¬ ((initProcess 1).run orphanRuns).HandsOver (fun _ _ => true) (.exit 0 (.refused 2)) := by
  have hcan : ((initProcess 1).run orphanRuns).CanRun
      ((initProcess 1).run orphanRuns).current 0 := by
    refine ⟨by decide, by decide +kernel, .inl (by decide +kernel)⟩
  have hhalt : (((initProcess 1).run orphanRuns).endCurrent (fun _ _ => true)
      (.exit 0 (.refused 2))).1 = .halted := by decide +kernel
  have hends : ((initProcess 1).run orphanRuns).Ends (.exit 0 (.refused 2)) := by
    simp only [Ends]
    decide +kernel
  exact ⟨hhalt, hcan, fun h => (h.1 hends).2 hhalt 0 hcan⟩

end Kernel

end AosKernel.Proc
