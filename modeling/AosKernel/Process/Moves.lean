import AosKernel.Process.Refinement

/-!
# What an entry does to the process table

An entry of the kernel is a sequence of changes to the process table (`Kernel.Moves`). Most of them
keep what every process has saved: its registers, its descriptors, and its life (`Kernel.Keeps`).
The others change the process that runs, give a waiting parent its result, release the descriptors
of a process, end it and clear its slot. `Kernel.step_moves` is about every entry that creates no
process; what becomes of registers and descriptors is read off the moves. -/

namespace AosKernel.Proc

open Lib Fd Function

/-! ## One process -/

def Status.Gone (s : Status) : Prop := s = .dead ∨ s = .zombie

/-- The saved registers are the same; the process does not start to wait, and is not created. -/
structure Process.SameContext (p p' : Process) : Prop where
  regs : p'.regs = p.regs
  hasInterruptContext : p'.hasInterruptContext = p.hasInterruptContext
  interruptedRcx : p'.interruptedRcx = p.interruptedRcx
  interruptedR11 : p'.interruptedR11 = p.interruptedR11
  waiting : p'.status = .waiting → p.status = .waiting
  dead : p.status = .dead → p'.status = .dead

/-- A waiting process has been given a result. -/
structure Process.GivenResult (p p' : Process) : Prop where
  waiting : p.status = .waiting
  released : p'.status ≠ .waiting
  regs : { p'.regs with rax := p.regs.rax } = p.regs

/-- The saved registers and the descriptors are the same, and the process has not ended. -/
structure Process.Kept (p p' : Process) : Prop where
  context : p.SameContext p'
  table : p'.fdTable = p.fdTable
  gone : p'.status.Gone → p.status.Gone

variable {p p' p'' : Process}

lemma Process.SameContext.refl (p : Process) : p.SameContext p :=
  ⟨rfl, rfl, rfl, rfl, id, id⟩

theorem Process.SameContext.trans (h : p.SameContext p') (h' : p'.SameContext p'') :
    p.SameContext p'' :=
  ⟨h'.regs.trans h.regs, h'.hasInterruptContext.trans h.hasInterruptContext,
    h'.interruptedRcx.trans h.interruptedRcx, h'.interruptedR11.trans h.interruptedR11,
    fun hw => h.waiting (h'.waiting hw), fun hd => h'.dead (h.dead hd)⟩

lemma Process.Kept.refl (p : Process) : p.Kept p := ⟨.refl p, rfl, id⟩

theorem Process.Kept.trans (h : p.Kept p') (h' : p'.Kept p'') : p.Kept p'' :=
  ⟨h.context.trans h'.context, h'.table.trans h.table, fun hg => h.gone (h'.gone hg)⟩

namespace Kernel

/-! ## Changes that keep every process -/

/-- Every process is kept, and so are the objects behind the descriptors. -/
structure Keeps (k k' : Kernel) : Prop where
  objects : k'.objects = k.objects
  procs : ∀ i, (k.procs i).Kept (k'.procs i)

variable {k k' k'' : Kernel}

theorem Keeps.trans (h : k.Keeps k') (h' : k'.Keeps k'') : k.Keeps k'' :=
  ⟨h'.objects.trans h.objects, fun i => (h.procs i).trans (h'.procs i)⟩

lemma Keeps.of_eq (ho : k'.objects = k.objects) (hp : k'.procs = k.procs) : k.Keeps k' :=
  ⟨ho, fun _ => hp ▸ .refl _⟩

lemma SamePhases.keeps (h : SamePhases k k') : k.Keeps k' where
  objects := by
    have hrest := congrArg Kernel.objects h.rest
    exact hrest
  procs := fun i => by
    rw [h.procs]
    exact ⟨⟨rfl, rfl, rfl, rfl, id, id⟩, rfl, id⟩

lemma releaseFds_table (k : Kernel) (i : Nat) :
    ((k.releaseFds i).procs i).fdTable = closedTable := by
  simp [releaseFds, modifyProc, setProc]

lemma releaseProcessMemory_status (k : Kernel) (i l : Nat) :
    ((k.releaseProcessMemory i).procs l).status = (k.procs l).status := by
  unfold releaseProcessMemory processReleaseAddressSpace vmmDestroyUserSpace
  dsimp only
  repeat' split
  all_goals first
    | rfl
    | exact modifyProc_field k i l (f := fun p => { p with p4Table := 0 }) Process.status
        fun _ => rfl

section

variable (k)

lemma keeps_modifyProc (i : Nat) {f : Process → Process}
    (h : (k.procs i).Kept (f (k.procs i))) : k.Keeps (k.modifyProc i f) := by
  refine ⟨rfl, fun j => ?_⟩
  by_cases e : j = i
  · subst e
    simpa [modifyProc, setProc] using h
  · simpa [modifyProc, setProc, update_of_ne e] using .refl _

lemma keeps_setStatus (i : Nat) {status : Status} (hlive : (k.procs i).status ≠ .dead)
    (hs : status ≠ .waiting ∧ ¬ status.Gone) : k.Keeps (k.setStatus i status) :=
  keeps_modifyProc k i ⟨⟨rfl, rfl, rfl, rfl, fun h => absurd h hs.1, fun h => absurd h hlive⟩, rfl,
    fun h => absurd h hs.2⟩

lemma keeps_take {next : Nat} (hlive : (k.procs next).status ≠ .dead) :
    k.Keeps ({ k with current := next }.setStatus next .running) := by
  refine Keeps.trans ?_ (keeps_setStatus _ next hlive (by simp [Status.Gone]))
  exact .of_eq rfl rfl

lemma writeProcessU32_same (prepare : Prepare) (i : Nat) (address : UInt64) (value : UInt32) :
    (k.writeProcessU32 prepare i address value).2.objects = k.objects ∧
      (k.writeProcessU32 prepare i address value).2.procs = k.procs := by
  unfold writeProcessU32
  split <;> exact ⟨rfl, rfl⟩

lemma keeps_processReleaseAddressSpace (root i : Nat) :
    k.Keeps (k.processReleaseAddressSpace root i) := by
  unfold processReleaseAddressSpace vmmDestroyUserSpace
  split
  · exact .of_eq rfl rfl
  · split <;> exact .of_eq rfl rfl

lemma keeps_releaseProcessMemory (i : Nat) : k.Keeps (k.releaseProcessMemory i) := by
  unfold releaseProcessMemory
  dsimp only
  split
  · exact .of_eq rfl rfl
  · exact (keeps_modifyProc k i ⟨⟨rfl, rfl, rfl, rfl, id, id⟩, rfl, id⟩).trans
      (keeps_processReleaseAddressSpace _ _ i)

lemma keeps_processCompleteVfork (c : Nat) : k.Keeps (k.processCompleteVfork c) := by
  unfold processCompleteVfork
  dsimp only
  split
  · exact .of_eq rfl rfl
  have hchild := keeps_modifyProc k c (f := fun p => { p with vforkParentPid := 0 })
    ⟨⟨rfl, rfl, rfl, rfl, id, id⟩, rfl, id⟩
  split
  · exact hchild
  refine hchild.trans (keeps_modifyProc _ _ ⟨⟨rfl, rfl, rfl, rfl, ?_, ?_⟩, rfl, ?_⟩)
  all_goals
    split <;> simp_all [Status.Gone]

lemma keeps_updateThermalPolicy (active : Bool) : k.Keeps (k.updateThermalPolicy active) := by
  refine ⟨rfl, fun i => ?_⟩
  unfold updateThermalPolicy
  dsimp only
  split
  · unfold thermalSlot
    split <;> exact ⟨⟨rfl, rfl, rfl, rfl, id, id⟩, rfl, id⟩
  · exact .refl _

lemma keeps_exitToParent (child parent : Nat) : k.Keeps (k.exitToParent child parent) := by
  unfold exitToParent
  have h1 : k.Keeps ({ k with current := parent }.switchPageTable (k.procs parent).p4Table) :=
    .of_eq rfl rfl
  refine ((h1.trans (keeps_releaseProcessMemory _ child)).trans
    (keeps_modifyProc _ parent ?_)).trans (.of_eq rfl rfl)
  split
  · next hs =>
    refine ⟨⟨rfl, rfl, rfl, rfl, ?_, fun hd => ?_⟩, rfl, ?_⟩
    · simp [clearWait]
    · simp [hd] at hs
    · simp [clearWait, Status.Gone]
  · exact .refl _

lemma keeps_processSetIdentity (uid : UInt32) : k.Keeps (k.processSetIdentity uid) :=
  keeps_modifyProc k k.current ⟨⟨rfl, rfl, rfl, rfl, id, id⟩, rfl, id⟩

lemma keeps_processBecomeRoot : k.Keeps k.processBecomeRoot :=
  keeps_modifyProc k k.current ⟨⟨rfl, rfl, rfl, rfl, id, id⟩, rfl, id⟩

lemma keeps_execProgram (result : ExecResult) : k.Keeps (k.execProgram result).2 := by
  unfold execProgram
  split
  · exact .of_eq rfl rfl
  · split
    · exact .of_eq rfl rfl
    · unfold vmmDestroyUserSpace
      split <;> exact .of_eq rfl rfl
  split
  · exact .of_eq rfl rfl
  unfold execLoaded
  dsimp only
  generalize hk1 : modifyProc _ k.current _ = k1
  have h1 : k.Keeps k1 := by
    rw [← hk1]
    refine Keeps.trans ?_ (keeps_modifyProc _ _ ⟨⟨rfl, rfl, rfl, rfl, id, id⟩, rfl, id⟩)
    exact .of_eq rfl rfl
  generalize hk2 : processReleaseAddressSpace _ _ _ = k2
  have h2 : k.Keeps k2 := by
    rw [← hk2]
    refine (h1.trans ?_).trans (keeps_processReleaseAddressSpace _ _ _)
    exact .of_eq rfl rfl
  have h3 : k.Keeps (k2.loadFsBase 0) := h2.trans (.of_eq rfl rfl)
  exact (h3.trans (keeps_processCompleteVfork _ k.current)).trans (.of_eq rfl rfl)

lemma keeps_timerPrologue (frame : InterruptFrame) (thermal : Option Bool) :
    k.Keeps (k.timerPrologue frame thermal) := by
  unfold timerPrologue
  generalize hk1 : (if (k.procs k.current).status = .running then k.modifyProc _ _ else k) = k1
  have h1 : k.Keeps k1 := by
    rw [← hk1]
    split
    · exact keeps_modifyProc k _ ⟨⟨rfl, rfl, rfl, rfl, id, id⟩, rfl, id⟩
    · exact .of_eq rfl rfl
  cases thermal with
  | none => exact h1.trans (.of_eq rfl rfl)
  | some active => exact (h1.trans (keeps_updateThermalPolicy k1 active)).trans (.of_eq rfl rfl)

end

/-! ## Moves -/

/-- One change to the process table while the slot `cur` runs; `ends` says whether results are given
to parents that wait. -/
inductive Move (cur : Nat) (ends : Bool) (k : Kernel) : Kernel → Prop where
  | keep {k' : Kernel} (h : k.Keeps k') : Move cur ends k k'
  | edit {i : Nat} {f : Process → Process}
      (hcontext : i = cur ∨ (k.procs i).SameContext (f (k.procs i)) ∨
        ends = true ∧ (k.procs i).GivenResult (f (k.procs i)))
      (htable : (f (k.procs i)).fdTable = (k.procs i).fdTable)
      (hgone : (f (k.procs i)).status.Gone →
        (k.procs i).status.Gone ∨ (k.procs i).fdTable = closedTable) :
      Move cur ends k (k.modifyProc i f)
  | release {i : Nat} (hi : i = cur ∨ i < maxProcesses) : Move cur ends k (k.releaseFds i)
  | clear {i : Nat} (hi : i = cur ∨ i < maxProcesses)
      (h : (k.procs i).status.Gone ∨ (k.procs i).fdTable = closedTable) :
      Move cur ends k (k.clearSlot i)

abbrev Moves (cur : Nat) (ends : Bool) : Kernel → Kernel → Prop :=
  Relation.ReflTransGen (Move cur ends)

variable {cur child : Nat} {ends : Bool}

lemma Keeps.moves (h : k.Keeps k') : Moves cur ends k k' := .single (.keep h)

lemma move_own (k : Kernel) {f : Process → Process}
    (ht : (f (k.procs cur)).fdTable = (k.procs cur).fdTable)
    (hg : (f (k.procs cur)).status.Gone → (k.procs cur).status.Gone) :
    Move cur ends k (k.modifyProc cur f) :=
  .edit (.inl rfl) ht fun h => .inl (hg h)

lemma move_wake (k : Kernel) {i : Nat} (hwait : (k.procs i).status = .waiting) (rax : UInt64)
    {status : Status} (hs : status ≠ .waiting ∧ ¬ status.Gone) :
    Move cur true k (k.modifyProc i fun p => clearWait { p with
      regs := { p.regs with rax := rax }, status := status }) :=
  .edit (.inr (.inr ⟨rfl, hwait, hs.1, rfl⟩)) rfl fun h => absurd h hs.2

lemma moves_handover {context : Process → InterruptFrame} {taken : Bool}
    (h : Handover context k cur taken k') : Moves cur ends k k' := by
  cases h with
  | stay hsame => exact hsame.keeps.moves.tail (move_own _ rfl (by simp [Status.Gone]))
  | @switch k2 next hsame hlt hready =>
    have htaken : k2.Keeps (k2.setStatus next .running) :=
      keeps_setStatus k2 next (by simp [hready]) (by simp [Status.Gone])
    exact (hsame.keeps.trans htaken).moves.tail (.keep (.of_eq rfl rfl))

section

variable (k)

lemma moves_schedule (regs : SyscallRegs) : Moves k.current ends k (k.schedule regs).2 := by
  refine (moves_handover (schedule_handover k regs)).head (move_own k rfl fun hg => ?_)
  split at hg
  · simp [Status.Gone] at hg
  · exact hg

lemma moves_preemptFromInterrupt (frame : InterruptFrame) :
    Moves k.current ends k (k.preemptFromInterrupt frame) := by
  by_cases hkeep : frame.fromUser = false ∨ (k.procs k.current).status ≠ .running
  · rw [preemptFromInterrupt, if_pos hkeep]
  · obtain ⟨taken, h⟩ := preempt_handover hkeep
    exact (moves_handover h).head (move_own k rfl (by simp [Status.Gone]))

/-! ## The end of a process -/

variable (prepare : Prepare)

lemma moves_exitPrologue (hchild : child = cur ∨ child < maxProcesses) :
    Moves cur ends k (k.exitPrologue prepare child) := by
  unfold exitPrologue
  refine Relation.ReflTransGen.tail ?_ (.release hchild)
  refine ((keeps_processCompleteVfork k child).trans ?_).moves
  split
  · obtain ⟨ho, hp⟩ := writeProcessU32_same (k.processCompleteVfork child) prepare child _ 0
    exact .of_eq ho hp
  · exact .of_eq rfl rfl

lemma moves_releaseClear {i : Nat} (hi : i = cur ∨ i < maxProcesses)
    (h : (k.procs i).fdTable = closedTable) :
    Moves cur ends k ((k.releaseProcessMemory i).clearSlot i) := by
  have hkeep := keeps_releaseProcessMemory k i
  exact hkeep.moves.tail (.clear hi (.inr ((hkeep.procs i).table.trans h)))

lemma moves_exitThread (hchild : child = cur ∨ child < maxProcesses)
    (h : (k.procs child).fdTable = closedTable) : Moves cur ends k (k.exitThread child).2 := by
  have h1 : Moves cur ends k _ := moves_releaseClear k hchild h
  unfold exitThread
  dsimp only
  split
  · exact h1
  · next next hnext =>
    obtain ⟨-, hready⟩ := nextAfterThread_ready hnext
    have hlive := ne_of_eq_of_ne hready (show Status.ready ≠ .dead by simp)
    exact (h1.trans (keeps_take _ hlive).moves).tail (.keep (.of_eq rfl rfl))

lemma moves_exitToWaiter {parent : Nat} (raw : UInt32)
    (hwait : (k.procs parent).status = .waiting) (hchild : child = cur ∨ child < maxProcesses)
    (h : (k.procs child).fdTable = closedTable) :
    Moves cur true k (k.exitToWaiter prepare child parent raw) := by
  unfold exitToWaiter
  dsimp only
  generalize ((k.procs parent).waitStatusPtr == 0 || prepare _ _) = writable
  generalize hk1 : (if (k.procs parent).waitStatusPtr ≠ 0 ∧ writable = true then storeWord _ _ _
    else k.switchPageTable (k.procs parent).p4Table) = k1
  obtain ⟨ho, hp⟩ : k1.objects = k.objects ∧ k1.procs = k.procs := by
    rw [← hk1]
    split <;> exact ⟨rfl, rfl⟩
  have h2 := (Keeps.of_eq ho hp).trans (keeps_releaseProcessMemory k1 child)
  have hstatus := releaseProcessMemory_status k1 child parent
  rw [hp, hwait] at hstatus
  generalize k1.releaseProcessMemory child = k2 at h2 hstatus ⊢
  refine ((h2.moves.tail (move_wake k2 hstatus _ (by simp [Status.Gone]))).tail
    (.clear hchild (.inr ?_))).tail (.keep (.of_eq rfl rfl))
  refine (modifyProc_field k2 parent child Process.fdTable ?_).trans
    ((h2.procs child).table.trans h)
  exact fun _ => rfl

lemma moves_processExitAndWakeParent (code : UInt64) :
    Moves k.current true k (k.processExitAndWakeParent prepare code).2 := by
  unfold processExitAndWakeParent
  dsimp only
  have h1 : Moves k.current true k _ := moves_exitPrologue k prepare (.inl rfl)
  have hclosed : ((k.exitPrologue prepare k.current).procs k.current).fdTable = closedTable :=
    releaseFds_table _ _
  generalize k.exitPrologue prepare k.current = k1 at h1 hclosed ⊢
  split
  · exact h1.trans (moves_exitThread k1 (.inl rfl) hclosed)
  have hz := h1.tail (.edit
    (f := fun p => { p with status := .zombie, exitStatus := rawStatus code }) (.inl rfl) rfl
    fun _ => .inr hclosed)
  split
  · exact hz
  split
  · next hwait => exact h1.trans (moves_exitToWaiter k1 prepare _ hwait.1 (.inl rfl) hclosed)
  split
  · exact hz.trans (keeps_exitToParent _ _ _).moves
  · exact hz

lemma moves_wakeParentIfWaiting (child : Nat) (raw : UInt32) :
    Moves cur true k (k.wakeParentIfWaiting prepare child raw).2 ∧
      ∀ i, ((k.wakeParentIfWaiting prepare child raw).2.procs i).fdTable = (k.procs i).fdTable := by
  unfold wakeParentIfWaiting
  split
  · exact ⟨.refl, fun _ => rfl⟩
  next parent _ =>
  dsimp only
  split
  · exact ⟨.refl, fun _ => rfl⟩
  next hwait =>
  -- Both branches set `rax` and make the parent ready.
  have hwake : ∀ (k1 : Kernel) rax, k1.objects = k.objects → k1.procs = k.procs →
      Moves cur true k (k1.modifyProc parent fun p => clearWait { p with
        regs := { p.regs with rax := rax }, status := .ready }) ∧
      ∀ i, ((k1.modifyProc parent fun p => clearWait { p with
        regs := { p.regs with rax := rax }, status := .ready }).procs i).fdTable =
          (k.procs i).fdTable := by
    intro k1 rax ho hp
    refine ⟨(Keeps.of_eq ho hp).moves.tail (move_wake k1 ?_ rax (by simp [Status.Gone])),
      fun i => ?_⟩
    · rw [hp]
      exact not_not.1 (not_or.1 hwait).1
    · refine (modifyProc_field k1 parent i Process.fdTable ?_).trans (by rw [hp])
      exact fun _ => rfl
  split
  · exact hwake k _ rfl rfl
  · refine hwake _ _ ?_ ?_
    all_goals
      split
      · split <;> rfl
      · rfl

lemma moves_sysProcessKill (regs : SyscallRegs) :
    Moves k.current true k (k.sysProcessKill prepare regs).2 := by
  unfold sysProcessKill
  dsimp only
  split
  · exact .refl
  next i hi =>
  obtain ⟨hlt, hlive⟩ := findSlot_some hi
  simp only [Bool.and_eq_true, bne_iff_ne] at hlive
  split
  · exact .refl
  split
  · exact .refl
  split
  · exact .refl
  have hkeep := keeps_releaseProcessMemory (k.releaseFds i) i
  have h1 : Moves k.current true k _ := .head (.release (.inr hlt)) hkeep.moves
  have hclosed := (hkeep.procs i).table.trans (releaseFds_table k i)
  have hstatus : (((k.releaseFds i).releaseProcessMemory i).procs i).status ≠ .dead := by
    rw [releaseProcessMemory_status]
    simpa [releaseFds, modifyProc, setProc] using hlive.1
  generalize (k.releaseFds i).releaseProcessMemory i = k1 at h1 hclosed hstatus ⊢
  generalize hk2 : k1.modifyProc i _ = k2
  have h2 : Moves k.current true k k2 := by
    rw [← hk2]
    exact h1.tail (.edit (.inr (.inl ⟨rfl, rfl, rfl, rfl, by simp,
      fun hd => absurd hd hstatus⟩)) rfl fun _ => .inr hclosed)
  have hclosed2 : (k2.procs i).fdTable = closedTable := by
    rw [← hk2]
    simpa [modifyProc, setProc] using hclosed
  obtain ⟨hw, htable⟩ := moves_wakeParentIfWaiting k2 prepare i (rawStatus regs.rsi)
  rcases hwake : k2.wakeParentIfWaiting prepare i (rawStatus regs.rsi) with ⟨woken, k3⟩
  rw [hwake] at hw htable
  cases woken with
  | false => exact h2.trans hw
  | true => exact (h2.trans hw).tail (.clear (.inr hlt) (.inr ((htable i).trans hclosed2)))

lemma moves_terminateUidProcesses (uid exceptPid : UInt32) :
    Moves cur ends k (k.terminateUidProcesses uid exceptPid) := by
  have hall : ∀ (l : List Nat) (k' : Kernel), (∀ i ∈ l, i < maxProcesses) →
      Moves cur ends k' (l.foldl (terminateSlot uid exceptPid) k') := by
    intro l
    induction l with
    | nil => exact fun k' _ => .refl
    | cons i l ih =>
      intro k' hl
      refine Relation.ReflTransGen.trans ?_ (ih _ fun j hj => hl j (List.mem_cons_of_mem _ hj))
      unfold terminateSlot
      dsimp only
      split
      · exact .refl
      · have hi : i = cur ∨ i < maxProcesses := .inr (hl i List.mem_cons_self)
        exact (moves_releaseClear _ hi (releaseFds_table k' i)).head (.release hi)
  exact hall _ k fun i hi => List.mem_range.1 hi

/-! ## Waiting -/

lemma moves_reapZombie (statusPtr : UInt64) {zombie : Nat}
    (hlt : zombie < maxProcesses) (hz : (k.procs zombie).status = .zombie) :
    Moves cur ends k (k.reapZombie prepare statusPtr zombie).2 := by
  unfold reapZombie
  dsimp only
  split
  · exact .single (.clear (.inr hlt) (.inl (.inr hz)))
  obtain ⟨ho, hp⟩ := writeProcessU32_same k prepare k.current statusPtr (k.procs zombie).exitStatus
  rcases hwrite : k.writeProcessU32 prepare k.current statusPtr (k.procs zombie).exitStatus with
    ⟨ok, k1⟩
  rw [hwrite] at ho hp
  cases ok with
  | false => exact (Keeps.of_eq ho hp).moves
  | true =>
    refine (Keeps.of_eq ho hp).moves.tail (.clear (.inr hlt) (.inl (.inr ?_)))
    rw [hp, hz]

lemma moves_sysWait4 (regs : SyscallRegs) : Moves k.current ends k (k.sysWait4 prepare regs).2 := by
  unfold sysWait4
  dsimp only
  split
  · exact .refl
  split
  · exact .refl
  split
  · next zombie hz =>
    obtain ⟨hlt, -, hzombie, -⟩ := findSlot_waitsFor hz
    exact moves_reapZombie k prepare regs.rsi hlt hzombie
  split
  · exact .refl
  split
  · exact .refl
  split
  · exact .refl
  next child hchild =>
  obtain ⟨-, -, hready, -⟩ := findSlot_waitsFor hchild
  unfold blockInWait
  generalize hk1 : k.modifyProc k.current _ = k1
  have h1 : Move k.current ends k k1 := hk1 ▸ move_own k rfl (by simp [Status.Gone])
  have hlive : (k1.procs child).status ≠ .dead := by
    rw [← hk1]
    by_cases e : child = k.current
    · simp [e, modifyProc, setProc]
    · simp [modifyProc, setProc, update_of_ne e, hready]
  exact ((keeps_take k1 hlive).moves.head h1).tail (.keep (.of_eq rfl rfl))

end

end Kernel

/-! ## Entries -/

def Op.endsProcess : Op → Bool
  | .exit _ _ | .kill _ _ => true
  | _ => false

def Op.createsProcess : Op → Bool
  | .fork _ _ | .clone _ _ => true
  | _ => false

namespace Kernel

lemma keeps_finish (regs : SyscallRegs) (r : Outcome × Kernel) : r.2.Keeps (finish regs r).2 := by
  obtain ⟨out, k⟩ := r
  cases out <;> exact .of_eq rfl rfl

/-- An entry that creates no process is a sequence of moves. -/
theorem step_moves (k : Kernel) {op : Op} (hop : op.createsProcess = false) :
    Moves k.current op.endsProcess k (k.step op).2 := by
  have hfinish : ∀ {ends : Bool} {regs : SyscallRegs} {r : Outcome × Kernel},
      Moves k.current ends k r.2 → Moves k.current ends k (finish regs r).2 :=
    fun h => h.tail (.keep (keeps_finish _ _))
  have hstatus : ∀ {i : Nat} {old new : Status}, (k.procs i).status = old → old ≠ .dead →
      new ≠ .waiting ∧ ¬ new.Gone → Moves k.current false k (k.setStatus i new) :=
    fun hold hlive hnew => (keeps_setStatus k _ (hold ▸ hlive) hnew).moves
  cases op with
  | fork | clone => simp [Op.createsProcess] at hop
  | exec regs result => exact hfinish (keeps_execProgram k result).moves
  | exit code prepare =>
    unfold step
    dsimp only
    split
    · exact .refl
    · exact moves_processExitAndWakeParent k prepare code
  | wait4 regs prepare => exact hfinish (moves_sysWait4 k prepare regs)
  | kill regs prepare => exact hfinish (moves_sysProcessKill k prepare regs)
  | pause =>
    refine hfinish ?_
    unfold sysProcessPause
    split
    · exact .refl
    split
    · exact .refl
    split
    · next hready => exact hstatus hready (by simp) (by simp [Status.Gone])
    · split <;> exact .refl
  | resume =>
    refine hfinish ?_
    unfold sysProcessResume
    split
    · exact .refl
    split
    · next hpaused => exact hstatus hpaused (by simp) (by simp [Status.Gone])
    · exact .refl
  | schedule regs =>
    have h : Moves k.current false k (k.schedule regs).2 := moves_schedule k regs
    unfold step
    dsimp only
    rcases hsched : k.schedule regs with ⟨taken, k1⟩
    rw [hsched] at h
    cases taken with
    | true => exact h
    | false => exact h.tail (.keep (.of_eq rfl rfl))
  | timer frame thermal =>
    have h : Moves _ false _ _ :=
      moves_preemptFromInterrupt (k.timerPrologue frame thermal) frame
    rw [timerPrologue_current] at h
    exact h.head (.keep (keeps_timerPrologue k frame thermal))
  | login =>
    refine hfinish ?_
    unfold sessionLogin
    dsimp only
    split
    · exact .refl
    split
    · exact .refl
    · exact (keeps_processSetIdentity k _).moves
  | logout =>
    refine hfinish ?_
    unfold sessionLogout
    dsimp only
    split
    · exact .refl
    · exact (moves_terminateUidProcesses k _ _).trans (keeps_processSetIdentity _ _).moves
  | sudoAuth =>
    refine hfinish ?_
    unfold sysSudoAuth
    split
    · exact (keeps_processBecomeRoot k).moves
    · exact .refl

end Kernel

end AosKernel.Proc
