import AosKernel.Fd.Pipes
import AosKernel.Process.Contexts

/-!
# Blocked transfers start again

A read or write that has to wait moves the return address back to the `syscall` instruction and
gives up the processor. `Restarts` says that a process goes on with that very call: the instruction
pointer, the call number and the arguments are those of the call. `Idle` are the runs in which the
process makes no system call of its own, whatever the others do; once the context of a process is
that of the call, it stays so (`restarts_of_idle`). `blocked_call_restarts` says when the call
itself leaves that context. -/

namespace AosKernel.Proc

open Lib Fd Function

/-! ## Giving up the processor -/

namespace Kernel

/-- What `process_select_next_ready` looks at. -/
def SameChoice (k k' : Kernel) : Prop := ∀ i, (k'.procs i).status = (k.procs i).status ∧
  (k'.procs i).thermalThrottled = (k.procs i).thermalThrottled ∧
  (k'.procs i).thermalSkipPhase = (k.procs i).thermalSkipPhase

variable {k : Kernel}

lemma SameChoice.setProc {k' : Kernel} (h : SameChoice k k') (i : Nat) {p p' : Process}
    (hp : p'.status = p.status ∧ p'.thermalThrottled = p.thermalThrottled ∧ p'.thermalSkipPhase =
      p.thermalSkipPhase) : SameChoice (k.setProc i p) (k'.setProc i p') := by
  intro j
  by_cases hj : j = i
  · subst hj
    simpa [Kernel.setProc] using hp
  · simpa [Kernel.setProc, update_of_ne hj] using h j

lemma selectLoop_congr (n : Nat) : ∀ (idx : Nat) (fallback : Option Nat) {k k' : Kernel},
    SameChoice k k' → (selectLoop n idx fallback k').1 = (selectLoop n idx fallback k).1 := by
  induction n with
  | zero => intro idx fallback k k' _; rfl
  | succ n ih =>
    intro idx fallback k k' h
    obtain ⟨hstatus, hthrottled, hphase⟩ := h (idx % maxProcesses)
    unfold selectLoop
    dsimp only
    rw [hstatus, hthrottled, hphase]
    split
    · exact ih _ _ h
    split
    · split
      · exact ih _ _ (h.setProc _ ⟨rfl, rfl, rfl⟩)
      · rfl
    · rfl

/-- The slot that `schedule` goes to, if it is not the current one. -/
def successor (k : Kernel) : Option Nat :=
  ((k.modifyProc k.current fun p => { p with
    status := if p.status = .running then .ready else p.status }).processSelectNextReady
      k.current).1.filter fun next => next != k.current

lemma schedule_switches (k : Kernel) (regs : SyscallRegs) :
    (k.schedule regs).1 = k.successor.isSome := by
  unfold schedule successor
  dsimp only
  generalize hk1 : k.modifyProc k.current _ = k1
  have hchoice : SameChoice (k.modifyProc k.current fun p => { p with
      status := if p.status = .running then .ready else p.status }) k1 := by
    intro j
    rw [← hk1]
    by_cases hj : j = k.current
    · subst hj
      simp [modifyProc, setProc]
    · simp [modifyProc, setProc, update_of_ne hj]
  have hselect : (k1.processSelectNextReady k.current).1 = _ :=
    selectLoop_congr maxProcesses (k.current + 1) none hchoice
  unfold processSelectNextReady at hselect ⊢
  rw [← hselect]
  rcases selectLoop maxProcesses (k.current + 1) none k1 with ⟨choice, k2⟩
  cases choice with
  | none => rfl
  | some next =>
    by_cases hnext : next = k.current
    · simp [hnext]
    · simp [hnext]

lemma schedule_suspends {regs : SyscallRegs} (h : (k.schedule regs).1 = true) :
    (k.schedule regs).2.current ≠ k.current ∧
      ((k.schedule regs).2.procs k.current).regs = regs ∧
      ((k.schedule regs).2.procs k.current).status =
        if (k.procs k.current).status = .running then .ready else (k.procs k.current).status := by
  have hover := schedule_handover k regs
  rw [h] at hover
  have hsaved : ((k.yielded regs).procs k.current).regs = regs ∧
      ((k.yielded regs).procs k.current).status =
        if (k.procs k.current).status = .running then .ready else (k.procs k.current).status := by
    simp [yielded, modifyProc, setProc]
  generalize (k.schedule regs).2 = k' at hover
  cases hover with
  | switch hsame hlt hready hne =>
    refine ⟨hne, ?_⟩
    simp only [handTo, setStatus, modifyProc, setProc, update_of_ne hne.symm]
    rw [hsame.procs]
    exact hsaved

/-- An interrupt that takes nobody goes back to where it came from. -/
lemma timer_stays {frame : InterruptFrame} {thermal : Option Bool}
    (h : (k.step (.timer frame thermal)).2.current = k.current) :
    (k.step (.timer frame thermal)).2.user = if frame.fromUser then frame else k.user := by
  have hprologue : (k.timerPrologue frame thermal).user =
      if frame.fromUser then frame else k.user := by
    unfold timerPrologue updateThermalPolicy
    cases thermal with
    | none | some =>
      split
      · rfl
      · split <;> rfl
  have hcur := timerPrologue_current frame thermal k
  have hstep : (k.step (.timer frame thermal)).2 =
      (k.timerPrologue frame thermal).preemptFromInterrupt frame := timerHandler_eq ..
  rw [hstep] at h ⊢
  rw [← hprologue]
  generalize k.timerPrologue frame thermal = k0 at h hcur
  by_cases hkeep : frame.fromUser = false ∨ (k0.procs k0.current).status ≠ .running
  · rw [preemptFromInterrupt, if_pos hkeep]
  obtain ⟨taken, hover⟩ := preempt_handover hkeep
  generalize k0.preemptFromInterrupt frame = k' at h hover ⊢
  cases hover with
  | stay hsame =>
    have huser := congrArg Kernel.user hsame.rest
    exact huser
  | switch hsame hlt hready hne => exact absurd (h.trans hcur.symm) hne

end Kernel

end AosKernel.Proc

namespace AosKernel.Fd

open Lib Proc Function

variable {σ : Type}

/-! ## The call a process goes on with -/

def FdCall.number : FdCall → Option UInt64
  | .read => some 0
  | .write _ => some 1
  | .readv _ => some 19
  | .writev _ => some 20
  | _ => none

/-- The context is that of the system call made with `regs`, at its instruction. The registers `rcx`
and `r11` are overwritten by the instruction itself. -/
def SameCall (regs : SyscallRegs) (f : InterruptFrame) : Prop :=
  { f.gpr with rcx := 0, r11 := 0 } = { regs with rcx := 0, r11 := 0 } ∧ f.rip = regs.rcx - 2

/-- The context that slot `j` goes on with: that of user mode if it runs, or the saved one. -/
def contextOf (j : Nat) (k : Kernel) : InterruptFrame :=
  if k.current = j then k.user else (k.procs j).switchContext

/-- Slot `j` goes on with the call made with `regs`. -/
def Restarts (j : Nat) (regs : SyscallRegs) (k : Kernel) : Prop := SameCall regs (contextOf j k)

def FdCall.Waits (F : FileSystem σ) (env : Surroundings) (regs : SyscallRegs) (c : FdCall)
    (s : Sys σ) : Prop :=
  (c.run F env regs s.io).1.saved ≠ []

/-- The runs from `s₀` in which slot `j` lives and makes no system call: the entries are those of
other processes, and interrupts at the instruction where slot `j` stands. -/
inductive Idle (F : FileSystem σ) (j : Nat) (s₀ : Sys σ) : Sys σ → Prop where
  | start : Idle F j s₀ s₀
  | step {s : Sys σ} (h : Idle F j s₀ s) (op : SysOp)
      (hop : s.kernel.current = j → ∃ frame thermal, op = .proc (.timer frame thermal) ∧
        (frame.fromUser = true → frame = s.kernel.user))
      (hout : (s.step F op).1 ≠ .halted)
      (hlive : ((s.step F op).2.kernel.procs j).status ≠ .dead) : Idle F j s₀ (s.step F op).2

/-- A context that a process of slot `j` keeps while it is suspended: nobody delivers a result. -/
structure Kept (j : Nat) (regs : SyscallRegs) (k : Kernel) : Prop where
  restarts : Restarts j regs k
  active : k.machine.Active
  live : (k.procs j).status ≠ .dead
  waiting : (k.procs j).status ≠ .waiting

section Invariant

variable {j : Nat} {regs : SyscallRegs} {k : Kernel}

lemma restarts_current (h : k.current = j) : Restarts j regs k ↔ SameCall regs k.user := by
  unfold Restarts contextOf
  rw [if_pos h]

lemma restarts_other (h : k.current ≠ j) :
    Restarts j regs k ↔ SameCall regs (k.procs j).switchContext := by
  unfold Restarts contextOf
  rw [if_neg h]

/-- The two ways to resume a process agree on everything but `rcx`, `r11` and the flags. -/
lemma sameCall_resumeContext (op : Op) (p : Process) :
    SameCall regs (op.resumeContext p) ↔ SameCall regs p.switchContext := by
  cases op <;> exact Iff.rfl

theorem SameCall.kept {p p' : Process} (h : SameCall regs p.switchContext) (hp : p.SameContext p') :
    SameCall regs p'.switchContext := by
  unfold Process.switchContext at h ⊢
  rw [hp.regs]
  exact h

/-- A suspended process with the same saved registers keeps its context, also when it is taken. -/
lemma Kept.suspended {k' : Kernel} (h : Kept j regs k) (hj : k.current ≠ j)
    (hact : k'.machine.Active) (hlive : (k'.procs j).status ≠ .dead)
    (hsame : (k.procs j).SameContext (k'.procs j)) (huser : k'.current = j →
      (SameCall regs k'.user ↔ SameCall regs (k'.procs j).switchContext)) : Kept j regs k' := by
  have hcall := ((restarts_other hj).1 h.restarts).kept hsame
  refine ⟨?_, hact, hlive, fun hw => h.waiting (hsame.waiting hw)⟩
  by_cases hcur : k'.current = j
  · exact (restarts_current hcur).2 ((huser hcur).2 hcall)
  · exact (restarts_other hcur).2 hcall

lemma Kept.step_other (h : Kept j regs k) (op : Op) (hj : k.current ≠ j)
    (hout : (k.step op).1 ≠ .halted) (hlive : ((k.step op).2.procs j).status ≠ .dead) :
    Kept j regs (k.step op).2 := by
  have hsame : (k.procs j).SameContext ((k.step op).2.procs j) := by
    rcases k.step_context op (Ne.symm hj) h.live with (hd | hsame) | ⟨-, hgiven⟩
    · exact absurd hd hlive
    · exact hsame
    · exact absurd hgiven.waiting h.waiting
  refine h.suspended hj (Kernel.active_step h.active op hout) hlive hsame fun hcur => ?_
  obtain ⟨hlt, hlive0, -⟩ := Kernel.current_of_active h.active
  rw [Kernel.user_step op hlt hlive0 hout fun e => hj (e.symm.trans hcur), sameCall_resumeContext,
    hcur]

lemma Kept.step_timer (h : Kept j regs k) (frame : InterruptFrame) (thermal : Option Bool)
    (hj : k.current = j) (hframe : frame.fromUser = true → frame = k.user)
    (hlive : ((k.step (.timer frame thermal)).2.procs j).status ≠ .dead) :
    Kept j regs (k.step (.timer frame thermal)).2 := by
  subst hj
  have hact := Kernel.active_step h.active (.timer frame thermal) (by simp [Kernel.step])
  have huser := (restarts_current rfl).1 h.restarts
  by_cases hcur : (k.step (.timer frame thermal)).2.current = k.current
  · obtain ⟨-, -, hwait, -⟩ := Kernel.current_of_active hact
    rw [hcur] at hwait
    refine ⟨(restarts_current hcur).2 ?_, hact, hlive, hwait⟩
    rw [Kernel.timer_stays hcur]
    split
    · next hfrom => rwa [hframe hfrom]
    · exact huser
  · obtain ⟨hregs, -, -, -, hwait⟩ :=
      Kernel.fits_begin (.timer frame thermal) h.active (by simp [Kernel.step]) hcur hlive
    -- Only an interrupt of user mode takes another process.
    have hfrom : frame.fromUser = true := by
      by_contra hf
      refine hcur ?_
      have hstep : (k.step (.timer frame thermal)).2 =
          (k.timerPrologue frame thermal).preemptFromInterrupt frame := Kernel.timerHandler_eq ..
      rw [hstep, Kernel.preemptFromInterrupt, if_pos (.inl (by simpa using hf))]
      exact Kernel.timerPrologue_current frame thermal k
    refine ⟨(restarts_other hcur).2 ?_, hact, hlive, hwait⟩
    obtain rfl := hframe hfrom
    unfold Process.switchContext
    rw [hregs]
    exact huser

end Invariant

/-! ## Calls of other processes -/

namespace Sys

variable {F : FileSystem σ} {s : Sys σ} {j : Nat} {regs : SyscallRegs}

lemma keepsContext_withIo (s : Sys σ) (r : IoState σ) :
    Kernel.KeepsContext j s.kernel (s.withIo r).kernel :=
  (Kernel.keepsContext_field s.kernel s.kernel.current
    (f := fun p => { p with fdTable := r.table }) fun _ => ⟨rfl, rfl, rfl, rfl, rfl⟩).trans
    (.of_procs rfl)

/-- The calls of `schedule` leave the contexts of the other processes alone, and load the one they
take. -/
lemma giveUp_context (l : List SyscallRegs) {k : Kernel} (hj : k.current ≠ j) :
    Kernel.KeepsContext j k (giveUp l k).2 ∧
      ((giveUp l k).1 = true → (giveUp l k).2.SwitchLoaded) ∧
      ((giveUp l k).1 = false → (giveUp l k).2.current = k.current) := by
  induction l generalizing k with
  | nil => exact ⟨.of_procs rfl, fun h => by simp [giveUp] at h, fun _ => rfl⟩
  | cons r l ih =>
    have hkeep := Kernel.keepsContext_schedule k r (Ne.symm hj)
    unfold giveUp
    rcases hs : k.schedule r with ⟨b, k1⟩
    cases b with
    | true =>
      have hload : (k.schedule r).2.SwitchLoaded := Kernel.switchLoaded_schedule (by rw [hs])
      rw [hs] at hkeep hload
      exact ⟨hkeep, fun _ => hload, fun h => by simp at h⟩
    | false =>
      have hcur : (k.schedule r).2.current = k.current :=
        Kernel.schedule_stays (by rw [hs])
      rw [hs] at hkeep hcur
      obtain ⟨h1, h2, h3⟩ := ih (hcur ▸ hj : k1.current ≠ j)
      exact ⟨hkeep.trans h1, h2, fun h => (h3 h).trans hcur⟩

lemma kept_call (h : Kept j regs s.kernel) (r : SyscallRegs) (env : Surroundings) (c : FdCall)
    (hj : s.kernel.current ≠ j) (hout : (s.step F (.call r env c)).1 ≠ .halted)
    (hlive : ((s.step F (.call r env c)).2.kernel.procs j).status ≠ .dead) :
    Kept j regs (s.step F (.call r env c)).2.kernel := by
  have hact := active_sysStep F (.call r env c) h.active hout
  unfold step finishCall at hlive hact ⊢
  dsimp only at hlive hact ⊢
  have hio := keepsContext_withIo (j := j) s (c.run F env r s.io).2
  have hcur1 : (s.withIo (c.run F env r s.io).2).kernel.current = s.kernel.current := rfl
  obtain ⟨hkeep, hload, hstay⟩ := giveUp_context (j := j) (c.run F env r s.io).1.saved
    (k := (s.withIo (c.run F env r s.io).2).kernel) (by rw [hcur1]; exact hj)
  have hall := hio.trans hkeep
  generalize giveUp (c.run F env r s.io).1.saved (s.withIo (c.run F env r s.io).2).kernel = g
    at hlive hact hall hload hstay ⊢
  obtain ⟨b, k'⟩ := g
  cases b with
  | true =>
    refine h.suspended hj hact hlive (hall.resolve_left hlive) fun hcur => ?_
    have huser : k'.user = (k'.procs k'.current).switchContext := hload rfl
    rw [huser, hcur]
  | false =>
    refine h.suspended hj hact hlive (hall.resolve_left hlive) fun hcur => ?_
    exact absurd ((hstay rfl).symm.trans hcur) hj

lemma kept_step (h : Kept j regs s.kernel) (op : SysOp)
    (hop : s.kernel.current = j → ∃ frame thermal, op = .proc (.timer frame thermal) ∧
      (frame.fromUser = true → frame = s.kernel.user)) (hout : (s.step F op).1 ≠ .halted)
    (hlive : ((s.step F op).2.kernel.procs j).status ≠ .dead) :
    Kept j regs (s.step F op).2.kernel := by
  by_cases hj : s.kernel.current = j
  · obtain ⟨frame, thermal, rfl, hframe⟩ := hop hj
    exact h.step_timer frame thermal hj hframe hlive
  · cases op with
    | proc op => exact h.step_other op hj hout hlive
    | call r env c => exact kept_call h r env c hj hout hlive

/-- The context stays that of the call until the process makes a call. -/
theorem restarts_of_idle {s' : Sys σ} (h : Idle F j s s') (hkept : Kept j regs s.kernel) :
    Kept j regs s'.kernel := by
  induction h with
  | start => exact hkept
  | step _ op hop hout hlive ih => exact kept_step ih op hop hout hlive

end Sys

/-! ## Attempts that wait -/

/-- The descriptor of a `read` is the read end of a pipe. -/
def readsPipe (regs : SyscallRegs) (table : FdTable) : Bool :=
  (getFdEntry regs.rdi.toNat table).any fun e => e.kind == .pipeReader

namespace IoState

variable (F : FileSystem σ) (env : Surroundings) (regs : SyscallRegs)

lemma readPipe_saved (len i : Nat) (s : IoState σ) :
    (s.readPipe regs len i).1.saved = [] ∨ s.readPipe regs len i = (.waits regs 0, s) := by
  unfold readPipe
  dsimp only
  split
  · exact .inr rfl
  · exact .inl rfl

variable (data : List UInt8)

lemma writePipe_saved (i : Nat) (s : IoState σ) :
    (s.writePipe regs data i).1.saved = [] ∨ s.writePipe regs data i = (.waits regs 0, s) := by
  unfold writePipe
  dsimp only
  split
  · exact .inr rfl
  · exact .inl rfl

lemma Transfers.waiting {regs : SyscallRegs} {s : IoState σ} {kind : FdKind}
    {pipe : Nat → IoReply × IoState σ} {r : IoReply × IoState σ}
    (h : Transfers regs s kind pipe r) (hkind : kind ≠ .eventfd)
    (hpipe : ∀ i, (pipe i).1.saved = [] ∨ pipe i = (.waits regs 0, s)) (hsaved : r.1.saved ≠ []) :
    ∃ e, getFdEntry regs.rdi.toNat s.table = some e ∧
      r = (.waits regs (if e.kind = kind then 0 else -eagain), s) := by
  cases h with
  | refused | other => exact absurd rfl hsaved
  | pipe he hk =>
    refine ⟨_, he, ?_⟩
    rw [if_pos hk]
    exact (hpipe _).resolve_left hsaved
  | waits he hk => exact ⟨_, he, by rw [if_neg (hk ▸ hkind.symm)]⟩

variable (s : IoState σ)

/-- A `read` that waits changes nothing, and returns 0 on a pipe and `EAGAIN` on an event
counter. -/
lemma sysRead_waits (h : (s.sysRead F env regs).1.saved ≠ []) :
    s.sysRead F env regs = (.waits regs (if readsPipe regs s.table then 0 else -eagain), s) := by
  obtain ⟨e, he, hr⟩ :=
    (transfers_sysRead F regs env s).waiting (by decide) (readPipe_saved regs _ · s) h
  rw [hr, readsPipe, he]
  simp

/-- A `write` that waits changes nothing, and returns 0 or `EAGAIN`. -/
lemma sysWrite_waits (h : (s.sysWrite F env regs data).1.saved ≠ []) :
    ∃ value, (value = 0 ∨ value = -eagain) ∧
      s.sysWrite F env regs data = (.waits regs value, s) := by
  obtain ⟨e, -, hr⟩ :=
    (transfers_sysWrite F regs env data s).waiting (by decide) (writePipe_saved regs data · s) h
  refine ⟨_, ?_, hr⟩
  split
  · exact .inl rfl
  · exact .inr rfl

/-- The registers of an attempt on a part of a vector. -/
def partRegs {β : Type} (base length : β → UInt64) (v : β) : SyscallRegs :=
  { regs with rsi := base v, rdx := length v }

/-- A vector call returns with the registers it was called with, and gives up the processor with
those of its parts. -/
lemma vectorLoop_saved {β : Type} (base length : β → UInt64)
    (call : SyscallRegs → β → IoState σ → IoReply × IoState σ)
    (hcall : ∀ r v s, ∀ x ∈ (call r v s).1.saved, x = rewind r) (vs : List β) (total : Int)
    (bytes : List UInt8) (saved : List SyscallRegs) (s : IoState σ) :
    (vectorLoop regs base length call vs total bytes saved s).1.regs = regs ∧
      ∀ x ∈ (vectorLoop regs base length call vs total bytes saved s).1.saved,
        x ∈ saved ∨ ∃ v ∈ vs, x = rewind (partRegs regs base length v) := by
  induction vs generalizing total bytes saved s with
  | nil => exact ⟨rfl, fun x hx => .inl hx⟩
  | cons v vs ih =>
    have hpart : ∀ x ∈ saved ++ (call (partRegs regs base length v) v s).1.saved,
        x ∈ saved ∨ ∃ w ∈ v :: vs, x = rewind (partRegs regs base length w) := by
      intro x hx
      rcases List.mem_append.1 hx with hx | hx
      · exact .inl hx
      · exact .inr ⟨v, List.mem_cons_self, hcall _ _ _ x hx⟩
    unfold vectorLoop
    dsimp only
    split
    · exact ⟨rfl, fun x hx => .inl hx⟩
    split
    · exact ⟨rfl, hpart⟩
    split
    · exact ⟨rfl, hpart⟩
    obtain ⟨hregs, hrest⟩ := ih (total + (call (partRegs regs base length v) v s).1.value)
      (bytes ++ (call (partRegs regs base length v) v s).1.bytes)
      (saved ++ (call (partRegs regs base length v) v s).1.saved)
      (call (partRegs regs base length v) v s).2
    refine ⟨hregs, fun x hx => ?_⟩
    rcases hrest x hx with hx | ⟨w, hw, rfl⟩
    · exact hpart x hx
    · exact .inr ⟨w, List.mem_cons_of_mem v hw, rfl⟩

lemma sysRead_saved : ∀ x ∈ (s.sysRead F env regs).1.saved, x = rewind regs := by
  intro x hx
  have hwaits := sysRead_waits F env regs s (fun h => by rw [h] at hx; simp at hx)
  rw [hwaits] at hx
  simpa [IoReply.waits] using hx

lemma sysWrite_saved : ∀ x ∈ (s.sysWrite F env regs data).1.saved, x = rewind regs := by
  intro x hx
  obtain ⟨value, -, hwaits⟩ :=
    sysWrite_waits F env regs data s (fun h => by rw [h] at hx; simp at hx)
  rw [hwaits] at hx
  simpa [IoReply.waits] using hx

lemma sysReadv_waits (iov : List ReadVec) (s : IoState σ)
    (h : (s.sysReadv F env regs iov).1.saved ≠ []) :
    s.sysReadv F env regs iov = vectorLoop regs ReadVec.base ReadVec.length
      (fun regs _ s => s.sysRead F env regs) iov 0 [] [] s := by
  unfold sysReadv at h ⊢
  split at h
  · exact absurd rfl h
  next hnull =>
  rw [if_neg hnull]
  split at h
  · exact absurd rfl h
  · next hmany => rw [if_neg hmany]

lemma sysWritev_waits (iov : List WriteVec) (s : IoState σ)
    (h : (s.sysWritev F env regs iov).1.saved ≠ []) :
    s.sysWritev F env regs iov = vectorLoop regs WriteVec.base
      (fun v => UInt64.ofNat v.data.length) (fun regs v s => s.sysWrite F env regs v.data)
      iov 0 [] [] s := by
  unfold sysWritev at h ⊢
  split at h
  · exact absurd rfl h
  next hnull =>
  rw [if_neg hnull]
  split at h
  · exact absurd rfl h
  · next hmany => rw [if_neg hmany]

end IoState

/-! ## Attempts that do not wait -/

lemma PipeObject.take_pos {n : Nat} {p : PipeObject} (hn : 0 < n) (hsize : p.size ≠ 0) :
    0 < (p.take n).1.length := by
  cases n with
  | zero => exact absurd hn (lt_irrefl 0)
  | succ => simp [PipeObject.take, hsize]

lemma PipeObject.put_pos {data : List UInt8} {p : PipeObject} (hdata : data ≠ [])
    (hsize : p.size < pipeCapacity) : 0 < (p.put data).1 := by
  cases data with
  | nil => exact absurd rfl hdata
  | cons => simp [PipeObject.put, hsize]

namespace IoState

variable (F : FileSystem σ) (env : Surroundings) (regs : SyscallRegs)

def onPipeOrEventfd (s : IoState σ) : Bool :=
  (getFdEntry regs.rdi.toNat s.table).any fun e =>
    e.kind == .pipeReader || e.kind == .pipeWriter || e.kind == .eventfd

/-- What a transfer on a pipe can conclude with, any transfer can. -/
lemma Transfers.concludes {regs : SyscallRegs} {s : IoState σ} {kind : FdKind}
    {pipe : Nat → IoReply × IoState σ} {r : IoReply × IoState σ} {P : Prop}
    (h : Transfers regs s kind pipe r) (hkind : s.onPipeOrEventfd regs = true)
    (hpipe : ∀ i, s.getPipeForFd regs.rdi.toNat kind = some i → (pipe i).1.saved = [] →
      (pipe i).1.value ≠ 0 ∨ P) (hsaved : r.1.saved = []) : r.1.value ≠ 0 ∨ P := by
  cases h with
  | refused hvalue => exact .inl (ne_of_lt hvalue)
  | pipe he hk hi =>
    refine hpipe _ ?_ hsaved
    rw [getPipeForFd_of_entry kind he, if_neg (not_not_intro hk), hi]
  | waits => simp [IoReply.waits] at hsaved
  | other he hk hvalue =>
    refine .inl (hvalue ?_)
    simpa [onPipeOrEventfd, he, hk] using hkind

/-- A `read` that does not wait returns 0 only if nothing was asked for or at the end of file. -/
lemma sysRead_concludes (s : IoState σ) (hkind : s.onPipeOrEventfd regs = true)
    (h : (s.sysRead F env regs).1.saved = []) :
    (s.sysRead F env regs).1.value ≠ 0 ∨ regs.rdx = 0 ∨
      ∃ i, s.getPipeForFd regs.rdi.toNat .pipeReader = some i ∧ (s.objects.pipes i).size = 0 ∧
        (s.objects.pipes i).writeRefs = 0 := by
  refine (transfers_sysRead F regs env s).concludes hkind (fun i hi h => ?_) h
  unfold readPipe at h ⊢
  dsimp only at h ⊢
  split
  · next hwait => simp [hwait, IoReply.waits] at h
  next hwait =>
  by_cases hsize : (s.objects.pipes i).size = 0
  · exact .inr (.inr ⟨i, hi, hsize, by simpa [hsize] using hwait⟩)
  by_cases hlen : regs.rdx = 0
  · exact .inr (.inl hlen)
  have hpos : 0 < regs.rdx.toNat :=
    pos_of_ne_zero fun h0 => hlen (UInt64.toNat_inj.1 h0)
  have htake := PipeObject.take_pos hpos hsize
  simp only [IoReply.returned]
  omega

/-- A `write` that does not wait returns 0 only if nothing was given or nobody can read. -/
lemma sysWrite_concludes (data : List UInt8) (s : IoState σ)
    (hkind : s.onPipeOrEventfd regs = true)
    (hbound : ∀ i, (s.objects.pipes i).size ≤ pipeCapacity)
    (h : (s.sysWrite F env regs data).1.saved = []) :
    (s.sysWrite F env regs data).1.value ≠ 0 ∨ data = [] ∨
      ∃ i, s.getPipeForFd regs.rdi.toNat .pipeWriter = some i ∧
        (s.objects.pipes i).size = pipeCapacity ∧ (s.objects.pipes i).readRefs = 0 := by
  refine (transfers_sysWrite F regs env data s).concludes hkind (fun i hi h => ?_) h
  unfold writePipe at h ⊢
  dsimp only at h ⊢
  split
  · next hwait => simp [hwait, IoReply.waits] at h
  next hwait =>
  by_cases hsize : (s.objects.pipes i).size = pipeCapacity
  · exact .inr (.inr ⟨i, hi, hsize, by simpa [hsize] using hwait⟩)
  by_cases hdata : data = []
  · exact .inr (.inl hdata)
  have hput := PipeObject.put_pos hdata (Nat.lt_of_le_of_ne (hbound i) hsize)
  simp only [IoReply.returned]
  omega

end IoState

/-! ## The call itself -/

/-- Some part of the vector has the vector itself as its buffer, with the number of parts as its
length. -/
def FdCall.HasOwnPart (regs : SyscallRegs) : FdCall → Prop
  | .readv iov => ∃ v ∈ iov, v.base = regs.rsi ∧ v.length = regs.rdx
  | .writev iov => ∃ v ∈ iov, v.base = regs.rsi ∧ UInt64.ofNat v.data.length = regs.rdx
  | _ => False

/-- The value of a `read` or `write` that does not wait reports progress or an error, unless nothing
was asked for, the pipe of the descriptor is at the end of file, or is full and has no reader. -/
def FdCall.Concludes (F : FileSystem σ) (env : Surroundings) (regs : SyscallRegs) (s : Sys σ) :
    FdCall → Prop
  | .read => (s.io.sysRead F env regs).1.value ≠ 0 ∨ regs.rdx = 0 ∨
      ∃ i, s.io.getPipeForFd regs.rdi.toNat .pipeReader = some i ∧
        (s.io.objects.pipes i).size = 0 ∧ (s.io.objects.pipes i).writeRefs = 0
  | .write data => (s.io.sysWrite F env regs data).1.value ≠ 0 ∨ data = [] ∨
      ∃ i, s.io.getPipeForFd regs.rdi.toNat .pipeWriter = some i ∧
        (s.io.objects.pipes i).size = pipeCapacity ∧ (s.io.objects.pipes i).readRefs = 0
  | _ => False

def FdCall.plain : FdCall → Bool
  | .read => true
  | .write _ => true
  | _ => false

/-- The condition under which a call that waits starts again: a `read` or `write` for which another
process is taken, or a `read` of a pipe. -/
def FdCall.StartsAgain (regs : SyscallRegs) (s : Sys σ) : FdCall → Prop
  | .read => s.kernel.successor.isSome = true ∨ readsPipe regs s.io.table = true
  | .write _ => s.kernel.successor.isSome = true
  | _ => False

namespace Sys

variable {F : FileSystem σ} {s : Sys σ} {regs : SyscallRegs}

lemma withIo_io (s : Sys σ) : s.withIo s.io = s := by
  have hprocs : update s.kernel.procs s.kernel.current
      (s.kernel.procs s.kernel.current) = s.kernel.procs := update_eq_self ..
  unfold withIo io
  simp only [Kernel.modifyProc, Kernel.setProc]
  rw [hprocs]

lemma finishCall_waits (value : Int) (s : Sys σ) (regs : SyscallRegs) :
    (finishCall (.waits regs value) s).2.kernel =
      if s.kernel.successor.isSome = true then (s.kernel.schedule (rewind regs)).2
      else (s.kernel.schedule (rewind regs)).2.sysret (rewind regs) value := by
  have hswitch := Kernel.schedule_switches s.kernel (rewind regs)
  unfold finishCall IoReply.waits giveUp giveUp
  rcases hs : s.kernel.schedule (rewind regs) with ⟨b, k⟩
  rw [hs] at hswitch
  cases b with
  | true => rw [if_pos hswitch.symm]
  | false => rw [if_neg (by rw [← hswitch]; simp)]

lemma rewind_rcx (h : 2 ≤ regs.rcx) : (rewind regs).rcx = regs.rcx - 2 := if_pos h

lemma sameCall_rewind (h : 2 ≤ regs.rcx) {f : InterruptFrame} (hgpr : f.gpr = rewind regs)
    (hrip : f.rip = (rewind regs).rcx) : SameCall regs f := by
  refine ⟨?_, hrip.trans (rewind_rcx h)⟩
  rw [hgpr]
  rfl

/-- What a waiting attempt of `read` or `write` leaves behind. -/
lemma restarts_waits (s : Sys σ) (hrcx : 2 ≤ regs.rcx) (value : Int) :
    Restarts s.kernel.current regs (finishCall (.waits regs value) s).2.kernel ↔
      (s.kernel.successor.isSome = true ∨ UInt64.ofInt value = regs.rax) := by
  have hswitch := Kernel.schedule_switches s.kernel (rewind regs)
  rw [finishCall_waits]
  by_cases hnext : s.kernel.successor.isSome = true
  · rw [if_pos hnext]
    obtain ⟨hcur, hregs, -⟩ := Kernel.schedule_suspends (hswitch.trans hnext)
    refine iff_of_true ((restarts_other hcur).2 (sameCall_rewind hrcx hregs ?_)) (.inl hnext)
    exact congrArg SyscallRegs.rcx hregs
  rw [if_neg hnext]
  have hcur : (s.kernel.schedule (rewind regs)).2.current = s.kernel.current :=
    Kernel.schedule_stays (by rw [hswitch]; simpa using hnext)
  rw [restarts_current (k := (s.kernel.schedule (rewind regs)).2.sysret (rewind regs) value) hcur]
  rw [or_iff_right hnext]
  constructor
  · intro h
    exact congrArg SyscallRegs.rax h.1
  · intro hrax
    refine ⟨?_, rewind_rcx hrcx⟩
    simp only [Kernel.sysret, hrax]
    rfl

lemma kept_of_restarts (hact : s.kernel.machine.Active) (value : Int)
    (h : Restarts s.kernel.current regs (finishCall (.waits regs value) s).2.kernel) :
    Kept s.kernel.current regs (finishCall (.waits regs value) s).2.kernel := by
  have hswitch := Kernel.schedule_switches s.kernel (rewind regs)
  have hact' := active_giveUp [rewind regs] hact
  obtain ⟨-, hlive, hwait, -⟩ := Kernel.current_of_active hact
  rw [finishCall_waits] at h ⊢
  unfold giveUp giveUp at hact'
  rcases hs : s.kernel.schedule (rewind regs) with ⟨b, k⟩
  rw [hs] at hswitch hact' h
  cases b with
  | true =>
    have hsuspends : (s.kernel.schedule (rewind regs)).1 = true := by rw [hs]
    obtain ⟨-, -, hstatus⟩ := Kernel.schedule_suspends hsuspends
    rw [hs] at hstatus
    rw [if_pos hswitch.symm] at h ⊢
    have hne : (k.procs s.kernel.current).status ≠ .dead ∧
        (k.procs s.kernel.current).status ≠ .waiting := by
      rw [hstatus]
      split
      · simp
      · exact ⟨hlive, hwait⟩
    exact ⟨h, hact', hne.1, hne.2⟩
  | false =>
    have hcur : (s.kernel.schedule (rewind regs)).2.current = s.kernel.current :=
      Kernel.schedule_stays (by rw [hs])
    rw [hs] at hcur
    rw [if_neg (by rw [← hswitch]; simp)] at h ⊢
    obtain ⟨-, hlive', hwait', -⟩ := Kernel.current_of_active hact'
    rw [Kernel.Alive] at hlive'
    rw [hcur] at hlive' hwait'
    exact ⟨h, hact', hlive', hwait'⟩

/-- The calls of `schedule` of a vector: the registers saved are those of a part, or none are. -/
lemma giveUp_saved (l : List SyscallRegs) {k : Kernel} :
    ((giveUp l k).1 = true → (giveUp l k).2.current ≠ k.current ∧
      ∃ x ∈ l, ((giveUp l k).2.procs k.current).regs = x) ∧
    ((giveUp l k).1 = false → (giveUp l k).2.current = k.current) := by
  induction l generalizing k with
  | nil => exact ⟨fun h => by simp [giveUp] at h, fun _ => rfl⟩
  | cons r l ih =>
    unfold giveUp
    rcases hs : k.schedule r with ⟨b, k1⟩
    cases b with
    | true =>
      have hsuspends : (k.schedule r).1 = true := by rw [hs]
      obtain ⟨hcur, hregs, -⟩ := Kernel.schedule_suspends hsuspends
      rw [hs] at hcur hregs
      exact ⟨fun _ => ⟨hcur, r, List.mem_cons_self, hregs⟩, fun h => by simp at h⟩
    | false =>
      have hcur : (k.schedule r).2.current = k.current :=
        Kernel.schedule_stays (by rw [hs])
      rw [hs] at hcur
      obtain ⟨h1, h2⟩ := ih (k := k1)
      rw [hcur] at h1 h2
      refine ⟨fun h => ?_, h2⟩
      obtain ⟨hne, x, hx, hregs⟩ := h1 h
      exact ⟨hne, x, List.mem_cons_of_mem r hx, hregs⟩

/-- A vector call that waits does not start again as the call it was. -/
lemma vector_restarts {β : Type} {base length : β → UInt64} {parts : List β}
    {call : SyscallRegs → β → IoState σ → IoReply × IoState σ} {r : IoReply × IoState σ}
    (hcall : ∀ r v s, ∀ x ∈ (call r v s).1.saved, x = rewind r)
    (hr : r = IoState.vectorLoop regs base length call parts 0 [] [] s.io)
    (h : Restarts s.kernel.current regs (finishCall r.1 (s.withIo r.2)).2.kernel) :
    ∃ v ∈ parts, base v = regs.rsi ∧ length v = regs.rdx := by
  obtain ⟨hregs, hsaved⟩ := IoState.vectorLoop_saved regs base length call hcall parts 0 [] [] s.io
  rw [← hr] at hregs hsaved
  obtain ⟨hswitched, hstayed⟩ := giveUp_saved r.1.saved (k := (s.withIo r.2).kernel)
  have hcur0 : (s.withIo r.2).kernel.current = s.kernel.current := rfl
  unfold finishCall at h
  rcases hg : giveUp r.1.saved (s.withIo r.2).kernel with ⟨b, k⟩
  rw [hg] at h hswitched hstayed
  cases b with
  | true =>
    obtain ⟨hne, x, hx, hsave⟩ := hswitched rfl
    obtain ⟨v, hv, rfl⟩ := (hsaved x hx).resolve_left (by simp)
    rw [hcur0] at hne hsave
    have hcall := (restarts_other hne).1 h
    have hgpr : { (k.procs s.kernel.current).regs with rcx := 0, r11 := 0 } =
        { regs with rcx := 0, r11 := 0 } := hcall.1
    rw [hsave] at hgpr
    exact ⟨v, hv, congrArg SyscallRegs.rsi hgpr, congrArg SyscallRegs.rdx hgpr⟩
  | false =>
    -- The copy was rewound, not the registers that the call returns with.
    have hcur := hstayed rfl
    have hcall := (restarts_current (k := k.sysret r.1.regs r.1.value) hcur).1 h
    have hrip : regs.rcx = regs.rcx - 2 := hregs ▸ hcall.2
    have hbits := congrArg UInt64.toBitVec hrip
    rw [UInt64.toBitVec_sub, show (2 : UInt64).toBitVec = 2#64 from rfl] at hbits
    exact absurd hbits (by bv_omega)

lemma accounted_of_runs (F : FileSystem σ) (p4 : Nat) (fs : σ) {halted : Bool}
    (h : Runs F ⟨Kernel.initProcess p4, fs⟩ halted s) : ∃ log, Accounted s.kernel.objects log := by
  induction h with
  | start => exact ⟨_, accounted_boot p4⟩
  | step h op ih =>
    obtain ⟨log, hlog⟩ := ih
    exact ⟨_, accounted_step F op hlog ((counted_of_runs F p4 fs h).2 rfl)⟩

/-- Slot `j` goes on with the call made with `regs` in every run from the state in which it makes no
other one. -/
def RestartsInRuns (F : FileSystem σ) (j : Nat) (regs : SyscallRegs) (s : Sys σ) : Prop :=
  ∀ s', Idle F j s s' → Restarts j regs s'.kernel

/-- A `read` or `write` that waits starts again exactly if another process is taken, or the value of
the attempt is the number of the call. -/
lemma restartsInRuns_plain (hact : s.kernel.machine.Active) {env : Surroundings} {c : FdCall}
    (hrcx : 2 ≤ regs.rcx) {value : Int} (hrun : c.run F env regs s.io = (.waits regs value, s.io)) :
    RestartsInRuns F s.kernel.current regs (s.step F (.call regs env c)).2 ↔
      s.kernel.successor.isSome = true ∨ UInt64.ofInt value = regs.rax := by
  have hstep : (s.step F (.call regs env c)).2 = (finishCall (.waits regs value) s).2 := by
    simp only [step]
    rw [hrun, withIo_io]
  rw [hstep, ← restarts_waits s hrcx value]
  constructor
  · exact fun h => h _ .start
  · intro h s' hs'
    exact (restarts_of_idle hs' (kept_of_restarts hact value h)).restarts

lemma restartsInRuns_call (hact : s.kernel.machine.Active) (env : Surroundings) (c : FdCall)
    (hnumber : c.number = some regs.rax) (hrcx : 2 ≤ regs.rcx) (hwaits : c.Waits F env regs s) :
    (c.StartsAgain regs s →
      RestartsInRuns F s.kernel.current regs (s.step F (.call regs env c)).2) ∧
    (RestartsInRuns F s.kernel.current regs (s.step F (.call regs env c)).2 →
      c.StartsAgain regs s ∨ c.HasOwnPart regs) := by
  cases c with
  | read =>
    have hrax : regs.rax = 0 := (Option.some.inj hnumber).symm
    have hrun := IoState.sysRead_waits F env regs s.io hwaits
    have hiff := restartsInRuns_plain (c := .read) hact hrcx hrun
    refine ⟨fun hagain => hiff.2 (hagain.imp_right fun hpipe => ?_),
      fun h => .inl ((hiff.1 h).imp_right fun hvalue => ?_)⟩
    · rw [hpipe, hrax]
      rfl
    · by_contra hpipe
      rw [if_neg hpipe, hrax] at hvalue
      exact absurd hvalue (by decide)
  | write data =>
    have hrax : regs.rax = 1 := (Option.some.inj hnumber).symm
    obtain ⟨value, hvalue, hrun⟩ := IoState.sysWrite_waits F env regs data s.io hwaits
    have hiff := restartsInRuns_plain (c := .write data) hact hrcx hrun
    refine ⟨fun hagain => hiff.2 (.inl hagain),
      fun h => .inl ((hiff.1 h).resolve_right fun hv => ?_)⟩
    rw [hrax] at hv
    rcases hvalue with rfl | rfl
    · exact absurd hv (by decide)
    · exact absurd hv (by decide)
  | readv iov =>
    exact ⟨fun h => h.elim, fun h => .inr (vector_restarts
      (fun r _ s => IoState.sysRead_saved F env r s)
      (IoState.sysReadv_waits F env regs iov s.io hwaits) (h _ .start))⟩
  | writev iov =>
    exact ⟨fun h => h.elim, fun h => .inr (vector_restarts
      (fun r v s => IoState.sysWrite_saved F env r v.data s)
      (IoState.sysWritev_waits F env regs iov s.io hwaits) (h _ .start))⟩
  | _ => simp [FdCall.number] at hnumber

/-- A transfer that waits starts again, in every run of the rest of the system, if it is a `read` or
`write` and another process is taken, or a `read` of a pipe; no other one does, except for a vector
that is its own part. A `read` or `write` that does not wait has something to report. -/
theorem blocked_call_restarts (F : FileSystem σ) (p4 : Nat) (fs : σ)
    (hrun : Runs F ⟨Kernel.initProcess p4, fs⟩ false s) (env : Surroundings)
    (regs : SyscallRegs) (c : FdCall) (hnumber : c.number = some regs.rax) :
    (2 ≤ regs.rcx → c.Waits F env regs s →
      (c.StartsAgain regs s →
        RestartsInRuns F s.kernel.current regs (s.step F (.call regs env c)).2) ∧
      (RestartsInRuns F s.kernel.current regs (s.step F (.call regs env c)).2 →
        c.StartsAgain regs s ∨ c.HasOwnPart regs)) ∧
    (c.plain = true → s.io.onPipeOrEventfd regs = true → ¬ c.Waits F env regs s →
      c.Concludes F env regs s) := by
  have hact := (counted_of_runs F p4 fs hrun).2 rfl
  refine ⟨restartsInRuns_call hact env c hnumber, fun hplain hkind hwaits => ?_⟩
  obtain ⟨log, hlog⟩ := accounted_of_runs F p4 fs hrun
  unfold FdCall.Waits at hwaits
  rw [ne_eq, not_not] at hwaits
  cases c with
  | read => exact IoState.sysRead_concludes F env regs s.io hkind hwaits
  | write data =>
    exact IoState.sysWrite_concludes F env regs data s.io hkind (fun i => (hlog.valid i).size_le)
      hwaits
  | _ => simp [FdCall.plain] at hplain

/-- A `read` of descriptor 3, of 8 bytes. -/
def readEight : SyscallRegs :=
  { SyscallRegs.zero with rax := 0, rdi := 3, rsi := 0x400000, rdx := 8, rcx := 0x1002 }

/-- A process makes a pipe and a second process. -/
def pipeAndSecond : Sys Unit :=
  run noFiles [.call .zero still (.pipe 0x400000), .proc (.fork .zero 0x20000)]
    ⟨Kernel.initProcess 0x10000, ()⟩

/-- The `read` of the empty pipe, with the second process to go to. -/
theorem blocked_call_restarts_pipe :
    RestartsInRuns noFiles pipeAndSecond.kernel.current readEight
      (pipeAndSecond.step noFiles (.call readEight still .read)).2 :=
  ((blocked_call_restarts noFiles 0x10000 () (Runs.start.run (by decide +kernel)) still readEight
    .read (s := pipeAndSecond) rfl).1 (by decide) (by unfold FdCall.Waits; decide +kernel)).1
    (.inl (by decide +kernel))

/-- A `readv` of descriptor 3 with one part. -/
def readvOne : SyscallRegs :=
  { SyscallRegs.zero with rax := 19, rdi := 3, rsi := 0x400000, rdx := 1, rcx := 0x1002 }

/-- Two calls that wait and do not start again. The only process reads an event counter of 0: the
call returns `EAGAIN`, at its own instruction. A `readv` of an empty pipe gives way to another
process: the call to come has the buffer and the length of the part as arguments. -/
theorem blocked_calls_lost :
    (let s := run noFiles [.call .zero still (.eventfd2 0 0)] ⟨Kernel.initProcess 0x10000, ()⟩
     let r := s.step noFiles (.call readEight still .read)
     FdCall.Waits noFiles still readEight .read s ∧ r.1 = .returned (-eagain) ∧
       r.2.kernel.user.rip = 0x1000 ∧ ¬ Restarts 0 readEight r.2.kernel) ∧
    (let r := pipeAndSecond.step noFiles (.call readvOne still (.readv [⟨0x500000, 16⟩]))
     FdCall.Waits noFiles still readvOne (.readv [⟨0x500000, 16⟩]) pipeAndSecond ∧
       r.1 = .switched ∧
       (contextOf 0 r.2.kernel).gpr.rsi = 0x500000 ∧ ¬ Restarts 0 readvOne r.2.kernel) := by
  refine ⟨⟨by unfold FdCall.Waits; decide +kernel, by decide +kernel, by decide +kernel, ?_⟩,
    ⟨by unfold FdCall.Waits; decide +kernel, by decide +kernel, by decide +kernel, ?_⟩⟩
  · intro h
    have hrax := congrArg SyscallRegs.rax h.1
    revert hrax
    decide +kernel
  · intro h
    have hrsi := congrArg SyscallRegs.rsi h.1
    revert hrsi
    decide +kernel

end Sys

end AosKernel.Fd
