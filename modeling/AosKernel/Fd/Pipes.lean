import AosKernel.Fd.Frames
import AosKernel.Fd.System

/-!
# Pipes are queues

The histories of the pipes in a run (`PipeRun`): for each slot, the bytes that `write` and `writev`
have put into the pipe since it was made, and those that `read` and `readv` have taken out. A part
of a vector counts when it is moved, whatever becomes of the call later. `pipes_fifo` is about every
state of every run (`PipesFifo`). -/

namespace AosKernel.Fd

open Lib Vfs Proc Function PipeObject FdState IoState FdObjects Kernel

/-! ## The ring of a pipe -/

namespace PipeObject

/-- The bytes in a pipe, oldest first. -/
def contents (p : PipeObject) : List UInt8 := p.ring.contents pipeCapacity

/-- The positions and the count of a pipe fit its buffer. -/
def Valid (p : PipeObject) : Prop := p.ring.Valid pipeCapacity

lemma take_drain (n : Nat) (p : PipeObject) :
    (p.take n).1 = (p.ring.drain pipeCapacity n).1 ∧
      (p.take n).2.ring = (p.ring.drain pipeCapacity n).2 := by
  induction n generalizing p with
  | zero => exact ⟨rfl, rfl⟩
  | succ n ih =>
    unfold take RingBuffer.drain
    by_cases hs : p.size = 0
    · rw [if_pos hs, if_pos (show p.ring.size = 0 from hs)]
      exact ⟨rfl, rfl⟩
    · rw [if_neg hs, if_neg (show ¬ p.ring.size = 0 from hs)]
      obtain ⟨hb, hr⟩ := ih { p with readPos := (p.readPos + 1) % pipeCapacity, size := p.size - 1 }
      exact ⟨congrArg (p.buffer p.readPos :: ·) hb, hr⟩

variable (data : List UInt8) (p : PipeObject)

lemma put_fill :
    (p.put data).1 = (p.ring.fill pipeCapacity data).1 ∧
      (p.put data).2.ring = (p.ring.fill pipeCapacity data).2 := by
  induction data generalizing p with
  | nil => exact ⟨rfl, rfl⟩
  | cons b bs ih =>
    unfold put RingBuffer.fill
    by_cases hs : p.size < pipeCapacity
    · rw [if_pos hs, if_pos (show p.ring.size < pipeCapacity from hs)]
      obtain ⟨hn, hr⟩ := ih { p with
        buffer := update p.buffer p.writePos b
        writePos := (p.writePos + 1) % pipeCapacity
        size := p.size + 1 }
      exact ⟨congrArg (· + 1) hn, hr⟩
    · rw [if_neg hs, if_neg (show ¬ p.ring.size < pipeCapacity from hs)]
      exact ⟨rfl, rfl⟩

/-- The bytes have been taken out of the pipe. -/
def ReadFrom (p p' : PipeObject) (bytes : List UInt8) : Prop :=
  p'.inUse = p.inUse ∧ (p.Valid → p'.Valid ∧ p.contents = bytes ++ p'.contents)

/-- The bytes have been put into the pipe. -/
def WrittenTo (p p' : PipeObject) (bytes : List UInt8) : Prop :=
  p'.inUse = p.inUse ∧ (p.Valid → p'.Valid ∧ p'.contents = p.contents ++ bytes)

lemma readFrom_take (n : Nat) (p : PipeObject) : p.ReadFrom (p.take n).2 (p.take n).1 := by
  refine ⟨(take_sameEnds n p).1, fun hv => ?_⟩
  obtain ⟨hb, hr⟩ := take_drain n p
  obtain ⟨hv', hout, hin⟩ := RingBuffer.drain_spec n hv
  unfold Valid contents
  rw [hr, hb, hout, hin]
  exact ⟨hv', (List.take_append_drop n _).symm⟩

lemma writtenTo_put : p.WrittenTo (p.put data).2 (data.take (p.put data).1) := by
  refine ⟨(put_sameEnds data p).1, fun hv => ?_⟩
  obtain ⟨hn, hr⟩ := put_fill data p
  obtain ⟨hv', -, hin⟩ := RingBuffer.fill_spec data hv
  unfold Valid contents
  rw [hr, hn]
  exact ⟨hv', hin⟩

lemma put_le (hv : p.Valid) : (p.put data).1 ≤ data.length := by
  rw [(put_fill data p).1]
  exact (RingBuffer.fill_spec data hv).2.1

lemma valid_of_zero {p : PipeObject} (h : p.ring = zero.ring) : p.Valid ∧ p.contents = [] := by
  unfold Valid contents
  rw [h]
  exact ⟨⟨Nat.zero_le _, by decide, rfl⟩, rfl⟩

end PipeObject

/-! ## Histories -/

/-- What has been put into a pipe and what has been taken out of it. -/
structure PipeHistory where
  written : List UInt8
  read : List UInt8

def PipeHistory.empty : PipeHistory := ⟨[], []⟩

abbrev PipeLog := Nat → PipeHistory

def FdState.getPipeForFd (fd : Nat) (kind : FdKind) (s : FdState) : Option Nat :=
  match getFdEntry fd s.table with
  | none => none
  | some e => if e.kind ≠ kind then none else s.objects.getPipeObjectByIndex e.handleIndex

namespace PipeLog

def taken (target : Option Nat) (bytes : List UInt8) (log : PipeLog) : PipeLog :=
  match target with
  | none => log
  | some i => update log i { log i with read := (log i).read ++ bytes }

def stored (target : Option Nat) (bytes : List UInt8) (log : PipeLog) : PipeLog :=
  match target with
  | none => log
  | some i => update log i { log i with written := (log i).written ++ bytes }

/-- The histories of slots that are not in use end. -/
def settle (o : FdObjects) (log : PipeLog) : PipeLog := fun i =>
  if (o.pipes i).inUse then log i else PipeHistory.empty

end PipeLog

/-- What a call that moves `bytes` adds to the histories. -/
def FdCall.record (regs : SyscallRegs) (s : FdState) (bytes : List UInt8) :
    FdCall → PipeLog → PipeLog
  | .read | .readv _ => PipeLog.taken (s.getPipeForFd regs.rdi.toNat .pipeReader) bytes
  | .write _ | .writev _ => PipeLog.stored (s.getPipeForFd regs.rdi.toNat .pipeWriter) bytes
  | _ => id

namespace Sys

variable {σ : Type}

/-- What an entry of the system adds to the histories. -/
def record (F : FileSystem σ) (op : SysOp) (s : Sys σ) (log : PipeLog) : PipeLog :=
  match op with
  | .proc _ => log
  | .call regs env c =>
      c.record regs s.io.toFdState (c.run F env regs s.io).1.bytes log

/-- The runs from `s₀` with the histories of the pipes, and whether the machine has stopped. -/
inductive PipeRun (F : FileSystem σ) (s₀ : Sys σ) : Bool → Sys σ → PipeLog → Prop where
  | start : PipeRun F s₀ false s₀ fun _ => PipeHistory.empty
  | step {s : Sys σ} {log : PipeLog} (h : PipeRun F s₀ false s log) (op : SysOp) :
      PipeRun F s₀ (decide ((s.step F op).1 = .halted)) (s.step F op).2
        ((s.record F op log).settle (s.step F op).2.kernel.objects)

def logged (F : FileSystem σ) (ops : List SysOp) (s : Sys σ) (log : PipeLog) : Sys σ × PipeLog :=
  ops.foldl (fun r op => ((r.1.step F op).2,
    (r.1.record F op r.2).settle (r.1.step F op).2.kernel.objects)) (s, log)

variable {F : FileSystem σ} {s s₀ : Sys σ}

lemma PipeRun.logged {log : PipeLog} (h : PipeRun F s₀ false s log) {ops : List SysOp}
    (hgo : keepsGoing F ops s = true) :
    PipeRun F s₀ false (s.logged F ops log).1 (s.logged F ops log).2 := by
  induction ops generalizing s log with
  | nil => exact h
  | cons op ops ih =>
    simp only [keepsGoing, Bool.and_eq_true, decide_eq_true_eq] at hgo
    have hnext := PipeRun.step h op
    rw [decide_eq_false hgo.1] at hnext
    exact ih hnext hgo.2

lemma PipeRun.runs {halted : Bool} {log : PipeLog} (h : PipeRun F s₀ halted s log) :
    Runs F s₀ halted s := by
  induction h with
  | start => exact .start
  | step _ op ih => exact .step ih op

end Sys

/-! ## Histories account for the bytes -/

/-- The bytes in each pipe are those put in and not taken out; a slot that is not in use is empty
and has no history. -/
structure Accounted (o : FdObjects) (log : PipeLog) : Prop where
  valid : ∀ i, (o.pipes i).Valid
  bytes : ∀ i, (log i).written = (log i).read ++ (o.pipes i).contents
  unused : ∀ i, (o.pipes i).inUse = false → (o.pipes i).ring = PipeObject.zero.ring ∧
    log i = PipeHistory.empty

variable {o : FdObjects} {log : PipeLog}

lemma Accounted.settle
    (hused : ∀ i, (o.pipes i).inUse = true → (o.pipes i).Valid ∧ (log i).written = (log i).read ++
      (o.pipes i).contents)
    (hunused : ∀ i, (o.pipes i).inUse = false → (o.pipes i).ring = zero.ring) :
    Accounted o (log.settle o) := by
  have hzero := fun i h => valid_of_zero (hunused i h)
  refine ⟨fun i => ?_, fun i => ?_, fun i hu => ⟨hunused i hu, if_neg (by simp [hu])⟩⟩
  · cases hu : (o.pipes i).inUse with
    | true => exact (hused i hu).1
    | false => exact (hzero i hu).1
  · unfold PipeLog.settle
    cases hu : (o.pipes i).inUse with
    | true => simpa using (hused i hu).2
    | false => simp [PipeHistory.empty, (hzero i hu).2]

variable {o' : FdObjects}

theorem Accounted.kept (h : Accounted o log) (hk : ∀ i, (o.pipes i).Kept (o'.pipes i)) :
    Accounted o' (log.settle o') := by
  refine .settle (fun i hu => ?_) fun i hu => ?_
  · rcases hk i with ⟨hu', -⟩ | ⟨-, hr⟩
    · simp [hu] at hu'
    · unfold PipeObject.Valid contents
      rw [hr]
      exact ⟨h.valid i, h.bytes i⟩
  · rcases hk i with ⟨-, hr⟩ | ⟨hu', hr⟩
    · exact hr
    · rw [hr]
      exact (h.unused i (hu'.symm.trans hu)).1

lemma Accounted.of_pipes (h : Accounted o log) (hp : o'.pipes = o.pipes) :
    Accounted o' (log.settle o') :=
  h.kept fun _ => hp ▸ .refl _

variable {s : FdState} {i : Nat}

lemma Accounted.opened (h : Accounted o log) (hi : (o.pipes i).inUse = false) :
    Accounted (o.setPipe i opened) (log.settle (o.setPipe i opened)) := by
  refine .settle (fun j hu => ?_) fun j hu => ?_
  · by_cases e : j = i
    · subst e
      have hring : ((o.setPipe j opened).pipes j).ring = zero.ring := by
        simp [setPipe, opened, ring]
      obtain ⟨hv, hc⟩ := valid_of_zero hring
      rw [hc, (h.unused j hi).2]
      exact ⟨hv, rfl⟩
    · simp only [setPipe, update_of_ne e]
      exact ⟨h.valid j, h.bytes j⟩
  · by_cases e : j = i
    · subst e
      simp [setPipe, opened] at hu
    · simp only [setPipe, update_of_ne e] at hu ⊢
      exact (h.unused j hu).1

/-! ## Transfers -/

/-- The pipe `target` has changed by `R`, and the others not at all. -/
structure MovesBy (R : PipeObject → PipeObject → List UInt8 → Prop) (target : Option Nat)
    (o o' : FdObjects) (bytes : List UInt8) : Prop where
  moved : ∀ i, target = some i → R (o.pipes i) (o'.pipes i) bytes
  other : ∀ i, target ≠ some i → o'.pipes i = o.pipes i

variable {bytes : List UInt8} {R : PipeObject → PipeObject → List UInt8 → Prop}

lemma MovesBy.setPipe (o : FdObjects) {p : PipeObject} (h : R (o.pipes i) p bytes) :
    MovesBy R (some i) o (o.setPipe i p) bytes := by
  refine ⟨fun j hj => ?_, fun j hj => ?_⟩
  · obtain rfl := Option.some.inj hj
    simpa [FdObjects.setPipe] using h
  · have e : j ≠ i := fun e => hj (congrArg some e.symm)
    simp [FdObjects.setPipe, update_of_ne e]

/-- What a direction of transfer needs for the parts of a vector to add up. -/
structure Additive (R : PipeObject → PipeObject → List UInt8 → Prop) : Prop where
  nil : ∀ p, R p p []
  append : ∀ {p p' p'' b b'}, R p p' b → R p' p'' b' → R p p'' (b ++ b')

lemma additive_readFrom : Additive PipeObject.ReadFrom where
  nil _ := ⟨rfl, fun hv => ⟨hv, rfl⟩⟩
  append := fun ⟨hu, h⟩ ⟨hu', h'⟩ => ⟨hu'.trans hu, fun hv => by
    obtain ⟨hv', hc⟩ := h hv
    obtain ⟨hv'', hc'⟩ := h' hv'
    exact ⟨hv'', by rw [hc, hc', List.append_assoc]⟩⟩

lemma additive_writtenTo : Additive PipeObject.WrittenTo where
  nil _ := ⟨rfl, fun hv => ⟨hv, by simp⟩⟩
  append := fun ⟨hu, h⟩ ⟨hu', h'⟩ => ⟨hu'.trans hu, fun hv => by
    obtain ⟨hv', hc⟩ := h hv
    obtain ⟨hv'', hc'⟩ := h' hv'
    exact ⟨hv'', by rw [hc', hc, List.append_assoc]⟩⟩

lemma MovesBy.refl (hR : Additive R) (target : Option Nat) (o : FdObjects) :
    MovesBy R target o o [] :=
  ⟨fun _ _ => hR.nil _, fun _ _ => rfl⟩

variable {target : Option Nat}

lemma MovesBy.append (hR : Additive R) {o'' : FdObjects} {b b' : List UInt8}
    (h : MovesBy R target o o' b) (h' : MovesBy R target o' o'' b') :
    MovesBy R target o o'' (b ++ b') :=
  ⟨fun i hi => hR.append (h.moved i hi) (h'.moved i hi),
    fun i hi => (h'.other i hi).trans (h.other i hi)⟩

lemma getPipeForFd_inUse {fd : Nat} {kind : FdKind} (h : s.getPipeForFd fd kind = some i) :
    (s.objects.pipes i).inUse = true := by
  unfold getPipeForFd at h
  split at h
  · simp at h
  split at h
  · simp at h
  unfold getPipeObjectByIndex lookup at h
  split at h
  · simp at h
  split at h
  · simp at h
  · next hu =>
    obtain rfl := Option.some.inj h
    simpa using hu

/-- A call that moves bytes at one pipe in use, with the histories changed there. -/
lemma Accounted.move {log' : PipeLog} (h : Accounted o log)
    (ht : ∀ i, target = some i → (o.pipes i).inUse = true)
    (hother : ∀ i, target ≠ some i → o'.pipes i = o.pipes i ∧ log' i = log i)
    (hmoved : ∀ i, target = some i → (o'.pipes i).inUse = (o.pipes i).inUse ∧ (o'.pipes i).Valid ∧
      (log' i).written = (log' i).read ++ (o'.pipes i).contents) :
    Accounted o' (log'.settle o') := by
  refine .settle (fun i hu => ?_) fun i hu => ?_
  · by_cases e : target = some i
    · exact (hmoved i e).2
    · rw [(hother i e).1, (hother i e).2]
      exact ⟨h.valid i, h.bytes i⟩
  · by_cases e : target = some i
    · rw [(hmoved i e).1, ht i e] at hu
      simp at hu
    · rw [(hother i e).1] at hu ⊢
      exact (h.unused i hu).1

lemma Accounted.taken (h : Accounted o log) (hm : MovesBy PipeObject.ReadFrom target o o' bytes)
    (ht : ∀ i, target = some i → (o.pipes i).inUse = true) :
    Accounted o' ((log.taken target bytes).settle o') := by
  refine h.move ht (fun i e => ⟨hm.other i e, ?_⟩) fun i e => ?_
  · cases target with
    | none => rfl
    | some => exact update_of_ne (fun hij => e (congrArg some hij.symm)) _ _
  · obtain ⟨hv, hc⟩ := (hm.moved i e).2 (h.valid i)
    refine ⟨(hm.moved i e).1, hv, ?_⟩
    simp only [PipeLog.taken, e, update_self]
    rw [h.bytes, hc, List.append_assoc]

lemma Accounted.stored (h : Accounted o log) (hm : MovesBy PipeObject.WrittenTo target o o' bytes)
    (ht : ∀ i, target = some i → (o.pipes i).inUse = true) :
    Accounted o' ((log.stored target bytes).settle o') := by
  refine h.move ht (fun i e => ⟨hm.other i e, ?_⟩) fun i e => ?_
  · cases target with
    | none => rfl
    | some => exact update_of_ne (fun hij => e (congrArg some hij.symm)) _ _
  · obtain ⟨hv, hc⟩ := (hm.moved i e).2 (h.valid i)
    refine ⟨(hm.moved i e).1, hv, ?_⟩
    simp only [PipeLog.stored, e, update_self]
    rw [h.bytes, hc, List.append_assoc]

namespace IoState

variable {σ : Type}

lemma moves_readPipe (regs : SyscallRegs) (len i : Nat) (s : IoState σ) :
    MovesBy PipeObject.ReadFrom (some i) s.objects (s.readPipe regs len i).2.objects
      (s.readPipe regs len i).1.bytes := by
  simp only [readPipe]
  split
  · exact .refl additive_readFrom _ _
  · exact .setPipe s.objects (readFrom_take len _)

lemma moves_writePipe (regs : SyscallRegs) (data : List UInt8) (i : Nat) (s : IoState σ) :
    MovesBy PipeObject.WrittenTo (some i) s.objects (s.writePipe regs data i).2.objects
      (s.writePipe regs data i).1.bytes := by
  simp only [writePipe]
  split
  · exact .refl additive_writtenTo _ _
  · exact .setPipe s.objects (writtenTo_put data _)

lemma getPipeForFd_of_entry {s : FdState} {fd : Nat} {e : FdEntry} (kind : FdKind)
    (he : getFdEntry fd s.table = some e) :
    s.getPipeForFd fd kind =
      if e.kind ≠ kind then none else s.objects.getPipeObjectByIndex e.handleIndex := by
  simp only [getPipeForFd, he]

variable {kind : FdKind} {s : IoState σ}

/-- A transfer on descriptors moves the bytes of the pipe that the descriptor names, or leaves the
pipes alone. -/
lemma Transfers.cases {regs : SyscallRegs} {pipe : Nat → IoReply × IoState σ}
    {r : IoReply × IoState σ} (h : Transfers regs s kind pipe r)
    (hkind : kind = .pipeReader ∨ kind = .pipeWriter) :
    (∃ i, s.getPipeForFd regs.rdi.toNat kind = some i ∧ r = pipe i) ∨
      (r.2.objects.pipes = s.objects.pipes ∧
        (s.getPipeForFd regs.rdi.toNat kind = none ∨ (r.1.bytes = [] ∧ r.1.value < 0))) := by
  cases h with
  | refused hvalue => exact .inr ⟨rfl, .inr ⟨rfl, hvalue⟩⟩
  | pipe he hk hi =>
    exact .inl ⟨_, by rw [getPipeForFd_of_entry kind he, if_neg (not_not.2 hk), hi], rfl⟩
  | waits he hk =>
    refine .inr ⟨rfl, .inl ?_⟩
    rw [getPipeForFd_of_entry kind he, if_pos]
    rcases hkind with rfl | rfl <;> simp [hk]
  | other he hk _ _ hpipes =>
    refine .inr ⟨hpipes, .inl ?_⟩
    rw [getPipeForFd_of_entry kind he, if_pos]
    rcases hkind with rfl | rfl
    · exact hk.1
    · exact hk.2

lemma moves_of_pipes {R : PipeObject → PipeObject → List UInt8 → Prop} (hR : Additive R)
    {target : Option Nat} {o o' : FdObjects} {bytes : List UInt8} (hp : o'.pipes = o.pipes)
    (h : target = none ∨ bytes = []) : MovesBy R target o o' bytes := by
  refine ⟨fun i hi => ?_, fun i _ => congrFun hp i⟩
  rcases h with h | h
  · simp [h] at hi
  · rw [h, hp]
    exact hR.nil _

variable (F : FileSystem σ) (env : Surroundings)

lemma moves_sysRead (regs : SyscallRegs) (s : IoState σ) :
    MovesBy PipeObject.ReadFrom (s.getPipeForFd regs.rdi.toNat .pipeReader) s.objects
      (s.sysRead F env regs).2.objects (s.sysRead F env regs).1.bytes := by
  obtain ⟨i, htarget, hread⟩ | ⟨hp, h⟩ :=
    (transfers_sysRead F regs env s).cases (.inl rfl)
  · rw [htarget, hread]
    exact moves_readPipe regs _ i s
  · exact moves_of_pipes additive_readFrom hp (h.imp_right And.left)

lemma moves_sysWrite (regs : SyscallRegs) (data : List UInt8) (s : IoState σ) :
    MovesBy PipeObject.WrittenTo (s.getPipeForFd regs.rdi.toNat .pipeWriter) s.objects
      (s.sysWrite F env regs data).2.objects (s.sysWrite F env regs data).1.bytes := by
  obtain ⟨i, htarget, hwrite⟩ | ⟨hp, h⟩ :=
    (transfers_sysWrite F regs env data s).cases (.inr rfl)
  · rw [htarget, hwrite]
    exact moves_writePipe regs data i s
  · exact moves_of_pipes additive_writtenTo hp (h.imp_right And.left)

lemma Quiet.getPipeForFd {s' : IoState σ} (h : s.Quiet s') (fd : Nat) (kind : FdKind) :
    s'.getPipeForFd fd kind = s.getPipeForFd fd kind := by
  have hu : ∀ i, (s'.objects.pipes i).inUse = (s.objects.pipes i).inUse := fun i =>
    congrFun (congrArg ObjectPool.Pool.used h.pool) (.pipe i)
  simp only [FdState.getPipeForFd, h.table, getPipeObjectByIndex, hu]

lemma moves_vectorLoop {R : PipeObject → PipeObject → List UInt8 → Prop} (hR : Additive R)
    {β : Type} (regs : SyscallRegs) (base length : β → UInt64)
    {call : SyscallRegs → β → IoState σ → IoReply × IoState σ}
    (hquiet : ∀ regs v (s : IoState σ), s.Quiet (call regs v s).2)
    (hcall : ∀ (regs : SyscallRegs) v (s : IoState σ),
      MovesBy R (s.getPipeForFd regs.rdi.toNat kind) s.objects (call regs v s).2.objects
        (call regs v s).1.bytes) (vs : List β) (total : Int) (bytes : List UInt8)
    (saved : List SyscallRegs) (s : IoState σ) :
    ∃ moved, (vectorLoop regs base length call vs total bytes saved s).1.bytes = bytes ++ moved ∧
      MovesBy R (s.getPipeForFd regs.rdi.toNat kind) s.objects
        (vectorLoop regs base length call vs total bytes saved s).2.objects moved := by
  induction vs generalizing total bytes saved s with
  | nil => exact ⟨[], (List.append_nil _).symm, .refl hR _ _⟩
  | cons v vs ih =>
    simp only [vectorLoop]
    split
    · exact ⟨[], (List.append_nil _).symm, .refl hR _ _⟩
    have hv := hcall { regs with rsi := base v, rdx := length v } v s
    have hq := hquiet { regs with rsi := base v, rdx := length v } v s
    split
    · exact ⟨_, rfl, hv⟩
    split
    · exact ⟨_, rfl, hv⟩
    -- The rest of the vector names the same pipe.
    obtain ⟨moved, hb, hm⟩ := ih (total + (call { regs with rsi := base v, rdx := length v }
      v s).1.value) (bytes ++ (call { regs with rsi := base v, rdx := length v } v s).1.bytes)
      (saved ++ (call { regs with rsi := base v, rdx := length v } v s).1.saved)
      (call { regs with rsi := base v, rdx := length v } v s).2
    rw [hq.getPipeForFd] at hm
    exact ⟨_, hb.trans (List.append_assoc _ _ _), hv.append hR hm⟩

lemma moves_sysReadv (regs : SyscallRegs) (iov : List ReadVec) (s : IoState σ) :
    MovesBy PipeObject.ReadFrom (s.getPipeForFd regs.rdi.toNat .pipeReader) s.objects
      (s.sysReadv F env regs iov).2.objects (s.sysReadv F env regs iov).1.bytes := by
  unfold sysReadv
  split
  · exact .refl additive_readFrom _ _
  split
  · exact .refl additive_readFrom _ _
  obtain ⟨moved, hb, hm⟩ := moves_vectorLoop additive_readFrom regs ReadVec.base
    ReadVec.length
    (fun regs _ s => quiet_sysRead F env regs s) (fun regs _ s => moves_sysRead F env regs s)
    iov 0 [] [] s
  rw [hb]
  simpa using hm

lemma moves_sysWritev (regs : SyscallRegs) (iov : List WriteVec) (s : IoState σ) :
    MovesBy PipeObject.WrittenTo (s.getPipeForFd regs.rdi.toNat .pipeWriter) s.objects
      (s.sysWritev F env regs iov).2.objects (s.sysWritev F env regs iov).1.bytes := by
  unfold sysWritev
  split
  · exact .refl additive_writtenTo _ _
  split
  · exact .refl additive_writtenTo _ _
  obtain ⟨moved, hb, hm⟩ := moves_vectorLoop additive_writtenTo regs WriteVec.base
    (fun v => UInt64.ofNat v.data.length)
    (fun regs v s => quiet_sysWrite F env regs v.data s)
    (fun regs v s => moves_sysWrite F env regs v.data s) iov 0 [] [] s
  rw [hb]
  simpa using hm

lemma sysLseek_pipes (fd : Nat) (offset : Int) (whence : UInt64) (s : IoState σ) :
    (s.sysLseek fd offset whence).2.objects.pipes = s.objects.pipes := by
  simp only [sysLseek]
  split
  · rfl
  split
  · rfl
  · split
    · rfl
    · split <;> rfl

lemma sysFtruncate_pipes (fd : Nat) (size : Int) (s : IoState σ) :
    (s.sysFtruncate F fd size).2.objects.pipes = s.objects.pipes := by
  simp only [sysFtruncate]
  split
  · rfl
  split
  · rfl
  split
  · rfl
  · split
    · rfl
    · split <;> rfl

end IoState

lemma installVnodeFd_pipes (node : VfsNode) (flags : UInt64) (s : FdState) :
    (s.installVnodeFd node flags).2.objects.pipes = s.objects.pipes := by
  unfold installVnodeFd
  split
  · rfl
  · split <;> rfl

lemma accounted_sysPipe (h : Accounted s.objects log) (userPipefd : UInt64) :
    Accounted (s.sysPipe userPipefd).2.2.objects
      (log.settle (s.sysPipe userPipefd).2.2.objects) := by
  obtain hs | ⟨pipe, readFd, writeFd, -, hu, -, -, -, -, -, hs⟩ :=
    sysPipe_spec userPipefd s
  · rw [hs]
    exact h.of_pipes rfl
  · rw [hs]
    exact h.opened hu

lemma FdCall.accounted {σ : Type} (F : FileSystem σ) (env : Surroundings) (regs : SyscallRegs)
    (c : FdCall) (s : IoState σ) (h : Accounted s.objects log) :
    Accounted (c.run F env regs s).2.objects
      ((c.record regs s.toFdState (c.run F env regs s).1.bytes log).settle
        (c.run F env regs s).2.objects) := by
  cases c with
  | openNode node flags => exact h.of_pipes (installVnodeFd_pipes node flags s.toFdState)
  | openDevice device id => exact h.kept (kept_installDeviceFd _ id s.toFdState).pipe
  | eventfd2 value flags => exact h.kept (kept_sysEventfd2 value flags s.toFdState).pipe
  | pipe userPipefd => exact accounted_sysPipe h userPipefd
  | pipe2 userPipefd =>
    simp only [FdCall.run, onFds, sysPipe2, FdCall.record, id_eq]
    split
    · exact h.of_pipes rfl
    · exact accounted_sysPipe h userPipefd
  | socket family type protocol =>
    exact h.kept (kept_installSocketFd family type protocol s.toFdState).pipe
  | socketpair domain type protocol userFds =>
    exact h.kept (kept_sysSocketpair domain type protocol userFds s.toFdState).pipe
  | dup oldfd => exact h.kept (kept_dupFdCommon oldfd (-1) false s.toFdState).pipe
  | dup2 oldfd newfd => exact h.kept (kept_dupFdCommon oldfd newfd true s.toFdState).pipe
  | fcntl fd cmd => exact h.kept (kept_sysFcntl fd cmd s.toFdState).pipe
  | close fd => exact h.kept (kept_sysClose fd s.toFdState).pipe
  | sendmsg fd message =>
    exact h.kept (kept_sysSendmsg env.sender env.tcp fd message s.toFdState).pipe
  | recvmsg fd message => exact h.kept (kept_sysRecvmsg env.tcp fd message s.toFdState).pipe
  | read => exact h.taken (moves_sysRead F env regs s) fun _ => getPipeForFd_inUse
  | readv iov => exact h.taken (moves_sysReadv F env regs iov s) fun _ => getPipeForFd_inUse
  | write data =>
    exact h.stored (moves_sysWrite F env regs data s) fun _ => getPipeForFd_inUse
  | writev iov =>
    exact h.stored (moves_sysWritev F env regs iov s) fun _ => getPipeForFd_inUse
  | lseek fd offset whence => exact h.of_pipes (sysLseek_pipes fd offset whence s)
  | ftruncate fd size => exact h.of_pipes (sysFtruncate_pipes F fd size s)
  | other => exact h.of_pipes rfl

/-! ## Runs -/

namespace Sys

variable {σ : Type} {s : Sys σ} {log : PipeLog} (F : FileSystem σ)

lemma accounted_step (op : SysOp) (h : Accounted s.kernel.objects log)
    (hact : s.kernel.machine.Active) :
    Accounted (s.step F op).2.kernel.objects
      ((s.record F op log).settle (s.step F op).2.kernel.objects) := by
  cases op with
  | proc op =>
    obtain ⟨hcur, -⟩ := current_of_active hact
    exact h.kept (HolderSteps.kept (step_holders s.kernel op hcur)).pipe
  | call regs env c =>
  have hobjects : (s.step F (.call regs env c)).2.kernel.objects =
      (c.run F env regs s.io).2.objects :=
    (keepsFds_finishCall (c.run F env regs s.io).1 (s.withIo (c.run F env regs s.io).2)).objects
  rw [hobjects]
  exact c.accounted F env regs s.io h

lemma accounted_boot (p4 : Nat) :
    Accounted (initProcess p4).objects fun _ => PipeHistory.empty := by
  have hring : ∀ i, ((initProcess p4).objects.pipes i).ring = zero.ring :=
    fun _ => rfl
  refine ⟨fun i => (valid_of_zero (hring i)).1, fun i => ?_, fun i _ => ⟨hring i, rfl⟩⟩
  rfl

/-- What pipes guarantee in a state with the histories `log`. -/
structure PipesFifo (F : FileSystem σ) (s : Sys σ) (log : PipeLog) : Prop where
  /-- What was taken out is what was put in first. -/
  delivered : ∀ i, (log i).read <+: (log i).written
  bounded : ∀ i, (s.kernel.objects.pipes i).size ≤ pipeCapacity
  /-- A `read` reports the bytes it takes out. -/
  readReported : ∀ regs env i, s.io.getPipeForFd regs.rdi.toNat .pipeReader = some i →
    0 ≤ (s.io.sysRead F env regs).1.value →
      (s.io.sysRead F env regs).1.value = (s.io.sysRead F env regs).1.bytes.length
  /-- A `write` reports the bytes it puts in. -/
  writeReported : ∀ regs env data i, s.io.getPipeForFd regs.rdi.toNat .pipeWriter = some i →
    0 ≤ (s.io.sysWrite F env regs data).1.value →
      (s.io.sysWrite F env regs data).1.value ≤ data.length ∧
        (s.io.sysWrite F env regs data).1.bytes =
          data.take (s.io.sysWrite F env regs data).1.value.toNat
  /-- A `read` of at least one byte that goes on after its call with `0` has found the pipe drained
  and without a write end. -/
  endOfFile : ∀ regs env i, s.io.getPipeForFd regs.rdi.toNat .pipeReader = some i →
    regs.rdx ≠ 0 → 2 ≤ regs.rcx → (s.step F (.call regs env .read)).1 = .returned 0 →
    (s.step F (.call regs env .read)).2.kernel.user.rip = regs.rcx →
      (log i).read = (log i).written ∧
        s.liveReferences (.writer i) + s.kernel.objects.pendingReferences (.writer i) = 0

lemma readReported_of_pipe (env : Surroundings) (regs : SyscallRegs) (t : IoState σ) {i : Nat}
    (hi : t.getPipeForFd regs.rdi.toNat .pipeReader = some i)
    (hv : 0 ≤ (t.sysRead F env regs).1.value) :
    (t.sysRead F env regs).1.value = (t.sysRead F env regs).1.bytes.length := by
  obtain ⟨j, -, hread⟩ | ⟨-, h | ⟨-, hneg⟩⟩ :=
    (transfers_sysRead F regs env t).cases (.inl rfl)
  · rw [hread]
    simp only [readPipe]
    split <;> rfl
  · rw [h] at hi
    simp at hi
  · omega

lemma writeReported_of_pipe (env : Surroundings) (regs : SyscallRegs) (data : List UInt8)
    (t : IoState σ) {i : Nat} (hvalid : ∀ i, (t.objects.pipes i).Valid)
    (hi : t.getPipeForFd regs.rdi.toNat .pipeWriter = some i)
    (hv : 0 ≤ (t.sysWrite F env regs data).1.value) :
    (t.sysWrite F env regs data).1.value ≤ data.length ∧
      (t.sysWrite F env regs data).1.bytes =
        data.take (t.sysWrite F env regs data).1.value.toNat := by
  obtain ⟨j, -, hwrite⟩ | ⟨-, h | ⟨-, hneg⟩⟩ :=
    (transfers_sysWrite F regs env data t).cases (.inr rfl)
  · rw [hwrite]
    simp only [writePipe]
    split
    · exact ⟨by simp [IoReply.waits], by simp [IoReply.waits]⟩
    · exact ⟨Int.ofNat_le.2 (put_le data _ (hvalid j)), rfl⟩
  · rw [h] at hi
    simp at hi
  · omega

lemma size_of_take_nil {p : PipeObject} {n : Nat} (hn : n ≠ 0) (h : (p.take n).1 = []) :
    p.size = 0 := by
  obtain ⟨m, rfl⟩ := Nat.exists_eq_succ_of_ne_zero hn
  unfold take at h
  by_contra hs
  simp [hs] at h

lemma endOfFile_of_pipe {env : Surroundings} {regs : SyscallRegs} {i : Nat}
    (hi : s.io.getPipeForFd regs.rdi.toNat .pipeReader = some i) (hlen : regs.rdx ≠ 0)
    (hrcx : 2 ≤ regs.rcx) (hret : (s.step F (.call regs env .read)).1 = .returned 0)
    (hrip : (s.step F (.call regs env .read)).2.kernel.user.rip = regs.rcx) :
    (s.kernel.objects.pipes i).size = 0 ∧ (s.kernel.objects.pipes i).writeRefs = 0 := by
  -- The call has come back, so its reply is what the caller sees.
  have hreply : (s.io.sysRead F env regs).1.value = 0 ∧
      (s.io.sysRead F env regs).1.regs.rcx = regs.rcx := by
    simp only [step, FdCall.run, finishCall] at hret hrip
    rcases hgive : giveUp (s.io.sysRead F env regs).1.saved
      (s.withIo (s.io.sysRead F env regs).2).kernel with ⟨b, k⟩
    rw [hgive] at hret hrip
    cases b with
    | true => simp at hret
    | false => exact ⟨by simpa using hret, hrip⟩
  obtain ⟨hvalue, hregs⟩ := hreply
  obtain ⟨j, hj, hread⟩ | ⟨-, h | ⟨-, hneg⟩⟩ :=
    (transfers_sysRead F regs env s.io).cases (.inl rfl)
  · obtain rfl : j = i := Option.some.inj (hj.symm.trans hi)
    rw [hread] at hvalue hregs
    unfold readPipe at hvalue hregs
    dsimp only at hvalue hregs
    split at hvalue
    · -- A wait goes back to the call itself.
      next hwait =>
      rw [if_pos hwait] at hregs
      simp only [IoReply.waits, rewind, ge_iff_le, if_pos hrcx] at hregs
      have hle : (2 : UInt64).toNat ≤ regs.rcx.toNat := UInt64.le_iff_toNat_le.1 hrcx
      have hsub := congrArg UInt64.toNat hregs
      rw [UInt64.toNat_sub_of_le _ _ hrcx] at hsub
      simp only [UInt64.reduceToNat] at hle hsub
      omega
    · next hwait =>
      have hn : regs.rdx.toNat ≠ 0 := fun h => hlen (UInt64.toNat_inj.1 h)
      have hnil : ((s.io.objects.pipes j).take regs.rdx.toNat).1 = [] := by
        simpa [IoReply.returned] using hvalue
      have hsize := size_of_take_nil hn hnil
      exact ⟨hsize, by by_contra hw; exact hwait ⟨hsize, pos_of_ne_zero hw⟩⟩
  · rw [h] at hi
    simp at hi
  · omega

/-- In every state of every run, pipes are queues. -/
theorem pipes_fifo (F : FileSystem σ) (p4 : Nat) (fs : σ) {halted : Bool}
    (h : PipeRun F ⟨Kernel.initProcess p4, fs⟩ halted s log) : PipesFifo F s log := by
  have hacc : Accounted s.kernel.objects log := by
    induction h with
    | start => exact accounted_boot p4
    | step h op ih => exact accounted_step F op ih ((counted_of_runs F p4 fs h.runs).2 rfl)
  have hcounts := referenceCounts_of_counted (counted_of_runs F p4 fs h.runs).1
  refine ⟨fun i => ⟨_, (hacc.bytes i).symm⟩, fun i => (hacc.valid i).size_le,
    fun regs env i hi hv => readReported_of_pipe F env regs s.io hi hv,
    fun regs env data i hi hv => writeReported_of_pipe F env regs data s.io hacc.valid hi hv,
    fun regs env i hi hlen hrcx hret hrip => ?_⟩
  obtain ⟨hsize, hrefs⟩ := endOfFile_of_pipe F hi hlen hrcx hret hrip
  have hempty : (s.kernel.objects.pipes i).contents = [] := RingBuffer.contents_eq_nil hsize
  refine ⟨?_, (hcounts.count (.writer i)).symm.trans hrefs⟩
  rw [hacc.bytes, hempty, List.append_nil]

/-- The registers of a transfer on `fd` with `length` bytes at an address, called from `0x1000`. -/
def transferRegs (fd length : UInt64) : SyscallRegs :=
  { SyscallRegs.zero with rdi := fd, rsi := 0x400000, rdx := length, rcx := 0x1000 }

/-- A process makes a pipe. -/
def openedPipe : Sys Unit × PipeLog :=
  logged noFiles [.call .zero still (.pipe 0x400000)] ⟨Kernel.initProcess 0x10000, ()⟩
    fun _ => PipeHistory.empty

/-- The process writes three bytes to it. -/
def filledPipe : Sys Unit × PipeLog :=
  logged noFiles [.call (transferRegs 4 3) still (.write [1, 2, 3])] openedPipe.1 openedPipe.2

/-- The process reads two of the bytes. -/
def halfReadPipe : Sys Unit × PipeLog :=
  logged noFiles [.call (transferRegs 3 2) still .read] filledPipe.1 filledPipe.2

lemma pipeRun_openedPipe :
    PipeRun noFiles ⟨initProcess 0x10000, ()⟩ false openedPipe.1 openedPipe.2 :=
  PipeRun.start.logged (by decide +kernel)

lemma pipeRun_filledPipe :
    PipeRun noFiles ⟨initProcess 0x10000, ()⟩ false filledPipe.1 filledPipe.2 :=
  pipeRun_openedPipe.logged (by decide +kernel)

theorem pipes_fifo_halfRead : PipesFifo noFiles halfReadPipe.1 halfReadPipe.2 ∧
    (halfReadPipe.2 0).written = [1, 2, 3] ∧ (halfReadPipe.2 0).read = [1, 2] :=
  ⟨pipes_fifo noFiles 0x10000 () (pipeRun_filledPipe.logged (by decide +kernel)),
    by decide +kernel, by decide +kernel⟩

/-- A `read` of no bytes comes back with `0` from a pipe that holds bytes, and a `readv` of one byte
comes back with `0` from an empty pipe with a write end, if no other process is ready. -/
theorem zero_before_end_of_file :
    (∃ s log, PipeRun noFiles ⟨Kernel.initProcess 0x10000, ()⟩ false s log ∧
      s.io.getPipeForFd 3 .pipeReader = some 0 ∧
      (s.step noFiles (.call (transferRegs 3 0) still .read)).1 = .returned 0 ∧
      (s.step noFiles (.call (transferRegs 3 0) still .read)).2.kernel.user.rip = 0x1000 ∧
      (log 0).read ≠ (log 0).written) ∧
    ∃ s log, PipeRun noFiles ⟨Kernel.initProcess 0x10000, ()⟩ false s log ∧
      s.io.getPipeForFd 3 .pipeReader = some 0 ∧
      (s.step noFiles (.call (transferRegs 3 1) still (.readv [⟨0x500000, 1⟩]))).1 = .returned 0 ∧
      (s.step noFiles (.call (transferRegs 3 1) still
        (.readv [⟨0x500000, 1⟩]))).2.kernel.user.rip = 0x1000 ∧
      s.liveReferences (.writer 0) = 1 := by
  refine ⟨⟨filledPipe.1, filledPipe.2, pipeRun_filledPipe, ?_⟩,
    ⟨openedPipe.1, openedPipe.2, pipeRun_openedPipe, ?_⟩⟩
  · decide +kernel
  · decide +kernel

end Sys

end AosKernel.Fd
