import AosKernel.Fd.Objects

/-!
# The process table

The data of `kernel/process.c` and the switches between processes: `process_select_next_ready`,
`process_preempt_from_interrupt`, `schedule`, `switch_to_process`, `process_release_address_space`,
`process_complete_vfork`, `process_update_thermal_policy`.

`current_process` is an index into the table; `init_process` sets it and nothing clears it. A
function that does not come back to its caller, because it ends in `switch_to_process` or in
`halt_forever`, says so in its `Outcome`.

The memory below is seen through its interface: `Kernel.spaces` are the page-table roots in use,
`Kernel.words` the 32-bit words of user memory behind each root, `Kernel.destroyed` the calls of
`vmm_destroy_user_space`. Fields of a process that are only copied are left out.

In the sources at hand `include/process.h` does not declare `thread_group_id`, `is_thread`,
`shares_address_space`, `vfork_parent_pid`, `vfork_child_pid`, `has_interrupt_context`,
`interrupted_rcx` and `interrupted_r11`; their types here are those of the values stored in them.
`struct process_interrupt_frame` is not defined, and `timer_stub` calls `timer_handler` without
loading `rdi`: here its argument is the context that the interrupt saved, and what it leaves there
is what the return from the interrupt loads. -/

namespace AosKernel.Proc

open Lib Fd Function CString

/-! ## Data -/

def maxProcesses : Nat := 64

/-- `process_status_t`. -/
inductive Status where
  | dead
  | ready
  | running
  | waiting
  | zombie
  | paused
  deriving DecidableEq, Repr

/-- `struct syscall_regs`: after a system call `rcx` is the user instruction pointer and `r11` the
user flags. -/
structure SyscallRegs where
  rax : UInt64
  rdx : UInt64
  rsi : UInt64
  rdi : UInt64
  r10 : UInt64
  r8 : UInt64
  r9 : UInt64
  r15 : UInt64
  r14 : UInt64
  r13 : UInt64
  r12 : UInt64
  rbx : UInt64
  rbp : UInt64
  rcx : UInt64
  r11 : UInt64
  rsp : UInt64
  deriving DecidableEq, Repr

def SyscallRegs.zero : SyscallRegs := ⟨0, 0, 0, 0, 0, 0, 0, 0, 0, 0, 0, 0, 0, 0, 0, 0⟩

/-- `struct process_interrupt_frame` of an interrupt: the user registers, instruction pointer and
flags, and whether the interrupt came from user mode (`(cs & 3) == 3`). -/
structure InterruptFrame where
  gpr : SyscallRegs
  rip : UInt64
  rflags : UInt64
  fromUser : Bool
  deriving DecidableEq, Repr

/-- `process_t`. -/
structure Process where
  pid : UInt32
  parentPid : UInt32
  threadGroupId : UInt32
  status : Status
  exitStatus : UInt32
  p4Table : Nat
  regs : SyscallRegs
  hasInterruptContext : Bool
  interruptedRcx : UInt64
  interruptedR11 : UInt64
  waitTargetPid : Int
  waitStatusPtr : UInt64
  fdTable : FdTable
  fsBase : UInt64
  clearChildTid : UInt64
  cpuTicks : UInt64
  uid : UInt32
  euid : UInt32
  command : CString
  isThread : Bool
  sharesAddressSpace : Bool
  vforkParentPid : UInt32
  vforkChildPid : UInt32
  thermalThrottled : Bool
  thermalSkipPhase : UInt8

/-- A zeroed process, which is a dead one. -/
def Process.zero : Process where
  pid := 0
  parentPid := 0
  threadGroupId := 0
  status := .dead
  exitStatus := 0
  p4Table := 0
  regs := SyscallRegs.zero
  hasInterruptContext := false
  interruptedRcx := 0
  interruptedR11 := 0
  waitTargetPid := 0
  waitStatusPtr := 0
  fdTable := zeroTable
  fsBase := 0
  clearChildTid := 0
  cpuTicks := 0
  uid := 0
  euid := 0
  command := []
  isThread := false
  sharesAddressSpace := false
  vforkParentPid := 0
  vforkChildPid := 0
  thermalThrottled := false
  thermalSkipPhase := 0

/-- A call of `vmm_destroy_user_space`: the root, whether it was in use, the root in CR3, and the
root of every slot that is not dead. -/
structure DestroyCall where
  root : Nat
  inUse : Bool
  cr3 : Nat
  roots : Nat → Option Nat

/-- The process table, the processor, and the memory and descriptor objects below. `loaded` is the
slot whose registers the processor has, `user` the user context it goes back to. -/
structure Kernel where
  procs : Nat → Process
  current : Nat
  loaded : Nat
  nextPid : UInt32
  thermalPolicyActive : Bool
  cr3 : Nat
  fsBase : UInt64
  user : InterruptFrame
  words : Nat → UInt64 → UInt32
  spaces : Nat → Bool
  destroyed : List DestroyCall
  objects : FdObjects

/-- How a kernel function ends: it comes back with a value, it has gone to the user mode of
`current_process`, or the machine has stopped. -/
inductive Outcome where
  | returned (value : Int)
  | switched
  | halted
  deriving DecidableEq, Repr

/-! ## Errors -/

def eperm : Int := 1
def enoent : Int := 2
def echild : Int := 10
def eagain : Int := 11
def enomem : Int := 12
def efault : Int := 14
def einval : Int := 22

namespace Kernel

/-! ## Slots -/

variable (k : Kernel)

def setProc (i : Nat) (p : Process) : Kernel :=
  { k with procs := update k.procs i p }

def modifyProc (i : Nat) (f : Process → Process) : Kernel :=
  k.setProc i (f (k.procs i))

def setStatus (i : Nat) (status : Status) : Kernel :=
  k.modifyProc i fun p => { p with status := status }

def findSlot (p : Process → Bool) : Option Nat :=
  (List.range maxProcesses).find? fun i => p (k.procs i)

/-- `find_process_by_pid`, and the same loop in `find_parent_for` and in
`process_exit_and_wake_parent`. -/
def findProcessByPid (pid : UInt32) : Option Nat :=
  k.findSlot fun p => p.status != .dead && p.pid == pid

/-! ## Switching -/

def switchPageTable (root : Nat) : Kernel := { k with cr3 := root }

def loadFsBase (fsBase : UInt64) : Kernel := { k with fsBase := fsBase }

/-- `switch_to_process`: the page table and all registers of slot `i`, and the user instruction
pointer and flags from its `rcx` and `r11`. -/
def switchToProcess (i : Nat) : Kernel :=
  let p := k.procs i
  { k with
    cr3 := p.p4Table
    loaded := i
    user := ⟨p.regs, p.regs.rcx, p.regs.r11, true⟩ }

/-- The way back to user mode of a system call that returns `value`. -/
def sysret (regs : SyscallRegs) (value : Int) : Kernel :=
  { k with user := ⟨{ regs with rax := UInt64.ofInt value }, regs.rcx, regs.r11, true⟩ }

/-! ## The scheduler -/

/-- The second loop of `process_select_next_ready`: `n` candidates from `idx` on, with the first
throttled one seen so far. -/
def selectLoop : Nat → Nat → Option Nat → Kernel → Option Nat × Kernel
  | 0, _, fallback, k => (fallback, k)
  | n + 1, idx, fallback, k =>
      let candidate := k.procs (idx % maxProcesses)
      if candidate.status ≠ .ready then selectLoop n (idx + 1) fallback k
      else if candidate.thermalThrottled then
        let fallback := if fallback.isNone then some (idx % maxProcesses) else fallback
        let phase := (candidate.thermalSkipPhase + 1) &&& 3
        let k := k.setProc (idx % maxProcesses) { candidate with thermalSkipPhase := phase }
        if phase ≠ 0 then selectLoop n (idx + 1) fallback k else (some (idx % maxProcesses), k)
      else (some (idx % maxProcesses), k)

def processSelectNextReady (current : Nat) : Option Nat × Kernel :=
  selectLoop maxProcesses (current + 1) none k

def saveInterruptContext (p : Process) (frame : InterruptFrame) : Process :=
  { p with
    regs := { frame.gpr with rcx := frame.rip, r11 := frame.rflags }
    interruptedRcx := frame.gpr.rcx
    interruptedR11 := frame.gpr.r11
    hasInterruptContext := true }

def restoreInterruptContext (p : Process) : InterruptFrame where
  gpr := { p.regs with
    rcx := if p.hasInterruptContext then p.interruptedRcx else p.regs.rcx
    r11 := if p.hasInterruptContext then p.interruptedR11 else p.regs.r11 }
  rip := p.regs.rcx
  rflags := p.regs.r11 ||| 0x200
  fromUser := true

def preemptFromInterrupt (frame : InterruptFrame) (k : Kernel) : Kernel :=
  if frame.fromUser = false ∨ (k.procs k.current).status ≠ .running then k
  else
    let previous := k.current
    let k := (k.modifyProc previous fun p => saveInterruptContext p frame).setStatus previous .ready
    match k.processSelectNextReady previous with
    | (none, k) => k.setStatus previous .running
    | (some next, k) =>
        if next = previous then k.setStatus previous .running
        else
          let k := { k with
            user := restoreInterruptContext (k.procs next), loaded := next, current := next }
          let k := k.setStatus next .running
          (k.switchPageTable (k.procs next).p4Table).loadFsBase (k.procs next).fsBase

/-- `schedule`: whether another process was switched to. -/
def schedule (regs : SyscallRegs) (k : Kernel) : Bool × Kernel :=
  let cur := k.current
  let k := k.modifyProc cur fun p => { p with
    regs := regs
    hasInterruptContext := false
    status := if p.status = .running then .ready else p.status }
  match k.processSelectNextReady cur with
  | (none, k) => (false, k.setStatus cur .running)
  | (some next, k) =>
      if next = cur then (false, k.setStatus cur .running)
      else
        let k := { k with current := next }.setStatus next .running
        (true, (k.loadFsBase (k.procs next).fsBase).switchToProcess next)

/-! ## Thermal policy -/

def commandBasename (command : CString) : CString :=
  (command.reverse.takeWhile fun c => c != AosKernel.Vfs.slash).reverse

def thermalEssentialCommands : List CString :=
  [ascii ['d', 'e', 's', 'k', 't', 'o', 'p', '.', 'e', 'l', 'f'],
   ascii ['d', 'e', 's', 'k', 't', 'o', 'p'],
   ascii ['d', 'e', 'x', 't', 'o', 'p'],
   ascii ['d', 'm'],
   ascii ['m', 'u', 'i'],
   ascii ['m', 'u', 'i', '.', 'e', 'l', 'f'],
   ascii ['M', 'U', 'I'],
   ascii ['s', 'h', 'u', 't', 'd', 'o', 'w', 'n'],
   ascii ['s', 'h', 'u', 't', 'd', 'o', 'w', 'n', '.', 'e', 'l', 'f'],
   ascii ['r', 'e', 's', 't', 'a', 'r', 't'],
   ascii ['r', 'e', 's', 't', 'a', 'r', 't', '.', 'e', 'l', 'f'],
   ascii ['r', 'e', 'b', 'o', 'o', 't']]

def processIsThermalEssential (p : Process) : Bool :=
  p.pid == 1 || thermalEssentialCommands.contains (commandBasename p.command)

def thermalSlot (active : Bool) (p : Process) : Process :=
  if p.status = .dead ∨ p.status = .zombie then
    { p with thermalThrottled := false, thermalSkipPhase := 0 }
  else
    let throttled := active && !processIsThermalEssential p
    { p with
      thermalThrottled := throttled
      thermalSkipPhase := if throttled then p.thermalSkipPhase else 0 }

def updateThermalPolicy (active : Bool) (k : Kernel) : Kernel :=
  { k with
    thermalPolicyActive := active
    procs := fun i => if i < maxProcesses then thermalSlot active (k.procs i) else k.procs i }

/-- `timer_handler`; `thermal` is the result of `thermal_timer_tick`, with the flag of
`thermal_emergency_active` when it asks for an update. -/
def timerHandler (frame : InterruptFrame) (thermal : Option Bool) (k : Kernel) : Kernel :=
  let k :=
    if (k.procs k.current).status = .running then
      k.modifyProc k.current fun p => { p with cpuTicks := p.cpuTicks + 1 }
    else k
  let k :=
    match thermal with
    | none => k
    | some active => k.updateThermalPolicy active
  -- An interrupt of user mode goes back to it unless another process is taken.
  preemptFromInterrupt frame { k with user := if frame.fromUser then frame else k.user }

/-! ## Address spaces -/

def rootOf (p : Process) : Option Nat := if p.status = .dead then none else some p.p4Table

def vmmDestroyUserSpace (root : Nat) (k : Kernel) : Kernel :=
  if root = 0 then k
  else
    { k with
      spaces := update k.spaces root false
      destroyed := ⟨root, k.spaces root, k.cr3, fun i => rootOf (k.procs i)⟩ :: k.destroyed }

/-- The scan of `process_release_address_space`: another slot that is not dead has the root. -/
def rootShared (root releasing : Nat) : Bool :=
  (List.range maxProcesses).any fun i =>
    i != releasing && (k.procs i).status != .dead && (k.procs i).p4Table == root

def processReleaseAddressSpace (root releasing : Nat) (k : Kernel) : Kernel :=
  if root = 0 then k
  else if k.rootShared root releasing then k
  else k.vmmDestroyUserSpace root

def releaseProcessMemory (i : Nat) (k : Kernel) : Kernel :=
  let root := (k.procs i).p4Table
  if root = 0 then k
  else (k.modifyProc i fun p => { p with p4Table := 0 }).processReleaseAddressSpace root i

def processCompleteVfork (child : Nat) (k : Kernel) : Kernel :=
  let c := k.procs child
  if c.vforkParentPid = 0 then k
  else
    let k := k.modifyProc child fun p => { p with vforkParentPid := 0 }
    match k.findSlot fun p =>
        p.status != .dead && p.pid == c.vforkParentPid && p.vforkChildPid == c.pid with
    | none => k
    | some i => k.modifyProc i fun p => { p with
        vforkChildPid := 0
        status := if p.status = .waiting then .ready else p.status }

/-- `init_process`, over the kernel's own page-table root and the objects at boot. -/
def initProcess (p4Table : Nat) : Kernel where
  procs := fun i =>
    if i = 0 then
      { Process.zero with
        pid := 1
        threadGroupId := 1
        status := .running
        p4Table := p4Table
        waitTargetPid := -1
        fdTable := initProcessFdTable
        command := ascii ['d', 'e', 's', 'k', 't', 'o', 'p', '.', 'e', 'l', 'f'] }
    else Process.zero
  current := 0
  loaded := 0
  nextPid := 2
  thermalPolicyActive := false
  cr3 := p4Table
  fsBase := 0
  user := ⟨SyscallRegs.zero, 0, 0, true⟩
  words := fun _ _ => 0
  spaces := fun root => root == p4Table
  destroyed := []
  objects := FdObjects.zero

end Kernel

end AosKernel.Proc
