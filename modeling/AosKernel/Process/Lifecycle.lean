import AosKernel.Process.Table

/-!
# The life of a process

The calls of `kernel/process.c`, `kernel/syscall/process_lifecycle.c`, `kernel/session.c` and
`kernel/syscall.c` that make, change and end processes, and the step function over all of them. What
the memory code answers is an argument of each call: the root that `vmm_copy_p4` or
`vmm_create_user_space` returns (0 for `NULL`), and a `Prepare` that says which user writes
`vmm_prepare_user_write` admits.
-/

namespace AosKernel.Proc

open Lib Fd Function

/-! ## Arguments -/

/-- Whether `vmm_prepare_user_write` succeeds for four bytes at an address of a root. -/
abbrev Prepare := Nat → UInt64 → Bool

def signed (x : UInt64) : Int := x.toBitVec.toInt

def cloneVm : UInt64 := 0x00000100
def cloneVfork : UInt64 := 0x00004000
def cloneThread : UInt64 := 0x00010000
def cloneSettls : UInt64 := 0x00080000
def cloneParentSettid : UInt64 := 0x00100000
def cloneChildCleartid : UInt64 := 0x00200000
def cloneChildSettid : UInt64 := 0x01000000

def sessionUid : UInt32 := 1000
def loginUid : UInt32 := 65534

def hasFlag (flags flag : UInt64) : Bool := flags &&& flag != 0

/-- `(exit_code & 0xFF) << 8`. -/
def rawStatus (exitCode : UInt64) : UInt32 := (exitCode.toUInt32 &&& 0xFF) <<< 8

def waitPidMatches (requested : Int) (pid : UInt32) : Bool :=
  requested == -1 || requested == (pid.toNat : Int)

/-- How `exec_initrd_program` ends: with an error before or after it has made an address space, or
with a program loaded into the new one. -/
inductive ExecResult where
  | refused (error : Int)
  | failed (newP4 : Nat) (error : Int)
  | loaded (newP4 : Nat) (entry stack : UInt64) (command : CString)

namespace Kernel

/-- A 32-bit store to user memory, through the loaded page table. -/
def storeWord (k : Kernel) (address : UInt64) (value : UInt32) : Kernel :=
  { k with
    words := update k.words k.cr3 (update (k.words k.cr3) address value) }

variable (prepare : Prepare)

def writeProcessU32 (i : Nat) (address : UInt64) (value : UInt32) (k : Kernel) : Bool × Kernel :=
  if address = 0 ∨ prepare (k.procs i).p4Table address = false then (false, k)
  else (true, k.storeWord address value)

def releaseFds (i : Nat) (k : Kernel) : Kernel :=
  { k.modifyProc i fun p => { p with fdTable := closedTable } with
    objects := k.objects.releaseFdTableEntries (k.procs i).fdTable }

/-- `memset` of slot `i`, which makes it dead. -/
def clearSlot (i : Nat) (k : Kernel) : Kernel := k.setProc i Process.zero

/-! ## Creation -/

def freeSlot (k : Kernel) : Option Nat := k.findSlot fun p => p.status == .dead

def forkChild (parent : Process) (pid : UInt32) (regs : SyscallRegs) (root : Nat) : Process :=
  { Process.zero with
    pid := pid
    parentPid := parent.pid
    threadGroupId := pid
    p4Table := root
    regs := { regs with rax := 0 }
    waitTargetPid := -1
    fdTable := parent.fdTable
    fsBase := parent.fsBase
    uid := parent.uid
    euid := parent.euid
    command := parent.command
    status := .ready }

def throttleChild (active : Bool) (child : Process) : Process :=
  { child with thermalThrottled := active && !processIsThermalEssential child }

variable (regs : SyscallRegs)

/-- `sys_fork`, with the root that `vmm_copy_p4` returns. -/
def sysFork (copied : Nat) (k : Kernel) : Outcome × Kernel :=
  match k.freeSlot with
  | none => (.returned (-1), k)
  | some child =>
      let pid := k.nextPid
      let parent := k.procs k.current
      let k := { k with nextPid := k.nextPid + 1 }
      if copied = 0 then (.returned (-enomem), k.clearSlot child)
      else
        let k := k.setProc child
          (throttleChild k.thermalPolicyActive (forkChild parent pid regs copied))
        (.returned pid.toNat, { k with
          spaces := update k.spaces copied true
          objects := k.objects.retainFdTableEntries parent.fdTable })

/-- The child that `sys_clone` sets up for a shared address space. -/
def cloneChild (parent : Process) (pid : UInt32) (regs : SyscallRegs) : Process :=
  { forkChild parent pid regs parent.p4Table with
    parentPid := if hasFlag regs.rdi cloneThread then parent.parentPid else parent.pid
    threadGroupId := if hasFlag regs.rdi cloneThread then parent.threadGroupId else pid
    isThread := hasFlag regs.rdi cloneThread
    sharesAddressSpace := true
    regs := { regs with rax := 0, rsp := if regs.rsi ≠ 0 then regs.rsi else regs.rsp }
    fsBase := if hasFlag regs.rdi cloneSettls then regs.r8 else parent.fsBase
    clearChildTid := if hasFlag regs.rdi cloneChildCleartid then regs.r10 else 0 }

/-- The end of `sys_clone` for `CLONE_VFORK`: the parent waits and the child runs. -/
def vforkSwitch (parent child : Nat) (k : Kernel) : Kernel :=
  let childPid := (k.procs child).pid
  let parentPid := (k.procs parent).pid
  let k := k.modifyProc child fun p => { p with vforkParentPid := parentPid }
  let k := k.modifyProc parent fun p => { p with
    vforkChildPid := childPid
    regs := { regs with rax := UInt64.ofNat childPid.toNat }
    hasInterruptContext := false
    status := .waiting }
  let k := { k.setStatus child .running with current := child }
  ((k.switchPageTable (k.procs child).p4Table).loadFsBase (k.procs child).fsBase).switchToProcess
    child

def sysClone (copied : Nat) (k : Kernel) : Outcome × Kernel :=
  if hasFlag regs.rdi cloneVm = false then k.sysFork regs copied
  else if hasFlag regs.rdi cloneParentSettid ∧ regs.rdx = 0 then (.returned (-efault), k)
  else if hasFlag regs.rdi cloneChildSettid ∧ regs.r10 = 0 then (.returned (-efault), k)
  else
    match k.freeSlot with
    | none => (.returned (-eagain), k)
    | some child =>
        let pid := k.nextPid
        let parent := k.current
        let p := k.procs parent
        let k := { k with nextPid := k.nextPid + 1 }
        let k := k.modifyProc parent fun p => { p with sharesAddressSpace := true }
        let k := k.setProc child (throttleChild k.thermalPolicyActive (cloneChild p pid regs))
        let k := { k with objects := k.objects.retainFdTableEntries p.fdTable }
        let k := if hasFlag regs.rdi cloneParentSettid then k.storeWord regs.rdx pid else k
        let k := if hasFlag regs.rdi cloneChildSettid then k.storeWord regs.r10 pid else k
        if hasFlag regs.rdi cloneVfork then (.switched, k.vforkSwitch regs parent child)
        else (.returned pid.toNat, k)

/-! ## Waiting -/

/-- A child of `parent` that a wait for `requested` is about. -/
def waitsFor (parent : UInt32) (requested : Int) (p : Process) : Bool :=
  p.status != .dead && p.parentPid == parent && waitPidMatches requested p.pid

/-- The end of `sys_wait4` for a zombie: report it and free its slot. -/
def reapZombie (statusPtr : UInt64) (zombie : Nat) (k : Kernel) : Outcome × Kernel :=
  let z := k.procs zombie
  if statusPtr = 0 then (.returned z.pid.toNat, k.clearSlot zombie)
  else
    match k.writeProcessU32 prepare k.current statusPtr z.exitStatus with
    | (false, k) => (.returned (-efault), k)
    | (true, k) => (.returned z.pid.toNat, k.clearSlot zombie)

/-- The end of `sys_wait4` that blocks: the parent waits and its ready child runs. -/
def blockInWait (requested : Int) (child : Nat) (k : Kernel) : Kernel :=
  let k := k.modifyProc k.current fun p => { p with
    regs := regs
    status := .waiting
    waitTargetPid := requested
    waitStatusPtr := regs.rsi }
  let k := { k with current := child }.setStatus child .running
  (k.loadFsBase (k.procs child).fsBase).switchToProcess child

def sysWait4 (k : Kernel) : Outcome × Kernel :=
  let requested := signed regs.rdi
  let parent := (k.procs k.current).pid
  if regs.rdx &&& ~~~1 ≠ 0 then (.returned (-einval), k)
  else if requested = 0 ∨ requested < -1 then (.returned (-einval), k)
  else
    match k.findSlot fun p => waitsFor parent requested p && p.status == .zombie with
    | some zombie => k.reapZombie prepare regs.rsi zombie
    | none =>
        if (k.findSlot fun p => waitsFor parent requested p).isNone then (.returned (-echild), k)
        else if regs.rdx &&& 1 ≠ 0 then (.returned 0, k)
        else
          match k.findSlot fun p => waitsFor parent requested p && p.status == .ready with
          | none => (.returned (-echild), k)
          | some child => (.switched, k.blockInWait regs requested child)

/-! ## Termination -/

def clearWait (p : Process) : Process := { p with waitTargetPid := -1, waitStatusPtr := 0 }

/-- `wake_parent_if_waiting`: whether the parent was waiting for the child. -/
def wakeParentIfWaiting (child : Nat) (raw : UInt32) (k : Kernel) : Bool × Kernel :=
  match k.findProcessByPid (k.procs child).parentPid with
  | none => (false, k)
  | some parent =>
      let p := k.procs parent
      let pid := (k.procs child).pid
      if p.status ≠ .waiting ∨ waitPidMatches p.waitTargetPid pid = false then (false, k)
      else if p.waitStatusPtr ≠ 0 ∧ prepare p.p4Table p.waitStatusPtr = false then
        (true, k.modifyProc parent fun p => clearWait { p with
          regs := { p.regs with rax := UInt64.ofInt (-efault) }, status := .ready })
      else
        let k :=
          if p.waitStatusPtr ≠ 0 then
            let k := (k.switchPageTable p.p4Table).storeWord p.waitStatusPtr raw
            if (k.procs k.current).p4Table ≠ 0 then
              k.switchPageTable (k.procs k.current).p4Table
            else k
          else k
        (true, k.modifyProc parent fun p => clearWait { p with
          regs := { p.regs with rax := UInt64.ofNat pid.toNat }, status := .ready })

/-- The slot that runs after a thread has ended: a ready one of its group, or any ready one. -/
def nextAfterThread (group : UInt32) (k : Kernel) : Option Nat :=
  match k.findSlot fun p => p.status == .ready && p.threadGroupId == group with
  | some next => some next
  | none => k.findSlot fun p => p.status == .ready

/-- The end of `process_exit_and_wake_parent` for a thread. -/
def exitThread (child : Nat) (k : Kernel) : Outcome × Kernel :=
  let group := (k.procs child).threadGroupId
  let k := (k.releaseProcessMemory child).clearSlot child
  match k.nextAfterThread group with
  | none => (.halted, k)
  | some next =>
      let k := { k with current := next }.setStatus next .running
      (.switched, ((k.switchPageTable (k.procs next).p4Table).loadFsBase
        (k.procs next).fsBase).switchToProcess next)

/-- The end of `process_exit_and_wake_parent` when the parent waits for the child. -/
def exitToWaiter (child parent : Nat) (raw : UInt32) (k : Kernel) : Kernel :=
  let p := k.procs parent
  let pid := (k.procs child).pid
  let writable := p.waitStatusPtr == 0 || prepare p.p4Table p.waitStatusPtr
  let k := k.switchPageTable p.p4Table
  let k := if p.waitStatusPtr ≠ 0 ∧ writable then k.storeWord p.waitStatusPtr raw else k
  let k := k.releaseProcessMemory child
  let k := k.modifyProc parent fun p => clearWait { p with
    regs := { p.regs with
      rax := if writable then UInt64.ofNat pid.toNat else UInt64.ofInt (-efault) }
    status := .running }
  let k := { k.clearSlot child with current := parent }
  (k.loadFsBase (k.procs parent).fsBase).switchToProcess parent

/-- The end of `process_exit_and_wake_parent` when the child stays a zombie and the parent runs. -/
def exitToParent (child parent : Nat) (k : Kernel) : Kernel :=
  let k := { k with current := parent }.switchPageTable (k.procs parent).p4Table
  let k := k.releaseProcessMemory child
  let k := k.modifyProc parent fun p =>
    if p.status = .ready ∨ p.status = .waiting then clearWait { p with status := .running } else p
  (k.loadFsBase (k.procs parent).fsBase).switchToProcess parent

/-- The part of `process_exit_and_wake_parent` before the parent is looked for. -/
def exitPrologue (child : Nat) (k : Kernel) : Kernel :=
  let k := k.processCompleteVfork child
  let k :=
    if (k.procs child).clearChildTid ≠ 0 then
      (k.writeProcessU32 prepare child (k.procs child).clearChildTid 0).2
    else k
  k.releaseFds child

def processExitAndWakeParent (exitCode : UInt64) (k : Kernel) : Outcome × Kernel :=
  let child := k.current
  let raw := rawStatus exitCode
  let k := k.exitPrologue prepare child
  if (k.procs child).isThread then k.exitThread child
  else
    let parent := k.findProcessByPid (k.procs child).parentPid
    let zombie := k.modifyProc child fun p => { p with status := .zombie, exitStatus := raw }
    match parent with
    | none => (.halted, zombie)
    | some parent =>
        if (k.procs parent).status = .waiting ∧
            waitPidMatches (k.procs parent).waitTargetPid (k.procs child).pid then
          (.switched, k.exitToWaiter prepare child parent raw)
        else if (zombie.procs parent).status ≠ .dead ∧ (zombie.procs parent).status ≠ .zombie then
          (.switched, zombie.exitToParent child parent)
        else (.halted, zombie)

def sysProcessKill (k : Kernel) : Outcome × Kernel :=
  let raw := rawStatus regs.rsi
  match k.findProcessByPid regs.rdi.toUInt32 with
  | none => (.returned (-enoent), k)
  | some i =>
      let cur := k.procs k.current
      if (k.procs i).pid = 1 ∨ i = k.current then (.returned (-eperm), k)
      else if cur.euid ≠ 0 ∧ (k.procs i).uid ≠ cur.uid then (.returned (-eperm), k)
      else if (k.procs i).status = .zombie then (.returned 0, k)
      else
        let k := (k.releaseFds i).releaseProcessMemory i
        let k := k.modifyProc i fun p => { p with exitStatus := raw, status := .zombie }
        match k.wakeParentIfWaiting prepare i raw with
        | (true, k) => (.returned 0, k.clearSlot i)
        | (false, k) => (.returned 0, k)

/-- One iteration of `syscall_terminate_uid_processes`. -/
def terminateSlot (uid exceptPid : UInt32) (k : Kernel) (i : Nat) : Kernel :=
  let p := k.procs i
  if p.status = .dead ∨ p.pid = exceptPid ∨ p.uid ≠ uid then k
  else ((k.releaseFds i).releaseProcessMemory i).clearSlot i

def terminateUidProcesses (uid exceptPid : UInt32) (k : Kernel) : Kernel :=
  (List.range maxProcesses).foldl (terminateSlot uid exceptPid) k

/-! ## Pausing -/

def sysProcessPause (k : Kernel) : Outcome × Kernel :=
  match k.findProcessByPid regs.rdi.toUInt32 with
  | none => (.returned (-enoent), k)
  | some i =>
      if (k.procs i).pid = 1 ∨ i = k.current then (.returned (-eperm), k)
      else if (k.procs i).status = .ready then (.returned 0, k.setStatus i .paused)
      else if (k.procs i).status = .paused then (.returned 0, k)
      else (.returned (-einval), k)

def sysProcessResume (k : Kernel) : Outcome × Kernel :=
  match k.findProcessByPid regs.rdi.toUInt32 with
  | none => (.returned (-enoent), k)
  | some i =>
      if (k.procs i).status = .paused then (.returned 0, k.setStatus i .ready)
      else (.returned (-einval), k)

/-! ## Sessions -/

/-- `process_set_identity`, on the current process. -/
def processSetIdentity (uid : UInt32) (k : Kernel) : Kernel :=
  k.modifyProc k.current fun p => { p with uid := uid, euid := uid }

def processBecomeRoot (k : Kernel) : Kernel :=
  k.modifyProc k.current fun p => { p with euid := 0 }

/-- `session_login` and `session_autologin`; `verdict` is the answer of the checks after the one for
the session manager, 0 if they admit the user. -/
def sessionLogin (installed : Bool) (verdict : Int) (k : Kernel) : Outcome × Kernel :=
  let cur := k.procs k.current
  if installed = false ∨ cur.pid ≠ 1 ∨ cur.uid ≠ loginUid then (.returned (-eperm), k)
  else if verdict ≠ 0 then (.returned verdict, k)
  else (.returned 0, k.processSetIdentity sessionUid)

def sessionLogout (installed : Bool) (k : Kernel) : Outcome × Kernel :=
  let cur := k.procs k.current
  if installed = false ∨ cur.pid ≠ 1 ∨ cur.uid ≠ sessionUid then (.returned (-eperm), k)
  else (.returned 0, (k.terminateUidProcesses cur.uid cur.pid).processSetIdentity loginUid)

/-- `sys_sudo_auth`; `verdict` is the answer of the checks of a caller who is not root. -/
def sysSudoAuth (verdict : Int) (k : Kernel) : Outcome × Kernel :=
  if (k.procs k.current).euid = 0 ∨ verdict = 0 then (.returned 0, k.processBecomeRoot)
  else (.returned verdict, k)

/-! ## Exec -/

/-- The end of `exec_initrd_program`, with the program loaded behind the root `newP4`. -/
def execLoaded (newP4 : Nat) (entry stack : UInt64) (command : CString) (k : Kernel) : Kernel :=
  let proc := k.current
  let oldP4 := (k.procs proc).p4Table
  let k := { k with spaces := update k.spaces newP4 true }
  let k := k.modifyProc proc fun p => { p with
    fsBase := 0
    clearChildTid := 0
    command := command
    p4Table := newP4 }
  let k := (k.switchPageTable newP4).processReleaseAddressSpace oldP4 proc
  let k := (k.loadFsBase 0).processCompleteVfork proc
  { k with user := ⟨{ SyscallRegs.zero with rsp := stack }, entry, 0x202, true⟩ }

def execProgram (result : ExecResult) (k : Kernel) : Outcome × Kernel :=
  match result with
  | .refused error => (.returned (-error), k)
  | .failed newP4 error =>
      if newP4 = 0 then (.returned (-enomem), k)
      else
        (.returned (-error), { k with
          spaces := update k.spaces newP4 true }.vmmDestroyUserSpace newP4)
  | .loaded newP4 entry stack command =>
      if newP4 = 0 then (.returned (-enomem), k)
      else (.switched, k.execLoaded newP4 entry stack command)

end Kernel

/-! ## Steps -/

/-- What makes the kernel act on the process table: a system call of the current process, its end by
`exit`, a fault or a fatal signal, a timer interrupt, a login or logout. The calls that give up the
processor (`AOS_SYS_PROCESS_YIELD`, `sys_futex`, blocked reads and writes) are `schedule` with the
registers they have set. -/
inductive Op where
  | fork (regs : SyscallRegs) (copied : Nat)
  | clone (regs : SyscallRegs) (copied : Nat)
  | exec (regs : SyscallRegs) (result : ExecResult)
  | exit (exitCode : UInt64) (prepare : Prepare)
  | wait4 (regs : SyscallRegs) (prepare : Prepare)
  | kill (regs : SyscallRegs) (prepare : Prepare)
  | pause (regs : SyscallRegs)
  | resume (regs : SyscallRegs)
  | schedule (regs : SyscallRegs)
  | timer (frame : InterruptFrame) (thermal : Option Bool)
  | login (regs : SyscallRegs) (installed : Bool) (verdict : Int)
  | logout (regs : SyscallRegs) (installed : Bool)
  | sudoAuth (regs : SyscallRegs) (verdict : Int)

namespace Kernel

/-- The way back to user mode after a system call. -/
def finish (regs : SyscallRegs) (r : Outcome × Kernel) : Outcome × Kernel :=
  match r with
  | (.returned value, k) => (.returned value, k.sysret regs value)
  | r => r

/-- One kernel entry. Faults and signals leave the process with pid 1 in place; its own `exit` runs
the shell, which is an `exec`. -/
def step (op : Op) (k : Kernel) : Outcome × Kernel :=
  match op with
  | .fork regs copied => finish regs (k.sysFork regs copied)
  | .clone regs copied => finish regs (k.sysClone regs copied)
  | .exec regs result => finish regs (k.execProgram result)
  | .exit exitCode prepare =>
      if (k.procs k.current).pid = 1 then (.returned 0, k)
      else k.processExitAndWakeParent prepare exitCode
  | .wait4 regs prepare => finish regs (k.sysWait4 prepare regs)
  | .kill regs prepare => finish regs (k.sysProcessKill prepare regs)
  | .pause regs => finish regs (k.sysProcessPause regs)
  | .resume regs => finish regs (k.sysProcessResume regs)
  | .schedule regs =>
      match k.schedule regs with
      | (true, k) => (.switched, k)
      | (false, k) => (.returned (signed regs.rax), k.sysret regs (signed regs.rax))
  | .timer frame thermal => (.switched, k.timerHandler frame thermal)
  | .login regs installed verdict => finish regs (k.sessionLogin installed verdict)
  | .logout regs installed => finish regs (k.sessionLogout installed)
  | .sudoAuth regs verdict => finish regs (k.sysSudoAuth verdict)

end Kernel

end AosKernel.Proc
