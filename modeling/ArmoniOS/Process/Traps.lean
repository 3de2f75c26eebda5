import ArmoniOS.Process.UserVm

/-! The three ways from a process into the kernel and back: `syscall_dispatch`,
`irq_handler_frame` for an interrupt taken in user mode, and `handle_user_fault`. Each gets the
trap frame that the vectors saved and leaves there the frame they restore. -/
namespace Process
open Exec Pmm Vmm Function

def sysExitNumber : BitVec 64 := 1
def sysYieldNumber : BitVec 64 := 2
def sysGetpidNumber : BitVec 64 := 3
def sysSpawnNumber : BitVec 64 := 4
def sysWaitNumber : BitVec 64 := 6
def sysKillNumber : BitVec 64 := 7
def sysSpawnArgvNumber : BitVec 64 := 8
def sysMmapNumber : BitVec 64 := 20
def sysMunmapNumber : BitVec 64 := 21

def errNoent : ℤ := -3
def errAgain : ℤ := -11
def errPerm : ℤ := -13

def userKillExitCode : BitVec 64 := 0x80
def userFaultExitCode : BitVec 64 := 0xfffffffffffffff0
def spsrEl1hDaifMasked : BitVec 64 := 0x3c5

/-- What the loader finds and installs for a new process: the memory, page table, regions and entry
state after `load_image` and `init_panel_process`, and whether these and the argument vector are
in place. `pid` is the value of `g_next_spawn_pid`; `storage` are the pages that belong to no region
yet when loading fails. -/
structure Load where
  pid : ℕ
  mm : Memory
  storage : List ℕ
  pageTable : ℕ
  userRegions : List Region
  pc : BitVec 64
  sp : BitVec 64
  pstate : BitVec 64
  loaded : Bool
  placed : Bool
  argc : BitVec 64
  argvVaddr : BitVec 64

/-- What a trap handler learns from outside the process table: the return address of
`user_enter_el0`, the result of a call on files, windows, messages or statistics, an error that
ends a spawn before it reaches the loader, and the loader. -/
structure Outside where
  el0ReturnAddress : BitVec 64
  result : BitVec 64
  refused : Option ℤ
  resolved : Bool
  load : Load

def Frame.setX0 (frame : Frame) (value : BitVec 64) : Frame :=
  { frame with x := update frame.x 0 value }

/-- `none` is the status `-1`. -/
def appSpawnVfs (out : Outside) (k : Kernel) : Option ℕ × Kernel :=
  if ¬ out.resolved then (none, k)
  else
    let k := processReclaimZombies k
    let parentPid :=
      match k.current with
      | some parent => (k.procs parent).pid
      | none => 0
    match processAlloc k out.load.pid with
    | (none, k) => (none, k)
    | (some i, k) =>
        let p := { k.procs i with
          parentPid := parentPid, state := .blocked, pageTable := out.load.pageTable,
          userRegions := out.load.userRegions, pc := out.load.pc, sp := out.load.sp,
          pstate := out.load.pstate }
        let k := { k with mm := out.load.mm }.put i p
        if ¬ out.load.loaded then
          let k := processRelease k i
          let pmm := out.load.storage.foldl pmmFreePage k.mm.pmm
          (none, { k with mm := { k.mm with pmm := pmm } })
        else if ¬ out.load.placed then (none, processRelease k i)
        else
          let argv := out.load.argvVaddr
          let p :=
            if argv = 0 then
              { p with regs := update (update p.regs 0 0) 1 0 }
            else
              { p with
                sp := argv
                regs := update (update p.regs 0 out.load.argc) 1 argv }
          (some out.load.pid, k.put i { p with state := .ready })

def sysSpawn (out : Outside) (k : Kernel) : ℤ × Kernel :=
  match out.refused with
  | some err => (err, k)
  | none =>
      match appSpawnVfs out k with
      | (some pid, k) => (pid, k)
      | (none, k) => (errNoent, k)

def sysWait (k : Kernel) (current : Option (Fin 16)) (pid : BitVec 64) : ℤ × Kernel :=
  match current with
  | none => (errInval, k)
  | some i =>
      if pid = 0 ∨ 2 ^ 32 ≤ pid.toNat then (errInval, k)
      else
        match processFind k pid.toNat with
        | none => (errNoent, k)
        | some child =>
            if (k.procs child).parentPid ≠ (k.procs i).pid then (errPerm, k)
            else if (k.procs child).state ≠ .zombie then (errAgain, k)
            else
              match processWaitZombie k pid.toNat with
              | (none, k) => (errInval, k)
              | (some exitCode, k) => (exitCode.toInt, k)

def sysKill (k : Kernel) (pid : BitVec 64) : ℤ × Kernel :=
  if pid = 0 ∨ 2 ^ 32 ≤ pid.toNat then (errInval, k)
  else
    match processFind k pid.toNat with
    | none => (errNoent, k)
    | some _ =>
        match processKill k pid.toNat userKillExitCode with
        | (true, k) => (0, k)
        | (false, k) => (errInval, k)

def sysGetpid (k : Kernel) (current : Option (Fin 16)) : ℤ :=
  match current with
  | some i => (k.procs i).pid
  | none => errInval

def sysMmap (k : Kernel) (current : Option (Fin 16)) (hint size flags : BitVec 64) : ℤ × Kernel :=
  match current with
  | some i => userVmMapAnonymous k i hint.toNat size.toNat flags
  | none => (errInval, k)

def sysMunmap (k : Kernel) (current : Option (Fin 16)) (addr size : BitVec 64) : ℤ × Kernel :=
  match current with
  | some i => userVmUnmapAnonymous k i addr.toNat size.toNat
  | none => (errInval, k)

/-- The calls that are not about processes or their memory leave the process table alone. -/
def syscallCall (out : Outside) (k : Kernel) (current : Option (Fin 16)) (x : Fin 31 → BitVec 64) :
    BitVec 64 × Kernel :=
  let reply (r : ℤ × Kernel) : BitVec 64 × Kernel := (BitVec.ofInt 64 r.1, r.2)
  let number := x 8
  if number = sysGetpidNumber then reply (sysGetpid k current, k)
  else if number = sysSpawnNumber then reply (sysSpawn out k)
  else if number = sysSpawnArgvNumber then reply (sysSpawn out k)
  else if number = sysWaitNumber then reply (sysWait k current (x 0))
  else if number = sysKillNumber then reply (sysKill k (x 0))
  else if number = sysMmapNumber then reply (sysMmap k current (x 0) (x 1) (x 2))
  else if number = sysMunmapNumber then reply (sysMunmap k current (x 0) (x 1))
  else (out.result, k)

/-- The frame that returns to the kernel when no process is left to run. -/
def leaveFrame (out : Outside) (frame : Frame) (code : BitVec 64) : Frame :=
  { frame.setX0 code with elr := out.el0ReturnAddress, spsr := spsrEl1hDaifMasked }

/-- The end of `sys_exit` and `handle_user_fault`: another process, or back to the kernel. -/
def exitCurrent (out : Outside) (k : Kernel) (frame : Frame) (code : BitVec 64) : Frame × Kernel :=
  let current := k.current
  let k :=
    match current with
    | some i => processMarkExited k i code
    | none => k
  match processDispatchNext k current .exit with
  | some result => result
  | none => (leaveFrame out frame code, k)

/-- The first component is `none` when the caller keeps the processor. -/
def sysYieldProcess (k : Kernel) : Option Frame × Kernel :=
  match k.current with
  | none => (none, k)
  | some i =>
      let k := k.put i { k.procs i with regs := update (k.procs i).regs 0 0 }
      match processDispatchNext k (some i) .preempt with
      | some (frame, k) => (some frame, k)
      | none => (none, k)

def saveCurrent (k : Kernel) (frame : Frame) : Kernel :=
  match k.current with
  | some i => k.put i (processSaveContext (k.procs i) frame)
  | none => k

def syscallBody (out : Outside) (k : Kernel) (current : Option (Fin 16)) (frame : Frame) :
    Frame × Kernel :=
  if frame.x 8 = sysExitNumber then exitCurrent out k frame (frame.x 0)
  else if frame.x 8 = sysYieldNumber then
    match sysYieldProcess k with
    | (some frame, k) => (frame, k)
    | (none, k) => (frame.setX0 0, k)
  else
    let (result, k) := syscallCall out k current frame.x
    (frame.setX0 result, k)

/-- The process that is current after the call gets back `x0`, `elr`, `spsr` and `sp_el0`. -/
def writeBack (k : Kernel) (frame : Frame) : Kernel :=
  match k.current with
  | some i =>
      k.put i { k.procs i with
        regs := update (k.procs i).regs 0 (frame.x 0)
        pc := frame.elr, pstate := frame.spsr, sp := frame.spEl0 }
  | none => k

def syscallDispatch (out : Outside) (k : Kernel) (frame : Frame) : Frame × Kernel :=
  let (frame, k) := syscallBody out (saveCurrent k frame) k.current frame
  (frame, writeBack k frame)

/-- An interrupt in user mode; the device handlers and the deferred work leave the process table
alone. -/
def irqHandlerFrame (k : Kernel) (frame : Frame) (spurious : Bool) : Frame × Kernel :=
  let current := k.current
  let k := saveCurrent k frame
  if spurious then (frame, k)
  else
    match current with
    | none => (frame, k)
    | some i =>
        let k := k.put i { k.procs i with
          pc := frame.elr, pstate := frame.spsr, sp := frame.spEl0 }
        match processDispatchNext k current .preempt with
        | some result => result
        | none => (frame, k)

/-- Without a current process the kernel halts in `exception_handler`; the state stays as it is. -/
def handleUserFault (out : Outside) (k : Kernel) (frame : Frame) : Frame × Kernel :=
  match k.current with
  | none => (frame, k)
  | some _ => exitCurrent out (saveCurrent k frame) frame userFaultExitCode

end Process
