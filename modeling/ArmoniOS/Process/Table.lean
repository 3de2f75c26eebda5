import ArmoniOS.Mm.Vmm

/-! The process table of `kernel/process.c`: sixteen control blocks, the current process, saved
contexts, the life of a slot from `process_alloc` to `process_release`, and the user regions with
the physical pages behind them. Addresses and sizes are numbers below `2 ^ 64`. -/
namespace Process
open Pmm Vmm List

instance neZero16 : NeZero 16 := ⟨by decide⟩
instance neZero31 : NeZero 31 := ⟨by decide⟩

def maxUserRegions : ℕ := 8
def userMmapBase : ℕ := 0x100000000
def userMmapLimit : ℕ := 0x200000000

/-- `PROCESS_USER_REGION_OWNED_PAGES`. -/
def ownedFlag : BitVec 64 := 1#64 <<< 0

inductive ProcessState where
  | unused | ready | running | blocked | zombie
  deriving DecidableEq

inductive DispatchPolicy where
  | exit | preempt
  deriving DecidableEq

/-- The half-open range `[start, stop)`. -/
structure Region where
  start : ℕ
  stop : ℕ
  paddr : ℕ
  flags : BitVec 64
  deriving DecidableEq

/-- `exception_frame_t`. -/
structure Frame where
  x : Fin 31 → BitVec 64
  elr : BitVec 64
  spsr : BitVec 64
  spEl0 : BitVec 64
  deriving DecidableEq

/-- `process_t`; the list holds the first `user_region_count` regions. -/
structure Pcb where
  pid : ℕ
  parentPid : ℕ
  regs : Fin 31 → BitVec 64
  sp : BitVec 64
  pc : BitVec 64
  pstate : BitVec 64
  pageTable : ℕ
  state : ProcessState
  exitCode : BitVec 64
  nextUserVaddr : ℕ
  userRegions : List Region
  deriving DecidableEq

/-- The statics of the process table over the memory they refer to. The two logs are not in the
source: they record the pages that are taken from the page allocator for user regions and those
that are given back. -/
structure Kernel where
  procs : Fin 16 → Pcb
  current : Option (Fin 16)
  count : ℕ
  mm : Memory
  taken : List ℕ
  returned : List ℕ

def Kernel.put (k : Kernel) (i : Fin 16) (p : Pcb) : Kernel :=
  { k with procs := Function.update k.procs i p }

/-- The addresses the loop `for (off = 0; off < size; off += PAGE_SIZE)` visits. -/
def pagesFrom (paddr size : ℕ) : List ℕ :=
  (range ((size + pageSize - 1) / pageSize)).map fun n => paddr + n * pageSize

def Kernel.freePages (k : Kernel) (pages : List ℕ) : Kernel :=
  { k with
    mm := { k.mm with pmm := pages.foldl pmmFreePage k.mm.pmm }
    returned := k.returned ++ pages }

def Region.Owned (r : Region) : Prop := r.flags &&& ownedFlag ≠ 0 ∧ r.paddr ≠ 0
deriving Decidable

/-- The pages `process_free_resources` frees for one region. -/
def Region.ownedPages (r : Region) : List ℕ :=
  if r.Owned ∧ r.start < r.stop then pagesFrom r.paddr (r.stop - r.start) else []

def Region.disown (r : Region) : Region :=
  if r.Owned then { r with flags := r.flags &&& ~~~ ownedFlag, paddr := 0 } else r

def Pcb.ownedPages (p : Pcb) : List ℕ := p.userRegions.flatMap Region.ownedPages

def Pcb.disown (p : Pcb) : Pcb := { p with userRegions := p.userRegions.map Region.disown }

def processFreeResources (k : Kernel) (i : Fin 16) : Kernel :=
  let p := k.procs i
  let k := (k.freePages p.ownedPages).put i p.disown
  if p.pageTable ≠ 0 then
    { k with mm := vmmFreeTable p.pageTable k.mm }.put i { p.disown with pageTable := 0 }
  else k

def processInit (pid : ℕ) : Pcb where
  pid := pid
  parentPid := 0
  regs _ := 0
  sp := 0
  pc := 0
  pstate := 0
  pageTable := 0
  state := .ready
  exitCode := 0
  nextUserVaddr := userMmapBase
  userRegions := []

def unusedSlot : Pcb := { processInit 0 with state := .unused }

def processTableInit (mm : Memory) : Kernel := ⟨fun _ => unusedSlot, none, 0, mm, [], []⟩

def processFind (k : Kernel) (pid : ℕ) : Option (Fin 16) :=
  if pid = 0 then none
  else (finRange 16).find? fun i =>
    (k.procs i).state ≠ .unused ∧ (k.procs i).pid = pid

def processAlloc (k : Kernel) (pid : ℕ) : Option (Fin 16) × Kernel :=
  if pid = 0 ∨ (processFind k pid).isSome then (none, k)
  else
    match (finRange 16).find? fun i => (k.procs i).state = .unused with
    | some i => (some i, { k.put i (processInit pid) with count := k.count + 1 })
    | none => (none, k)

def Kernel.clearCurrent (k : Kernel) (i : Fin 16) : Kernel :=
  if k.current = some i then { k with current := none } else k

def processRelease (k : Kernel) (i : Fin 16) : Kernel :=
  let p := k.procs i
  if p.state = .unused ∧ p.pageTable = 0 ∧ p.userRegions = [] then k
  else
    let k := (processFreeResources (k.clearCurrent i) i).put i unusedSlot
    if p.state ≠ .unused ∧ 0 < k.count then { k with count := k.count - 1 } else k

/-- The search starts behind `after` and wraps around; `after` itself comes last and is left out. -/
def processNextRunnable (k : Kernel) (after : Option (Fin 16)) : Option (Fin 16) :=
  let order : List (Fin 16) :=
    match after with
    | some i => (range 15).map fun offset => Fin.ofNat 16 (i + 1 + offset)
    | none => (range 16).map fun offset => Fin.ofNat 16 offset
  order.find? fun i => (k.procs i).state = .ready

def processSaveContext (p : Pcb) (frame : Frame) : Pcb :=
  { p with regs := frame.x, pc := frame.elr, pstate := frame.spsr, sp := frame.spEl0 }

def processLoadContext (p : Pcb) : Frame := ⟨p.regs, p.pc, p.pstate, p.sp⟩

def requeue (k : Kernel) (current : Option (Fin 16)) (policy : DispatchPolicy) : Kernel :=
  match current with
  | some i =>
      if policy = .preempt ∧ (k.procs i).state = .running then
        k.put i { k.procs i with state := .ready }
      else k
  | none => k

/-- `none` is the result `0`, with nothing changed. -/
def processDispatchNext (k : Kernel) (current : Option (Fin 16)) (policy : DispatchPolicy) :
    Option (Frame × Kernel) :=
  if current = none ∧ policy = .preempt then none
  else
    match processNextRunnable k current with
    | none => none
    | some next =>
        let k := requeue k current policy
        let k := k.put next { k.procs next with state := .running }
        some (processLoadContext (k.procs next), { k with current := some next })

/-- The windows and files of the process, which are closed as well, are not part of this state. -/
def processMarkExited (k : Kernel) (i : Fin 16) (exitCode : BitVec 64) : Kernel :=
  if (k.procs i).state = .zombie then k
  else k.put i { k.procs i with exitCode := exitCode, state := .zombie }

def processWaitZombie (k : Kernel) (pid : ℕ) : Option (BitVec 64) × Kernel :=
  match processFind k pid with
  | none => (none, k)
  | some i =>
      if k.current = some i ∨ (k.procs i).state ≠ .zombie then (none, k)
      else (some (k.procs i).exitCode, processRelease k i)

/-- `true` is the result `0`. -/
def processKill (k : Kernel) (pid : ℕ) (exitCode : BitVec 64) : Bool × Kernel :=
  match processFind k pid with
  | none => (false, k)
  | some i =>
      if k.current = some i ∨ (k.procs i).state = .zombie then (false, k)
      else (true, processMarkExited k i exitCode)

def parentAlive (k : Kernel) (p : Pcb) : Bool :=
  match processFind k p.parentPid with
  | none => false
  | some j => (k.procs j).state ≠ .unused ∧ (k.procs j).state ≠ .zombie

/-- One pass of the loop of `process_reclaim_zombies`. -/
def reclaimSlot (k : Kernel) (i : Fin 16) : Kernel :=
  if (k.procs i).state ≠ .zombie ∨ parentAlive k (k.procs i) then k else processRelease k i

def processReclaimZombies (k : Kernel) : Kernel := (finRange 16).foldl reclaimSlot k

def userRegionEnd (start size : ℕ) : Option ℕ :=
  if size = 0 ∨ u64Max - size < start then none else some (start + size)

def processAddUserRegion (p : Pcb) (start size : ℕ) : Option Pcb :=
  if maxUserRegions ≤ p.userRegions.length then none
  else
    match userRegionEnd start size with
    | none => none
    | some stop =>
        if p.userRegions.any fun r => start < r.stop ∧ r.start < stop then none
        else some { p with userRegions := p.userRegions ++ [⟨start, stop, 0, 0⟩] }

/-- The sum wraps at `2 ^ 64`. -/
def regionAlignUp (value : ℕ) : ℕ := (value + 4095) % 2 ^ 64 / 4096 * 4096

/-- The address of the new region, behind all regions given out so far. -/
def processAllocUserRegion (p : Pcb) (size : ℕ) : Option (ℕ × Pcb) :=
  let alignedSize := regionAlignUp size
  let start := regionAlignUp p.nextUserVaddr
  if size = 0 ∨ alignedSize < size ∨ start < p.nextUserVaddr then none
  else
    match userRegionEnd start alignedSize with
    | none => none
    | some stop =>
        if userMmapLimit < stop then none
        else
          match processAddUserRegion p start alignedSize with
          | none => none
          | some p => some (start, { p with nextUserVaddr := stop })

def Region.spans (start stop : ℕ) (r : Region) : Bool := r.start = start ∧ r.stop = stop

def setMapping (start stop paddr : ℕ) (flags : BitVec 64) : List Region → Option (List Region)
  | [] => none
  | r :: regions =>
      if r.spans start stop then some ({ r with paddr := paddr, flags := flags } :: regions)
      else (setMapping start stop paddr flags regions).map (r :: ·)

def processSetUserRegionMapping (p : Pcb) (start size paddr : ℕ) (flags : BitVec 64) :
    Option Pcb :=
  match userRegionEnd start size with
  | none => none
  | some stop => (setMapping start stop paddr flags p.userRegions).map fun regions =>
      { p with userRegions := regions }

def processFindUserRegion (p : Pcb) (start size : ℕ) : Option Region :=
  match userRegionEnd start size with
  | none => none
  | some stop => p.userRegions.find? (·.spans start stop)

def processRemoveUserRegion (p : Pcb) (start size : ℕ) : Option Pcb :=
  match userRegionEnd start size with
  | none => none
  | some stop =>
      if p.userRegions.any (·.spans start stop) then
        some { p with userRegions := p.userRegions.eraseP (·.spans start stop) }
      else none

end Process
