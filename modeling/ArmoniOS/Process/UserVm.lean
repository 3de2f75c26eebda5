import ArmoniOS.Process.Table

/-! Anonymous user memory of `kernel/user_vm.c`: `mmap` takes a region, physical pages and page-table
entries and undoes what it did when a later part fails; `munmap` gives all three back. -/
namespace Process
open Exec Pmm Vmm

def protRead : BitVec 64 := 0x01
def protWrite : BitVec 64 := 0x02
def protExec : BitVec 64 := 0x04
def supportedFlags : BitVec 64 := protRead ||| protWrite ||| protExec

/-- `VMM_FLAG_READ`, which the page-table manager does not look at. -/
def flagRead : BitVec 64 := 1#64 <<< 0

def errNomem : ℤ := -2
def errInval : ℤ := -7

def pageAlignUp (value : ℕ) : ℕ :=
  if value = 0 ∨ u64Max - (pageSize - 1) < value then 0
  else (value + pageSize - 1) / pageSize * pageSize

def flagsToVmm (flags : BitVec 64) : Option (BitVec 64) :=
  if flags &&& ~~~ supportedFlags ≠ 0 then none
  else
    let flags := if flags = 0 then protRead ||| protWrite else flags
    if flags &&& protWrite ≠ 0 ∧ flags &&& protExec ≠ 0 then none
    else
      let result :=
        if flags &&& protWrite ≠ 0 then flagUser ||| (flagRead ||| flagWrite)
        else if flags &&& protRead ≠ 0 then flagUser ||| flagRead
        else flagUser
      some (if flags &&& protExec ≠ 0 then result ||| flagExec else result)

/-- `pmm_alloc_pages` for a user region of `size` bytes. -/
def Kernel.allocPages (k : Kernel) (size : ℕ) : ℕ × Kernel :=
  let paddr := (pmmAllocPages k.mm.pmm (size / pageSize)).1
  let k := { k with mm := { k.mm with pmm := (pmmAllocPages k.mm.pmm (size / pageSize)).2 } }
  (paddr, if paddr = 0 then k else { k with taken := k.taken ++ pagesFrom paddr size })

def zeroPages (mm : Memory) (pages : List ℕ) : Memory :=
  { mm with mem := pages.foldl (fun mem page => Function.update mem page fun _ => 0) mm.mem }

def removeRegion (k : Kernel) (i : Fin 16) (addr size : ℕ) : Kernel :=
  k.put i ((processRemoveUserRegion (k.procs i) addr size).getD (k.procs i))

/-- The last three steps of a failed `mmap`. -/
def undoMap (k : Kernel) (i : Fin 16) (addr size paddr : ℕ) : Kernel :=
  let k := { k with mm := (vmmUnmapRange (k.procs i).pageTable addr size k.mm).2 }
  (removeRegion k i addr size).freePages (pagesFrom paddr size)

/-- `mmap` once the process has its new region. -/
def mapNewRegion (k : Kernel) (i : Fin 16) (addr size : ℕ) (vmmFlags : BitVec 64) : ℤ × Kernel :=
  let (paddr, k) := k.allocPages size
  if paddr = 0 then (errNomem, removeRegion k i addr size)
  else
    let mm := zeroPages k.mm (pagesFrom paddr size)
    let mapped := vmmMapRange (k.procs i).pageTable addr paddr size vmmFlags mm
    let k := { k with mm := mapped.2 }
    if mapped.1 = none then (errNomem, undoMap k i addr size paddr)
    else
      match processSetUserRegionMapping (k.procs i) addr size paddr ownedFlag with
      | none => (errInval, undoMap k i addr size paddr)
      | some p => (addr, k.put i p)

def userVmMapAnonymous (k : Kernel) (i : Fin 16) (hint size : ℕ) (flags : BitVec 64) :
    ℤ × Kernel :=
  let alignedSize := pageAlignUp size
  if (k.procs i).pageTable = 0 ∨ hint ≠ 0 ∨ alignedSize = 0 then (errInval, k)
  else
    match flagsToVmm flags, processAllocUserRegion (k.procs i) alignedSize with
    | some vmmFlags, some (addr, p) => mapNewRegion (k.put i p) i addr alignedSize vmmFlags
    | _, _ => (errInval, k)

def userVmUnmapAnonymous (k : Kernel) (i : Fin 16) (addr size : ℕ) : ℤ × Kernel :=
  let p := k.procs i
  let alignedSize := pageAlignUp size
  if p.pageTable = 0 ∨ alignedSize = 0 then (errInval, k)
  else
    match processFindUserRegion p addr alignedSize with
    | none => (errInval, k)
    | some region =>
        if ¬ region.Owned then (errInval, k)
        else
          let unmapped := vmmUnmapRange p.pageTable addr alignedSize k.mm
          let k := { k with mm := unmapped.2 }
          if unmapped.1 = none then (errInval, k)
          else
            match processRemoveUserRegion p addr alignedSize with
            | none => (errInval, k)
            | some p => (0, (k.put i p).freePages (pagesFrom region.paddr alignedSize))

end Process
