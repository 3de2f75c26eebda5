import ArmoniOS.Lib.Exec
import ArmoniOS.Mm.Pmm

/-! The page-table manager of `kernel/mm/vmm.c`: four levels of tables of 512 descriptors in pages
taken from the physical allocator. Virtual and physical addresses are numbers below `2 ^ 64`. -/
namespace Vmm
open Exec Pmm

def descValid : BitVec 64 := 1#64 <<< 0
def descTable : BitVec 64 := 1#64 <<< 1
def descPage : BitVec 64 := 1#64 <<< 1
def descAf : BitVec 64 := 1#64 <<< 10
def descShInner : BitVec 64 := 3#64 <<< 8
def descApRo : BitVec 64 := 1#64 <<< 7
def descApUser : BitVec 64 := 1#64 <<< 6
def descUxn : BitVec 64 := 1#64 <<< 54
def descPxn : BitVec 64 := 1#64 <<< 53
def descAttrNormal : BitVec 64 := 0#64 <<< 2
def descAttrDevice : BitVec 64 := 1#64 <<< 2
def descAddrMask : BitVec 64 := 0x0000fffffffff000#64

def flagWrite : BitVec 64 := 1#64 <<< 1
def flagExec : BitVec 64 := 1#64 <<< 2
def flagDevice : BitVec 64 := 1#64 <<< 3
def flagUser : BitVec 64 := 1#64 <<< 4

/-- The descriptors in every page, read as a table, and the page allocator. -/
structure Memory where
  mem : ℕ → Fin 512 → BitVec 64
  pmm : State

def Memory.write (s : Memory) (table : ℕ) (index : Fin 512) (entry : BitVec 64) : Memory :=
  { s with mem := Function.update s.mem table (Function.update (s.mem table) index entry) }

def tableIndex (vaddr level : ℕ) : Fin 512 := Fin.ofNat 512 (vaddr / 2 ^ (39 - level * 9))

def addrOf (entry : BitVec 64) : ℕ := (entry &&& descAddrMask).toNat

/-- The byte span in whole pages, or a failure when it does not fit 64 bits. -/
def pageSpan (offset size : ℕ) : Option ℕ :=
  if size = 0 ∨ pageSize ≤ offset then none
  else if u64Max - offset < size then none
  else
    let stop := offset + size
    if stop % pageSize ≠ 0 ∧ u64Max - (pageSize - 1) < stop then none else some (alignUp stop)

def vmmNewTable : Run Memory ℕ := do
  let s ← get
  let paddr := (pmmAllocPage s.pmm).1
  modify fun s => { s with pmm := (pmmAllocPage s.pmm).2 }
  if paddr = 0 then fail
  else do
    modify fun s => { s with mem := Function.update s.mem paddr fun _ => 0 }
    pure paddr

/-- `left` is the number of levels below the table: `3 - level`. -/
def freeTableLevel : ℕ → ℕ → Memory → Memory
  | 0, table, s => if table = 0 then s else { s with pmm := pmmFreePage s.pmm table }
  | left + 1, table, s =>
      if table = 0 then s
      else
        let s := (List.finRange 512).foldl (fun s i =>
          let entry := s.mem table i
          if entry &&& descValid ≠ 0 ∧ entry &&& descTable ≠ 0 then
            freeTableLevel left (addrOf entry) s
          else s) s
        { s with pmm := pmmFreePage s.pmm table }

def vmmFreeTable (pgd : ℕ) (s : Memory) : Memory := freeTableLevel 3 pgd s

def nextTable (table : ℕ) (index : Fin 512) : Run Memory ℕ := do
  let s ← get
  let entry := s.mem table index
  if entry &&& descValid ≠ 0 then
    if entry &&& descTable = 0 ∨ addrOf entry = 0 then fail else pure (addrOf entry)
  else do
    let child ← vmmNewTable
    modify fun s => s.write table index
      ((BitVec.ofNat 64 child &&& descAddrMask) ||| descValid ||| descTable)
    pure child

def pageDescriptor (paddr : ℕ) (flags : BitVec 64) : BitVec 64 :=
  let d := (BitVec.ofNat 64 paddr &&& descAddrMask) ||| descValid ||| descPage ||| descAf
  let d :=
    if flags &&& flagDevice ≠ 0 then d ||| (descAttrDevice ||| descUxn ||| descPxn)
    else d ||| (descAttrNormal ||| descShInner)
  let d := if flags &&& flagWrite = 0 then d ||| descApRo else d
  let d := if flags &&& flagUser ≠ 0 then d ||| descApUser else d
  if flags &&& flagExec = 0 then d ||| (descUxn ||| descPxn)
  else if flags &&& flagUser ≠ 0 then d ||| descPxn
  else d ||| descUxn

/-- The three `next_table` calls of `vmm_map_page`. -/
def levelThree (pgd vaddr : ℕ) : Run Memory ℕ := do
  let level1 ← nextTable pgd (tableIndex vaddr 0)
  let level2 ← nextTable level1 (tableIndex vaddr 1)
  nextTable level2 (tableIndex vaddr 2)

def vmmMapPage (pgd vaddr paddr : ℕ) (flags : BitVec 64) : Run Memory Unit :=
  if pgd = 0 ∨ vaddr % pageSize ≠ 0 ∨ paddr % pageSize ≠ 0 then fail
  else do
    let level3 ← levelThree pgd vaddr
    let s ← get
    if s.mem level3 (tableIndex vaddr 3) &&& descValid ≠ 0 then fail
    else modify fun s => s.write level3 (tableIndex vaddr 3) (pageDescriptor paddr flags)

/-- The loop of `leaf_table` over the levels, `0` when a level is missing. -/
def walk (mem : ℕ → Fin 512 → BitVec 64) (vaddr : ℕ) : List ℕ → ℕ → ℕ
  | [], table => table
  | level :: levels, table =>
      let entry := mem table (tableIndex vaddr level)
      if entry &&& descValid = 0 ∨ entry &&& descTable = 0 then 0
      else walk mem vaddr levels (addrOf entry)

def leafTable (mem : ℕ → Fin 512 → BitVec 64) (pgd vaddr : ℕ) : ℕ :=
  if pgd = 0 then 0 else walk mem vaddr [0, 1, 2] pgd

def vmmUnmapPage (pgd vaddr : ℕ) : Run Memory Unit := do
  let s ← get
  if pgd = 0 ∨ vaddr % pageSize ≠ 0 then fail
  else
    let level3 := leafTable s.mem pgd vaddr
    if level3 = 0 then fail
    else if s.mem level3 (tableIndex vaddr 3) &&& descValid = 0 then fail
    else modify fun s => s.write level3 (tableIndex vaddr 3) 0

/-- The mapping loop, with `left` pages to go and `mapped` bytes done. A failure unmaps the pages
done so far and ignores whether that succeeds. -/
def mapPages (pgd vaddr paddr : ℕ) (flags : BitVec 64) : ℕ → ℕ → Run Memory Unit
  | 0, _ => pure ()
  | left + 1, mapped => do
      match ← attempt (vmmMapPage pgd (vaddr + mapped) (paddr + mapped) flags) with
      | some _ => mapPages pgd vaddr paddr flags left (mapped + pageSize)
      | none => do
          forEach (fun page => do
            let _ ← attempt (vmmUnmapPage pgd (vaddr + page * pageSize)))
            (List.range (mapped / pageSize))
          fail

def vmmMapRange (pgd vaddr paddr size : ℕ) (flags : BitVec 64) : Run Memory Unit :=
  if pgd = 0 ∨ vaddr % pageSize ≠ paddr % pageSize then fail
  else if size = 0 then pure ()
  else
    let alignedVaddr := alignDown vaddr
    let alignedPaddr := alignDown paddr
    match pageSpan (vaddr - alignedVaddr) size with
    | none => fail
    | some stop =>
        if u64Max - stop < alignedVaddr ∨ u64Max - stop < alignedPaddr then fail
        else mapPages pgd alignedVaddr alignedPaddr flags (stop / pageSize) 0

def vmmUnmapRange (pgd vaddr size : ℕ) : Run Memory Unit :=
  if pgd = 0 then fail
  else if size = 0 then pure ()
  else
    let alignedVaddr := alignDown vaddr
    match pageSpan (vaddr - alignedVaddr) size with
    | none => fail
    | some stop =>
        if u64Max - stop < alignedVaddr then fail
        else
          forEach (fun page => vmmUnmapPage pgd (alignedVaddr + page * pageSize))
            (List.range (stop / pageSize))

def vmmLeafEntry (s : Memory) (pgd vaddr : ℕ) : BitVec 64 :=
  let table := leafTable s.mem pgd vaddr
  if table = 0 then 0 else s.mem table (tableIndex vaddr 3)

def vmmVirtToPhys (s : Memory) (pgd vaddr : ℕ) : ℕ :=
  let entry := vmmLeafEntry s pgd vaddr
  if entry &&& descValid = 0 ∨ entry &&& descPage = 0 then 0
  else ((entry &&& descAddrMask) ||| BitVec.ofNat 64 (vaddr % pageSize)).toNat

end Vmm
