import ArmoniOS.Lib.DoublyLinked
import ArmoniOS.Mm.Pmm

/-! The kernel heap of `kernel/mm/kheap.c`: arenas of whole pages, cut into blocks that start with
a header and are kept in one doubly linked list. A header is the node at its own address. -/
namespace Kheap
open DoublyLinked Pmm

def kheapAlign : ℕ := 16
def kheapMinSplit : ℕ := 32
def kheapMagic : ℕ := 0x4B484541504F4B21
/-- `sizeof(heap_block_t)`: six 64-bit fields. -/
def sizeofHeapBlock : ℕ := 48

/-- The fields of `heap_block_t` but for the links. -/
structure Header where
  magic : ℕ
  size : ℕ
  free : Bool
  arenaId : ℕ
deriving DecidableEq

abbrev PageRange := ℕ × ℕ

def PageRange.bytes (r : PageRange) : Set ℕ := Set.Ico r.1 (r.1 + r.2 * pageSize)

/-- The page allocator as the heap sees it, with the ranges granted to the heap so far. A new range
is page-aligned, below `2 ^ 64` and apart from those granted before; address `0` is a failure. -/
structure PageSource (σ : Type) where
  alloc : σ → ℕ → ℕ × σ
  granted : σ → List PageRange
  granted_alloc : ∀ s count, granted (alloc s count).2 =
    if (alloc s count).1 = 0 then granted s else granted s ++ [((alloc s count).1, count)]
  aligned : ∀ s count, pageSize ∣ (alloc s count).1
  fits : ∀ s count, (alloc s count).1 ≠ 0 → (alloc s count).1 + count * pageSize ≤ 2 ^ 64
  fresh : ∀ s count, (alloc s count).1 ≠ 0 → ∀ r ∈ granted s,
    Disjoint (PageRange.bytes ((alloc s count).1, count)) r.bytes

structure Heap (σ : Type) where
  blocks : Store Header
  totalBytes : ℕ
  nextArenaId : ℕ
  pages : σ

def alignUp (value : ℕ) : ℕ := (value + kheapAlign - 1) % 2 ^ 64 / kheapAlign * kheapAlign

def headerSize : ℕ := alignUp sizeofHeapBlock

/-- `0` when the byte count does not fit 64 bits. -/
def pageCountForPayload (payloadSize : ℕ) : ℕ :=
  if u64Max - headerSize < payloadSize then 0
  else
    let needed := headerSize + payloadSize
    if u64Max - (pageSize - 1) < needed then 0 else (needed + pageSize - 1) / pageSize

def blockPayloadCapacity (pageCount : ℕ) : ℕ := pageCount * pageSize - headerSize

section Blocks
variable (s : Store Header)

def BlocksAreAdjacent (left right : ℕ) : Prop := left + headerSize + (s.mem left).val.size = right
deriving Decidable

def BlocksCanCoalesce (left right : ℕ) : Prop :=
  left ≠ 0 ∧ right ≠ 0 ∧ (s.mem right).val.free = true ∧
    (s.mem left).val.arenaId = (s.mem right).val.arenaId ∧ BlocksAreAdjacent s left right
deriving Decidable

def splitBlock (block size : ℕ) : Store Header :=
  let b := (s.mem block).val
  if b.size < (size + headerSize + kheapMinSplit) % 2 ^ 64 then s
  else
    (s.insertAfter block (block + headerSize + size)
      ⟨kheapMagic, b.size - size - headerSize, true, b.arenaId⟩).modify block
        fun b => { b with size := size }

def coalesceNext (block : ℕ) : Store Header :=
  let next := (s.mem block).next
  if BlocksCanCoalesce s block next then
    (s.modify block fun b => { b with size := b.size + (headerSize + (s.mem next).val.size) }
      ).removeAfter block
  else s

/-- The search loop of `kmalloc`: the first free block that is large enough, or `0`. The fuel
bounds the length of the list. -/
def firstFit (size : ℕ) : ℕ → ℕ → ℕ
  | 0, _ => 0
  | fuel + 1, block =>
      if block = 0 then 0
      else if (s.mem block).val.free = true ∧ size ≤ (s.mem block).val.size then block
      else firstFit size fuel (s.mem block).next

/-- The loop of `kheap_free_bytes`. -/
def sumFree : ℕ → ℕ → ℕ
  | 0, _ => 0
  | fuel + 1, block =>
      if block = 0 then 0
      else (if (s.mem block).val.free = true then (s.mem block).val.size else 0) +
        sumFree fuel (s.mem block).next

/-- `split_block` and the header write that end a successful `kmalloc`. -/
def takeBlock (block size : ℕ) : Store Header :=
  (splitBlock s block size).modify block fun b => { b with free := false }

/-- The part of `kfree` behind its checks. -/
def releaseBlock (block : ℕ) : Store Header :=
  let s := coalesceNext (s.modify block fun b => { b with free := true }) block
  let prev := (s.mem block).prev
  if prev ≠ 0 ∧ (s.mem prev).val.free = true then coalesceNext s prev else s

end Blocks

section Heap
variable {σ : Type} (source : PageSource σ)

/-- The new block, or `0`. -/
def extendHeap (h : Heap σ) (minPayloadSize : ℕ) : ℕ × Heap σ :=
  let pages := pageCountForPayload minPayloadSize
  if pages = 0 then (0, h)
  else
    let (addr, rest) := source.alloc h.pages pages
    if addr = 0 then (0, { h with pages := rest })
    else
      let size := blockPayloadCapacity pages
      (addr,
        { blocks := h.blocks.append addr ⟨kheapMagic, size, true, h.nextArenaId⟩
          totalBytes := h.totalBytes + size
          nextArenaId := h.nextArenaId + 1
          pages := rest })

def kheapInit (h : Heap σ) : Heap σ :=
  if h.blocks.head ≠ 0 then h else (extendHeap source { h with nextArenaId := 1 } 1).2

/-- The payload address, or `0`. -/
def kmalloc (h : Heap σ) (size : ℕ) : ℕ × Heap σ :=
  if size = 0 ∨ u64Max - (kheapAlign - 1) < size then (0, h)
  else
    let aligned := alignUp size
    let h := if h.blocks.head = 0 then kheapInit source h else h
    let block := firstFit h.blocks aligned (2 ^ 64) h.blocks.head
    if block ≠ 0 then
      (block + headerSize, { h with blocks := takeBlock h.blocks block aligned })
    else
      let (block, h) := extendHeap source h aligned
      if block = 0 then (0, h)
      else (block + headerSize, { h with blocks := takeBlock h.blocks block aligned })

def kfree (h : Heap σ) (ptr : ℕ) : Heap σ :=
  if ptr = 0 then h
  else
    let block := ptr - headerSize
    if (h.blocks.mem block).val.magic ≠ kheapMagic then h
    else if (h.blocks.mem block).val.free = true then h
    else { h with blocks := releaseBlock h.blocks block }

def kheapFreeBytes (h : Heap σ) : ℕ := sumFree h.blocks (2 ^ 64) h.blocks.head

end Heap

end Kheap
