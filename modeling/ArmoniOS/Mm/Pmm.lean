import Mathlib
import ArmoniOS.Lib.RunSearch

/-! The physical page allocator of `kernel/mm/pmm.c`: one bitmap over the managed pages, a set bit
for a used page, and a counter of the free ones. Addresses are natural numbers below `2 ^ 64`. -/
namespace Pmm
open RunSearch List

def pageSize : ℕ := 4096
def maxMemory : ℕ := 128 * 1024 * 1024
def maxPages : ℕ := maxMemory / pageSize
def bitsPerWord : ℕ := 64
def u64Max : ℕ := 2 ^ 64 - 1

/-- The static variables `g_bitmap`, `g_mem_base`, `g_total_pages` and `g_free_pages`. -/
structure State where
  bitmap : ℕ → BitVec 64
  memBase : ℕ
  totalPages : ℕ
  freePages : ℕ

def alignDown (value : ℕ) : ℕ := value / pageSize * pageSize

def alignUp (value : ℕ) : ℕ := (value + pageSize - 1) / pageSize * pageSize

def addSaturated (a b : ℕ) : ℕ := if u64Max - b < a then u64Max else a + b

def alignUpSaturated (value : ℕ) : ℕ :=
  if value % pageSize = 0 then value
  else if u64Max - (pageSize - 1) < value then u64Max
  else alignUp value

def managedEnd (s : State) : ℕ := addSaturated s.memBase (s.totalPages * pageSize)

def bitMask (page : ℕ) : BitVec 64 := 1#64 <<< (page % bitsPerWord)

/-- The test `(g_bitmap[word] & mask) == 0`. -/
def State.isFree (s : State) (page : ℕ) : Bool :=
  s.bitmap (page / bitsPerWord) &&& bitMask page = 0#64

def setUsed (s : State) (page : ℕ) : State :=
  let word := page / bitsPerWord
  if s.isFree page then
    { s with
      bitmap := Function.update s.bitmap word (s.bitmap word ||| bitMask page)
      freePages := s.freePages - 1 }
  else s

def setFree (s : State) (page : ℕ) : State :=
  let word := page / bitsPerWord
  if s.isFree page then s
  else
    { s with
      bitmap := Function.update s.bitmap word (s.bitmap word &&& ~~~ bitMask page)
      freePages := s.freePages + 1 }

/-- The page total that `pmm_init` computes. -/
def managedPages (memSize : ℕ) : ℕ :=
  let pages := memSize / pageSize
  if maxPages < pages then maxPages else pages

/-- The bitmap after both loops of `pmm_init`. -/
def initFree (memBase total : ℕ) : State :=
  (range total).foldl setFree ⟨fun _ => BitVec.allOnes 64, memBase, total, 0⟩

/-- Page `0` is reserved because the address `0` reports a failure. -/
def pmmInit (memBase memSize : ℕ) : State :=
  let total := managedPages memSize
  let s := initFree memBase total
  if memBase = 0 ∧ 0 < total then setUsed s 0 else s

/-- The local `page_start` of `pmm_reserve_range`. -/
def pageStart (s : State) (start : ℕ) : ℕ :=
  if start < s.memBase then 0 else (alignDown start - s.memBase) / pageSize

/-- The local `page_end`, for a range that ends before `stop`. -/
def pageEnd (s : State) (stop : ℕ) : ℕ :=
  if managedEnd s ≤ stop then s.totalPages
  else
    let page := (alignUpSaturated stop - s.memBase) / pageSize
    if s.totalPages < page then s.totalPages else page

def pmmReserveRange (s : State) (start size : ℕ) : State :=
  if size = 0 ∨ s.totalPages = 0 then s
  else
    let stop := addSaturated start size
    if stop ≤ s.memBase ∨ managedEnd s ≤ start then s
    else (range' (pageStart s start) (pageEnd s stop - pageStart s start)).foldl setUsed s

def State.addr (s : State) (page : ℕ) : ℕ := s.memBase + page * pageSize

/-- The address is `0` when no page is free. -/
def pmmAllocPage (s : State) : ℕ × State :=
  match (range s.totalPages).find? s.isFree with
  | some page => (s.addr page, setUsed s page)
  | none => (0, s)

/-- The address is `0` when there is no run of `count` pages. -/
def pmmAllocPages (s : State) (count : ℕ) : ℕ × State :=
  if count = 0 ∨ s.totalPages < count then (0, s)
  else
    match firstRun s.isFree count s.totalPages 0 0 0 with
    | some runStart => (s.addr runStart, (range' runStart count).foldl setUsed s)
    | none => (0, s)

def pmmFreePage (s : State) (paddr : ℕ) : State :=
  if paddr < s.memBase ∨ paddr % pageSize ≠ 0 then s
  else
    let page := (paddr - s.memBase) / pageSize
    if s.totalPages ≤ page then s else setFree s page

section Bits
variable {s : State} {p q : ℕ}

theorem and_bitMask_eq_zero (w : BitVec 64) :
    w &&& bitMask p = 0#64 ↔ w.getLsbD (p % bitsPerWord) = false := by
  have hlt : p % 64 < 64 := Nat.mod_lt _ (by decide)
  unfold bitMask bitsPerWord
  rw [← BitVec.twoPow_eq, BitVec.and_twoPow]
  by_cases hbit : w.getLsbD (p % 64) = true
  · have hne : BitVec.twoPow 64 (p % 64) ≠ 0#64 := by
      intro h
      simpa [hlt] using congrArg (fun v : BitVec 64 => v.getLsbD (p % 64)) h
    simp [hbit, hne]
  · simp [hbit]

theorem isFree_iff :
    s.isFree p = true ↔ (s.bitmap (p / bitsPerWord)).getLsbD (p % bitsPerWord) = false := by
  simp only [State.isFree, decide_eq_true_eq, and_bitMask_eq_zero]

theorem getLsbD_bitMask (i : ℕ) : (bitMask p).getLsbD i = decide (i = p % bitsPerWord) := by
  unfold bitMask bitsPerWord
  grind

theorem page_eq_iff :
    p = q ↔ p / bitsPerWord = q / bitsPerWord ∧ p % bitsPerWord = q % bitsPerWord := by
  unfold bitsPerWord
  omega

theorem isFree_setUsed : (setUsed s p).isFree q = true ↔ s.isFree q = true ∧ q ≠ p := by
  unfold setUsed
  by_cases hfree : s.isFree p = true
  · have hpage := page_eq_iff (p := q) (q := p)
    simp only [if_pos hfree]
    simp only [isFree_iff, Ne, hpage]
    by_cases hword : q / bitsPerWord = p / bitsPerWord
    · simp [hword, getLsbD_bitMask]
    · simp [hword]
  · grind

theorem isFree_setFree : (setFree s p).isFree q = true ↔ s.isFree q = true ∨ q = p := by
  unfold setFree
  by_cases hfree : s.isFree p = true
  · grind
  · have hlt : q % bitsPerWord < 64 := Nat.mod_lt _ (by decide)
    have hpage := page_eq_iff (p := q) (q := p)
    simp only [if_neg hfree]
    simp only [isFree_iff, hpage]
    by_cases hword : q / bitsPerWord = p / bitsPerWord
    · simp only [hword, Function.update_self, BitVec.getLsbD_and, BitVec.getLsbD_not, hlt,
        getLsbD_bitMask, decide_true, Bool.true_and, true_and]
      grind
    · simp [hword]

@[simp] theorem setUsed_memBase : (setUsed s p).memBase = s.memBase := by
  unfold setUsed; dsimp only; split <;> rfl

@[simp] theorem setUsed_totalPages : (setUsed s p).totalPages = s.totalPages := by
  unfold setUsed; dsimp only; split <;> rfl

@[simp] theorem setFree_memBase : (setFree s p).memBase = s.memBase := by
  unfold setFree; dsimp only; split <;> rfl

@[simp] theorem setFree_totalPages : (setFree s p).totalPages = s.totalPages := by
  unfold setFree; dsimp only; split <;> rfl

theorem isFree_foldl_setUsed (pages : List ℕ) :
    (pages.foldl setUsed s).isFree q = true ↔ s.isFree q = true ∧ q ∉ pages := by
  induction pages generalizing s with
  | nil => simp
  | cons p pages ih =>
    simp only [foldl_cons, ih, isFree_setUsed, mem_cons, not_or, and_assoc]

end Bits

def State.freeSet (s : State) : Finset ℕ := (Finset.range s.totalPages).filter (s.isFree ·)

/-- The counter is the number of clear bits below the total, and no bit above it is clear. -/
structure Sound (s : State) : Prop where
  total_le : s.totalPages ≤ maxPages
  above : ∀ p, s.totalPages ≤ p → s.isFree p = false
  count : s.freePages = s.freeSet.card

section Counter
variable {s : State} {p : ℕ}

theorem mem_freeSet : p ∈ s.freeSet ↔ p < s.totalPages ∧ s.isFree p = true := by
  simp [State.freeSet]

theorem Sound.mem_freeSet_iff (h : Sound s) : p ∈ s.freeSet ↔ s.isFree p = true := by
  rw [mem_freeSet]
  refine ⟨And.right, fun hf => ⟨?_, hf⟩⟩
  by_contra hge
  simp [h.above p (by omega)] at hf

theorem freeSet_setUsed : (setUsed s p).freeSet = s.freeSet.erase p := by
  ext q
  simp only [mem_freeSet, setUsed_totalPages, isFree_setUsed, Finset.mem_erase]
  tauto

theorem freeSet_setFree (hp : p < s.totalPages) : (setFree s p).freeSet = insert p s.freeSet := by
  ext q
  simp only [mem_freeSet, setFree_totalPages, isFree_setFree, Finset.mem_insert]
  constructor
  · tauto
  · rintro (rfl | hq)
    · exact ⟨hp, .inr rfl⟩
    · exact ⟨hq.1, .inl hq.2⟩

theorem Sound.setUsed (h : Sound s) : Sound (setUsed s p) where
  total_le := by simpa using h.total_le
  above q hq := by
    have hfree := h.above q (by simpa using hq)
    simpa [hfree] using (isFree_setUsed (s := s) (q := q)).not
  count := by
    rw [freeSet_setUsed]
    by_cases hfree : s.isFree p = true
    · rw [Finset.card_erase_of_mem (h.mem_freeSet_iff.2 hfree), ← h.count]
      simp [Pmm.setUsed, hfree]
    · rw [Finset.erase_eq_of_notMem (mt h.mem_freeSet_iff.1 hfree), ← h.count]
      simp [Pmm.setUsed, hfree]

theorem Sound.setFree (h : Sound s) (hp : p < s.totalPages) : Sound (setFree s p) where
  total_le := by simpa using h.total_le
  above q hq := by
    have hq : s.totalPages ≤ q := by simpa using hq
    have hfree := h.above q hq
    have hne : q ≠ p := by omega
    simpa [hfree, hne] using (isFree_setFree (s := s) (p := p) (q := q)).not
  count := by
    rw [freeSet_setFree hp]
    by_cases hfree : s.isFree p = true
    · rw [Finset.insert_eq_of_mem (h.mem_freeSet_iff.2 hfree), ← h.count]
      simp [Pmm.setFree, hfree]
    · rw [Finset.card_insert_of_notMem (mt h.mem_freeSet_iff.1 hfree), ← h.count]
      simp [Pmm.setFree, hfree]

end Counter

/-- A sound allocator over page-aligned memory below `2 ^ 64` that never gives out address `0`. -/
structure Valid (s : State) : Prop extends Sound s where
  aligned : pageSize ∣ s.memBase
  fits : s.memBase + s.totalPages * pageSize ≤ 2 ^ 64
  zero : s.memBase = 0 → s.isFree 0 = false

section Operations
variable {s : State} {p count : ℕ}

theorem Valid.setUsed (h : Valid s) : Valid (setUsed s p) where
  toSound := h.toSound.setUsed
  aligned := by simpa using h.aligned
  fits := by simpa using h.fits
  zero hbase := by
    have hfree := h.zero (by simpa using hbase)
    simpa [hfree] using (isFree_setUsed (s := s) (q := 0)).not

theorem Valid.setFree (h : Valid s) (hp : p < s.totalPages) (hne : s.addr p ≠ 0) :
    Valid (setFree s p) where
  toSound := h.toSound.setFree hp
  aligned := by simpa using h.aligned
  fits := by simpa using h.fits
  zero hzero := by
    have hbase : s.memBase = 0 := by simpa using hzero
    have hfree := h.zero hbase
    have hp0 : 0 ≠ p := by
      rintro rfl
      simp [State.addr, hbase] at hne
    simpa [hfree, hp0] using (isFree_setFree (s := s) (p := p) (q := 0)).not

theorem foldl_setUsed_keeps (pages : List ℕ) : (pages.foldl setUsed s).memBase = s.memBase ∧
      (pages.foldl setUsed s).totalPages = s.totalPages := by
  induction pages generalizing s with
  | nil => simp
  | cons p pages ih => simp [ih]

theorem foldl_setFree_keeps (pages : List ℕ) : (pages.foldl setFree s).memBase = s.memBase ∧
      (pages.foldl setFree s).totalPages = s.totalPages := by
  induction pages generalizing s with
  | nil => simp
  | cons p pages ih => simp [ih]

theorem Valid.foldl_setUsed (h : Valid s) (pages : List ℕ) : Valid (pages.foldl Pmm.setUsed s) := by
  induction pages generalizing s with
  | nil => exact h
  | cons p pages ih => exact ih h.setUsed

theorem Sound.foldl_setFree (h : Sound s) (pages : List ℕ) (hpages : ∀ p ∈ pages, p < s.totalPages) :
    Sound (pages.foldl Pmm.setFree s) := by
  induction pages generalizing s with
  | nil => exact h
  | cons p pages ih =>
    apply ih (h.setFree (hpages p (by simp)))
    intro q hq
    simpa using hpages q (by simp [hq])

theorem addr_injective (s : State) : Function.Injective s.addr := by
  intro p q h
  simp only [State.addr, pageSize] at h
  omega

theorem Valid.addr_lt (h : Valid s) (hp : p < s.totalPages) : s.addr p + pageSize ≤ 2 ^ 64 := by
  have hfits := h.fits
  have hmul : (p + 1) * pageSize ≤ s.totalPages * pageSize := Nat.mul_le_mul_right _ hp
  simp only [State.addr, Nat.succ_mul] at hmul ⊢
  omega

theorem Valid.addr_aligned (h : Valid s) : pageSize ∣ s.addr p :=
  (Nat.dvd_add_iff_right h.aligned).1 (Nat.dvd_mul_left _ _)

theorem Valid.addr_ne_zero (h : Valid s) (hfree : s.isFree p = true) : s.addr p ≠ 0 := by
  intro haddr
  have hp : p = 0 ∧ s.memBase = 0 := by
    simp only [State.addr, pageSize] at haddr
    omega
  obtain ⟨rfl, hbase⟩ := hp
  simp [h.zero hbase] at hfree

theorem pmmAllocPage_cases (s : State) : (∃ page < s.totalPages, s.isFree page = true ∧
      pmmAllocPage s = (s.addr page, setUsed s page)) ∨
    ((∀ page < s.totalPages, s.isFree page = false) ∧ pmmAllocPage s = (0, s)) := by
  unfold pmmAllocPage
  cases hfind : (range s.totalPages).find? s.isFree with
  | some page =>
    left
    have hmem := mem_of_find?_eq_some hfind
    exact ⟨page, mem_range.1 hmem, find?_some hfind, rfl⟩
  | none =>
    right
    refine ⟨fun page hpage => ?_, rfl⟩
    simpa using find?_eq_none.1 hfind page (mem_range.2 hpage)

/-- A run of `count` free managed pages from `start`. -/
def State.FreeRun (s : State) (count start : ℕ) : Prop :=
  start + count ≤ s.totalPages ∧ IsRun s.isFree count start

theorem pmmAllocPages_cases (s : State) (count : ℕ) :
    (∃ start, 0 < count ∧ IsLeast {r | s.FreeRun count r} start ∧
      pmmAllocPages s count = (s.addr start, (range' start count).foldl setUsed s)) ∨
    ((count = 0 ∨ ¬ ∃ r, s.FreeRun count r) ∧ pmmAllocPages s count = (0, s)) := by
  unfold pmmAllocPages
  by_cases hbad : count = 0 ∨ s.totalPages < count
  · right
    simp only [if_pos hbad, and_true]
    refine hbad.imp_right fun hlt => ?_
    rintro ⟨r, hle, -⟩
    omega
  · have hpos : 0 < count := by omega
    simp only [if_neg hbad]
    have hres := @Searching.result _ _ _ _ _ s.totalPages
      (searching_zero hpos : Searching s.isFree count 0 0 0)
    cases hrun : firstRun s.isFree count s.totalPages 0 0 0 with
    | some start =>
      simp only [hrun, Nat.zero_add] at hres
      obtain ⟨hle, hfree, hleast⟩ := hres
      refine .inl ⟨start, hpos, ⟨⟨hle, hfree⟩, fun r hr => ?_⟩, rfl⟩
      by_contra hlt
      exact hleast r (by omega) hr.2
    | none =>
      refine .inr ⟨.inr ?_, rfl⟩
      rintro ⟨r, hle, hfree⟩
      simp only [hrun, Nat.zero_add] at hres
      exact hres r hle hfree

theorem pmmFreePage_cases (h : Valid s) (paddr : ℕ) :
    (∃ page < s.totalPages, paddr = s.addr page ∧ pmmFreePage s paddr = setFree s page) ∨
    ((∀ page < s.totalPages, paddr ≠ s.addr page) ∧ pmmFreePage s paddr = s) := by
  obtain ⟨b, hb⟩ := h.aligned
  unfold pmmFreePage
  by_cases hbad : paddr < s.memBase ∨ paddr % pageSize ≠ 0
  · right
    simp only [if_pos hbad, and_true]
    rintro page - rfl
    simp only [State.addr, pageSize] at hbad hb
    omega
  · have haddr : paddr = s.addr ((paddr - s.memBase) / pageSize) := by
      simp only [State.addr, pageSize] at hbad hb ⊢
      omega
    simp only [if_neg hbad]
    by_cases hout : s.totalPages ≤ (paddr - s.memBase) / pageSize
    · right
      simp only [if_pos hout, and_true]
      intro page hpage heq
      have := addr_injective s (haddr.symm.trans heq)
      omega
    · left
      exact ⟨_, by omega, haddr, by simp only [if_neg hout]⟩

end Operations

theorem managedPages_le (memSize : ℕ) : managedPages memSize ≤ maxPages := by
  unfold managedPages
  dsimp only
  split <;> omega

theorem initFree_sound (memBase : ℕ) {total : ℕ} (htotal : total ≤ maxPages) :
    Sound (initFree memBase total) := by
  refine .foldl_setFree ?_ _ fun p hp => mem_range.1 hp
  have hused (p : ℕ) : State.isFree ⟨fun _ => BitVec.allOnes 64, memBase, total, 0⟩ p = false := by
    have hlt : p % bitsPerWord < 64 := Nat.mod_lt _ (by decide)
    rw [← Bool.not_eq_true, isFree_iff, BitVec.getLsbD_allOnes]
    simp [hlt]
  refine ⟨htotal, fun p _ => hused p, ?_⟩
  simp only [State.freeSet, hused, Bool.false_eq_true, Finset.filter_false, Finset.card_empty]

theorem pmmInit_fields (memBase memSize : ℕ) : (pmmInit memBase memSize).memBase = memBase ∧
      (pmmInit memBase memSize).totalPages = managedPages memSize := by
  have hfields : (initFree memBase (managedPages memSize)).memBase = memBase ∧
      (initFree memBase (managedPages memSize)).totalPages = _ := foldl_setFree_keeps _
  unfold pmmInit
  dsimp only
  split
  · simpa only [setUsed_memBase, setUsed_totalPages] using hfields
  · exact hfields

theorem pmmInit_valid {memBase memSize : ℕ} (haligned : pageSize ∣ memBase)
    (hfits : memBase + memSize ≤ 2 ^ 64) : Valid (pmmInit memBase memSize) := by
  have hs := initFree_sound memBase (managedPages_le memSize)
  have hmanaged : managedPages memSize * pageSize ≤ memSize := by
    unfold managedPages pageSize
    dsimp only
    split <;> omega
  have hbase := pmmInit_fields memBase memSize
  have hsound : Sound (pmmInit memBase memSize) := by
    unfold pmmInit
    dsimp only
    split
    · exact hs.setUsed
    · exact hs
  refine ⟨hsound, by rwa [hbase.1], ?_, fun h0 => ?_⟩
  · rw [hbase.1, hbase.2]
    omega
  · rw [hbase.1] at h0
    by_cases htotal : 0 < managedPages memSize
    · have hinit : pmmInit memBase memSize = setUsed (initFree memBase (managedPages memSize)) 0 :=
        if_pos ⟨h0, htotal⟩
      have hused : ¬ (setUsed (initFree memBase (managedPages memSize)) 0).isFree 0 = true :=
        fun hfree => (isFree_setUsed.1 hfree).2 rfl
      simpa only [hinit, Bool.not_eq_true] using hused
    · exact hsound.above 0 (by omega)

def State.freeAddrs (s : State) : Finset ℕ := s.freeSet.image s.addr

def State.Manages (s : State) (a : ℕ) : Prop := ∃ page < s.totalPages, a = s.addr page

def State.SameMemory (s t : State) : Prop := t.memBase = s.memBase ∧ t.totalPages = s.totalPages

section Addresses
variable {s t : State} {a : ℕ}

theorem State.SameMemory.addr (h : s.SameMemory t) : t.addr = s.addr := by
  funext page
  simp only [State.addr, h.1]

theorem State.SameMemory.manages (h : s.SameMemory t) : t.Manages a ↔ s.Manages a := by
  simp only [State.Manages, h.2, h.addr]

theorem State.manages_of_mem (ha : a ∈ s.freeAddrs) : s.Manages a := by
  obtain ⟨page, hpage, rfl⟩ := Finset.mem_image.1 ha
  exact ⟨page, (mem_freeSet.1 hpage).1, rfl⟩

section
variable (h : Valid s)
include h

theorem Valid.ne_zero_of_mem (ha : a ∈ s.freeAddrs) : a ≠ 0 := by
  obtain ⟨page, hpage, rfl⟩ := Finset.mem_image.1 ha
  exact h.addr_ne_zero (mem_freeSet.1 hpage).2

theorem Valid.aligned_of_manages (ha : s.Manages a) : pageSize ∣ a := by
  obtain ⟨page, -, rfl⟩ := ha
  exact h.addr_aligned

theorem Valid.pmmAllocPage_spec : ((pmmAllocPage s).1 ∈ s.freeAddrs ∧ Valid (pmmAllocPage s).2 ∧
      s.SameMemory (pmmAllocPage s).2 ∧
      (pmmAllocPage s).2.freeAddrs = s.freeAddrs.erase (pmmAllocPage s).1) ∨
    (s.freeAddrs = ∅ ∧ pmmAllocPage s = (0, s)) := by
  rcases pmmAllocPage_cases s with ⟨page, hlt, hfree, heq⟩ | ⟨hnone, heq⟩
  · have hsame : s.SameMemory (Pmm.setUsed s page) := ⟨setUsed_memBase, setUsed_totalPages⟩
    left
    rw [heq]
    refine ⟨Finset.mem_image_of_mem _ (mem_freeSet.2 ⟨hlt, hfree⟩), h.setUsed, hsame, ?_⟩
    rw [State.freeAddrs, hsame.addr, freeSet_setUsed, Finset.image_erase (addr_injective s)]
    rfl
  · right
    refine ⟨?_, heq⟩
    rw [State.freeAddrs, Finset.image_eq_empty, Finset.eq_empty_iff_forall_notMem]
    intro page hpage
    obtain ⟨hlt, hfree⟩ := mem_freeSet.1 hpage
    simp [hnone page hlt] at hfree

theorem Valid.pmmAllocPages_spec (count : ℕ) :
    let result := pmmAllocPages s count
    let pages := (range count).map fun n => result.1 + n * pageSize
    (result.1 ≠ 0 ∧ Valid result.2 ∧ s.SameMemory result.2 ∧ (∀ a ∈ pages, a ∈ s.freeAddrs) ∧
      result.2.freeAddrs = s.freeAddrs \ pages.toFinset) ∨
    result = (0, s) := by
  intro result pages
  rcases pmmAllocPages_cases s count with ⟨start, hpos, hleast, heq⟩ | ⟨-, heq⟩
  · obtain ⟨hle, hrun⟩ := hleast.1
    have hresult : result = (s.addr start, (range' start count).foldl Pmm.setUsed s) := heq
    have hsame : s.SameMemory result.2 := by
      rw [hresult]
      exact foldl_setUsed_keeps _
    have hpage (n : ℕ) : result.1 + n * pageSize = s.addr (start + n) := by
      simp only [hresult, State.addr, Nat.add_mul, Nat.add_assoc]
    left
    refine ⟨?_, ?_, hsame, ?_, ?_⟩
    · rw [hresult]
      exact h.addr_ne_zero (hrun 0 hpos)
    · rw [hresult]
      exact h.foldl_setUsed _
    · intro a ha
      obtain ⟨n, hn, rfl⟩ := mem_map.1 ha
      have hn := mem_range.1 hn
      rw [hpage]
      exact Finset.mem_image_of_mem _ (mem_freeSet.2 ⟨by omega, hrun n hn⟩)
    · have hset : result.2.freeSet = s.freeSet \ (range' start count).toFinset := by
        ext p
        simp only [hresult, mem_freeSet, (foldl_setUsed_keeps _).2, isFree_foldl_setUsed,
          Finset.mem_sdiff, mem_toFinset, and_assoc]
      have hpages : pages.toFinset = (range' start count).toFinset.image s.addr := by
        ext a
        simp only [pages, hpage, mem_toFinset, mem_map, mem_range, Finset.mem_image, mem_range'_1]
        constructor
        · rintro ⟨n, hn, rfl⟩
          exact ⟨start + n, by omega, rfl⟩
        · rintro ⟨p, hp, rfl⟩
          exact ⟨p - start, by omega, by rw [Nat.add_sub_cancel' hp.1]⟩
      rw [State.freeAddrs, hsame.addr, hset, hpages, State.freeAddrs,
        Finset.image_sdiff _ _ (addr_injective s)]
  · exact .inr heq

theorem Valid.pmmFreePage_spec (ha : s.Manages a) (hne : a ≠ 0) :
    Valid (pmmFreePage s a) ∧ s.SameMemory (pmmFreePage s a) ∧
      (pmmFreePage s a).freeAddrs = insert a s.freeAddrs := by
  obtain ⟨page, hlt, rfl⟩ := ha
  have hsame : s.SameMemory (Pmm.setFree s page) := ⟨setFree_memBase, setFree_totalPages⟩
  obtain ⟨p, -, heq, hfree⟩ := (pmmFreePage_cases h (s.addr page)).resolve_right
    fun hnone => hnone.1 page hlt rfl
  rw [hfree, ← addr_injective s heq]
  refine ⟨h.setFree hlt hne, hsame, ?_⟩
  rw [State.freeAddrs, hsame.addr, freeSet_setFree hlt, Finset.image_insert]
  rfl

theorem Valid.foldl_pmmFreePage (pages : List ℕ) (hpages : ∀ a ∈ pages, s.Manages a ∧ a ≠ 0) :
    Valid (pages.foldl pmmFreePage s) ∧ s.SameMemory (pages.foldl pmmFreePage s) ∧
      (pages.foldl pmmFreePage s).freeAddrs = s.freeAddrs ∪ pages.toFinset := by
  induction pages generalizing s with
  | nil => exact ⟨h, ⟨rfl, rfl⟩, by simp⟩
  | cons a pages ih =>
    obtain ⟨hmanaged, hne⟩ := hpages a (by simp)
    obtain ⟨hvalid, hsame, hfree⟩ := h.pmmFreePage_spec hmanaged hne
    obtain ⟨hvalid', hsame', hfree'⟩ := ih hvalid fun b hb =>
      ⟨hsame.manages.2 (hpages b (by simp [hb])).1, (hpages b (by simp [hb])).2⟩
    refine ⟨hvalid', ⟨hsame'.1.trans hsame.1, hsame'.2.trans hsame.2⟩, ?_⟩
    rw [foldl_cons, hfree', hfree, toFinset_cons, Finset.insert_union, Finset.union_insert]

end

end Addresses

end Pmm
