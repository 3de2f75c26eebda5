import ArmoniOS.Mm.Pmm

/-! Runs of the page allocator: boot-time reservations, then any interleaving of allocations and
frees, with a ledger of the pages handed out. -/
namespace Pmm
open RunSearch Finset State

/-- The arguments of one `pmm_reserve_range` call. -/
structure Range where
  start : ℕ
  size : ℕ
  start_lt : start < 2 ^ 64
  size_lt : size < 2 ^ 64

def Range.bytes (r : Range) : Set ℕ := Set.Ico r.start (r.start + r.size)

def bytesOf (pages : Finset ℕ) : Set ℕ := {b | ∃ a ∈ pages, b ∈ Set.Ico a (a + pageSize)}

/-- The reservation does not end inside the last page below `2 ^ 64`, or that page is not managed.
An end there is rounded to `2 ^ 64 - 1` and divided down to the page before. -/
def ReserveExact (memBase memSize : ℕ) (r : Range) : Prop :=
  memBase + managedPages memSize * pageSize < 2 ^ 64 ∨
    r.start + r.size ≤ 2 ^ 64 - pageSize ∨
    (r.start < 2 ^ 64 - 1 ∧ 2 ^ 64 - 1 ≤ r.start + r.size)

section Reserve
variable {s : State} {r : Range} {p : ℕ}

theorem pmmReserveRange_eq (s : State) (start size : ℕ) :
    ∃ pages : List ℕ, pmmReserveRange s start size = pages.foldl setUsed s := by
  unfold pmmReserveRange
  by_cases hnone : size = 0 ∨ s.totalPages = 0
  · exact ⟨[], by simp only [if_pos hnone, List.foldl_nil]⟩
  · by_cases hout : addSaturated start size ≤ s.memBase ∨ managedEnd s ≤ start
    · exact ⟨[], by simp only [if_neg hnone, if_pos hout, List.foldl_nil]⟩
    · simp only [if_neg hnone, if_neg hout]
      exact ⟨_, rfl⟩

theorem addSaturated_eq {a c : ℕ} (hc : c < 2 ^ 64) :
    addSaturated a c = min (a + c) (2 ^ 64 - 1) := by
  unfold addSaturated u64Max
  split <;> omega

theorem Valid.managedEnd_eq (h : Valid s) :
    managedEnd s = min (s.memBase + s.totalPages * pageSize) (2 ^ 64 - 1) := by
  apply addSaturated_eq
  calc s.totalPages * pageSize ≤ maxPages * pageSize := Nat.mul_le_mul_right _ h.total_le
    _ < 2 ^ 64 := by decide

theorem Valid.pageStart_le_iff (h : Valid s) {start : ℕ} :
    pageStart s start ≤ p ↔ start < s.addr p + pageSize := by
  obtain ⟨k, hk⟩ := h.aligned
  unfold pageStart alignDown
  simp only [addr, pageSize] at hk ⊢
  split <;> omega

/-- `stop` lies inside the page and the page ends at `2 ^ 64`. -/
def State.Cut (s : State) (stop p : ℕ) : Prop :=
  s.addr p + pageSize = 2 ^ 64 ∧ s.addr p < stop ∧ stop < 2 ^ 64 - 1

/-- `page_end` lies behind the pages that start before `stop`, but for a page cut at `2 ^ 64`. -/
theorem Valid.lt_pageEnd_iff (h : Valid s) {stop : ℕ} (hp : p < s.totalPages) :
    p < pageEnd s stop ↔ s.addr p < stop ∧ ¬ s.Cut stop p := by
  obtain ⟨k, hk⟩ := h.aligned
  have hlimit := h.managedEnd_eq
  have hfits := h.fits
  have hps : pageSize = 4096 := rfl
  have haddr : s.addr p = s.memBase + p * pageSize := rfl
  unfold Cut pageEnd
  rw [haddr]
  rw [hps] at hk hlimit hfits ⊢
  by_cases hge : managedEnd s ≤ stop
  · simp only [if_pos hge]
    omega
  · have hround : alignUpSaturated stop =
        if 2 ^ 64 - 4096 < stop then 2 ^ 64 - 1 else (stop + 4095) / 4096 * 4096 := by
      unfold alignUpSaturated alignUp u64Max
      rw [hps]
      split_ifs <;> omega
    simp only [if_neg hge, hround]
    split_ifs <;> omega

theorem mem_pmmReserveRange_iff (h : Valid s) (hp : p < s.totalPages) :
    (pmmReserveRange s r.start r.size).isFree p = true ↔ s.isFree p = true ∧
      ¬ (r.start < min (r.start + r.size) (2 ^ 64 - 1) ∧ r.start < s.addr p + pageSize ∧
        s.addr p < min (r.start + r.size) (2 ^ 64 - 1) ∧
        ¬ s.Cut (min (r.start + r.size) (2 ^ 64 - 1)) p) := by
  have hend := addSaturated_eq (a := r.start) r.size_lt
  have hlast := @Valid.lt_pageEnd_iff s p h (addSaturated r.start r.size) hp
  have hfirst : pageStart s r.start ≤ p ↔ _ := h.pageStart_le_iff
  have hlimit := h.managedEnd_eq
  have hmul : (p + 1) * pageSize ≤ s.totalPages * pageSize := Nat.mul_le_mul_right _ hp
  have haddr : s.addr p = s.memBase + p * pageSize := rfl
  rw [Nat.succ_mul] at hmul
  rw [← hend, ← hlast, ← hfirst]
  unfold pmmReserveRange
  dsimp only
  split_ifs with hnone hout
  · refine ⟨fun hfree => ⟨hfree, ?_⟩, And.left⟩
    omega
  · refine ⟨fun hfree => ⟨hfree, ?_⟩, And.left⟩
    omega
  · rw [isFree_foldl_setUsed, List.mem_range'_1]
    refine and_congr_right' (not_congr ?_)
    omega

end Reserve

/-- The allocator with the ranges handed out, each without the pages freed since. -/
structure Ledger where
  state : State
  held : List (Finset ℕ)

inductive Op where
  | allocPage
  | allocPages (count : ℕ)
  | freePage (paddr : ℕ)

/-- The addresses of `count` pages from `start` on. -/
def pagesFrom (start count : ℕ) : Finset ℕ :=
  (range count).image fun i => start + i * pageSize

def Ledger.handOut (l : Ledger) (count : ℕ) (result : ℕ × State) : Ledger :=
  ⟨result.2, if result.1 = 0 then l.held else pagesFrom result.1 count :: l.held⟩

def Ledger.step (l : Ledger) : Op → Ledger
  | .allocPage => l.handOut 1 (pmmAllocPage l.state)
  | .allocPages count => l.handOut count (pmmAllocPages l.state count)
  | .freePage paddr => ⟨pmmFreePage l.state paddr, l.held.map (·.erase paddr)⟩

/-- `pmm_init` followed by the reservations. -/
def boot (memBase memSize : ℕ) (reserves : List Range) : Ledger :=
  ⟨reserves.foldl (fun s r => pmmReserveRange s r.start r.size) (pmmInit memBase memSize), []⟩

/-- A free call is given a page handed out, an unaligned address or one outside the memory. -/
def Ledger.Allows (l : Ledger) : Op → Prop
  | .freePage paddr =>
      (∃ pages ∈ l.held, paddr ∈ pages) ∨ paddr % pageSize ≠ 0 ∨
        paddr < l.state.memBase ∨ l.state.memBase + l.state.totalPages * pageSize ≤ paddr
  | _ => True

def Ledger.Legal : Ledger → List Op → Prop
  | _, [] => True
  | l, op :: ops => l.Allows op ∧ (l.step op).Legal ops

def Ledger.run (l : Ledger) (ops : List Op) : Ledger := ops.foldl Ledger.step l

/-- The address is that of a page in use that is not one of the reserved pages. -/
def State.Lent (s : State) (reserved : Set ℕ) (a : ℕ) : Prop :=
  a ≠ 0 ∧ ∃ p < s.totalPages, a = s.addr p ∧ s.isFree p = false ∧ p ∉ reserved

structure Ledger.Inv (memBase total : ℕ) (reserved : Set ℕ) (l : Ledger) : Prop where
  valid : Valid l.state
  base : l.state.memBase = memBase
  total : l.state.totalPages = total
  kept : ∀ p ∈ reserved, l.state.isFree p = false
  lent : ∀ pages ∈ l.held, ∀ a ∈ pages, l.state.Lent reserved a
  disjoint : l.held.Pairwise Disjoint

section Steps
variable {l : Ledger} {memBase total : ℕ} {reserved : Set ℕ}

theorem mem_pagesFrom {s : State} {start count a : ℕ} :
    a ∈ pagesFrom (s.addr start) count ↔ ∃ p ∈ List.range' start count, a = s.addr p := by
  have haddr (i : ℕ) : s.addr start + i * pageSize = s.addr (start + i) := by
    simp only [addr, Nat.add_mul, Nat.add_assoc]
  simp only [pagesFrom, mem_image, mem_range, haddr, List.mem_range'_1]
  constructor
  · rintro ⟨i, hi, rfl⟩
    exact ⟨start + i, by omega, rfl⟩
  · rintro ⟨p, hp, rfl⟩
    exact ⟨p - start, by omega, by rw [Nat.add_sub_cancel' hp.1]⟩

theorem foldl_setUsed_addr (s : State) (pages : List ℕ) (p : ℕ) :
    (pages.foldl setUsed s).addr p = s.addr p := by
  simp only [addr, (foldl_setUsed_keeps pages).1]

theorem isFree_foldl_setUsed_eq_false (s : State) (pages : List ℕ) {p : ℕ} :
    (pages.foldl setUsed s).isFree p = false ↔ s.isFree p = false ∨ p ∈ pages := by
  rw [← Bool.not_eq_true, ← Bool.not_eq_true, isFree_foldl_setUsed]
  tauto

section
variable (h : l.Inv memBase total reserved)
include h

theorem Ledger.Inv.lend {start count : ℕ} (hpos : 0 < count) (hrun : l.state.FreeRun count start) :
    (l.handOut count (l.state.addr start, (List.range' start count).foldl setUsed l.state)).Inv
      memBase total reserved := by
  obtain ⟨hle, hfree⟩ := hrun
  have hfree (p : ℕ) (hp : p ∈ List.range' start count) : l.state.isFree p = true := by
    have hp := List.mem_range'_1.1 hp
    simpa only [Nat.add_sub_cancel' hp.1] using hfree (p - start) (by omega)
  have hstart : start ∈ List.range' start count := List.mem_range'_1.2 (by omega)
  have hne := h.valid.addr_ne_zero (hfree start hstart)
  have hkeeps := foldl_setUsed_keeps (s := l.state) (List.range' start count)
  simp only [handOut, if_neg hne]
  refine ⟨h.valid.foldl_setUsed _, hkeeps.1.trans h.base, hkeeps.2.trans h.total, ?_, ?_, ?_⟩
  · intro p hp
    exact (isFree_foldl_setUsed_eq_false _ _).2 (.inl (h.kept p hp))
  · intro pages hpages a ha
    rcases List.mem_cons.1 hpages with rfl | hpages
    · obtain ⟨p, hp, rfl⟩ := mem_pagesFrom.1 ha
      have hp' := List.mem_range'_1.1 hp
      refine ⟨h.valid.addr_ne_zero (hfree p hp), p, ?_, (foldl_setUsed_addr _ _ _).symm,
        (isFree_foldl_setUsed_eq_false _ _).2 (.inr hp), fun hres => ?_⟩
      · rw [hkeeps.2]
        omega
      · simpa [hfree p hp] using h.kept p hres
    · obtain ⟨ha0, p, hp, rfl, hused, hres⟩ := h.lent pages hpages a ha
      exact ⟨ha0, p, by rwa [hkeeps.2], (foldl_setUsed_addr _ _ _).symm,
        (isFree_foldl_setUsed_eq_false _ _).2 (.inl hused), hres⟩
  · refine List.pairwise_cons.2 ⟨fun pages hpages => ?_, h.disjoint⟩
    rw [disjoint_left]
    intro a ha hheld
    -- a page of the run was free, a page held was not
    obtain ⟨p, hp, rfl⟩ := mem_pagesFrom.1 ha
    obtain ⟨-, q, -, heq, hused, -⟩ := h.lent pages hpages _ hheld
    simp [← addr_injective _ heq, hfree p hp] at hused

theorem Ledger.Inv.allocPage : (l.step .allocPage).Inv memBase total reserved := by
  rcases pmmAllocPage_cases l.state with ⟨page, hlt, hfree, heq⟩ | ⟨-, heq⟩
  · have hrun : l.state.FreeRun 1 page := by
      refine ⟨hlt, fun i hi => ?_⟩
      simpa only [Nat.lt_one_iff.1 hi, Nat.add_zero] using hfree
    simp only [step, heq]
    exact h.lend Nat.one_pos hrun
  · simp only [step, heq]
    exact ⟨h.valid, h.base, h.total, h.kept, h.lent, h.disjoint⟩

theorem Ledger.Inv.allocPages (count : ℕ) :
    (l.step (.allocPages count)).Inv memBase total reserved := by
  rcases pmmAllocPages_cases l.state count with ⟨start, hpos, hleast, heq⟩ | ⟨-, heq⟩
  · simp only [step, heq]
    exact h.lend hpos hleast.1
  · simp only [step, heq]
    exact ⟨h.valid, h.base, h.total, h.kept, h.lent, h.disjoint⟩

theorem Ledger.Inv.freePage {paddr : ℕ} (hallows : l.Allows (.freePage paddr)) :
    (l.step (.freePage paddr)).Inv memBase total reserved := by
  have hdisjoint : (l.held.map (·.erase paddr)).Pairwise Disjoint := by
    refine List.Pairwise.map _ (fun a b hab => ?_) h.disjoint
    exact disjoint_of_subset_left (erase_subset _ _)
      (disjoint_of_subset_right (erase_subset _ _) hab)
  have hlent (pages : Finset ℕ) (hpages : pages ∈ l.held.map (·.erase paddr)) (a : ℕ)
      (ha : a ∈ pages) : a ≠ paddr ∧ l.state.Lent reserved a := by
    obtain ⟨held, hheld, rfl⟩ := List.mem_map.1 hpages
    obtain ⟨hne, ha⟩ := mem_erase.1 ha
    exact ⟨hne, h.lent held hheld a ha⟩
  rcases pmmFreePage_cases h.valid paddr with ⟨page, hlt, rfl, heq⟩ | ⟨-, heq⟩
  · have hpaddr : l.state.Lent reserved (l.state.addr page) := by
      have hmul : (page + 1) * pageSize ≤ l.state.totalPages * pageSize := Nat.mul_le_mul_right _ hlt
      have haddr : l.state.addr page = l.state.memBase + page * pageSize := rfl
      have hps : pageSize = 4096 := rfl
      rw [Nat.succ_mul] at hmul
      rcases hallows with ⟨pages, hpages, hmem⟩ | hunaligned | hbelow | habove
      · exact h.lent pages hpages _ hmem
      · exact absurd (Nat.mod_eq_zero_of_dvd h.valid.addr_aligned) hunaligned
      · omega
      · omega
    obtain ⟨hne, q, -, hq, -, hres⟩ := hpaddr
    rw [← addr_injective _ hq] at hres
    have hstays (p : ℕ) (hp : p ≠ page) (hused : l.state.isFree p = false) :
        (setFree l.state page).isFree p = false := by
      simpa [hp, hused] using (isFree_setFree (s := l.state) (p := page) (q := p)).not
    simp only [step, heq]
    refine ⟨h.valid.setFree hlt hne, by simpa using h.base, by simpa using h.total, ?_, ?_,
      hdisjoint⟩
    · intro p hp
      exact hstays p (fun hpage => hres (hpage ▸ hp)) (h.kept p hp)
    · intro pages hpages a ha
      obtain ⟨hapage, ha0, p, hp, rfl, hused, hpres⟩ := hlent pages hpages a ha
      refine ⟨ha0, p, by simpa using hp, by simp [addr], hstays p ?_ hused, hpres⟩
      rintro rfl
      exact hapage rfl
  · simp only [step, heq]
    exact ⟨h.valid, h.base, h.total, h.kept, fun pages hpages a ha => (hlent pages hpages a ha).2,
      hdisjoint⟩

theorem Ledger.Inv.run {ops : List Op} (hlegal : l.Legal ops) :
    (l.run ops).Inv memBase total reserved := by
  induction ops generalizing l with
  | nil => exact h
  | cons op ops ih =>
    apply ih _ hlegal.2
    cases op with
    | allocPage => exact h.allocPage
    | allocPages count => exact h.allocPages count
    | freePage paddr => exact h.freePage hlegal.1

end

end Steps

section Boot
variable {memBase memSize : ℕ} {reserves : List Range}

theorem pmmReserveRange_keeps (s : State) (r : Range) (hs : Valid s) :
    Valid (pmmReserveRange s r.start r.size) ∧
      (pmmReserveRange s r.start r.size).memBase = s.memBase ∧
      (pmmReserveRange s r.start r.size).totalPages = s.totalPages ∧
      ∀ p, s.isFree p = false → (pmmReserveRange s r.start r.size).isFree p = false := by
  obtain ⟨pages, heq⟩ := pmmReserveRange_eq s r.start r.size
  have hkeeps := foldl_setUsed_keeps (s := s) pages
  rw [heq]
  refine ⟨hs.foldl_setUsed pages, hkeeps.1, hkeeps.2, fun p hp => ?_⟩
  exact (isFree_foldl_setUsed_eq_false _ _).2 (.inl hp)

/-- The managed pages that share a byte with a reservation made exactly. -/
def reservedPages (memBase memSize : ℕ) (reserves : List Range) : Set ℕ :=
  {p | p < managedPages memSize ∧ ∃ r ∈ reserves, ReserveExact memBase memSize r ∧
    ∃ b ∈ Set.Ico (memBase + p * pageSize) (memBase + p * pageSize + pageSize), b ∈ r.bytes}

theorem foldl_reserve_inv (reserves : List Range) (s : State) (done : List Range) (hs : Valid s)
    (hbase : s.memBase = memBase) (htotal : s.totalPages = managedPages memSize)
    (hdone : ∀ p ∈ reservedPages memBase memSize done, s.isFree p = false) :
    Ledger.Inv memBase (managedPages memSize) (reservedPages memBase memSize (done ++ reserves))
      ⟨reserves.foldl (fun s r => pmmReserveRange s r.start r.size) s, []⟩ := by
  induction reserves generalizing s done with
  | nil =>
    simp only [List.append_nil, List.foldl_nil]
    exact ⟨hs, hbase, htotal, hdone, by simp, List.Pairwise.nil⟩
  | cons r reserves ih =>
    obtain ⟨hvalid, hb, ht, hmono⟩ := pmmReserveRange_keeps s r hs
    rw [List.append_cons, List.foldl_cons]
    apply ih _ _ hvalid (hb.trans hbase) (ht.trans htotal)
    rintro p ⟨hp, r', hr', hexact, b, hb', hbytes⟩
    rcases List.mem_append.1 hr' with hr' | hr'
    · exact hmono p (hdone p ⟨hp, r', hr', hexact, b, hb', hbytes⟩)
    · -- a managed page that shares a byte with an exact reservation is used afterwards
      obtain rfl := List.mem_singleton.1 hr'
      rw [← htotal] at hp
      rw [← hbase] at hexact hb'
      obtain ⟨hstart, hstop⟩ := hbytes
      obtain ⟨hlo, hhi⟩ := hb'
      have hpage := hs.addr_lt hp
      have hmul : (p + 1) * pageSize ≤ s.totalPages * pageSize := Nat.mul_le_mul_right _ hp
      have haddr : s.addr p = s.memBase + p * pageSize := rfl
      have hps : pageSize = 4096 := rfl
      rw [Nat.succ_mul] at hmul
      unfold ReserveExact at hexact
      rw [← htotal] at hexact
      rw [← Bool.not_eq_true, mem_pmmReserveRange_iff hs hp, not_and_not_right]
      unfold Cut
      omega

theorem boot_inv (haligned : pageSize ∣ memBase) (hfits : memBase + memSize ≤ 2 ^ 64) :
    (boot memBase memSize reserves).Inv memBase (managedPages memSize)
      (reservedPages memBase memSize reserves) := by
  obtain ⟨hbase, htotal⟩ := pmmInit_fields memBase memSize
  apply foldl_reserve_inv reserves _ [] (pmmInit_valid haligned hfits) hbase htotal
  rintro p ⟨-, r, hr, -⟩
  simp at hr

end Boot

/-- `pmm_alloc_pages(count)` returns the address of the lowest run, and `0` when there is none. -/
def State.LowestRun (s : State) (count : ℕ) : Prop :=
  ((pmmAllocPages s count).1 = 0 ↔ count = 0 ∨ ¬ ∃ start, s.FreeRun count start) ∧
  ∀ a, (pmmAllocPages s count).1 = a → a ≠ 0 →
    ∃ start, IsLeast {r | s.FreeRun count r} start ∧ a = s.addr start

theorem Valid.lowestRun {s : State} (h : Valid s) (count : ℕ) : s.LowestRun count := by
  unfold LowestRun
  rcases pmmAllocPages_cases s count with ⟨start, hpos, hleast, heq⟩ | ⟨hnone, heq⟩
  · have hne := h.addr_ne_zero (by simpa using hleast.1.2 0 hpos)
    rw [heq]
    constructor
    · constructor
      · intro h0
        exact absurd h0 hne
      · rintro (hzero | hnone)
        · omega
        · exact absurd ⟨start, hleast.1⟩ hnone
    · rintro a rfl -
      exact ⟨start, hleast, rfl⟩
  · rw [heq]
    refine ⟨iff_of_true rfl hnone, ?_⟩
    rintro a rfl hne
    exact absurd rfl hne

/-- In every run the counter matches the bitmap, the search finds the lowest run, the ranges
handed out are disjoint and none has address `0`; none meets a reservation that was made exactly. -/
theorem pmm_runs_sound (memBase memSize : ℕ) (haligned : pageSize ∣ memBase)
    (hfits : memBase + memSize ≤ 2 ^ 64) (reserves : List Range) (ops : List Op)
    (hlegal : (boot memBase memSize reserves).Legal ops) :
    let l := (boot memBase memSize reserves).run ops
    l.state.freePages = l.state.freeSet.card ∧
    (∀ p, l.state.totalPages ≤ p → l.state.isFree p = false) ∧
    (∀ count, l.state.LowestRun count) ∧
    l.held.Pairwise (fun a b => Disjoint (bytesOf a) (bytesOf b)) ∧
    (∀ pages ∈ l.held, 0 ∉ pages) ∧
    ∀ r ∈ reserves, ReserveExact memBase memSize r →
      ∀ pages ∈ l.held, Disjoint (bytesOf pages) r.bytes := by
  intro l
  have hinv := (boot_inv haligned hfits).run hlegal
  refine ⟨hinv.valid.count, hinv.valid.above, hinv.valid.lowestRun, ?_, ?_, ?_⟩
  · refine hinv.disjoint.imp_of_mem fun {pages pages'} hpages hpages' hdisj => ?_
    rw [Set.disjoint_left]
    rintro b ⟨a, ha, hb⟩ ⟨a', ha', hb'⟩
    obtain ⟨-, p, -, rfl, -⟩ := hinv.lent pages hpages a ha
    obtain ⟨-, q, -, rfl, -⟩ := hinv.lent pages' hpages' a' ha'
    simp only [State.addr, pageSize, Set.mem_Ico] at hb hb'
    obtain rfl : p = q := by omega
    exact disjoint_left.1 hdisj ha ha'
  · intro pages hpages h0
    exact (hinv.lent pages hpages 0 h0).1 rfl
  · intro r hr hexact pages hpages
    rw [Set.disjoint_left]
    rintro b ⟨a, ha, hb⟩ hbytes
    obtain ⟨-, p, hp, rfl, -, hres⟩ := hinv.lent pages hpages a ha
    apply hres
    rw [addr, hinv.base] at hb
    exact ⟨hinv.total ▸ hp, r, hr, hexact, b, hb, hbytes⟩

/-- Four pages from `0x2000` with the first one partly reserved: three pages are lent and the
first of them is given back. -/
theorem pmm_runs_four_pages :
    let r : Range := ⟨0x2000, 100, by decide, by decide⟩
    let ops := [.allocPage, .allocPages 2, .freePage 0x3000]
    let l := (boot 0x2000 0x4000 [r]).run ops
    (boot 0x2000 0x4000 [r]).Legal ops ∧ l.held = [{0x4000, 0x5000}, ∅] ∧
      l.state.freePages = l.state.freeSet.card ∧ Disjoint (bytesOf {0x4000, 0x5000}) r.bytes := by
  intro r ops l
  have hlegal : (boot 0x2000 0x4000 [r]).Legal ops := by
    refine ⟨trivial, trivial, .inl ⟨{0x3000}, ?_, ?_⟩, trivial⟩ <;> decide +kernel
  have hheld : l.held = [{0x4000, 0x5000}, ∅] := by decide +kernel
  have h := pmm_runs_sound 0x2000 0x4000 (by decide) (by decide) [r] ops hlegal
  refine ⟨hlegal, hheld, h.1, ?_⟩
  apply h.2.2.2.2.2 r (by simp) (.inl (by decide))
  change _ ∈ l.held
  simp [hheld]

/-- With memory that ends at `2 ^ 64` a reservation that ends inside the last page reserves
nothing there, and the next allocation hands that page out. -/
theorem reserved_last_page_handed_out :
    let r : Range := ⟨2 ^ 64 - 4096, 100, by decide, by decide⟩
    let l := (boot (2 ^ 64 - 4096) 4096 [r]).run [.allocPage]
    l.held = [{2 ^ 64 - 4096}] ∧ ¬ Disjoint (bytesOf {2 ^ 64 - 4096}) r.bytes := by
  intro r l
  refine ⟨by decide +kernel, ?_⟩
  rw [Set.not_disjoint_iff]
  refine ⟨2 ^ 64 - 4096, ⟨2 ^ 64 - 4096, by simp, ?_⟩, ?_⟩
  · simp [pageSize]
  · simp [r, Range.bytes]

/-- The page shares a byte with the reservation, whose end saturates at `2 ^ 64 - 1`. -/
def State.Meets (s : State) (r : Range) (p : ℕ) : Prop :=
  ∃ b ∈ Set.Ico r.start (min (r.start + r.size) (2 ^ 64 - 1)),
    b ∈ Set.Ico (s.addr p) (s.addr p + pageSize)

theorem State.meets_iff {s : State} {r : Range} {p : ℕ} :
    s.Meets r p ↔ r.start < min (r.start + r.size) (2 ^ 64 - 1) ∧
      r.start < s.addr p + pageSize ∧ s.addr p < min (r.start + r.size) (2 ^ 64 - 1) := by
  have hps : pageSize = 4096 := rfl
  constructor
  · rintro ⟨b, ⟨hlo, hhi⟩, hlo', hhi'⟩
    omega
  · intro h
    refine ⟨max r.start (s.addr p), ⟨?_, ?_⟩, ?_, ?_⟩ <;> omega

/-- Whatever was reserved and allocated before, a reservation takes exactly the pages it meets out of
the free set and counts each once, unless it cuts the free page that ends at `2 ^ 64`. -/
theorem reserve_range_exact_iff (memBase memSize : ℕ) (haligned : pageSize ∣ memBase)
    (hfits : memBase + memSize ≤ 2 ^ 64) (reserves : List Range) (ops : List Op)
    (hlegal : (boot memBase memSize reserves).Legal ops) (r : Range) :
    let s := ((boot memBase memSize reserves).run ops).state
    let t := pmmReserveRange s r.start r.size
    t.freePages = t.freeSet.card ∧ ((∀ p, p ∈ t.freeSet ↔ p ∈ s.freeSet ∧ ¬ s.Meets r p) ↔
        ∀ p ∈ s.freeSet, s.Cut (r.start + r.size) p → r.size = 0) := by
  intro s t
  have hs : Valid s := ((boot_inv haligned hfits).run hlegal).valid
  obtain ⟨ht, -, htotal, -⟩ := pmmReserveRange_keeps s r hs
  have hmem (p : ℕ) (hp : p ∈ s.freeSet) : p ∈ t.freeSet ↔
      ¬ (s.Meets r p ∧ ¬ s.Cut (min (r.start + r.size) (2 ^ 64 - 1)) p) := by
    obtain ⟨hlt, hfree⟩ := mem_freeSet.1 hp
    rw [mem_freeSet, htotal, mem_pmmReserveRange_iff hs hlt, meets_iff]
    tauto
  have hsub (p : ℕ) (hp : p ∈ t.freeSet) : p ∈ s.freeSet := by
    obtain ⟨hlt, hfree⟩ := mem_freeSet.1 hp
    rw [htotal] at hlt
    exact mem_freeSet.2 ⟨hlt, ((mem_pmmReserveRange_iff hs hlt).1 hfree).1⟩
  refine ⟨ht.count, fun hexact p hp hcut => ?_, fun hcond p => ⟨fun hp => ?_, fun hp => ?_⟩⟩
  · by_contra hsize
    have hmeets : s.Meets r p := meets_iff.2 (by unfold Cut at hcut; omega)
    have hstop : min (r.start + r.size) (2 ^ 64 - 1) = r.start + r.size := by
      unfold Cut at hcut
      omega
    have hstays := (hmem p hp).2 fun hnot => hnot.2 (by rwa [hstop])
    exact ((hexact p).1 hstays).2 hmeets
  · have hfree := hsub p hp
    refine ⟨hfree, fun hmeets => (hmem p hfree).1 hp ⟨hmeets, fun hcut => ?_⟩⟩
    have hzero := hcond p hfree (by unfold Cut at hcut ⊢; omega)
    have hstart := (meets_iff.1 hmeets).1
    omega
  · exact (hmem p hp.1).2 fun hnot => hp.2 hnot.1

/-- The last byte of one page and the first of the next. -/
def twoBytes : Range := ⟨0x2fff, 2, by decide, by decide⟩

/-- Of four pages from `0x2000` the two bytes take out the first two. -/
theorem reserve_range_two_pages :
    let s := ((boot 0x2000 0x4000 []).run []).state
    let t := pmmReserveRange s twoBytes.start twoBytes.size
    t.freeSet = {2, 3} ∧ t.freePages = t.freeSet.card ∧
      ∀ p, p ∈ t.freeSet ↔ p ∈ s.freeSet ∧ ¬ s.Meets twoBytes p := by
  intro s t
  have h := reserve_range_exact_iff 0x2000 0x4000 (by decide) (by decide) [] [] trivial twoBytes
  refine ⟨by decide +kernel, h.1, h.2.2 fun p _ hcut => ?_⟩
  obtain ⟨hend, hlow, -⟩ := hcut
  have hps : pageSize = 4096 := rfl
  have hstop : twoBytes.start + twoBytes.size = 0x3001 := rfl
  omega

/-- With memory that ends at `2 ^ 64` the last page is met and stays free. -/
theorem cut_page_stays_free :
    let r : Range := ⟨2 ^ 64 - 4096, 100, by decide, by decide⟩
    let s := (boot (2 ^ 64 - 4096) 4096 []).state
    0 ∈ (pmmReserveRange s r.start r.size).freeSet ∧ s.Meets r 0 :=
  ⟨by decide +kernel, meets_iff.2 (by decide +kernel)⟩

end Pmm
