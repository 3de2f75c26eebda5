import ArmoniOS.Mm.KheapLayout

/-! Runs of the heap: any sequence of `kmalloc` and `kfree`, with a ledger of the live
allocations and of the pointers freed since the last `kmalloc`. -/
namespace Kheap
open DoublyLinked Pmm List

/-- The live allocations, each with the size asked for, are exactly the blocks in use. -/
structure Owned (live : List (ℕ × ℕ)) (blocks : List Block) : Prop where
  nodup : (live.map Prod.fst).Nodup
  block : ∀ l ∈ live, ∃ x ∈ blocks, l.1 = x.1 + headerSize ∧ l.2 ≤ x.2.size
  owner : ∀ x ∈ blocks, ∃ l ∈ live, l.1 = x.1 + headerSize

section Ownership
variable {live : List (ℕ × ℕ)} {U V : List Block} {a size : ℕ} {header : Header}

theorem Owned.take (h : Owned live (U ++ V)) (ha : a ∉ (U ++ V).map Prod.fst)
    (hsize : size ≤ header.size) :
    Owned ((a + headerSize, size) :: live) (U ++ (a, header) :: V) := by
  refine ⟨nodup_cons.2 ⟨fun hmem => ?_, h.nodup⟩, ?_, ?_⟩
  · obtain ⟨l, hl, heq⟩ := mem_map.1 hmem
    obtain ⟨x, hx, hlx, -⟩ := h.block l hl
    have hxa : x.1 = a := by omega
    exact ha (mem_map.2 ⟨x, hx, hxa⟩)
  · intro l hl
    rcases mem_cons.1 hl with rfl | hl
    · exact ⟨(a, header), by simp, rfl, hsize⟩
    · obtain ⟨x, hx, hlx⟩ := h.block l hl
      refine ⟨x, ?_, hlx⟩
      simp only [mem_append, mem_cons] at hx ⊢
      tauto
  · intro x hx
    simp only [mem_append, mem_cons] at hx
    rcases hx with hx | rfl | hx
    · obtain ⟨l, hl, hlx⟩ := h.owner x (by simp [hx])
      exact ⟨l, by simp [hl], hlx⟩
    · exact ⟨(a + headerSize, size), by simp, rfl⟩
    · obtain ⟨l, hl, hlx⟩ := h.owner x (by simp [hx])
      exact ⟨l, by simp [hl], hlx⟩

theorem Owned.release {x : Block} (h : Owned live (U ++ x :: V))
    (hx : x.1 ∉ (U ++ V).map Prod.fst) :
    Owned (live.filter fun l => l.1 ≠ x.1 + headerSize) (U ++ V) := by
  refine ⟨h.nodup.sublist ((filter_sublist).map _), ?_, ?_⟩
  · intro l hl
    obtain ⟨hl, hne⟩ := mem_filter.1 hl
    obtain ⟨y, hy, hly, hsize⟩ := h.block l hl
    refine ⟨y, ?_, hly, hsize⟩
    simp only [mem_append, mem_cons] at hy ⊢
    rcases hy with hy | rfl | hy
    · exact .inl hy
    · exact absurd hly (by simpa using hne)
    · exact .inr hy
  · intro y hy
    obtain ⟨l, hl, hly⟩ := h.owner y (by simp only [mem_append, mem_cons] at hy ⊢; tauto)
    refine ⟨l, mem_filter.2 ⟨hl, ?_⟩, hly⟩
    have hne : y.1 ≠ x.1 := fun heq => hx (mem_map.2 ⟨y, hy, heq⟩)
    simp only [ne_eq, decide_eq_true_eq]
    omega

end Ownership

/-- The heap with the live allocations (pointer and size asked for) and the pointers freed since
the last `kmalloc`. -/
structure Session (σ : Type) where
  heap : Heap σ
  live : List (ℕ × ℕ)
  freed : List ℕ

/-- The calls of a run; between them the rest of the kernel may use the page allocator. -/
inductive Op (σ : Type) where
  | kmalloc (size : ℕ)
  | kfree (ptr : ℕ)
  | others (pages : σ)

section Runs
variable {σ : Type} (source : PageSource σ)

def Session.step (s : Session σ) : Op σ → Session σ
  | .kmalloc size =>
      let result := kmalloc source s.heap size
      ⟨result.2, if result.1 = 0 then s.live else (result.1, size) :: s.live, []⟩
  | .kfree ptr => ⟨kfree s.heap ptr, s.live.filter fun l => l.1 ≠ ptr, ptr :: s.freed⟩
  | .others pages => { s with heap := { s.heap with pages := pages } }

/-- A size is 64 bits wide; a pointer given to `kfree` is null, live, or was freed with no
`kmalloc` since; the rest of the kernel leaves the granted ranges alone. -/
def Session.Allows (s : Session σ) : Op σ → Prop
  | .kmalloc size => size < 2 ^ 64
  | .kfree ptr => ptr = 0 ∨ ptr ∈ s.live.map Prod.fst ∨ ptr ∈ s.freed
  | .others pages => source.granted pages = source.granted s.heap.pages

def Session.Legal : Session σ → List (Op σ) → Prop
  | _, [] => True
  | s, op :: ops => s.Allows source op ∧ (s.step source op).Legal ops

def Session.run (s : Session σ) (ops : List (Op σ)) : Session σ := ops.foldl (Session.step source) s

def Session.start (mem : ℕ → Node Header) (pages : σ) : Session σ :=
  ⟨⟨⟨mem, 0, 0⟩, 0, 0, pages⟩, [], []⟩

/-- The invariant: a layout whose used blocks are the live allocations, and every pointer freed
since the last `kmalloc` still has a header marked free. -/
structure Session.Inv (s : Session σ) : Prop where
  layout : ∃ arenas, Layout source s.heap arenas ∧ Owned s.live (used (blocksOf arenas))
  stale : ∀ ptr ∈ s.freed, ptr ≠ 0 → (s.heap.blocks.mem (ptr - headerSize)).val.free = true

end Runs

section Steps
variable {σ : Type} {source : PageSource σ} {s : Session σ}

section
variable {h : Heap σ} {arenas : List Arena} (hl : Layout source h arenas)
include hl

theorem used_nodup : ((used (blocksOf arenas)).map Prod.fst).Nodup :=
  hl.lists.nodup.sublist (filter_sublist.map _)

theorem Layout.owned_take {live : List (ℕ × ℕ)} {x : Block} {size asked : ℕ}
    (ho : Owned live (used (blocksOf arenas))) (hx : x ∈ blocksOf arenas) (hfree : x.2.free = true)
    (hsize : size ≤ x.2.size) (haligned : kheapAlign ∣ size) (hasked : asked ≤ size) :
    ∃ arenas', Layout source { h with blocks := takeBlock h.blocks x.1 size } arenas' ∧
      Owned ((x.1 + headerSize, asked) :: live) (used (blocksOf arenas')) := by
  obtain ⟨arenas', U, V, header, hl', hold, hnew, hheader⟩ := hl.take hx hfree hsize haligned
  refine ⟨arenas', hl', ?_⟩
  rw [hold] at ho
  rw [hnew]
  refine ho.take (fun hmem => ?_) (hasked.trans hheader)
  have hnodup := used_nodup hl'
  rw [hnew] at hnodup
  simp only [map_append, map_cons, nodup_append, nodup_cons, mem_cons, mem_append] at hnodup hmem
  rcases hmem with hmem | hmem
  · exact hnodup.2.2 _ hmem _ (.inl rfl) rfl
  · exact hnodup.2.1.1 hmem

theorem Layout.firstFit_cases (size : ℕ) :
    (∃ x ∈ blocksOf arenas, x.2.free = true ∧ size ≤ x.2.size ∧
      firstFit h.blocks size (2 ^ 64) h.blocks.head = x.1) ∨
    firstFit h.blocks size (2 ^ 64) h.blocks.head = 0 := by
  have hlists : h.blocks.Lists ([] ++ blocksOf arenas) := hl.lists
  have heq := @firstFit_eq _ _ _ size _ hlists hl.length_le
  rw [hl.lists.head, heq]
  cases hfind : (blocksOf arenas).find? (Fits size) with
  | none => exact .inr rfl
  | some x =>
    have hfits := find?_some hfind
    simp only [Fits, Bool.and_eq_true, decide_eq_true_eq] at hfits
    exact .inl ⟨x, mem_of_find?_eq_some hfind, hfits.1, hfits.2, rfl⟩

end

theorem alignUp_spec {size : ℕ} (hfits : size ≤ u64Max - (kheapAlign - 1)) :
    kheapAlign ∣ alignUp size ∧ size ≤ alignUp size := by
  simp only [alignUp, u64Max, kheapAlign] at *
  omega

theorem Session.Inv.kmalloc (h : s.Inv source) (size : ℕ) :
    (s.step source (.kmalloc size)).Inv source := by
  obtain ⟨⟨arenas, hl, ho⟩, -⟩ := h
  refine ⟨?_, by simp [step]⟩
  simp only [step]
  unfold Kheap.kmalloc
  by_cases hbad : size = 0 ∨ u64Max - (kheapAlign - 1) < size
  · simp only [if_pos hbad, if_true]
    exact ⟨arenas, hl, ho⟩
  · obtain ⟨hdvd, hle⟩ := alignUp_spec (not_lt.1 fun hlt => hbad (.inr hlt))
    obtain ⟨arenas', hl', hsame⟩ := hl.kheapInit
    simp only [if_neg hbad]
    generalize (if s.heap.blocks.head = 0 then Kheap.kheapInit source s.heap else s.heap) = h at *
    rw [← hsame] at ho
    rcases hl'.firstFit_cases (alignUp size) with ⟨x, hx, hfree, hfit, heq⟩ | heq
    · have hne : x.1 ≠ 0 := fun h0 => hl'.lists.pos (mem_map.2 ⟨x, hx, h0⟩)
      have hptr : x.1 + headerSize ≠ 0 := by omega
      simp only [heq, ne_eq, hne, not_false_eq_true, if_true, hptr, if_false]
      exact hl'.owned_take ho hx hfree hfit hdvd hle
    · simp only [heq, ne_eq, not_true_eq_false, if_false]
      rcases hl'.extendHeap (alignUp size) with ⟨hfail, hl''⟩ | ⟨addr, pages, hne, haddr, hcap, hl''⟩
      · simp only [hfail, if_true]
        exact ⟨arenas', hl'', ho⟩
      · have hptr : addr + headerSize ≠ 0 := by omega
        simp only [haddr, hne, if_false, hptr]
        -- the new arena is one free block
        have ho : Owned s.live (used (blocksOf (arenas' ++ [newArena h.nextArenaId addr pages]))) := by
          simpa [newArena, blocksOf, used] using ho
        refine hl''.owned_take (x := (addr, ⟨kheapMagic, blockPayloadCapacity pages, true,
          h.nextArenaId⟩)) ho ?_ rfl hcap hdvd hle
        simp [newArena, blocksOf]

theorem coalesceNext_val_free (t : Store Header) (a b : ℕ) :
    ((coalesceNext t a).mem b).val.free = (t.mem b).val.free := by
  unfold coalesceNext
  dsimp only
  split
  · rw [Store.removeAfter_val, Store.modify_val]
    split
    next hb => rw [hb]
    next => rfl
  · rfl

theorem releaseBlock_val_free (t : Store Header) (a b : ℕ) :
    ((releaseBlock t a).mem b).val.free = (decide (b = a) || (t.mem b).val.free) := by
  have hfirst : ((coalesceNext (t.modify a fun b => { b with free := true }) a).mem b).val.free =
      (decide (b = a) || (t.mem b).val.free) := by
    rw [coalesceNext_val_free, Store.modify_val]
    split
    next hb => simp [hb]
    next hb => simp [hb]
  unfold releaseBlock
  dsimp only
  split
  · rw [coalesceNext_val_free, hfirst]
  · exact hfirst

theorem kfree_of_free {h : Heap σ} {ptr : ℕ}
    (hfree : ptr ≠ 0 → (h.blocks.mem (ptr - headerSize)).val.free = true) : kfree h ptr = h := by
  unfold Kheap.kfree
  by_cases hptr : ptr = 0
  · rw [if_pos hptr]
  · rw [if_neg hptr]
    dsimp only
    rw [if_pos (hfree hptr), ite_self]

theorem Session.Inv.kfree_live (h : s.Inv source) {ptr : ℕ} (hlive : ptr ∈ s.live.map Prod.fst) :
    (s.step source (.kfree ptr)).Inv source := by
  obtain ⟨⟨arenas, hl, ho⟩, hstale⟩ := h
  obtain ⟨l, hlmem, rfl⟩ := mem_map.1 hlive
  obtain ⟨x, hx, hptr, -⟩ := ho.block l hlmem
  obtain ⟨hxmem, hxused⟩ := mem_used.1 hx
  obtain ⟨arenas', U, V, hl', hold, hnew⟩ := hl.release hxmem hxused
  obtain ⟨pre, post, hsplit⟩ := append_of_mem hxmem
  have hlists := hl.lists
  rw [hsplit] at hlists
  have hmem : (s.heap.blocks.mem x.1).val = x.2 := by rw [hlists.mem_eq]
  have hkfree : kfree s.heap l.1 = { s.heap with blocks := releaseBlock s.heap.blocks x.1 } := by
    obtain ⟨A, -, hgood, hxA⟩ := hl.good_of_mem hxmem
    have hne : l.1 ≠ 0 := by
      rw [hptr, headerSize_eq]
      omega
    have hsub : l.1 - headerSize = x.1 := by omega
    unfold Kheap.kfree
    simp only [if_neg hne, hsub, hmem, (hgood.headers x hxA).magic, hxused, ne_eq,
      not_true_eq_false, if_false, Bool.false_eq_true]
  simp only [step, hkfree]
  constructor
  · refine ⟨arenas', hl', ?_⟩
    have hnodup := used_nodup hl
    rw [hold] at ho hnodup
    rw [hnew, hptr]
    apply ho.release
    simp only [map_append, map_cons, nodup_append, nodup_cons, mem_cons, mem_append] at hnodup ⊢
    rintro (hU | hV)
    · exact hnodup.2.2 _ hU _ (.inl rfl) rfl
    · exact hnodup.2.1.1 hV
  · intro p hp hp0
    rw [releaseBlock_val_free]
    rcases mem_cons.1 hp with rfl | hp
    · have hsub : l.1 - headerSize = x.1 := by omega
      simp [hsub]
    · simp [hstale p hp hp0]

theorem Session.Inv.step (h : s.Inv source) {op : Op σ} (hallows : s.Allows source op) :
    (s.step source op).Inv source := by
  cases op with
  | kmalloc size => exact h.kmalloc size
  | kfree ptr =>
    by_cases hlive : ptr ∈ s.live.map Prod.fst
    · exact h.kfree_live hlive
    · have hfree (hptr : ptr ≠ 0) : (s.heap.blocks.mem (ptr - headerSize)).val.free = true := by
        rcases hallows with h0 | hmem | hfreed
        · exact absurd h0 hptr
        · exact absurd hmem hlive
        · exact h.stale ptr hfreed hptr
      have hfilter : s.live.filter (fun l => l.1 ≠ ptr) = s.live := by
        rw [filter_eq_self]
        intro l hl
        have hne : l.1 ≠ ptr := fun heq => hlive (mem_map.2 ⟨l, hl, heq⟩)
        simpa using hne
      simp only [Session.step, kfree_of_free hfree, hfilter]
      refine ⟨h.layout, fun p hp hp0 => ?_⟩
      rcases mem_cons.1 hp with rfl | hp
      · exact hfree hp0
      · exact h.stale p hp hp0
  | others pages =>
    obtain ⟨⟨arenas, hl, ho⟩, hstale⟩ := h
    exact ⟨⟨arenas, hl.withPages hallows, ho⟩, hstale⟩

theorem Session.Inv.run (h : s.Inv source) {ops : List (Op σ)} (hlegal : s.Legal source ops) :
    (s.run source ops).Inv source := by
  induction ops generalizing s with
  | nil => exact h
  | cons op ops ih => exact ih (h.step hlegal.1) hlegal.2

theorem Session.start_inv (mem : ℕ → Node Header) {pages : σ} (hgranted : source.granted pages = []) :
    (Session.start mem pages).Inv source := by
  refine ⟨⟨[], ⟨?_, by simp, by simp [start, hgranted], List.Pairwise.nil, by simp, by simp, rfl⟩, ?_⟩,
    by simp [start]⟩
  · exact ⟨nodup_nil, by simp [blocksOf], rfl, rfl, trivial⟩
  · exact ⟨nodup_nil, by simp [start], by simp [used, blocksOf]⟩

end Steps

def Heap.payload {σ : Type} (h : Heap σ) (ptr : ℕ) : Set ℕ :=
  Set.Ico ptr (ptr + (h.blocks.mem (ptr - headerSize)).val.size)

section Results
variable {σ : Type} {source : PageSource σ} {h : Heap σ} {arenas : List Arena}
  {live : List (ℕ × ℕ)}

section
variable (hl : Layout source h arenas)
include hl

theorem Layout.mem_val {x : Block} (hx : x ∈ blocksOf arenas) : (h.blocks.mem x.1).val = x.2 := by
  obtain ⟨pre, post, hsplit⟩ := append_of_mem hx
  have hlists := hl.lists
  rw [hsplit] at hlists
  rw [hlists.mem_eq]

theorem Layout.live_payload (ho : Owned live (used (blocksOf arenas))) {l : ℕ × ℕ}
    (hlive : l ∈ live) : kheapAlign ∣ l.1 ∧ Set.Ico l.1 (l.1 + l.2) ⊆ h.payload l.1 := by
  obtain ⟨x, hx, hptr, hsize⟩ := ho.block l hlive
  obtain ⟨hxmem, -⟩ := mem_used.1 hx
  obtain ⟨A, -, hgood, hxA⟩ := hl.good_of_mem hxmem
  have haligned := hgood.tiles.aligned hgood.aligned (fun y hy => (hgood.headers y hy).aligned) hxA
  have hsub : l.1 - headerSize = x.1 := by omega
  constructor
  · rw [hptr, headerSize_eq]
    simp only [kheapAlign] at haligned ⊢
    omega
  · unfold Heap.payload
    rw [hsub, hl.mem_val hxmem]
    exact Set.Ico_subset_Ico_right (by omega)

theorem Layout.payloads_disjoint (ho : Owned live (used (blocksOf arenas))) :
    live.Pairwise fun l l' => Disjoint (h.payload l.1) (h.payload l'.1) := by
  have hne := pairwise_map.1 ho.nodup
  refine hne.imp_of_mem fun {l l'} hlive hlive' hne => ?_
  obtain ⟨x, hx, hptr, -⟩ := ho.block l hlive
  obtain ⟨y, hy, hptr', -⟩ := ho.block l' hlive'
  obtain ⟨hxmem, -⟩ := mem_used.1 hx
  obtain ⟨hymem, -⟩ := mem_used.1 hy
  have hsub : l.1 - headerSize = x.1 := by omega
  have hsub' : l'.1 - headerSize = y.1 := by omega
  unfold Heap.payload
  rw [hsub, hsub', hl.mem_val hxmem, hl.mem_val hymem, Set.disjoint_left]
  intro b hb hb'
  simp only [Set.mem_Ico] at hb hb'
  rcases hl.block_apart hxmem hymem with rfl | hle | hle
  · omega
  · simp only [stopOf] at hle
    omega
  · simp only [stopOf] at hle
    omega

theorem Layout.single_blocks (ho : Owned [] (used (blocksOf arenas))) :
    ∀ A ∈ arenas, ∃ x, A.blocks = [x] ∧ x.2.free = true := by
  intro A hA
  have hgood := hl.good A hA
  have hfree : ∀ x ∈ A.blocks, x.2.free = true := by
    intro x hx
    by_contra hused
    have hmem := mem_used.2 ⟨mem_blocksOf.2 ⟨A, hA, hx⟩, by simpa using hused⟩
    obtain ⟨l, hl, -⟩ := ho.owner x hmem
    simp at hl
  have hsep := hgood.separated
  cases hblocks : A.blocks with
  | nil => exact absurd hblocks hgood.nonempty
  | cons x xs =>
    cases xs with
    | nil => exact ⟨x, rfl, hfree x (by simp [hblocks])⟩
    | cons y xs =>
      rw [hblocks] at hsep
      have hy := (separated_cons.1 hsep).1 y (by simp) (hfree x (by simp [hblocks]))
      simp [hfree y (by simp [hblocks])] at hy

theorem Layout.free_eq_total (ho : Owned [] (used (blocksOf arenas))) :
    kheapFreeBytes h = h.totalBytes := by
  have hsingle := hl.single_blocks ho
  have hlists : h.blocks.Lists ([] ++ blocksOf arenas) := hl.lists
  have hgood := hl.good
  unfold kheapFreeBytes
  rw [hl.lists.head, sumFree_eq hlists hl.length_le, hl.total]
  clear hl hlists ho
  induction arenas with
  | nil => rfl
  | cons A arenas ih =>
    obtain ⟨x, hblocks, hfree⟩ := hsingle A (by simp)
    have htiles := (hgood A (by simp)).tiles
    have hrest := ih (fun B hB => hsingle B (by simp [hB])) fun B hB => hgood B (by simp [hB])
    rw [hblocks] at htiles
    have hsize : x.2.size = A.stop - A.base - headerSize := by
      have hstart := htiles.1
      have hstop : x.1 + headerSize + x.2.size = A.stop := htiles.2
      omega
    simp only [blocksOf_cons, hblocks, singleton_append, filter_cons, hfree, if_true,
      map_cons, sum_cons, hrest, hsize]

end

end Results

/-- Every run keeps one consistent doubly linked list whose blocks tile the granted ranges, no two
neighbours of an arena both free; the live payloads are aligned, large enough and disjoint; and
when nothing is live each arena is a single free block and all bytes are free. -/
theorem kheap_runs_sound {σ : Type} (source : PageSource σ) (mem : ℕ → Node Header) (pages : σ)
    (hgranted : source.granted pages = []) (ops : List (Op σ))
    (hlegal : (Session.start mem pages).Legal source ops) :
    let s := (Session.start mem pages).run source ops
    ∃ arenas : List Arena, s.heap.blocks.Lists (blocksOf arenas) ∧
      arenas.map (fun A => (A.base, A.stop)) =
        (source.granted s.heap.pages).map (fun r => (r.1, r.1 + r.2 * pageSize)) ∧
      (∀ A ∈ arenas, Tiles A.base A.stop A.blocks ∧ (∀ x ∈ A.blocks, x.2.arenaId = A.id) ∧
        Separated A.blocks) ∧
      (∀ l ∈ s.live, 16 ∣ l.1 ∧ Set.Ico l.1 (l.1 + l.2) ⊆ s.heap.payload l.1) ∧
      s.live.Pairwise (fun l l' => Disjoint (s.heap.payload l.1) (s.heap.payload l'.1)) ∧
      (s.live = [] → (∀ A ∈ arenas, ∃ x, A.blocks = [x] ∧ x.2.free = true) ∧
        kheapFreeBytes s.heap = s.heap.totalBytes) := by
  intro s
  have hinv : s.Inv source := (Session.start_inv mem hgranted).run hlegal
  obtain ⟨arenas, hl, ho⟩ := hinv.layout
  refine ⟨arenas, hl.lists, hl.granted, ?_, fun l hlive => hl.live_payload ho hlive,
    hl.payloads_disjoint ho, ?_⟩
  · intro A hA
    have hgood := hl.good A hA
    exact ⟨hgood.tiles, fun x hx => (hgood.headers x hx).arena, hgood.separated⟩
  · intro hlive
    rw [hlive] at ho
    exact ⟨hl.single_blocks ho, hl.free_eq_total ho⟩

/-- The physical page allocator with the ranges it granted to the heap, all of whose pages are
still in use. -/
structure PmmPages where
  state : State
  grants : List PageRange
  valid : Valid state
  inUse : ∀ r ∈ grants, ∃ page, r.1 = state.addr page ∧ ∀ i < r.2, state.isFree (page + i) = false

section Pmm
variable (s : PmmPages) (count : ℕ)

theorem PmmPages.valid_alloc : Valid (pmmAllocPages s.state count).2 := by
  rcases pmmAllocPages_cases s.state count with ⟨start, -, -, heq⟩ | ⟨-, heq⟩
  · rw [heq]
    exact s.valid.foldl_setUsed _
  · rw [heq]
    exact s.valid

def PmmPages.grantsAfter : List PageRange :=
  if (pmmAllocPages s.state count).1 = 0 then s.grants
  else s.grants ++ [((pmmAllocPages s.state count).1, count)]

theorem PmmPages.inUse_alloc : ∀ r ∈ s.grantsAfter count, ∃ page,
    r.1 = (pmmAllocPages s.state count).2.addr page ∧
      ∀ i < r.2, (pmmAllocPages s.state count).2.isFree (page + i) = false := by
  unfold grantsAfter
  rcases pmmAllocPages_cases s.state count with ⟨start, hpos, hleast, heq⟩ | ⟨-, heq⟩
  · have hfree : s.state.isFree start = true := by simpa using hleast.1.2 0 hpos
    have haddr (page : ℕ) : ((range' start count).foldl setUsed s.state).addr page =
        s.state.addr page := by
      simp only [State.addr, (foldl_setUsed_keeps _).1]
    have hused (page : ℕ) (h : s.state.isFree page = false ∨ page ∈ range' start count) :
        ((range' start count).foldl setUsed s.state).isFree page = false := by
      rw [← Bool.not_eq_true, isFree_foldl_setUsed]
      rcases h with h | h <;> simp [h]
    simp only [heq, s.valid.addr_ne_zero hfree, if_false, haddr]
    intro r hr
    rcases mem_append.1 hr with hr | hr
    · obtain ⟨page, hpage, hin⟩ := s.inUse r hr
      exact ⟨page, hpage, fun i hi => hused _ (.inl (hin i hi))⟩
    · obtain rfl := mem_singleton.1 hr
      refine ⟨start, rfl, fun i hi => hused _ (.inr ?_)⟩
      exact mem_range'_1.2 ⟨by omega, by simpa using hi⟩
  · simp only [heq, if_true]
    exact s.inUse

/-- `pmm_alloc_pages` with the grant recorded. -/
def PmmPages.alloc : ℕ × PmmPages :=
  ((pmmAllocPages s.state count).1,
    ⟨(pmmAllocPages s.state count).2, s.grantsAfter count, s.valid_alloc count,
      s.inUse_alloc count⟩)

theorem PmmPages.alloc_aligned : pageSize ∣ (s.alloc count).1 := by
  rcases pmmAllocPages_cases s.state count with ⟨start, -, -, heq⟩ | ⟨-, heq⟩
  · simp only [PmmPages.alloc, heq]
    exact s.valid.addr_aligned
  · simp only [PmmPages.alloc, heq]
    exact Nat.dvd_zero _

theorem PmmPages.alloc_fits (hne : (s.alloc count).1 ≠ 0) :
    (s.alloc count).1 + count * pageSize ≤ 2 ^ 64 := by
  rcases pmmAllocPages_cases s.state count with ⟨start, -, hleast, heq⟩ | ⟨-, heq⟩
  · have hfits := s.valid.fits
    have hle : (start + count) * pageSize ≤ s.state.totalPages * pageSize :=
      Nat.mul_le_mul_right _ hleast.1.1
    simp only [PmmPages.alloc, heq, State.addr]
    rw [Nat.add_mul] at hle
    omega
  · simp [PmmPages.alloc, heq] at hne

theorem PmmPages.alloc_fresh (hne : (s.alloc count).1 ≠ 0) (r : PageRange) (hr : r ∈ s.grants) :
    Disjoint (PageRange.bytes ((s.alloc count).1, count)) r.bytes := by
  rcases pmmAllocPages_cases s.state count with ⟨start, -, hleast, heq⟩ | ⟨-, heq⟩
  · obtain ⟨page, hpage, hin⟩ := s.inUse r hr
    simp only [PmmPages.alloc, heq]
    rw [Set.disjoint_left]
    intro b hb hb'
    simp only [PageRange.bytes, hpage, State.addr, pageSize, Set.mem_Ico] at hb hb'
    -- the page of a common byte would be both free and in use
    have hfree := hleast.1.2 ((b - s.state.memBase) / 4096 - start) (by omega)
    have hused := hin ((b - s.state.memBase) / 4096 - page) (by omega)
    rw [show start + ((b - s.state.memBase) / 4096 - start) = (b - s.state.memBase) / 4096 by
      omega] at hfree
    rw [show page + ((b - s.state.memBase) / 4096 - page) = (b - s.state.memBase) / 4096 by
      omega, hfree] at hused
    simp at hused
  · simp [PmmPages.alloc, heq] at hne

end Pmm

def pmmSource : PageSource PmmPages where
  alloc := PmmPages.alloc
  granted := PmmPages.grants
  granted_alloc _ _ := rfl
  aligned := PmmPages.alloc_aligned
  fits := PmmPages.alloc_fits
  fresh := PmmPages.alloc_fresh

/-- Eight pages from `0x2000`: two allocations in two arenas, one of them freed twice. -/
theorem kheap_runs_two_arenas :
    let start : Session PmmPages := Session.start (fun _ => ⟨⟨0, 0, false, 0⟩, 0, 0⟩)
      ⟨pmmInit 0x2000 0x8000, [], pmmInit_valid (by decide) (by decide), by simp⟩
    let ops := [.kmalloc 100, .kmalloc 5000, .kfree 0x2030, .kfree 0x2030, .kfree 0x3030]
    start.Legal pmmSource ops ∧ (start.run pmmSource ops).heap.totalBytes = 12192 ∧
      kheapFreeBytes (start.run pmmSource ops).heap = (start.run pmmSource ops).heap.totalBytes := by
  intro start ops
  have hlegal : start.Legal pmmSource ops := by
    refine ⟨?_, ?_, ?_, ?_, ?_, trivial⟩
    · exact (by decide : 100 < 2 ^ 64)
    · exact (by decide : 5000 < 2 ^ 64)
    · exact .inr (.inl (by decide +kernel))
    · exact .inr (.inr (by decide +kernel))
    · exact .inr (.inl (by decide +kernel))
  obtain ⟨arenas, -, -, -, -, -, hall⟩ := kheap_runs_sound pmmSource _ _ rfl ops hlegal
  exact ⟨hlegal, by decide +kernel, (hall (by decide +kernel)).2⟩

end Kheap
