import ArmoniOS.Mm.KheapArenas

/-! The layout of the whole heap: the block list is the concatenation of its arenas, one for each
range the page allocator granted. Growing the heap, taking a block and giving one back keep it. -/
namespace Kheap
open DoublyLinked Pmm
open List hiding Disjoint

def blocksOf (arenas : List Arena) : List Block := arenas.flatMap Arena.blocks

def Arena.bytes (A : Arena) : Set ℕ := Set.Ico A.base A.stop

/-- The heap consists of these arenas, one for each range the page allocator granted. -/
structure Layout {σ : Type} (source : PageSource σ) (h : Heap σ) (arenas : List Arena) : Prop where
  lists : h.blocks.Lists (blocksOf arenas)
  good : ∀ A ∈ arenas, A.Good
  granted : arenas.map (fun A => (A.base, A.stop)) =
    (source.granted h.pages).map fun r => (r.1, r.1 + r.2 * pageSize)
  apart : arenas.Pairwise fun A B => Disjoint A.bytes B.bytes
  ids : (arenas.map Arena.id).Nodup
  ids_lt : ∀ A ∈ arenas, A.id < h.nextArenaId
  total : h.totalBytes = (arenas.map fun A => A.stop - A.base - headerSize).sum

section Structure
variable {σ : Type} {source : PageSource σ} {h : Heap σ} {arenas G H : List Arena} {A : Arena}
  {bs : List Block} {x y : Block}

@[simp] theorem blocksOf_append : blocksOf (G ++ H) = blocksOf G ++ blocksOf H :=
  flatMap_append

@[simp] theorem blocksOf_cons : blocksOf (A :: H) = A.blocks ++ blocksOf H := flatMap_cons

theorem mem_blocksOf : x ∈ blocksOf arenas ↔ ∃ A ∈ arenas, x ∈ A.blocks := mem_flatMap

theorem locate (hx : x ∈ blocksOf arenas) :
    ∃ G A H p q, arenas = G ++ A :: H ∧ A.blocks = p ++ x :: q := by
  obtain ⟨A, hA, hxA⟩ := mem_blocksOf.1 hx
  obtain ⟨G, H, rfl⟩ := append_of_mem hA
  obtain ⟨p, q, hblocks⟩ := append_of_mem hxA
  exact ⟨G, A, H, p, q, rfl, hblocks⟩

theorem Layout.good_of_mem (hl : Layout source h arenas) (hx : x ∈ blocksOf arenas) :
    ∃ A ∈ arenas, A.Good ∧ x ∈ A.blocks := by
  obtain ⟨A, hA, hx⟩ := mem_blocksOf.1 hx
  exact ⟨A, hA, hl.good A hA, hx⟩

theorem Layout.refill (hl : Layout source h (G ++ A :: H)) (hgood : (A.refill bs).Good)
    {s : Store Header} (hs : s.Lists (blocksOf G ++ bs ++ blocksOf H)) :
    Layout source { h with blocks := s } (G ++ A.refill bs :: H) := by
  refine ⟨?_, ?_, ?_, ?_, ?_, ?_, ?_⟩
  · simpa [Arena.refill] using hs
  · intro B hB
    rcases mem_append.1 hB with hB | hB
    · exact hl.good B (by simp [hB])
    · rcases mem_cons.1 hB with rfl | hB
      · exact hgood
      · exact hl.good B (by simp [hB])
  · simpa [Arena.refill] using hl.granted
  · simpa [Arena.refill, Arena.bytes, pairwise_append] using hl.apart
  · simpa [Arena.refill] using hl.ids
  · intro B hB
    have hlt := hl.ids_lt
    rcases mem_append.1 hB with hB | hB
    · exact hlt B (by simp [hB])
    · rcases mem_cons.1 hB with rfl | hB
      · exact hlt A (by simp)
      · exact hlt B (by simp [hB])
  · simpa [Arena.refill] using hl.total

theorem Layout.block_apart (hl : Layout source h arenas) (hx : x ∈ blocksOf arenas)
    (hy : y ∈ blocksOf arenas) : x = y ∨ stopOf x ≤ y.1 ∨ stopOf y ≤ x.1 := by
  obtain ⟨A, hA, hgoodA, hx⟩ := hl.good_of_mem hx
  obtain ⟨B, hB, hgoodB, hy⟩ := hl.good_of_mem hy
  by_cases hAB : A = B
  · subst hAB
    exact hgoodA.tiles.apart hx hy
  · have hdisj : Disjoint A.bytes B.bytes := by
      exact hl.apart.forall hA hB hAB
    have hbx := hgoodA.tiles.bounds hx
    have hby := hgoodB.tiles.bounds hy
    have hxlt := lt_stopOf x
    have hylt := lt_stopOf y
    by_contra hcon
    -- the larger of the two start addresses would lie in both arenas
    rw [Set.disjoint_left] at hdisj
    refine hdisj (a := max x.1 y.1) ?_ ?_ <;> simp only [Arena.bytes, Set.mem_Ico] <;> omega

theorem Layout.length_le (hl : Layout source h arenas) : (blocksOf arenas).length ≤ 2 ^ 64 := by
  have hlt : ∀ a ∈ (blocksOf arenas).map Prod.fst, a < 2 ^ 64 := by
    intro a ha
    obtain ⟨x, hx, rfl⟩ := mem_map.1 ha
    obtain ⟨A, -, hgood, hx⟩ := hl.good_of_mem hx
    exact lt_of_lt_of_le (lt_stopOf x) (hgood.block_pos hx).2
  calc (blocksOf arenas).length = ((blocksOf arenas).map Prod.fst).toFinset.card := by
        rw [toFinset_card_of_nodup hl.lists.nodup, length_map]
    _ ≤ (Finset.range (2 ^ 64)).card :=
        Finset.card_le_card fun a ha => Finset.mem_range.2 (hlt a (mem_toFinset.1 ha))
    _ = 2 ^ 64 := Finset.card_range _

end Structure

variable {id addr count : ℕ}

section Growing
variable {σ : Type} {source : PageSource σ} {h : Heap σ} {arenas : List Arena}

theorem pageCountForPayload_spec {size : ℕ} (hpages : pageCountForPayload size ≠ 0) :
    headerSize + size ≤ pageCountForPayload size * pageSize := by
  unfold pageCountForPayload at hpages ⊢
  dsimp only at hpages ⊢
  split at hpages
  next => exact absurd rfl hpages
  next hfits =>
    rw [if_neg hfits]
    split at hpages
    next => exact absurd rfl hpages
    next hround =>
      rw [if_neg hround]
      simp only [pageSize]
      omega

def newArena (id addr pages : ℕ) : Arena :=
  ⟨id, addr, addr + pages * pageSize,
    [(addr, ⟨kheapMagic, blockPayloadCapacity pages, true, id⟩)]⟩

theorem Layout.fresh (hl : Layout source h arenas) (haddr : (source.alloc h.pages count).1 ≠ 0) :
    ∀ A ∈ arenas, Disjoint A.bytes (PageRange.bytes ((source.alloc h.pages count).1, count)) := by
  intro A hA
  have hmem : (A.base, A.stop) ∈ arenas.map fun A => (A.base, A.stop) := mem_map.2 ⟨A, hA, rfl⟩
  rw [hl.granted] at hmem
  obtain ⟨r, hr, heq⟩ := mem_map.1 hmem
  obtain ⟨hbase, hstop⟩ := Prod.mk.inj heq
  have hfresh := (source.fresh h.pages count haddr r hr).symm
  simpa only [Arena.bytes, ← hbase, ← hstop, PageRange.bytes] using hfresh

theorem Layout.withPages (hl : Layout source h arenas) {pages : σ}
    (hgranted : source.granted pages = source.granted h.pages) :
    Layout source { h with pages := pages } arenas :=
  ⟨hl.lists, hl.good, by rw [hgranted]; exact hl.granted, hl.apart, hl.ids, hl.ids_lt, hl.total⟩

theorem Layout.grow (hl : Layout source h arenas)
    (haddr : (source.alloc h.pages count).1 ≠ 0) (hcount : headerSize ≤ count * pageSize) :
    Layout source
      { blocks := h.blocks.append (source.alloc h.pages count).1
          ⟨kheapMagic, blockPayloadCapacity count, true, h.nextArenaId⟩
        totalBytes := h.totalBytes + blockPayloadCapacity count
        nextArenaId := h.nextArenaId + 1
        pages := (source.alloc h.pages count).2 }
      (arenas ++ [newArena h.nextArenaId (source.alloc h.pages count).1 count]) := by
  have hfresh := hl.fresh haddr
  have hgranted := source.granted_alloc h.pages count
  have haligned := source.aligned h.pages count
  have hfits := source.fits h.pages count haddr
  rw [if_neg haddr] at hgranted
  generalize hres : source.alloc h.pages count = res at *
  obtain ⟨addr, rest⟩ := res
  have hnew : addr ∉ (blocksOf arenas).map Prod.fst := by
    intro hmem
    obtain ⟨x, hx, rfl⟩ := mem_map.1 hmem
    obtain ⟨A, hA, hgood, hx⟩ := hl.good_of_mem hx
    have hbounds := hgood.tiles.bounds hx
    have hlt := lt_stopOf x
    have hin : x.1 ∈ A.bytes := ⟨hbounds.1, by omega⟩
    apply Set.disjoint_left.1 (hfresh A hA) hin
    simp only [PageRange.bytes, Set.mem_Ico, headerSize_eq] at hcount ⊢
    omega
  refine ⟨?_, ?_, ?_, ?_, ?_, ?_, ?_⟩
  · simpa [newArena, blocksOf] using hl.lists.append hnew haddr
  · intro A hA
    rcases mem_append.1 hA with hA | hA
    · exact hl.good A hA
    · obtain rfl := mem_singleton.1 hA
      simp only [pageSize, headerSize_eq] at haligned hfits hcount
      refine ⟨by simp [newArena], ?_, ?_, hfits, ?_, ?_, isChain_singleton _⟩
      · simp only [newArena, pageSize]
        omega
      · simp only [newArena, kheapAlign]
        omega
      · simp only [newArena, Tiles, stopOf, blockPayloadCapacity, headerSize_eq, pageSize, true_and]
        omega
      · simp only [newArena, mem_singleton]
        rintro x rfl
        refine ⟨rfl, rfl, ?_⟩
        simp only [kheapAlign, blockPayloadCapacity, headerSize_eq, pageSize]
        omega
  · simp only [map_append, hl.granted, hgranted, newArena, map_cons, map_nil]
  · refine pairwise_append.2 ⟨hl.apart, pairwise_singleton _ _, fun A hA B hB => ?_⟩
    obtain rfl := mem_singleton.1 hB
    exact hfresh A hA
  · rw [map_append, nodup_append_comm]
    refine nodup_cons.2 ⟨fun hmem => ?_, hl.ids⟩
    obtain ⟨A, hA, hid⟩ := mem_map.1 hmem
    exact absurd hid (hl.ids_lt A hA).ne
  · intro A hA
    rcases mem_append.1 hA with hA | hA
    · exact (hl.ids_lt A hA).trans (Nat.lt_succ_self _)
    · obtain rfl := mem_singleton.1 hA
      exact Nat.lt_succ_self _
  · simp only [map_append, sum_append, map_cons, map_nil, sum_singleton,
      hl.total, newArena, blockPayloadCapacity]
    omega

theorem Layout.extendHeap (hl : Layout source h arenas) (size : ℕ) :
    ((extendHeap source h size).1 = 0 ∧ Layout source (extendHeap source h size).2 arenas) ∨
    ∃ addr pages, addr ≠ 0 ∧ (extendHeap source h size).1 = addr ∧
      size ≤ blockPayloadCapacity pages ∧
      Layout source (extendHeap source h size).2
        (arenas ++ [newArena h.nextArenaId addr pages]) := by
  unfold Kheap.extendHeap
  by_cases hpages : pageCountForPayload size = 0
  · simp only [if_pos hpages]
    exact .inl ⟨trivial, hl⟩
  · have hspec := pageCountForPayload_spec hpages
    have hgranted := source.granted_alloc h.pages (pageCountForPayload size)
    simp only [if_neg hpages]
    by_cases haddr : (source.alloc h.pages (pageCountForPayload size)).1 = 0
    · rw [if_pos haddr] at hgranted
      simp only [if_pos haddr]
      exact .inl ⟨trivial, hl.withPages hgranted⟩
    · simp only [if_neg haddr]
      refine .inr ⟨_, _, haddr, rfl, ?_, hl.grow haddr (by omega)⟩
      simp only [blockPayloadCapacity]
      omega

theorem Layout.empty_of_head (hl : Layout source h arenas) (hhead : h.blocks.head = 0) :
    arenas = [] := by
  have hblocks : blocksOf arenas = [] := by
    rw [hl.lists.head] at hhead
    exact (firstAddr_eq_zero_iff hl.lists.pos).1 hhead
  cases arenas with
  | nil => rfl
  | cons A arenas =>
    rw [blocksOf_cons, append_eq_nil_iff] at hblocks
    exact absurd hblocks.1 (hl.good A (by simp)).nonempty

theorem Layout.kheapInit (hl : Layout source h arenas) :
    ∃ arenas', Layout source (if h.blocks.head = 0 then kheapInit source h else h) arenas' ∧
      used (blocksOf arenas') = used (blocksOf arenas) := by
  by_cases hhead : h.blocks.head = 0
  · obtain rfl := hl.empty_of_head hhead
    have hinit : Layout source { h with nextArenaId := 1 } [] :=
      ⟨hl.lists, by simp, hl.granted, hl.apart, hl.ids, by simp, hl.total⟩
    simp only [Kheap.kheapInit, hhead, ne_eq, not_true_eq_false, if_true, if_false]
    rcases hinit.extendHeap 1 with ⟨-, hl'⟩ | ⟨addr, pages, -, -, -, hl'⟩
    · exact ⟨[], hl', rfl⟩
    · exact ⟨_, hl', rfl⟩
  · rw [if_neg hhead]
    exact ⟨arenas, hl, rfl⟩

end Growing

variable {rest xs pre p : List Block}

section Changing
variable {σ : Type} {source : PageSource σ} {h : Heap σ} {arenas : List Arena} {x : Block}
  {size : ℕ}

theorem Layout.take (hl : Layout source h arenas) (hx : x ∈ blocksOf arenas)
    (hfree : x.2.free = true) (hsize : size ≤ x.2.size) (haligned : kheapAlign ∣ size) :
    ∃ arenas' U V header, Layout source { h with blocks := takeBlock h.blocks x.1 size } arenas' ∧
      used (blocksOf arenas) = U ++ V ∧ used (blocksOf arenas') = U ++ (x.1, header) :: V ∧
      size ≤ header.size := by
  obtain ⟨G, A, H, p, q, rfl, hblocks⟩ := locate hx
  have hgood := hl.good A (by simp)
  obtain ⟨hblockPos, hstop⟩ := hgood.block_pos (x := x) (by simp [hblocks])
  have hsplit : blocksOf (G ++ A :: H) = (blocksOf G ++ p) ++ x :: (q ++ blocksOf H) := by
    simp [hblocks]
  have hnew (hlarge : ¬ x.2.size < (size + headerSize + kheapMinSplit) % 2 ^ 64) :
      x.1 + headerSize + size ∉ (blocksOf (G ++ A :: H)).map Prod.fst := by
    -- the new header lies strictly inside the block that is split
    rw [split_test_eq hstop hblockPos hsize] at hlarge
    intro hmem
    obtain ⟨y, hy, heq⟩ := mem_map.1 hmem
    have hlt := lt_stopOf y
    have hxstop : stopOf x = x.1 + headerSize + x.2.size := rfl
    rw [headerSize_eq] at heq hxstop
    rcases hl.block_apart hx hy with rfl | hle | hle <;> omega
  have hlists : (takeBlock h.blocks x.1 size).Lists
      (blocksOf G ++ (p ++ carve x size ++ q) ++ blocksOf H) := by
    have hs := hl.lists
    rw [hsplit] at hs hnew
    simpa using takeBlock_lists hs hnew
  obtain ⟨header, hheader, hused⟩ := used_carve hsize
  refine ⟨_, used (blocksOf G ++ p), used (q ++ blocksOf H), header,
    hl.refill (hgood.take hblocks hfree hsize haligned) hlists, ?_, ?_, hheader⟩
  · rw [hsplit, used_append, used_cons_free hfree]
  · simp [Arena.refill, hused]

section
variable (hrest : ∀ y ∈ rest.head?, x.2.arenaId ≠ y.2.arenaId)
include hrest

theorem mergeNext_of_arena_ne : mergeNext x rest = x :: rest := by
  cases rest with
  | nil => rfl
  | cons y rest => rw [mergeNext, if_neg fun hc => hrest y rfl hc.2.1]

theorem mergeNext_append : mergeNext x (xs ++ rest) = mergeNext x xs ++ rest := by
  cases xs with
  | nil => exact mergeNext_of_arena_ne hrest
  | cons y xs =>
    rw [cons_append, mergeNext, mergeNext]
    split <;> rfl

end

theorem mergeBack_append (p : List Block)
    (hlast : ∀ z ∈ pre, ∀ y ∈ xs.head?, z.2.arenaId ≠ y.2.arenaId) :
    mergeBack (pre ++ p) xs = pre ++ mergeBack p xs := by
  rcases eq_nil_or_concat p with rfl | ⟨p, z, rfl⟩
  · rcases eq_nil_or_concat pre with rfl | ⟨pre, z, rfl⟩
    · rfl
    · have hz := mergeNext_of_arena_ne (hlast z (by simp))
      rw [concat_eq_append, append_nil, mergeBack_concat, hz, ite_self, mergeBack,
        append_assoc, singleton_append]
  · rw [concat_eq_append, ← append_assoc, mergeBack_concat, mergeBack_concat,
      append_assoc]

theorem mergeBack_append_right (hxs : xs ≠ []) :
    mergeBack p (xs ++ rest) = mergeBack p xs ++ rest := by
  obtain ⟨y, xs, rfl⟩ := exists_cons_of_ne_nil hxs
  rcases eq_nil_or_concat p with rfl | ⟨p, z, rfl⟩
  · rfl
  · rw [concat_eq_append, mergeBack_concat, mergeBack_concat, append_assoc]
    congr 1
    split
    · rw [cons_append, mergeNext, mergeNext]
      split <;> rfl
    · rfl

theorem Layout.arena_ne {G H : List Arena} {A : Arena} (hl : Layout source h (G ++ A :: H))
    {y : Block} (hy : y ∈ blocksOf G ∨ y ∈ blocksOf H) : y.2.arenaId ≠ A.id := by
  have hids := hl.ids
  simp only [map_append, map_cons, nodup_append, nodup_cons] at hids
  rcases hy with hy | hy
  · obtain ⟨B, hB, hy⟩ := mem_blocksOf.1 hy
    rw [((hl.good B (by simp [hB])).headers y hy).arena]
    exact hids.2.2 _ (mem_map_of_mem hB) _ (by simp)
  · obtain ⟨B, hB, hy⟩ := mem_blocksOf.1 hy
    rw [((hl.good B (by simp [hB])).headers y hy).arena]
    exact fun heq => hids.2.1.1 (heq ▸ mem_map_of_mem hB)

theorem Layout.release (hl : Layout source h arenas) (hx : x ∈ blocksOf arenas)
    (hused : x.2.free = false) :
    ∃ arenas' U V, Layout source { h with blocks := releaseBlock h.blocks x.1 } arenas' ∧
      used (blocksOf arenas) = U ++ x :: V ∧ used (blocksOf arenas') = U ++ V := by
  obtain ⟨G, A, H, p, q, rfl, hblocks⟩ := locate hx
  have hgood := hl.good A (by simp)
  have hsplit : blocksOf (G ++ A :: H) = (blocksOf G ++ p) ++ x :: (q ++ blocksOf H) := by
    simp [hblocks]
  have hid := (hgood.headers x (by simp [hblocks])).arena
  set x' : Block := (x.1, { x.2 with free := true }) with hx'
  have hright : mergeNext x' (q ++ blocksOf H) = mergeNext x' q ++ blocksOf H := by
    apply mergeNext_append
    intro y hy
    have hne := hl.arena_ne (.inr (mem_of_mem_head? hy))
    exact fun heq => hne (heq.symm.trans hid)
  have hheaders : ∀ y ∈ mergeNext x' q, HeaderOf A.id y := by
    apply headers_mergeNext
    intro y hy
    have hxh := hgood.headers x (by simp [hblocks])
    rcases mem_cons.1 hy with rfl | hy
    · exact ⟨hxh.magic, hxh.arena, hxh.aligned⟩
    · exact hgood.headers y (by simp [hblocks, hy])
  have hleft : mergeBack (blocksOf G ++ p) (mergeNext x' q ++ blocksOf H) =
      blocksOf G ++ mergeBack p (mergeNext x' q) ++ blocksOf H := by
    rw [mergeBack_append_right (mergeNext_ne_nil _ _), mergeBack_append]
    intro z hz y hy
    rw [(hheaders y (mem_of_mem_head? hy)).arena]
    exact hl.arena_ne (.inl hz)
  have hlists : (releaseBlock h.blocks x.1).Lists
      (blocksOf G ++ mergeBack p (mergeNext x' q) ++ blocksOf H) := by
    have hs := hl.lists
    rw [hsplit] at hs
    have hrel := releaseBlock_lists hs
    rwa [← hx', hright, hleft] at hrel
  refine ⟨_, used (blocksOf G ++ p), used (q ++ blocksOf H), hl.refill (hgood.release hblocks) hlists,
    ?_, ?_⟩
  · rw [hsplit, used_append, used_cons_used hused]
  · have hmerged : used (mergeNext x' q) = used q := used_mergeNext rfl
    simp [Arena.refill, used_mergeBack, ← hx', hmerged]

end Changing

end Kheap
