import ArmoniOS.Mm.KheapBlocks

/-! Arenas of the heap: runs of blocks that tile a range of memory, no two neighbours both free.
Taking a block and giving it back keep an arena in this shape. -/
namespace Kheap
open DoublyLinked Pmm List

/-- The blocks tile the bytes from `start` to `stop`. -/
def Tiles (start stop : ℕ) : List Block → Prop
  | [] => start = stop
  | x :: xs => x.1 = start ∧ Tiles (stopOf x) stop xs

def Separated (xs : List Block) : Prop := xs.IsChain fun x y => x.2.free = true → y.2.free = false

/-- The header of a block of arena `id`. -/
structure HeaderOf (id : ℕ) (x : Block) : Prop where
  magic : x.2.magic = kheapMagic
  arena : x.2.arenaId = id
  aligned : kheapAlign ∣ x.2.size

def used (xs : List Block) : List Block := xs.filter fun x => !x.2.free

structure Arena where
  id : ℕ
  base : ℕ
  stop : ℕ
  blocks : List Block

structure Arena.Good (A : Arena) : Prop where
  nonempty : A.blocks ≠ []
  pos : pageSize ≤ A.base
  aligned : kheapAlign ∣ A.base
  below : A.stop ≤ 2 ^ 64
  tiles : Tiles A.base A.stop A.blocks
  headers : ∀ x ∈ A.blocks, HeaderOf A.id x
  separated : Separated A.blocks

section Tiling
variable {start stop : ℕ} {xs ys p q : List Block} {x y : Block}

theorem tiles_append : Tiles start stop (xs ++ ys) ↔
    ∃ mid, Tiles start mid xs ∧ Tiles mid stop ys := by
  induction xs generalizing start with
  | nil => simp [Tiles]
  | cons x xs ih => simp [Tiles, ih, and_assoc]

theorem lt_stopOf (x : Block) : x.1 < stopOf x := by
  unfold stopOf
  rw [headerSize_eq]
  omega

section
variable (h : Tiles start stop xs)
include h

theorem Tiles.le : start ≤ stop := by
  induction xs generalizing start with
  | nil => exact h.le
  | cons x xs ih =>
    have hle := ih h.2
    have hlt := lt_stopOf x
    have hstart := h.1
    omega

theorem Tiles.bounds (hx : x ∈ xs) : start ≤ x.1 ∧ stopOf x ≤ stop := by
  induction xs generalizing start with
  | nil => simp at hx
  | cons y xs ih =>
    have hlt := lt_stopOf y
    have hstart := h.1
    rcases mem_cons.1 hx with rfl | hx
    · exact ⟨hstart.ge, Tiles.le h.2⟩
    · have hih := ih h.2 hx
      omega

theorem Tiles.apart (hx : x ∈ xs) (hy : y ∈ xs) : x = y ∨ stopOf x ≤ y.1 ∨ stopOf y ≤ x.1 := by
  induction xs generalizing start with
  | nil => simp at hx
  | cons z xs ih =>
    rcases mem_cons.1 hx with rfl | hx'
    · rcases mem_cons.1 hy with rfl | hy'
      · exact .inl rfl
      · exact .inr (.inl (h.2.bounds hy').1)
    · rcases mem_cons.1 hy with rfl | hy'
      · exact .inr (.inr (h.2.bounds hx').1)
      · exact ih h.2 hx' hy'

theorem Tiles.aligned (hstart : kheapAlign ∣ start) (hsize : ∀ x ∈ xs, kheapAlign ∣ x.2.size)
    (hx : x ∈ xs) : kheapAlign ∣ x.1 := by
  induction xs generalizing start with
  | nil => simp at hx
  | cons y xs ih =>
    rcases mem_cons.1 hx with rfl | hx
    · rwa [h.1]
    · have hy := hsize y (by simp)
      refine ih h.2 ?_ (fun z hz => hsize z (by simp [hz])) hx
      unfold stopOf
      rw [headerSize_eq, h.1]
      simp only [kheapAlign] at hstart hy ⊢
      omega

end

theorem Tiles.replace (h : Tiles start stop (p ++ x :: q)) (hys : Tiles x.1 (stopOf x) ys) :
    Tiles start stop (p ++ ys ++ q) := by
  obtain ⟨mid, hp, hx, hq⟩ := tiles_append.1 h
  rw [append_assoc]
  exact tiles_append.2 ⟨mid, hp, tiles_append.2 ⟨_, hx ▸ hys, hq⟩⟩

theorem Tiles.mergeNext (h : Tiles start stop (x :: xs)) : Tiles start stop (mergeNext x xs) := by
  cases xs with
  | nil => exact h
  | cons y xs =>
    rw [Kheap.mergeNext]
    split
    next hc =>
      refine ⟨h.1, ?_⟩
      have hstop : stopOf (x.1, { x.2 with size := x.2.size + (headerSize + y.2.size) }) =
          stopOf y := by
        have hadj := hc.2.2
        simp only [stopOf] at hadj ⊢
        omega
      rw [hstop]
      exact h.2.2
    next => exact h

theorem Tiles.mergeBack (h : Tiles start stop (p ++ xs)) : Tiles start stop (mergeBack p xs) := by
  induction p generalizing start with
  | nil => exact h
  | cons z p ih =>
    cases p with
    | nil =>
      rw [Kheap.mergeBack]
      split
      · exact Tiles.mergeNext h
      · exact h
    | cons w p => exact ⟨h.1, ih h.2⟩

end Tiling

section Carving
variable {x : Block} {size id : ℕ}

section
variable (hstop : stopOf x ≤ 2 ^ 64)
include hstop

theorem split_test_eq (hx : pageSize ≤ x.1) (hsize : size ≤ x.2.size) :
    (size + headerSize + kheapMinSplit) % 2 ^ 64 = size + 80 := by
  simp only [stopOf, headerSize_eq, kheapMinSplit, pageSize] at hstop hx ⊢
  omega

theorem tiles_carve (hx : pageSize ≤ x.1) (hsize : size ≤ x.2.size) :
    Tiles x.1 (stopOf x) (carve x size) := by
  unfold carve
  rw [split_test_eq hstop hx hsize]
  split
  next => exact ⟨rfl, rfl⟩
  next hlarge =>
    refine ⟨rfl, rfl, ?_⟩
    simp only [Tiles, stopOf, headerSize_eq]
    omega

end

theorem headers_carve (hheader : HeaderOf id x) (haligned : kheapAlign ∣ size) :
    ∀ y ∈ carve x size, HeaderOf id y := by
  intro y hy
  have hblock := hheader.aligned
  unfold carve at hy
  split at hy
  next =>
    obtain rfl := mem_singleton.1 hy
    exact ⟨hheader.magic, hheader.arena, hblock⟩
  next hlarge =>
    rcases mem_cons.1 hy with rfl | hy
    · exact ⟨hheader.magic, hheader.arena, haligned⟩
    · obtain rfl := mem_singleton.1 hy
      refine ⟨rfl, hheader.arena, ?_⟩
      simp only [kheapAlign, headerSize_eq] at haligned hblock ⊢
      omega

theorem used_carve (hsize : size ≤ x.2.size) :
    ∃ header : Header, size ≤ header.size ∧ used (carve x size) = [(x.1, header)] := by
  unfold carve
  split
  · exact ⟨{ x.2 with free := false }, hsize, rfl⟩
  · exact ⟨{ x.2 with size := size, free := false }, le_rfl, rfl⟩

end Carving

section Separation
variable {xs p q : List Block} {x y : Block} {id start stop size : ℕ}

theorem separated_cons : Separated (x :: xs) ↔
    (∀ y ∈ xs.head?, x.2.free = true → y.2.free = false) ∧ Separated xs :=
  isChain_cons

theorem separated_append : Separated (p ++ q) ↔ Separated p ∧ Separated q ∧
    ∀ x ∈ p.getLast?, ∀ y ∈ q.head?, x.2.free = true → y.2.free = false :=
  isChain_append

/-- A free block may be replaced by a used one, with or without a free rest behind it. -/
theorem Separated.carve (h : Separated (p ++ x :: q)) (hx : x.2.free = true) :
    Separated (p ++ carve x size ++ q) := by
  obtain ⟨hp, hq, -⟩ := separated_append.1 h
  obtain ⟨hhead, hq⟩ := separated_cons.1 hq
  rw [append_assoc]
  unfold Kheap.carve
  split
  · refine separated_append.2 ⟨hp, separated_cons.2 ⟨by simp, hq⟩, ?_⟩
    rintro z - y hy -
    obtain rfl : _ = y := by simpa using hy
    rfl
  · refine separated_append.2 ⟨hp, separated_cons.2 ⟨by simp, ?_⟩, ?_⟩
    · exact separated_cons.2 ⟨fun y hy _ => hhead y hy hx, hq⟩
    · rintro z - y hy -
      obtain rfl : _ = y := by simpa using hy
      rfl

theorem headers_mergeNext (hheaders : ∀ y ∈ x :: xs, HeaderOf id y) :
    ∀ y ∈ mergeNext x xs, HeaderOf id y := by
  cases xs with
  | nil => exact hheaders
  | cons z xs =>
    rw [mergeNext]
    split
    next =>
      have hx := hheaders x (by simp)
      have hz := hheaders z (by simp)
      intro y hy
      rcases mem_cons.1 hy with rfl | hy
      · refine ⟨hx.magic, hx.arena, ?_⟩
        have hxa := hx.aligned
        have hza := hz.aligned
        simp only [kheapAlign, headerSize_eq] at hxa hza ⊢
        omega
      · exact hheaders y (by simp [hy])
    next => exact hheaders

theorem headers_mergeBack (hheaders : ∀ y ∈ p ++ xs, HeaderOf id y) :
    ∀ y ∈ mergeBack p xs, HeaderOf id y := by
  induction p with
  | nil => exact hheaders
  | cons z p ih =>
    cases p with
    | nil =>
      rw [mergeBack]
      split
      · exact headers_mergeNext hheaders
      · exact hheaders
    | cons w p =>
      intro y hy
      rcases mem_cons.1 hy with rfl | hy
      · exact hheaders y (by simp)
      · exact ih (fun v hv => hheaders v (mem_cons_of_mem _ hv)) y hy

theorem separated_mergeNext (htiles : Tiles start stop (x :: xs))
    (hheaders : ∀ y ∈ x :: xs, HeaderOf id y) (hsep : Separated xs) :
    Separated (mergeNext x xs) := by
  cases xs with
  | nil => exact isChain_singleton _
  | cons y xs =>
    by_cases hy : y.2.free = true
    · obtain ⟨hhead, hsep⟩ := separated_cons.1 hsep
      have harena := (hheaders x (by simp)).arena.trans (hheaders y (by simp)).arena.symm
      rw [mergeNext, if_pos ⟨hy, harena, htiles.2.1.symm⟩]
      exact separated_cons.2 ⟨fun z hz _ => hhead z hz hy, hsep⟩
    · rw [mergeNext, if_neg fun hc => hy hc.1]
      exact separated_cons.2 ⟨by simp [hy], hsep⟩

theorem mergeBack_head_free (z : Block) (p xs : List Block) :
    ∀ y ∈ (mergeBack (z :: p) xs).head?, y.2.free = z.2.free := by
  cases p with
  | nil =>
    rw [mergeBack]
    split
    · cases xs with
      | nil => simp [mergeNext]
      | cons y xs =>
        rw [mergeNext]
        split <;> simp
    · simp
  | cons w p => simp [mergeBack]

theorem separated_mergeBack (htiles : Tiles start stop (p ++ xs))
    (hheaders : ∀ y ∈ p ++ xs, HeaderOf id y) (hp : Separated p) (hsep : Separated xs) :
    Separated (mergeBack p xs) := by
  induction p generalizing start with
  | nil => exact hsep
  | cons z p ih =>
    cases p with
    | nil =>
      rw [mergeBack]
      split
      next => exact separated_mergeNext htiles hheaders hsep
      next hz => exact separated_cons.2 ⟨by simp [hz], hsep⟩
    | cons w p =>
      obtain ⟨hhead, hp⟩ := separated_cons.1 hp
      have hrest := ih htiles.2 (fun y hy => hheaders y (mem_cons_of_mem _ hy)) hp
      refine separated_cons.2 ⟨fun y hy hz => ?_, hrest⟩
      rw [mergeBack_head_free w p xs y hy]
      exact hhead w (by simp) hz

theorem mergeNext_ne_nil (x : Block) (xs : List Block) : mergeNext x xs ≠ [] := by
  obtain ⟨v, rest, heq⟩ := mergeNext_eq_cons x xs
  simp [heq]

theorem mergeBack_ne_nil (hxs : xs ≠ []) : mergeBack p xs ≠ [] := by
  cases p with
  | nil => exact hxs
  | cons z p =>
    cases p with
    | nil =>
      rw [mergeBack]
      split
      · exact mergeNext_ne_nil z xs
      · simp
    | cons w p => simp [mergeBack]

end Separation

section Used
variable {xs ys p : List Block} {x : Block}

@[simp] theorem used_append : used (xs ++ ys) = used xs ++ used ys := filter_append ..

theorem used_cons_free (hx : x.2.free = true) : used (x :: xs) = used xs := by
  simp [used, hx]

theorem used_cons_used (hx : x.2.free = false) : used (x :: xs) = x :: used xs := by
  simp [used, hx]

theorem used_mergeNext (hx : x.2.free = true) : used (mergeNext x xs) = used xs := by
  cases xs with
  | nil => exact used_cons_free hx
  | cons y xs =>
    rw [mergeNext]
    split
    next hc => rw [used_cons_free hc.1, used_cons_free (by exact hx)]
    next => exact used_cons_free hx

theorem used_mergeBack : used (mergeBack p xs) = used p ++ used xs := by
  induction p with
  | nil => rfl
  | cons z p ih =>
    cases p with
    | nil =>
      rw [mergeBack]
      split
      next hz =>
        rw [used_mergeNext hz, used_cons_free hz]
        rfl
      next hz =>
        have hz : z.2.free = false := by simpa using hz
        rw [used_cons_used hz, used_cons_used hz]
        rfl
    | cons w p =>
      by_cases hz : z.2.free = true
      · rw [mergeBack, used_cons_free hz, used_cons_free hz, ih]
      · have hz : z.2.free = false := by simpa using hz
        rw [mergeBack, used_cons_used hz, used_cons_used hz, ih, cons_append]

theorem mem_used : x ∈ used xs ↔ x ∈ xs ∧ x.2.free = false := by
  simp [used]

end Used

section Arenas
variable {A : Arena} {p q : List Block} {x : Block} {size : ℕ}

def Arena.refill (A : Arena) (blocks : List Block) : Arena := { A with blocks := blocks }

theorem Arena.Good.block_pos (h : A.Good) (hx : x ∈ A.blocks) :
    pageSize ≤ x.1 ∧ stopOf x ≤ 2 ^ 64 :=
  ⟨h.pos.trans (h.tiles.bounds hx).1, (h.tiles.bounds hx).2.trans h.below⟩

theorem Arena.Good.take (h : A.Good) (hblocks : A.blocks = p ++ x :: q) (hfree : x.2.free = true)
    (hsize : size ≤ x.2.size) (haligned : kheapAlign ∣ size) :
    (A.refill (p ++ carve x size ++ q)).Good := by
  have hx : x ∈ A.blocks := by simp [hblocks]
  obtain ⟨hpos, hstop⟩ := h.block_pos hx
  have hcarve := headers_carve (h.headers x hx) haligned
  refine ⟨?_, h.pos, h.aligned, h.below, ?_, ?_, ?_⟩
  · simp only [refill, carve]
    split <;> simp
  · exact (hblocks ▸ h.tiles).replace (tiles_carve hstop hpos hsize)
  · intro y hy
    simp only [refill, mem_append] at hy
    rcases hy with (hy | hy) | hy
    · exact h.headers y (by simp [hblocks, hy])
    · exact hcarve y hy
    · exact h.headers y (by simp [hblocks, hy])
  · exact (hblocks ▸ h.separated).carve hfree

theorem Arena.Good.release (h : A.Good) (hblocks : A.blocks = p ++ x :: q) :
    (A.refill (mergeBack p (mergeNext (x.1, { x.2 with free := true }) q))).Good := by
  have hheaders : ∀ y ∈ p ++ (x.1, { x.2 with free := true }) :: q, HeaderOf A.id y := by
    intro y hy
    have hx := h.headers x (by simp [hblocks])
    simp only [mem_append, mem_cons] at hy
    rcases hy with hy | rfl | hy
    · exact h.headers y (by simp [hblocks, hy])
    · exact ⟨hx.magic, hx.arena, hx.aligned⟩
    · exact h.headers y (by simp [hblocks, hy])
  have htiles : Tiles A.base A.stop (p ++ (x.1, { x.2 with free := true }) :: q) := by
    obtain ⟨mid, hp, hx, hq⟩ := tiles_append.1 (hblocks ▸ h.tiles)
    exact tiles_append.2 ⟨mid, hp, hx, hq⟩
  obtain ⟨mid, hp, hq⟩ := tiles_append.1 htiles
  have hmerged := tiles_append.2 ⟨mid, hp, hq.mergeNext⟩
  have hmergedHeaders : ∀ y ∈ p ++ mergeNext (x.1, { x.2 with free := true }) q,
      HeaderOf A.id y := by
    intro y hy
    rcases mem_append.1 hy with hy | hy
    · exact hheaders y (by simp [hy])
    · exact headers_mergeNext (fun z hz => hheaders z (mem_append_right _ hz)) y hy
  obtain ⟨hsepp, hsepq, -⟩ := separated_append.1 (hblocks ▸ h.separated)
  have hsep := separated_mergeNext hq (fun z hz => hheaders z (mem_append_right _ hz))
    (separated_cons.1 hsepq).2
  exact ⟨mergeBack_ne_nil (mergeNext_ne_nil _ _), h.pos, h.aligned, h.below, hmerged.mergeBack,
    headers_mergeBack hmergedHeaders, separated_mergeBack hmerged hmergedHeaders hsepp hsep⟩

end Arenas

end Kheap
