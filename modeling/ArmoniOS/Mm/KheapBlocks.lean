import ArmoniOS.Mm.Kheap

/-! The pointer operations of the heap as operations on the list of its blocks, each given by its
address and header. -/
namespace Kheap
open DoublyLinked Pmm List

abbrev Block := ℕ × Header

theorem headerSize_eq : headerSize = 48 := rfl

def stopOf (x : Block) : ℕ := x.1 + headerSize + x.2.size

/-- `coalesce_next` at the front of a list. -/
def mergeNext (x : Block) : List Block → List Block
  | [] => [x]
  | y :: post =>
      if y.2.free = true ∧ x.2.arenaId = y.2.arenaId ∧ stopOf x = y.1 then
        (x.1, { x.2 with size := x.2.size + (headerSize + y.2.size) }) :: post
      else x :: y :: post

/-- The second half of `kfree`: the last block before `rest` takes in the first one of `rest`. -/
def mergeBack : List Block → List Block → List Block
  | [], rest => rest
  | [z], rest => if z.2.free = true then mergeNext z rest else z :: rest
  | z :: w :: pre, rest => z :: mergeBack (w :: pre) rest

/-- The blocks that `kmalloc` leaves in place of the free block `x`. -/
def carve (x : Block) (size : ℕ) : List Block :=
  if x.2.size < (size + headerSize + kheapMinSplit) % 2 ^ 64 then [(x.1, { x.2 with free := false })]
  else
    [(x.1, { x.2 with size := size, free := false }),
      (x.1 + headerSize + size, ⟨kheapMagic, x.2.size - size - headerSize, true, x.2.arenaId⟩)]

/-- A block that `kmalloc` may take. -/
def Fits (size : ℕ) (x : Block) : Bool := x.2.free && decide (size ≤ x.2.size)

section Lists
variable {s : Store Header} {pre post : List Block} {x y : Block} {size fuel : ℕ}

section
variable (h : s.Lists (pre ++ x :: post))
include h

theorem Lists.ne_zero : x.1 ≠ 0 := by
  intro h0
  exact h.pos (by simp [h0])

theorem coalesceNext_lists : (coalesceNext s x.1).Lists (pre ++ mergeNext x post) := by
  have hx := h.mem_eq
  unfold coalesceNext
  cases post with
  | nil =>
    have hnot : ¬ BlocksCanCoalesce s x.1 (s.mem x.1).next := by
      rw [hx]
      exact fun hc => hc.2.1 rfl
    simp only [if_neg hnot]
    exact h
  | cons y post =>
    have h' : s.Lists ((pre ++ [x]) ++ y :: post) := by simpa using h
    have hy := h'.mem_eq
    have hiff : BlocksCanCoalesce s x.1 (s.mem x.1).next ↔
        y.2.free = true ∧ x.2.arenaId = y.2.arenaId ∧ stopOf x = y.1 := by
      simp [BlocksCanCoalesce, BlocksAreAdjacent, stopOf, hx, hy, Lists.ne_zero h, Lists.ne_zero h']
    have hnext : (s.mem x.1).next = y.1 := by rw [hx]; rfl
    simp only [hnext] at hiff ⊢
    by_cases hmerge : y.2.free = true ∧ x.2.arenaId = y.2.arenaId ∧ stopOf x = y.1
    · rw [if_pos (hiff.2 hmerge), mergeNext, if_pos hmerge, hy]
      exact (h.modify _).removeAfter.1
    · rw [if_neg (mt hiff.1 hmerge), mergeNext, if_neg hmerge]
      exact h

theorem takeBlock_lists
    (hnew : ¬ x.2.size < (size + headerSize + kheapMinSplit) % 2 ^ 64 → x.1 + headerSize + size ∉ (pre ++ x :: post).map Prod.fst) :
    (takeBlock s x.1 size).Lists (pre ++ carve x size ++ post) := by
  have hx := h.mem_eq
  unfold takeBlock splitBlock carve
  simp only [hx]
  split
  next => simpa using h.modify fun b => { b with free := false }
  next hlarge =>
    have hne : x.1 + headerSize + size ≠ 0 := by
      have := Lists.ne_zero h
      omega
    have hsplit := h.insertAfter (w := ⟨kheapMagic, x.2.size - size - headerSize, true,
      x.2.arenaId⟩) (hnew hlarge) hne
    simpa using (hsplit.modify fun b => { b with size := size }).modify
      fun b => { b with free := false }

end

theorem mergeNext_eq_cons (x : Block) (post : List Block) :
    ∃ v rest, mergeNext x post = (x.1, v) :: rest := by
  cases post with
  | nil => exact ⟨_, _, rfl⟩
  | cons y post =>
    rw [mergeNext]
    split <;> exact ⟨_, _, rfl⟩

theorem mergeBack_concat (pre : List Block) (z : Block) (rest : List Block) :
    mergeBack (pre ++ [z]) rest = pre ++ if z.2.free = true then mergeNext z rest else z :: rest := by
  induction pre with
  | nil => rfl
  | cons w pre ih =>
    cases pre with
    | nil => rfl
    | cons w' pre => exact congrArg (w :: ·) ih

/-- `kfree` sets the flag, then merges with the next block and then with the previous one. -/
theorem releaseBlock_lists (h : s.Lists (pre ++ x :: post)) : (releaseBlock s x.1).Lists
      (mergeBack pre (mergeNext (x.1, { x.2 with free := true }) post)) := by
  have hmerged := coalesceNext_lists (h.modify fun b => { b with free := true })
  obtain ⟨v, rest, heq⟩ := mergeNext_eq_cons (x.1, { x.2 with free := true }) post
  have hlast := Store.Lists.mem_eq (heq ▸ hmerged)
  unfold releaseBlock
  rcases eq_nil_or_concat pre with rfl | ⟨pre, z, rfl⟩
  · simp only [hlast, lastAddr_nil, ne_eq, not_true_eq_false, false_and, if_false]
    exact hmerged
  · rw [concat_eq_append] at *
    rw [append_assoc, singleton_append] at hmerged
    have hmem := Store.Lists.mem_eq hmerged
    simp only [hlast, lastAddr_append, lastAddr_cons, lastAddr_nil, hmem, mergeBack_concat]
    by_cases hz : z.2.free = true
    · rw [if_pos ⟨Lists.ne_zero hmerged, hz⟩, if_pos hz]
      exact coalesceNext_lists hmerged
    · rw [if_neg fun hc => hz hc.2, if_neg hz]
      exact hmerged

theorem firstFit_eq (h : s.Lists (pre ++ post)) (hfuel : post.length ≤ fuel) :
    firstFit s size fuel (firstAddr 0 post) = ((post.find? (Fits size)).map Prod.fst).getD 0 := by
  induction fuel generalizing pre post with
  | zero =>
    obtain rfl := eq_nil_of_length_eq_zero (Nat.le_zero.1 hfuel)
    rfl
  | succ fuel ih =>
    cases post with
    | nil => rfl
    | cons x post =>
      have hx := h.mem_eq
      have htail := ih (show s.Lists ((pre ++ [x]) ++ post) by simpa using h) (by simpa using hfuel)
      simp only [firstFit, firstAddr_cons, if_neg (Lists.ne_zero h), hx, htail, find?_cons, Fits]
      by_cases hfits : x.2.free = true ∧ size ≤ x.2.size
      · simp [hfits]
      · have hfalse : (x.2.free && decide (size ≤ x.2.size)) = false := by simpa using hfits
        rw [if_neg hfits, hfalse]

theorem sumFree_eq (h : s.Lists (pre ++ post)) (hfuel : post.length ≤ fuel) :
    sumFree s fuel (firstAddr 0 post) =
      ((post.filter fun x => x.2.free).map fun x => x.2.size).sum := by
  induction fuel generalizing pre post with
  | zero =>
    obtain rfl := eq_nil_of_length_eq_zero (Nat.le_zero.1 hfuel)
    rfl
  | succ fuel ih =>
    cases post with
    | nil => rfl
    | cons x post =>
      have hx := h.mem_eq
      have htail := ih (show s.Lists ((pre ++ [x]) ++ post) by simpa using h) (by simpa using hfuel)
      simp only [sumFree, firstAddr_cons, if_neg (Lists.ne_zero h), hx, htail, filter_cons]
      by_cases hfree : x.2.free = true
      · simp [hfree]
      · simp [hfree]

end Lists

end Kheap
