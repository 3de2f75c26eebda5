import Mathlib

/-! The line between two grid points with integer error terms. The loop ends at the second point, and no
point on the way leaves the box of the two. -/
namespace GridLine
open List

/-- The points from `(x, y)` on, with the error term `err`; `dx` and `-dy` are the distances of the end
points, and `sx` and `sy` the directions. -/
def pointsFrom (dx dy sx sy x1 y1 : ℤ) : ℕ → ℤ → ℤ → ℤ → List (ℤ × ℤ)
  | 0, _, _, _ => []
  | n + 1, x, y, err =>
    (x, y) ::
      if x = x1 ∧ y = y1 then []
      else
        let e2 := 2 * err
        let errX := if dy ≤ e2 then err + dy else err
        let x := if dy ≤ e2 then x + sx else x
        let errY := if e2 ≤ dx then errX + dx else errX
        let y := if e2 ≤ dx then y + sy else y
        pointsFrom dx dy sx sy x1 y1 n x y errY

/-- The points from `(x0, y0)` to `(x1, y1)`. -/
def points (x0 y0 x1 y1 : ℤ) : List (ℤ × ℤ) :=
  let dx := |x1 - x0|
  let dy := -|y1 - y0|
  pointsFrom dx dy (if x0 < x1 then 1 else -1) (if y0 < y1 then 1 else -1) x1 y1
    ((dx - dy).toNat + 1) x0 y0 (dx + dy)

/-- The state of the loop with `a` steps to go in one direction and `b` in the other. -/
structure Rest (dx dy sx sy x1 y1 x y err : ℤ) (a b : ℕ) : Prop where
  x : x = x1 - sx * a
  y : y = y1 - sy * b
  a_le : (a : ℤ) ≤ dx
  b_le : (b : ℤ) ≤ -dy
  err : err = dx * (1 - dy - b) + dy * (1 + dx - a)

section Loop
variable {dx dy sx sy x1 y1 x y err : ℤ} {a b : ℕ}

section
variable (h : Rest dx dy sx sy x1 y1 x y err a b)
include h

section
variable (hmore : ¬ (a = 0 ∧ b = 0))
include hmore

theorem Rest.x_step (he : dy ≤ 2 * err) : 0 < a := by
  by_contra ha
  have ha0 : a = 0 := by omega
  subst ha0
  have hb : (1 : ℤ) ≤ b := by omega
  have hdx : (0 : ℤ) ≤ dx := by simpa using h.a_le
  have herr := h.err
  have hb_le := h.b_le
  rw [herr] at he
  push_cast at he
  nlinarith

theorem Rest.y_step (he : 2 * err ≤ dx) : 0 < b := by
  by_contra hb
  have hb0 : b = 0 := by omega
  subst hb0
  have ha : (1 : ℤ) ≤ a := by omega
  have hdy : dy ≤ 0 := by simpa using h.b_le
  have herr := h.err
  have ha_le := h.a_le
  rw [herr] at he
  push_cast at he
  nlinarith

theorem Rest.next : ∃ a' ≤ a, ∃ b' ≤ b, a' + b' < a + b ∧
      Rest dx dy sx sy x1 y1 (if dy ≤ 2 * err then x + sx else x) (if 2 * err ≤ dx then y + sy else y)
        (if 2 * err ≤ dx then (if dy ≤ 2 * err then err + dy else err) + dx
          else if dy ≤ 2 * err then err + dy else err) a' b' := by
  have ha_le := h.a_le
  have hb_le := h.b_le
  by_cases hx : dy ≤ 2 * err
  · have ha := h.x_step hmore hx
    have hcast : ((a - 1 : ℕ) : ℤ) = a - 1 := by omega
    by_cases hy : 2 * err ≤ dx
    · have hb := h.y_step hmore hy
      have hcast' : ((b - 1 : ℕ) : ℤ) = b - 1 := by omega
      refine ⟨a - 1, by omega, b - 1, by omega, by omega, ?_⟩
      rw [if_pos hx, if_pos hy, if_pos hy, if_pos hx]
      constructor
      · rw [h.x, hcast]; ring
      · rw [h.y, hcast']; ring
      · omega
      · omega
      · rw [h.err, hcast, hcast']; ring
    · refine ⟨a - 1, by omega, b, le_rfl, by omega, ?_⟩
      rw [if_pos hx, if_neg hy, if_neg hy, if_pos hx]
      constructor
      · rw [h.x, hcast]; ring
      · exact h.y
      · omega
      · omega
      · rw [h.err, hcast]; ring
  · have hy : 2 * err ≤ dx := by omega
    have hb := h.y_step hmore hy
    have hcast : ((b - 1 : ℕ) : ℤ) = b - 1 := by omega
    refine ⟨a, le_rfl, b - 1, by omega, by omega, ?_⟩
    rw [if_neg hx, if_pos hy, if_pos hy, if_neg hx]
    constructor
    · exact h.x
    · rw [h.y, hcast]; ring
    · omega
    · omega
    · rw [h.err, hcast]; ring

end

end

/-- With enough rounds the loop reaches the second point, and every point lies between. -/
theorem pointsFrom_spec (hsx : sx ≠ 0) (hsy : sy ≠ 0) (n : ℕ)
    (h : Rest dx dy sx sy x1 y1 x y err a b) (hn : a + b < n) :
    (x1, y1) ∈ pointsFrom dx dy sx sy x1 y1 n x y err ∧
    ∀ p ∈ pointsFrom dx dy sx sy x1 y1 n x y err,
      ∃ a' ≤ a, ∃ b' ≤ b, p = (x1 - sx * a', y1 - sy * b') := by
  induction n generalizing x y err a b with
  | zero => omega
  | succ n ih =>
    rw [pointsFrom]
    have hhead : ∃ a' ≤ a, ∃ b' ≤ b, (x, y) = (x1 - sx * a', y1 - sy * b') :=
      ⟨a, le_rfl, b, le_rfl, by rw [h.x, h.y]⟩
    by_cases hend : a = 0 ∧ b = 0
    · have hx : x = x1 := by rw [h.x, hend.1]; simp
      have hy : y = y1 := by rw [h.y, hend.2]; simp
      rw [if_pos ⟨hx, hy⟩]
      refine ⟨by rw [hx, hy]; exact mem_singleton_self _, fun p hp => ?_⟩
      rw [mem_singleton.1 hp]
      exact hhead
    · have hgo : ¬ (x = x1 ∧ y = y1) := by
        rintro ⟨hx, hy⟩
        have ha : sx * (a : ℤ) = 0 := by have := h.x; omega
        have hb : sy * (b : ℤ) = 0 := by have := h.y; omega
        simp only [mul_eq_zero, hsx, hsy, false_or, Nat.cast_eq_zero] at ha hb
        exact hend ⟨ha, hb⟩
      obtain ⟨a', ha', b', hb', hlt, hrest⟩ := h.next hend
      obtain ⟨hreach, hbetween⟩ := ih hrest (by omega)
      rw [if_neg hgo]
      refine ⟨mem_cons_of_mem _ hreach, fun p hp => ?_⟩
      rcases mem_cons.1 hp with rfl | hp
      · exact hhead
      · obtain ⟨a'', ha'', b'', hb'', rfl⟩ := hbetween p hp
        exact ⟨a'', ha''.trans ha', b'', hb''.trans hb', rfl⟩

end Loop

theorem points_spec (x0 y0 x1 y1 : ℤ) : (x1, y1) ∈ points x0 y0 x1 y1 ∧
    ∀ p ∈ points x0 y0 x1 y1, (min x0 x1 ≤ p.1 ∧ p.1 ≤ max x0 x1) ∧ min y0 y1 ≤ p.2 ∧ p.2 ≤ max y0 y1 := by
  have hx := abs_nonneg (x1 - x0)
  have hy := abs_nonneg (y1 - y0)
  -- The direction times the distance is the difference of the end points.
  have hside (u v : ℤ) : (if u < v then 1 else -1) * |v - u| = v - u := by
    split
    next huv => rw [abs_of_pos (by omega), one_mul]
    next huv => rw [abs_of_nonpos (by omega), neg_mul_neg, one_mul]
  have hstart : Rest |x1 - x0| (-|y1 - y0|) (if x0 < x1 then 1 else -1) (if y0 < y1 then 1 else -1)
      x1 y1 x0 y0 (|x1 - x0| + -|y1 - y0|) |x1 - x0|.toNat |y1 - y0|.toNat := by
    constructor
    · rw [Int.toNat_of_nonneg hx, hside]; ring
    · rw [Int.toNat_of_nonneg hy, hside]; ring
    · omega
    · omega
    · rw [Int.toNat_of_nonneg hx, Int.toNat_of_nonneg hy]; ring
  have hsign (c : Prop) [Decidable c] : (if c then (1 : ℤ) else -1) ≠ 0 := by split <;> decide
  obtain ⟨hreach, hbetween⟩ := pointsFrom_spec (hsign _) (hsign _)
    ((|x1 - x0| - -|y1 - y0|).toNat + 1) hstart (by omega)
  refine ⟨hreach, fun p hp => ?_⟩
  obtain ⟨a, ha, b, hb, rfl⟩ := hbetween p hp
  have hxa : (a : ℤ) ≤ |x1 - x0| := by omega
  have hyb : (b : ℤ) ≤ |y1 - y0| := by omega
  have hinside (u v : ℤ) (k : ℕ) (hk : (k : ℤ) ≤ |v - u|) :
      min u v ≤ v - (if u < v then 1 else -1) * k ∧ v - (if u < v then 1 else -1) * k ≤ max u v := by
    split
    next huv =>
      rw [abs_of_pos (by omega)] at hk
      omega
    next huv =>
      rw [abs_of_nonpos (by omega)] at hk
      omega
  exact ⟨hinside x0 x1 a hxa, hinside y0 y1 b hyb⟩

end GridLine
