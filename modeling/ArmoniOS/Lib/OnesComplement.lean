import Mathlib

/-! One's-complement sums over the values up to `b`: a sum beyond `b` carries its excess around. -/
namespace OnesComplement

variable {b : ℕ}

def add (b x y : ℕ) : ℕ := if b < x + y then x + y - b else x + y

def sum (b : ℕ) (l : List ℕ) : ℕ := l.foldl (add b) 0

theorem add_spec {x y : ℕ} (hx : x ≤ b) (hy : y ≤ b) :
    add b x y ≤ b ∧ add b x y ≡ x + y [MOD b] ∧ (add b x y = 0 → x + y = 0) := by
  unfold add
  split_ifs with h
  · refine ⟨by omega, ?_, by omega⟩
    exact (Nat.modEq_iff_dvd' (Nat.sub_le _ _)).mpr ⟨1, by omega⟩
  · exact ⟨not_lt.mp h, rfl, id⟩

theorem foldl_spec (l : List ℕ) {x : ℕ} (hx : x ≤ b) (h : ∀ y ∈ l, y ≤ b) :
    l.foldl (add b) x ≤ b ∧ l.foldl (add b) x ≡ x + l.sum [MOD b] ∧
      (l.foldl (add b) x = 0 → x + l.sum = 0) := by
  induction l generalizing x with
  | nil => exact ⟨hx, rfl, id⟩
  | cons y l ih =>
    obtain ⟨hle, hmod, hzero⟩ := add_spec hx (h y List.mem_cons_self)
    obtain ⟨hle', hmod', hzero'⟩ := ih hle fun z hz => h z (List.mem_cons_of_mem _ hz)
    rw [List.foldl_cons, List.sum_cons]
    refine ⟨hle', hmod'.trans ?_, fun h0 => ?_⟩
    · rw [← Nat.add_assoc]
      exact hmod.add_right _
    · have := hzero' h0
      have := hzero (by omega)
      omega

/-- Words that add up to a nonzero multiple of `b` have `b` as their sum, the other zero. -/
theorem sum_eq_self {l : List ℕ} (h : ∀ y ∈ l, y ≤ b) (hdvd : b ∣ l.sum) (h0 : l.sum ≠ 0) :
    sum b l = b := by
  obtain ⟨hle, hmod, hzero⟩ := foldl_spec l (Nat.zero_le b) h
  rw [Nat.zero_add] at hmod hzero
  have hdvd' : b ∣ sum b l := (hmod.dvd_iff dvd_rfl).mpr hdvd
  exact Nat.le_antisymm hle (Nat.le_of_dvd (Nat.pos_of_ne_zero fun h => h0 (hzero h)) hdvd')

end OnesComplement
