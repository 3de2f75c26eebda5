import Mathlib.Data.Nat.Basic
import Mathlib.Tactic.Common

/-! One pass search for the first run of `count` consecutive positions satisfying a predicate:
a counter of the current streak, restarted at every position that fails it. -/
namespace RunSearch

/-- The loop from position `page`, with `left` positions to go. -/
def firstRun (free : ℕ → Bool) (count : ℕ) : ℕ → ℕ → ℕ → ℕ → Option ℕ
  | 0, _, _, _ => none
  | left + 1, page, runStart, runCount =>
      if free page then
        let start := if runCount = 0 then page else runStart
        if runCount + 1 = count then some start
        else firstRun free count left (page + 1) start (runCount + 1)
      else firstRun free count left (page + 1) runStart 0

def IsRun (free : ℕ → Bool) (count start : ℕ) : Prop := ∀ i < count, free (start + i) = true

/-- What the loop knows before it looks at `page`: the current streak is free, and no run starts
before it. -/
structure Searching (free : ℕ → Bool) (count page runStart runCount : ℕ) : Prop where
  lt : runCount < count
  le : runCount ≤ page
  start : runCount ≠ 0 → runStart + runCount = page
  streak : ∀ i, page - runCount ≤ i → i < page → free i = true
  before : ∀ r < page - runCount, ¬ IsRun free count r

variable {free : ℕ → Bool} {count page runStart runCount left r : ℕ}

theorem searching_zero (h : 0 < count) : Searching free count 0 runStart 0 where
  lt := h
  le := le_rfl
  start := by simp
  streak := by simp
  before := by simp

section
variable (h : Searching free count page runStart runCount)
include h

theorem Searching.start_eq : (if runCount = 0 then page else runStart) = page - runCount := by
  have hs := h.start
  split <;> omega

theorem Searching.extend (hfree : free page = true) (hne : runCount + 1 ≠ count) :
    Searching free count (page + 1) (page - runCount) (runCount + 1) where
  lt := by have := h.lt; omega
  le := by have := h.le; omega
  start _ := by have := h.le; omega
  streak i hi hlt := by
    rcases Nat.lt_succ_iff_lt_or_eq.1 hlt with hlt | rfl
    · exact h.streak i (by omega) hlt
    · exact hfree
  before r hr := h.before r (by omega)

/-- A position that is not free lies in every run that starts in the streak before it. -/
theorem Searching.restart (hfree : free page = false) :
    Searching free count (page + 1) runStart 0 where
  lt := lt_of_le_of_lt (Nat.zero_le _) h.lt
  le := Nat.zero_le _
  start := by simp
  streak i hi hlt := by omega
  before r hr hrun := by
    by_cases hb : r < page - runCount
    · exact h.before r hb hrun
    · have hlt := h.lt
      have hp := hrun (page - r) (by omega)
      simp only [show r + (page - r) = page by omega, hfree] at hp
      contradiction

theorem Searching.found (hfree : free page = true) (heq : runCount + 1 = count) :
    IsRun free count (page - runCount) := by
  intro i hi
  have hle := h.le
  by_cases hlast : i = runCount
  · simpa only [hlast, Nat.sub_add_cancel hle] using hfree
  · exact h.streak _ (by omega) (by omega)

theorem Searching.result : match firstRun free count left page runStart runCount with
    | some r => r + count ≤ page + left ∧ IsRun free count r ∧ ∀ q < r, ¬ IsRun free count q
    | none => ∀ q, q + count ≤ page + left → ¬ IsRun free count q := by
  induction left generalizing page runStart runCount with
  | zero =>
    intro q hq
    have hlt := h.lt
    exact h.before q (by omega)
  | succ left ih =>
    simp only [firstRun, h.start_eq, show page + (left + 1) = page + 1 + left by omega]
    by_cases hfree : free page = true
    · by_cases heq : runCount + 1 = count
      · have hle := h.le
        simp only [if_pos hfree, if_pos heq]
        exact ⟨by omega, h.found hfree heq, h.before⟩
      · simp only [if_pos hfree, if_neg heq]
        exact ih (h.extend hfree heq)
    · simp only [if_neg hfree]
      exact ih (h.restart (by simpa using hfree))

end

end RunSearch
