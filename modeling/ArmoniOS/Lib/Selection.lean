import Mathlib.Data.Option.Basic
import Mathlib.Tactic.Common

/-! Loops that keep the best candidate found so far. -/
namespace Selection
open List

variable {ι : Type*} {step : Option ι → ι → Option ι} {P : ι → Prop} {r : ι → ι → Prop}

/-- A round keeps the candidate or takes the new entry, which has to satisfy `P`; what it keeps is
at least as good, in the order `r`, as both. -/
structure Selects (step : Option ι → ι → Option ι) (P : ι → Prop) (r : ι → ι → Prop) : Prop where
  source : ∀ best i, ∀ b ∈ step best i, b ∈ best ∨ b = i ∧ P i
  best : ∀ best i, ∀ j, j ∈ best ∨ j = i ∧ P i → ∃ b ∈ step best i, r b j

theorem Selects.foldl (h : Selects step P r) (hrefl : ∀ a, r a a)
    (htrans : ∀ {a b c}, r a b → r b c → r a c) (entries : List ι) (best : Option ι) :
    (∀ b ∈ entries.foldl step best, b ∈ best ∨ P b) ∧
      ∀ j, j ∈ best ∨ j ∈ entries ∧ P j → ∃ b ∈ entries.foldl step best, r b j := by
  induction entries generalizing best with
  | nil =>
    refine ⟨fun b hb => .inl hb, ?_⟩
    rintro j (hj | ⟨hj, -⟩)
    · exact ⟨j, hj, hrefl j⟩
    · cases hj
  | cons i entries ih =>
    obtain ⟨hsource, hbest⟩ := ih (step best i)
    constructor
    · intro b hb
      rcases hsource b hb with hb | hb
      · exact (h.source best i b hb).imp_right fun ⟨hbi, hi⟩ => hbi ▸ hi
      · exact .inr hb
    · intro j hj
      have hround : (∃ b ∈ step best i, r b j) ∨ j ∈ entries ∧ P j := by
        rcases hj with hj | ⟨hj, hP⟩
        · exact .inl (h.best best i j (.inl hj))
        · rcases mem_cons.mp hj with rfl | hj
          · exact .inl (h.best best j j (.inr ⟨rfl, hP⟩))
          · exact .inr ⟨hj, hP⟩
      rcases hround with ⟨b, hb, hle⟩ | hrest
      · obtain ⟨b', hb', hle'⟩ := hbest b (.inl hb)
        exact ⟨b', hb', htrans hle' hle⟩
      · exact hbest j (.inr hrest)

/-- Over all entries the loop finds one satisfying `P` that is as good as every other, or there is
none. -/
theorem Selects.all (h : Selects step P r) (hrefl : ∀ a, r a a)
    (htrans : ∀ {a b c}, r a b → r b c → r a c) {entries : List ι} (hall : ∀ j, j ∈ entries) :
    (∀ b ∈ entries.foldl step none, P b ∧ ∀ j, P j → r b j) ∧
      (entries.foldl step none = none → ∀ j, ¬ P j) := by
  obtain ⟨hsource, hbest⟩ := h.foldl hrefl htrans entries none
  constructor
  · intro b hb
    refine ⟨(hsource b hb).resolve_left (by simp), fun j hj => ?_⟩
    obtain ⟨b', hb', hle⟩ := hbest j (.inr ⟨hall j, hj⟩)
    rwa [Option.mem_unique hb hb']
  · intro hnone j hj
    obtain ⟨b, hb, -⟩ := hbest j (.inr ⟨hall j, hj⟩)
    rw [hnone] at hb
    cases hb

end Selection
