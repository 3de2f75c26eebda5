import Mathlib

/-! Chains in a successor table: `next` stores for every cell either its successor or an end
marker, and a chain is a list of cells each storing the one after it. -/
namespace LinkedChain

open List

variable {α : Type*} {next next' : α → α} {stop : α → Prop}

/-- Every cell of the list stores the following one and the last cell stores an end marker. -/
def Linked (next : α → α) (stop : α → Prop) : List α → Prop
  | [] => True
  | [a] => stop (next a)
  | a :: b :: l => next a = b ∧ Linked next stop (b :: l)

variable {a : α} {l : List α}

theorem Linked.tail (h : Linked next stop (a :: l)) : Linked next stop l := by
  cases l with
  | nil => trivial
  | cons b l => exact h.2

theorem Linked.suffix {l₁ l₂ : List α} (h : Linked next stop (l₁ ++ l₂)) : Linked next stop l₂ := by
  induction l₁ with
  | nil => exact h
  | cons a l₁ ih => exact ih h.tail

theorem linked_congr (h : ∀ a ∈ l, next' a = next a) :
    Linked next' stop l ↔ Linked next stop l := by
  induction l with
  | nil => rfl
  | cons a l ih =>
    have ha := h a (by simp)
    have ih := ih fun b hb => h b (by simp [hb])
    cases l with
    | nil => simp only [Linked, ha]
    | cons b l => simp only [Linked, ha, ih]

theorem Linked.next_mem (h : Linked next stop l) (ha : a ∈ l) : next a ∈ l ∨ stop (next a) := by
  induction l with
  | nil => simp at ha
  | cons b l ih =>
    cases l with
    | nil =>
      obtain rfl : a = b := by simpa using ha
      exact Or.inr h
    | cons c l =>
      rcases mem_cons.mp ha with rfl | ha
      · exact Or.inl (by simp [h.1])
      · rcases ih h.2 ha with hm | hs
        · exact Or.inl (mem_cons_of_mem _ hm)
        · exact Or.inr hs

theorem Linked.unique {l' : List α} (h : Linked next stop (a :: l))
    (h' : Linked next stop (a :: l')) (hl : ∀ b ∈ l, ¬ stop b) (hl' : ∀ b ∈ l', ¬ stop b) :
    l = l' := by
  induction l generalizing a l' with
  | nil =>
    cases l' with
    | nil => rfl
    | cons b l' =>
      have hs : stop (next a) := h
      rw [h'.1] at hs
      exact absurd hs (hl' b (by simp))
  | cons b l ih =>
    cases l' with
    | nil =>
      have hs : stop (next a) := h'
      rw [h.1] at hs
      exact absurd hs (hl b (by simp))
    | cons b' l' =>
      obtain rfl : b = b' := h.1.symm.trans h'.1
      rw [ih h.2 h'.2 (fun c hc => hl c (by simp [hc])) fun c hc => hl' c (by simp [hc])]

theorem Linked.nodup (h : Linked next stop l) (hl : ∀ b ∈ l, ¬ stop b) : l.Nodup := by
  induction l with
  | nil => exact nodup_nil
  | cons a l ih =>
    refine nodup_cons.mpr ⟨fun ha => ?_, ih h.tail fun b hb => hl b (by simp [hb])⟩
    obtain ⟨l₁, l₂, rfl⟩ := append_of_mem ha
    have h₂ := h.tail.suffix
    have heq := h.unique h₂ (fun b hb => hl b (by simp [hb])) fun b hb => hl b (by simp [hb])
    have hlen := congrArg length heq
    simp only [length_append, length_cons] at hlen
    omega

variable {b : α}

theorem Linked.snoc {z : α} (h : Linked next stop (l ++ [z])) (hz : next' z = b)
    (hb : stop (next' b)) (hsame : ∀ a ∈ l, next' a = next a) :
    Linked next' stop (l ++ [z, b]) := by
  induction l with
  | nil => exact ⟨hz, hb⟩
  | cons a l ih =>
    have ha := hsame a (by simp)
    have ih := ih h.tail fun c hc => hsame c (by simp [hc])
    cases l with
    | nil => exact ⟨ha.trans h.1, ih⟩
    | cons c l => exact ⟨ha.trans h.1, ih⟩

/-- The cells met on following the table from `a` for as long as they are cells. -/
inductive Reach (next : α → α) (cell : α → Prop) (a : α) : α → Prop
  | start (h : cell a) : Reach next cell a a
  | next {b : α} (hb : Reach next cell a b) (h : cell (next b)) : Reach next cell a (next b)

variable {cell : α → Prop}

theorem Reach.head_cell (h : Reach next cell a b) : cell a := by
  induction h with
  | start h => exact h
  | next _ _ ih => exact ih

theorem Reach.tail (h : Reach next cell (next a) b) (ha : cell a) : Reach next cell a b := by
  induction h with
  | start h => exact .next (.start ha) h
  | next _ h ih => exact .next ih h

theorem Linked.mem_of_reach (h : Linked next stop (a :: l)) (hcell : ∀ x, cell x → ¬ stop x)
    (hb : Reach next cell a b) : b ∈ a :: l := by
  induction hb with
  | start _ => exact mem_cons_self
  | next _ hx ih => exact (h.next_mem ih).resolve_right (hcell _ hx)

theorem Linked.reach_last {z : α} (h : Linked next stop (l ++ [z])) (ha : (l ++ [z]).head? = some a)
    (hcell : ∀ x ∈ l ++ [z], cell x) (hsame : ∀ x ∈ l, next' x = next x) :
    Reach next' cell a z := by
  induction l generalizing a with
  | nil =>
    obtain rfl : z = a := by simpa using ha
    exact .start (hcell z (by simp))
  | cons b l ih =>
    obtain rfl : b = a := by simpa using ha
    obtain ⟨c, hc⟩ : ∃ c, (l ++ [z]).head? = some c := by cases l <;> simp
    have hbc : next' b = c := by
      rw [hsame b (by simp)]
      cases l with
      | nil =>
        obtain rfl : z = c := by simpa using hc
        exact h.1
      | cons d l =>
        obtain rfl : d = c := by simpa using hc
        exact h.1
    have htail := ih h.tail hc (fun x hx => hcell x (mem_cons_of_mem _ hx))
      fun x hx => hsame x (by simp [hx])
    rw [← hbc] at htail
    exact htail.tail (hcell b (by simp))

end LinkedChain
