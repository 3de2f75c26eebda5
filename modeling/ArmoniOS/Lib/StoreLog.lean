import Mathlib.Data.List.Basic

/-! Sequences of stores into a map from places to values. Two sequences that store the same value last
at a place leave the same value there, whatever was in the map before. -/
namespace StoreLog

open List Option

variable {α κ : Type} [DecidableEq α]

abbrev Log (α κ : Type) := List (α × κ)

def write (m : α → κ) : Log α κ → α → κ
  | [] => m
  | (q, v) :: log => write (Function.update m q v) log

def last (p : α) : Log α κ → Option κ
  | [] => none
  | (q, v) :: log => (last p log).orElse fun _ => if q = p then some v else none

section Last
variable {p : α} {v : κ} {log log' : Log α κ}

@[simp] theorem last_nil : last p ([] : Log α κ) = none := rfl

theorem write_apply (m : α → κ) (log : Log α κ) (p : α) : write m log p = (last p log).getD (m p) := by
  induction log generalizing m with
  | nil => rfl
  | cons e log ih =>
    obtain ⟨q, v⟩ := e
    rw [write, ih, last]
    cases last p log with
    | some w => rfl
    | none =>
      by_cases hq : q = p
      · subst hq
        simp
      · rw [Function.update_of_ne (Ne.symm hq)]
        simp [hq]

theorem last_append (p : α) (log log' : Log α κ) :
    last p (log ++ log') = (last p log').orElse fun _ => last p log := by
  induction log with
  | nil => cases h : last p log' <;> simp [h]
  | cons e log ih =>
    rw [cons_append, last, ih, last]
    cases last p log' <;> rfl

theorem last_eq_none_iff : last p log = none ↔ ∀ e ∈ log, e.1 ≠ p := by
  induction log with
  | nil => simp
  | cons e log ih =>
    obtain ⟨q, v⟩ := e
    rw [last, forall_mem_cons]
    cases hlast : last p log with
    | none =>
      rw [hlast] at ih
      by_cases hq : q = p
      · simp [hq]
      · exact ⟨fun _ => ⟨hq, ih.1 rfl⟩, fun _ => by simp [hq]⟩
    | some w =>
      rw [hlast] at ih
      simp only [orElse_some, reduceCtorEq, false_iff, not_and]
      intro _ hall
      exact absurd (ih.2 hall) (by simp)

theorem last_mem (h : last p log = some v) : (p, v) ∈ log := by
  induction log with
  | nil => cases h
  | cons e log ih =>
    obtain ⟨q, w⟩ := e
    rw [last] at h
    cases hlast : last p log with
    | none =>
      rw [hlast, orElse_none] at h
      split at h
      next hq =>
        cases h
        rw [hq]
        exact mem_cons_self
      · cases h
    | some u =>
      rw [hlast, orElse_some] at h
      cases h
      exact mem_cons_of_mem _ (ih hlast)

theorem last_eq_ite {f : α → κ} {C : Prop} [Decidable C] (hval : ∀ e ∈ log, e.2 = f e.1)
    (hdom : (∃ e ∈ log, e.1 = p) ↔ C) : last p log = if C then some (f p) else none := by
  cases hlast : last p log with
  | none =>
    have hno : ¬ C := by
      intro hC
      obtain ⟨e, he, hp⟩ := hdom.2 hC
      exact last_eq_none_iff.1 hlast e he hp
    rw [if_neg hno]
  | some v =>
    have hmem := last_mem hlast
    rw [if_pos (hdom.1 ⟨(p, v), hmem, rfl⟩), show v = f p from hval (p, v) hmem]

theorem mem_of_last_eq_ite {f : α → κ} {P : α → Prop} [DecidablePred P] {e : α × κ}
    (h : ∀ p, last p log = if P p then some (f p) else none) (he : e ∈ log) : P e.1 := by
  by_contra hno
  have hnone : last e.1 log = none := by rw [h, if_neg hno]
  exact last_eq_none_iff.1 hnone e he rfl

theorem last_append_of_none (h : last p log' = none) : last p (log ++ log') = last p log := by
  rw [last_append, h]
  rfl

theorem last_append_of_some (h : last p log' = some v) : last p (log ++ log') = some v := by
  rw [last_append, h]
  rfl

theorem isSome_last_append : (last p (log ++ log')).isSome = ((last p log).isSome || (last p log').isSome) := by
  rw [last_append]
  cases last p log' <;> cases last p log <;> rfl

theorem isSome_last_iff : (last p log).isSome = true ↔ ∃ e ∈ log, e.1 = p := by
  rw [← ne_none_iff_isSome, Ne, last_eq_none_iff]
  simp only [not_forall, not_not, exists_prop]

theorem last_flatMap_none {ι : Type} {f : ι → Log α κ} {l : List ι} (h : ∀ i ∈ l, last p (f i) = none) :
    last p (l.flatMap f) = none := by
  rw [last_eq_none_iff]
  intro e he
  obtain ⟨i, hi, he⟩ := mem_flatMap.1 he
  exact last_eq_none_iff.1 (h i hi) e he

theorem last_flatMap_eq {ι : Type} {f : ι → Log α κ} {l : List ι}
    (h : ∀ i ∈ l, last p (f i) = none ∨ last p (f i) = some v) :
    last p (l.flatMap f) = none ∨ last p (l.flatMap f) = some v := by
  induction l with
  | nil => exact .inl rfl
  | cons i l ih =>
    rw [flatMap_cons]
    rcases ih fun j hj => h j (mem_cons_of_mem i hj) with hnone | hsome
    · rw [last_append_of_none hnone]
      exact h i mem_cons_self
    · exact .inr (last_append_of_some hsome)

theorem isSome_last_flatMap {ι : Type} {f : ι → Log α κ} {l : List ι} {i : ι} (hi : i ∈ l)
    (h : (last p (f i)).isSome = true) : (last p (l.flatMap f)).isSome = true := by
  obtain ⟨e, he, hp⟩ := isSome_last_iff.1 h
  exact isSome_last_iff.2 ⟨e, mem_flatMap.2 ⟨i, hi, he⟩, hp⟩

end Last

/-! ### Restriction to some of the places -/

/-- `log` stores what `log'` does at the places of `C`, and nothing elsewhere. -/
structure Restricts (C : α → Prop) [DecidablePred C] (log log' : Log α κ) : Prop where
  last_eq : ∀ p, last p log = if C p then last p log' else none

section Restricts
variable {C : α → Prop} [DecidablePred C] {log log' log₁ log₁' : Log α κ} {ι : Type}

theorem Restricts.nil (h : ∀ e ∈ log', ¬ C e.1) : Restricts C [] log' := by
  constructor
  intro p
  split
  next hp =>
    symm
    apply last_eq_none_iff.2
    rintro e he rfl
    exact h e he hp
  · rfl

theorem Restricts.self (h : ∀ e ∈ log, C e.1) : Restricts C log log := by
  constructor
  intro p
  split
  · rfl
  next hp =>
    apply last_eq_none_iff.2
    rintro e he rfl
    exact hp (h e he)

theorem Restricts.append (h : Restricts C log log') (h₁ : Restricts C log₁ log₁') :
    Restricts C (log ++ log₁) (log' ++ log₁') := by
  constructor
  intro p
  rw [last_append, last_append, h.last_eq, h₁.last_eq]
  split <;> rfl

theorem Restricts.flatMap {f g : ι → Log α κ} {l : List ι} (h : ∀ i ∈ l, Restricts C (f i) (g i)) :
    Restricts C (l.flatMap f) (l.flatMap g) := by
  induction l with
  | nil => exact .nil (by simp)
  | cons i l ih =>
    apply (h i mem_cons_self).append
    apply ih
    intro j hj
    exact h j (mem_cons_of_mem i hj)

theorem Restricts.ite {c : Prop} [Decidable c] (h : c → Restricts C log log')
    (h₁ : ¬ c → Restricts C log₁ log₁') :
    Restricts C (if c then log else log₁) (if c then log' else log₁') := by
  split
  next hc => exact h hc
  next hc => exact h₁ hc

end Restricts

end StoreLog
