import Mathlib.Data.List.FinRange

/-! Trees laid out in a store of nodes with labelled child references. A node is reached by the
path of labels from the root; the store is a tree of depth `n` when no node is reached by two
paths of at most `n` labels. -/
namespace PathTree

open List Option

variable {α ι : Type} {child child' : α → ι → Option α}

def follow (child : α → ι → Option α) (t : α) : List ι → Option α
  | [] => some t
  | i :: p => (child t i).bind fun c => follow child c p

/-- No node is shared by two paths of length at most `n`. -/
def Unshared (child : α → ι → Option α) (n : ℕ) (root : α) : Prop :=
  ∀ p q t, p.length ≤ n → q.length ≤ n → follow child root p = some t →
    follow child root q = some t → p = q

section Paths
variable {t u c : α} {i j : ι} {p q : List ι} {n : ℕ}

@[simp] theorem follow_nil : follow child t [] = some t := rfl

@[simp] theorem follow_cons :
    follow child t (i :: p) = (child t i).bind fun c => follow child c p := rfl

theorem follow_cons_of_some (hc : child t i = some c) :
    follow child t (i :: p) = follow child c p := by
  rw [follow_cons, hc, bind_some]

theorem follow_append : follow child t (p ++ q) =
    (follow child t p).bind fun u => follow child u q := by
  induction p generalizing t with
  | nil => rfl
  | cons i p ih =>
    simp only [cons_append, follow_cons, bind_assoc]
    congr 1
    funext c
    exact ih

theorem follow_concat (h : follow child t p = some u) : follow child t (p ++ [i]) = child u i := by
  rw [follow_append, h]
  cases hc : child u i <;> simp [hc]

theorem follow_congr (h : ∀ r j rest, p = r ++ j :: rest → ∀ u, follow child t r = some u →
    child' u j = child u j) : follow child' t p = follow child t p := by
  induction p generalizing t with
  | nil => rfl
  | cons i p ih =>
    have hroot := h [] i p rfl t rfl
    simp only [follow_cons, hroot]
    cases hc : child t i with
    | none => rfl
    | some c =>
      apply ih
      rintro r j rest rfl u hu
      exact h (i :: r) j rest rfl u ((follow_cons_of_some hc).trans hu)

theorem Unshared.subtree (h : Unshared child (n + 1) t) (hc : child t i = some c) :
    Unshared child n c := by
  intro p q u hp hq hpu hqu
  have heq : i :: p = i :: q := by
    apply h (i :: p) (i :: q) u (by simpa using hp) (by simpa using hq)
    · exact (follow_cons_of_some hc).trans hpu
    · exact (follow_cons_of_some hc).trans hqu
  exact (cons.inj heq).2

end Paths

/-- `child'` arises from `child` by hanging the childless node `c` under `t` at label `i`. -/
structure Attach (child child' : α → ι → Option α) (t : α) (i : ι) (c : α) : Prop where
  absent : child t i = none
  present : child' t i = some c
  childless : ∀ j, child' c j = none
  other : ∀ u j, u ≠ c → (u ≠ t ∨ j ≠ i) → child' u j = child u j

section Attaching
variable {root t c : α} {i : ι} {p q : List ι} {n : ℕ}

section
variable (h : Attach child child' t i c)
include h

section
variable (hun : Unshared child n root)
include hun

section
variable (hp : follow child root p = some t)
include hp

theorem Attach.follow_other (hpn : p.length ≤ n)
    (hc : ∀ r, r.length ≤ n → follow child root r ≠ some c) (hqn : q.length ≤ n)
    (hq : ¬ p ++ [i] <+: q) : follow child' root q = follow child root q := by
  apply follow_congr
  rintro r j rest rfl u hu
  have hrn : r.length ≤ n := by
    simp only [length_append, length_cons] at hqn
    omega
  have huc : u ≠ c := by
    rintro rfl
    exact hc r hrn hu
  refine h.other u j huc ?_
  by_contra hcon
  simp only [not_or, not_not] at hcon
  obtain ⟨rfl, rfl⟩ := hcon
  obtain rfl := hun p r u hpn hrn hp hu
  exact hq ⟨rest, by simp⟩

theorem Attach.follow_self (hpn : p.length ≤ n)
    (hc : ∀ r, r.length ≤ n → follow child root r ≠ some c) :
    follow child' root (p ++ [i]) = some c := by
  have hroot : follow child' root p = some t := by
    rw [h.follow_other hun hp hpn hc hpn, hp]
    intro hpre
    have hle := hpre.length_le
    simp only [length_append, length_singleton] at hle
    omega
  rw [follow_concat hroot, h.present]

theorem Attach.follow_iff (hpn : p.length < n)
    (hc : ∀ r, r.length ≤ n → follow child root r ≠ some c) (hqn : q.length ≤ n) (u : α) :
    follow child' root q = some u ↔ (q = p ++ [i] ∧ u = c) ∨ follow child root q = some u := by
  have hself := h.follow_self hun hp hpn.le hc
  have hgone (rest : List ι) : follow child root (p ++ [i] ++ rest) = none := by
    rw [follow_append, follow_concat hp, h.absent]
    rfl
  by_cases hq : p ++ [i] <+: q
  · obtain ⟨rest, rfl⟩ := hq
    rw [follow_append, hself, hgone rest]
    cases rest with
    | nil => simp [eq_comm]
    | cons j rest => simp [h.childless]
  · rw [h.follow_other hun hp hpn.le hc hqn hq]
    constructor
    · exact Or.inr
    · rintro (⟨rfl, -⟩ | hu)
      · exact absurd (prefix_refl _) hq
      · exact hu

end

end

end

theorem Unshared.attach (hun : Unshared child n root) (h : Attach child child' t i c)
    (hp : follow child root p = some t) (hpn : p.length < n)
    (hc : ∀ r, r.length ≤ n → follow child root r ≠ some c) : Unshared child' n root := by
  intro q r u hqn hrn hq hr
  rcases (h.follow_iff hun hp hpn hc hqn u).1 hq with ⟨rfl, rfl⟩ | hq
  · rcases (h.follow_iff hun hp hpn hc hrn u).1 hr with ⟨rfl, -⟩ | hr
    · rfl
    · exact absurd hr (hc r hrn)
  · rcases (h.follow_iff hun hp hpn hc hrn u).1 hr with ⟨rfl, rfl⟩ | hr
    · exact absurd hq (hc q hqn)
    · exact hun q r u hqn hrn hq hr

end Attaching

def postorder (child : α → ι → Option α) (labels : List ι) : ℕ → α → List α
  | 0, t => [t]
  | n + 1, t =>
      (labels.flatMap fun i => ((child t i).map (postorder child labels n)).getD []) ++ [t]

section Traversal
variable {labels : List ι} {t u : α} {n : ℕ}

theorem mem_postorder (hlabels : ∀ i, i ∈ labels) :
    u ∈ postorder child labels n t ↔ ∃ p, p.length ≤ n ∧ follow child t p = some u := by
  induction n generalizing t with
  | zero =>
    simp only [postorder, mem_singleton]
    constructor
    · rintro rfl
      exact ⟨[], le_rfl, rfl⟩
    · rintro ⟨p, hp, hu⟩
      obtain rfl := eq_nil_of_length_eq_zero (Nat.le_zero.1 hp)
      exact (some.inj hu).symm
  | succ n ih =>
    simp only [postorder, mem_append, mem_flatMap, mem_singleton]
    constructor
    · rintro (⟨i, -, hi⟩ | rfl)
      · cases hc : child t i with
        | none => simp [hc] at hi
        | some c =>
          obtain ⟨p, hp, hu⟩ := ih.1 (by simpa [hc] using hi)
          exact ⟨i :: p, by simpa using hp, (follow_cons_of_some hc).trans hu⟩
      · exact ⟨[], Nat.zero_le _, rfl⟩
    · rintro ⟨p, hp, hu⟩
      cases p with
      | nil => exact Or.inr (some.inj hu).symm
      | cons i p =>
        cases hc : child t i with
        | none => simp [hc] at hu
        | some c =>
          refine Or.inl ⟨i, hlabels i, ?_⟩
          simp only [hc, map_some, getD_some]
          exact ih.2 ⟨p, by simpa using hp, (follow_cons_of_some hc).symm.trans hu⟩

theorem Unshared.nodup_postorder (hlabels : ∀ i, i ∈ labels) (hnodup : labels.Nodup)
    (h : Unshared child n t) : (postorder child labels n t).Nodup := by
  induction n generalizing t with
  | zero => simp [postorder]
  | succ n ih =>
    have hsub (i : ι) (u : α) (hu : u ∈ ((child t i).map (postorder child labels n)).getD []) :
        ∃ p, p.length ≤ n ∧ follow child t (i :: p) = some u := by
      cases hc : child t i with
      | none => simp [hc] at hu
      | some c =>
        obtain ⟨p, hp, hu⟩ := (mem_postorder hlabels).1 (by simpa [hc] using hu)
        exact ⟨p, hp, (follow_cons_of_some hc).trans hu⟩
    rw [postorder, nodup_append_comm, singleton_append, nodup_cons]
    constructor
    · intro hmem
      obtain ⟨i, -, hi⟩ := mem_flatMap.1 hmem
      obtain ⟨p, hp, hu⟩ := hsub i t hi
      have := h [] (i :: p) t (Nat.zero_le _) (by simpa using hp) rfl hu
      simp at this
    · refine nodup_flatMap.2 ⟨fun i _ => ?_, hnodup.imp fun {i j} hij => ?_⟩
      · cases hc : child t i with
        | none => simp
        | some c => simpa using ih (h.subtree hc)
      · intro u hi hj
        obtain ⟨p, hp, hu⟩ := hsub i u hi
        obtain ⟨q, hq, hu'⟩ := hsub j u hj
        have heq := h (i :: p) (j :: q) u (by simpa using hp) (by simpa using hq) hu hu'
        exact hij (cons.inj heq).1

end Traversal

end PathTree
