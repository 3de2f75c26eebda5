import ArmoniOS.Lib.ByteBlock
import ArmoniOS.Lib.StoreLog

/-!
Stores of whole blocks into numbered places, and what such a log leaves behind.

A log is described by the blocks it leaves and by the ranges it keeps out of; both survive when logs
are put one after another.
-/
namespace BlockLog

open StoreLog ByteBlock List

variable {κ : Type} {o n w lo hi : ℕ} {vs : List κ} {log log' : Log ℕ κ} {m : ℕ → κ}

/-- The values are stored one after another from place `o` on. -/
def block (o : ℕ) : List κ → Log ℕ κ
  | [] => []
  | v :: vs => (o, v) :: block (o + 1) vs

theorem mem_block {e : ℕ × κ} (h : e ∈ block o vs) : o ≤ e.1 ∧ e.1 < o + vs.length := by
  induction vs generalizing o with
  | nil => cases h
  | cons v vs ih =>
    rw [length_cons]
    rcases mem_cons.mp h with rfl | h
    · omega
    · obtain ⟨hlo, hhi⟩ := ih h
      omega

theorem exists_mem_block {i : ℕ} (hi : i < vs.length) : ∃ e ∈ block o vs, e.1 = o + i := by
  induction vs generalizing o i with
  | nil => cases hi
  | cons v vs ih =>
    cases i with
    | zero => exact ⟨(o, v), mem_cons_self, rfl⟩
    | succ i =>
      obtain ⟨e, he, heq⟩ := ih (Nat.lt_of_succ_lt_succ hi)
      exact ⟨e, mem_cons_of_mem _ he, by omega⟩

/-- Every store lies in `[lo, hi)`. -/
def Within (log : Log ℕ κ) (lo hi : ℕ) : Prop := ∀ e ∈ log, lo ≤ e.1 ∧ e.1 < hi

theorem Within.nil : Within ([] : Log ℕ κ) lo hi := fun _ he => nomatch he

theorem Within.append (h : Within log lo hi) (h' : Within log' lo hi) :
    Within (log ++ log') lo hi := by
  intro e he
  rcases mem_append.mp he with he | he
  · exact h e he
  · exact h' e he

theorem Within.flatMap {ι : Type} {f : ι → Log ℕ κ} {l : List ι}
    (h : ∀ i ∈ l, Within (f i) lo hi) : Within (l.flatMap f) lo hi := by
  intro e he
  obtain ⟨i, hi, he⟩ := mem_flatMap.mp he
  exact h i hi e he

theorem Within.mono {lo' hi' : ℕ} (h : Within log lo hi) (hlo : lo' ≤ lo) (hhi : hi ≤ hi') :
    Within log lo' hi' := by
  intro e he
  obtain ⟨h1, h2⟩ := h e he
  omega

theorem within_block (hlo : lo ≤ o) (hhi : o + vs.length ≤ hi) : Within (block o vs) lo hi := by
  intro e he
  obtain ⟨h1, h2⟩ := mem_block he
  omega

theorem Within.last_eq_none {p : ℕ} (h : Within log lo hi) (hp : p < lo ∨ hi ≤ p) :
    last p log = none := by
  apply last_eq_none_iff.mpr
  intro e he heq
  obtain ⟨h1, h2⟩ := h e he
  omega

/-- The log leaves the values `vs` from place `o` on, whatever was there before. -/
def Leaves (log : Log ℕ κ) (o : ℕ) (vs : List κ) : Prop :=
  ∀ i, (hi : i < vs.length) → last (o + i) log = some vs[i]

theorem leaves_block (o : ℕ) (vs : List κ) : Leaves (block o vs) o vs := by
  induction vs generalizing o with
  | nil =>
    intro i hi
    cases hi
  | cons v vs ih =>
    intro i hi
    rw [block, last]
    cases i with
    | zero =>
      have hnone : last (o + 0) (block (o + 1) vs) = none := by
        apply last_eq_none_iff.mpr
        intro e he heq
        obtain ⟨hle, -⟩ := mem_block he
        omega
      rw [hnone]
      simp
    | succ i =>
      have hstep := ih (o + 1) i (Nat.lt_of_succ_lt_succ hi)
      rw [show o + (i + 1) = o + 1 + i by omega, hstep]
      rfl

theorem Leaves.append_left (h : Leaves log' o vs) : Leaves (log ++ log') o vs := by
  intro i hi
  exact last_append_of_some (h i hi)

theorem Leaves.append_right (h : Leaves log o vs) (hw : Within log' lo hi)
    (hapart : o + vs.length ≤ lo ∨ hi ≤ o) : Leaves (log ++ log') o vs := by
  intro i hi
  rw [last_append_of_none (hw.last_eq_none (by omega))]
  exact h i hi

theorem Leaves.rows {f : ℕ → List κ} (hw : ∀ i < n, (f i).length = w) {i : ℕ} (hi : i < n) :
    Leaves ((range n).flatMap fun j => block (o + w * j) (f j)) (o + w * i) (f i) := by
  induction n with
  | zero => cases hi
  | succ n ih =>
    rw [range_succ, flatMap_append, flatMap_singleton]
    by_cases hlast : i = n
    · subst hlast
      exact (leaves_block _ _).append_left
    · have hlt : i < n := by omega
      have hbefore := ih (fun j hj => hw j (by omega)) hlt
      refine hbefore.append_right (within_block le_rfl le_rfl) (Or.inl ?_)
      rw [hw i hi, Nat.add_assoc]
      apply Nat.add_le_add_left
      calc w * i + w = w * (i + 1) := by ring
        _ ≤ w * n := Nat.mul_le_mul_left w hlt

theorem within_rows {f : ℕ → List κ} (hw : ∀ i < n, (f i).length = w) :
    Within ((range n).flatMap fun j => block (o + w * j) (f j)) o (o + w * n) := by
  apply Within.flatMap
  intro i hi
  have hlt := mem_range.mp hi
  apply within_block
  · exact Nat.le_add_right _ _
  · rw [hw i hlt, Nat.add_assoc]
    apply Nat.add_le_add_left
    calc w * i + w = w * (i + 1) := by ring
      _ ≤ w * n := Nat.mul_le_mul_left w hlt

theorem Leaves.window_eq (h : Leaves log o vs) : window (write m log) o vs.length = vs := by
  apply ext_getElem (window_length _ _)
  intro i hi hi'
  rw [window_getElem, write_apply, h i hi']
  rfl

theorem Within.write_append {p : ℕ} (h : Within log' lo hi) (hp : p < lo ∨ hi ≤ p) :
    write m (log ++ log') p = write m log p := by
  rw [write_apply, write_apply, last_append_of_none (h.last_eq_none hp)]

theorem Within.write_eq {p : ℕ} (h : Within log lo hi) (hp : p < lo ∨ hi ≤ p) :
    write m log p = m p := by
  rw [write_apply, h.last_eq_none hp]
  rfl

end BlockLog
