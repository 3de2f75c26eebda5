import Mathlib

/-!
Rings addressed by a running index: entry `n` goes into slot `n % m`, and the index itself is a
16-bit word that wraps. The slots are described by the list of all entries written so far.
-/
namespace IndexRing
open List BitVec

variable {α : Type*} {m w n k : ℕ}

theorem succ_mod (hm : 0 < m) (n : ℕ) : (n + 1) % m = if n % m + 1 = m then 0 else n % m + 1 := by
  have hlt := Nat.mod_lt n hm
  rw [Nat.add_mod]
  split_ifs with h
  · by_cases h1 : m = 1
    · subst h1
      simp [Nat.mod_one]
    · rw [Nat.mod_eq_of_lt (show 1 < m by omega), h, Nat.mod_self]
  · by_cases h1 : m = 1
    · omega
    · rw [Nat.mod_eq_of_lt (show 1 < m by omega), Nat.mod_eq_of_lt (by omega)]

theorem eq_of_mod_eq (h : n % m = k % m) (hle : n ≤ k) (hlt : k < n + m) : n = k := by
  have hdvd : m ∣ k - n := (Nat.modEq_iff_dvd' hle).mp h
  have hzero := Nat.eq_zero_of_dvd_of_lt hdvd (by omega)
  omega

/-! ### The index word -/

/-- The index word behind `n` entries. -/
def word (n : ℕ) : BitVec 16 := BitVec.ofNat 16 n

theorem word_succ (n : ℕ) : word n + 1 = word (n + 1) := by
  simp [word, ofNat_add]

theorem word_toNat_mod (hm : m ∣ 2 ^ 16) (n : ℕ) : (word n).toNat % m = n % m := by
  rw [word, toNat_ofNat, Nat.mod_mod_of_dvd n hm]

theorem word_eq_iff (hle : n ≤ k) (hlt : k < n + 2 ^ 16) : word n = word k ↔ n = k := by
  constructor
  · intro h
    have hmod := congrArg BitVec.toNat h
    exact eq_of_mod_eq hmod hle hlt
  · rintro rfl
    rfl

theorem word_sub (hle : n ≤ k) (hlt : k < n + 2 ^ 16) : (word k - word n).toNat = k - n := by
  obtain ⟨d, rfl⟩ := Nat.exists_eq_add_of_le hle
  have hsum : word (n + d) = word n + word d := BitVec.ofNat_add ..
  rw [hsum, BitVec.add_comm, BitVec.add_sub_cancel, word, BitVec.toNat_ofNat,
    Nat.add_sub_cancel_left]
  exact Nat.mod_eq_of_lt (by omega)

/-! ### The slots -/

/-- The slots hold the last `w` entries. -/
def Recent (m w : ℕ) (slot : ℕ → α) (entries : List α) : Prop :=
  ∀ n v, entries[n]? = some v → entries.length ≤ n + w → slot (n % m) = v

section Recent
variable {slot : ℕ → α} {entries : List α}

section
variable (h : Recent m w slot entries)
include h

theorem Recent.narrow {w' : ℕ} (hw : w' ≤ w) : Recent m w' slot entries := by
  intro n v hn hlen
  exact h n v hn (by omega)

theorem Recent.overwrite (hw : w < m) (v : α) :
    Recent m w (Function.update slot (entries.length % m) v) entries := by
  intro n u hn hlen
  have hlt := (List.getElem?_eq_some_iff.mp hn).1
  have hne : n % m ≠ entries.length % m := by
    intro heq
    have := eq_of_mod_eq heq hlt.le (by omega)
    omega
  rw [Function.update_of_ne hne]
  exact h n u hn hlen

theorem Recent.publish : Recent m (w + 1) slot (entries ++ [slot (entries.length % m)]) := by
  intro n u hn hlen
  rw [length_append, length_singleton] at hlen
  by_cases hlt : n < entries.length
  · rw [getElem?_append_left hlt] at hn
    exact h n u hn (by omega)
  · have hbound := (List.getElem?_eq_some_iff.mp hn).1
    rw [length_append, length_singleton] at hbound
    have heq : n = entries.length := by omega
    subst heq
    rw [getElem?_append_right le_rfl, Nat.sub_self] at hn
    cases hn
    rfl

theorem Recent.read (hn : n ≤ entries.length) (hw : entries.length ≤ n + w) :
    (range (entries.length - n)).map (fun i => slot ((n + i) % m)) = entries.drop n := by
  apply ext_getElem
  · simp
  · intro i hi hi'
    rw [length_map, length_range] at hi
    have hlt : n + i < entries.length := by omega
    have hslot := h (n + i) _ (getElem?_eq_getElem hlt) (by omega)
    simp [hslot]

end

end Recent

end IndexRing
