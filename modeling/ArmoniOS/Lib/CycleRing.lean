import ArmoniOS.Lib.IndexRing

/-!
Rings whose entries carry a cycle bit.

The producer writes entry `n` into slot `n % m` with the cycle bit of its lap, and the bit flips from
lap to lap. A consumer that knows how many entries it has read can tell from the bit alone whether the
next one is there.
-/
namespace CycleRing

open IndexRing List

/-- The cycle bit of the lap that entry `n` belongs to. -/
def lapCycle (m n : ℕ) : Bool := n / m % 2 == 0

variable {α : Type*} {m w n k : ℕ}

theorem lapCycle_of_lt (h : n < m) : lapCycle m n = true := by
  simp [lapCycle, Nat.div_eq_of_lt h]

theorem lapCycle_congr (h : n / m = k / m) : lapCycle m n = lapCycle m k := by
  simp [lapCycle, h]

theorem lapCycle_add_lap (hm : 0 < m) (n : ℕ) : lapCycle m (n + m) = !lapCycle m n := by
  unfold lapCycle
  rw [Nat.add_div_right n hm]
  rcases Nat.mod_two_eq_zero_or_one (n / m) with h | h
  · simp [Nat.add_mod, h]
  · simp [Nat.add_mod, h]

theorem lapCycle_succ (hm : 0 < m) (n : ℕ) :
    lapCycle m (n + 1) = if n % m + 1 = m then !lapCycle m n else lapCycle m n := by
  have hlt := Nat.mod_lt n hm
  have hsplit := Nat.div_add_mod n m
  split_ifs with h
  · have hstart : n + 1 = m * (n / m) + m := by omega
    have hlap : lapCycle m (m * (n / m)) = lapCycle m n :=
      lapCycle_congr (Nat.mul_div_cancel_left _ hm)
    rw [hstart, lapCycle_add_lap hm, hlap]
  · apply lapCycle_congr
    apply Nat.div_eq_of_lt_le
    · rw [Nat.mul_comm]
      omega
    · rw [Nat.succ_mul, Nat.mul_comm]
      omega

/-- The slots hold the last `w` entries written, and the slot that is next in turn shows the cycle
bit of the lap before. -/
structure Lapped (m w : ℕ) (slot : ℕ → α × Bool) (entries : List α) : Prop where
  held : ∀ n v, entries[n]? = some v → entries.length ≤ n + w → slot (n % m) = (v, lapCycle m n)
  stale : (slot (entries.length % m)).2 = !lapCycle m entries.length
  fresh : ∀ i < m, entries.length < i → (slot i).2 = false

section Lapped
variable {slot slot' : ℕ → α × Bool} {entries : List α}

theorem Lapped.start (hm : 0 < m) (h : ∀ i < m, (slot i).2 = false) : Lapped m w slot [] where
  held := by simp
  stale := by
    rw [length_nil, Nat.zero_mod, h 0 hm, lapCycle_of_lt hm]
    rfl
  fresh i hi _ := h i hi

section
variable (h : Lapped m w slot entries)
include h

theorem Lapped.narrow {w' : ℕ} (hw : w' ≤ w) : Lapped m w' slot entries where
  held n v hn hlt := h.held n v hn (by omega)
  stale := h.stale
  fresh := h.fresh

theorem Lapped.congr (hm : 0 < m) (hs : ∀ i < m, slot' i = slot i) : Lapped m w slot' entries where
  held n v hn hlt := by
    rw [hs _ (Nat.mod_lt _ hm)]
    exact h.held n v hn hlt
  stale := by
    rw [hs _ (Nat.mod_lt _ hm)]
    exact h.stale
  fresh i hi hlt := by
    rw [hs i hi]
    exact h.fresh i hi hlt

theorem Lapped.scribble (hw : w < m) (hs : ∀ i < m, i ≠ entries.length % m → slot' i = slot i)
    (hc : (slot' (entries.length % m)).2 = (slot (entries.length % m)).2) :
    Lapped m w slot' entries where
  held n v hn hlt := by
    have hlen := (List.getElem?_eq_some_iff.mp hn).1
    rw [hs (n % m) (Nat.mod_lt _ (by omega))]
    · exact h.held n v hn hlt
    · intro heq
      have := eq_of_mod_eq heq hlen.le (by omega)
      omega
  stale := hc.trans h.stale
  fresh i hi hlt := by
    by_cases heq : i = entries.length % m
    · rw [heq, hc, ← heq]
      exact h.fresh i hi hlt
    · rw [hs i hi heq]
      exact h.fresh i hi hlt

theorem Lapped.publish (hw : w + 1 = m) {v : α}
    (hs : ∀ i < m, i ≠ entries.length % m → slot' i = slot i)
    (hv : slot' (entries.length % m) = (v, lapCycle m entries.length)) :
    Lapped m m slot' (entries ++ [v]) where
  held n u hn hlt := by
    rw [length_append, length_singleton] at hlt
    by_cases hlast : n < entries.length
    · rw [getElem?_append_left hlast] at hn
      rw [hs (n % m) (Nat.mod_lt _ (by omega))]
      · exact h.held n u hn (by omega)
      · intro heq
        have := eq_of_mod_eq heq hlast.le (by omega)
        omega
    · have hbound := (List.getElem?_eq_some_iff.mp hn).1
      have hnlen : n = entries.length := by
        rw [length_append, length_singleton] at hbound
        omega
      subst hnlen
      rw [getElem?_append_right le_rfl, Nat.sub_self] at hn
      cases hn
      exact hv
  stale := by
    have hm : 0 < m := by omega
    rw [length_append, length_singleton]
    by_cases hone : m = 1
    · subst hone
      have hslot : (entries.length + 1) % 1 = entries.length % 1 := by omega
      rw [hslot, hv, lapCycle_add_lap Nat.one_pos, Bool.not_not]
    have hne : (entries.length + 1) % m ≠ entries.length % m := by
      intro heq
      have := eq_of_mod_eq heq.symm (by omega) (by omega)
      omega
    rw [hs _ (Nat.mod_lt _ hm) hne]
    by_cases hlap : m ≤ entries.length + 1
    · -- the slot holds the entry of one lap ago
      obtain ⟨n, hn⟩ := Nat.exists_eq_add_of_le' hlap
      have hlen : n < entries.length := by omega
      have hheld := h.held n entries[n] (getElem?_eq_getElem hlen) (by omega)
      rw [hn, Nat.add_mod_right, hheld, lapCycle_add_lap hm, Bool.not_not]
    · rw [Nat.mod_eq_of_lt (by omega), h.fresh _ (by omega) (by omega), lapCycle_of_lt (by omega)]
      rfl
  fresh i hi hlt := by
    rw [length_append, length_singleton] at hlt
    have hne : i ≠ entries.length % m := by
      have := Nat.mod_le entries.length m
      omega
    rw [hs i hi hne]
    exact h.fresh i hi (by omega)

theorem Lapped.cycle_eq_iff (hle : n ≤ entries.length) (hlt : entries.length ≤ n + w) :
    (slot (n % m)).2 = lapCycle m n ↔ n < entries.length := by
  constructor
  · intro hc
    by_contra hn
    have heq : n = entries.length := by omega
    rw [heq, h.stale] at hc
    exact Bool.not_ne_self _ hc
  · intro hn
    rw [h.held n entries[n] (getElem?_eq_getElem hn) hlt]

end

end Lapped

end CycleRing
