import ArmoniOS.Lib.ByteBlock

/-! Byte-addressed memory: aligned addresses, ranges, and block copies between ranges that may
overlap. -/
namespace ByteMemory

variable {k n : ℕ}

section Alignment

/-- Clearing the low `k` bits of a `w`-bit word rounds it down to a multiple of `2 ^ k`. -/
theorem and_mask_eq {w y : ℕ} (hk : k ≤ w) (hy : y < 2 ^ w) :
    y &&& (2 ^ w - 1 - (2 ^ k - 1)) = y / 2 ^ k * 2 ^ k := by
  have hpow : 2 ^ (w - k) * 2 ^ k = 2 ^ w := by rw [← pow_add, Nat.sub_add_cancel hk]
  have hmask : 2 ^ w - 1 - (2 ^ k - 1) = (2 ^ (w - k) - 1) <<< k := by
    have hpos : 0 < 2 ^ k := by positivity
    rw [Nat.shiftLeft_eq, Nat.sub_mul, hpow]
    omega
  apply Nat.eq_of_testBit_eq
  intro i
  rw [hmask, ← Nat.shiftRight_eq_div_pow, ← Nat.shiftLeft_eq, Nat.testBit_and,
    Nat.testBit_shiftLeft, Nat.testBit_shiftLeft, Nat.testBit_two_pow_sub_one,
    Nat.testBit_shiftRight]
  by_cases hik : k ≤ i
  · rw [Nat.add_sub_cancel' hik]
    by_cases hiw : i < w
    · simp [hik, show i - k < w - k by omega]
    · have hzero : y.testBit i = false :=
        Nat.testBit_lt_two_pow (hy.trans_le (Nat.pow_le_pow_right (by omega) (by omega)))
      simp [hzero]
  · simp [hik]

theorem exists_pow_of_and_pred (h0 : n ≠ 0) (h : n &&& (n - 1) = 0) : ∃ k, n = 2 ^ k := by
  refine ⟨n.log2, ?_⟩
  by_contra hne
  have hle := Nat.log2_self_le h0
  have hlt : n < 2 ^ (n.log2 + 1) := Nat.lt_log2_self
  have hbit (m : ℕ) (hm : 2 ^ n.log2 ≤ m) (hm' : m < 2 ^ (n.log2 + 1)) :
      m.testBit n.log2 = true := by
    rw [Nat.testBit_eq_decide_div_mod_eq]
    have hdiv : m / 2 ^ n.log2 = 1 := by
      apply Nat.div_eq_of_lt_le
      · omega
      · omega
    simp [hdiv]
  have hboth : (n &&& (n - 1)).testBit n.log2 = true := by
    rw [Nat.testBit_and, hbit n hle hlt, hbit (n - 1) (by omega) (by omega)]
    rfl
  simp [h] at hboth

theorem and_pred_of_pow (k : ℕ) : 2 ^ k &&& (2 ^ k - 1) = 0 := by
  rw [Nat.and_two_pow_sub_one_eq_mod, Nat.mod_self]

/-- The first multiple of `a` from `x` on. -/
def roundUp (x a : ℕ) : ℕ := (x + a - 1) / a * a

variable {x a : ℕ}

theorem dvd_roundUp : a ∣ roundUp x a := Dvd.intro_left _ rfl

theorem le_roundUp (ha : 0 < a) : x ≤ roundUp x a := by
  have h := Nat.div_add_mod (x + a - 1) a
  have hlt := Nat.mod_lt (x + a - 1) ha
  rw [Nat.mul_comm] at h
  unfold roundUp
  omega

end Alignment

/-- The ranges `[p, p + n)` and `[q, q + k)` have no address in common. -/
def Apart (p n q k : ℕ) : Prop := p + n ≤ q ∨ q + k ≤ p
deriving Decidable

theorem Apart.symm {p q : ℕ} (h : Apart p n q k) : Apart q k p n := Or.symm h

abbrev Mem : Type := ℕ → UInt8

def store (m : Mem) (a : ℕ) (v : UInt8) : Mem := Function.update m a v

@[simp] theorem store_self (m : Mem) (a : ℕ) (v : UInt8) : store m a v a = v := by simp [store]

variable {m : Mem}

theorem store_of_ne {a b : ℕ} {v : UInt8} (h : b ≠ a) : store m a v b = m b := by
  simp [store, h]

/-- Copy `n` bytes from `s` to `d`, lowest address first. -/
def copyUp (m : Mem) (d s : ℕ) : ℕ → Mem
  | 0 => m
  | n + 1 => copyUp (store m d (m s)) (d + 1) (s + 1) n

/-- Copy `n` bytes from `s` to `d`, highest address first. -/
def copyDown (m : Mem) (d s : ℕ) : ℕ → Mem
  | 0 => m
  | n + 1 => copyDown (store m (d + n) (m (s + n))) d s n

/-- What a copy should leave: the destination holds the bytes the source held before it. -/
def moved (m : Mem) (d s n : ℕ) : Mem := fun a =>
  if d ≤ a ∧ a < d + n then m (s + (a - d)) else m a

variable {d s : ℕ}

theorem moved_of_apart {a : ℕ} (h : a < d ∨ d + n ≤ a) : moved m d s n a = m a := if_neg (by omega)

theorem moved_add {i : ℕ} (h : i < n) : moved m d s n (d + i) = m (s + i) := by
  unfold moved
  rw [if_pos ⟨by omega, by omega⟩, Nat.add_sub_cancel_left]

theorem copyUp_eq (n : ℕ) (h : d < s) : copyUp m d s n = moved m d s n := by
  induction n generalizing m d s with
  | zero => funext a; exact (moved_of_apart (by omega)).symm
  | succ n ih =>
    rw [copyUp, ih (by omega)]
    funext a
    -- the source bytes still to be copied lie above the byte just stored
    unfold moved
    split_ifs with h1 h2 h3
    · rw [store_of_ne (by omega), show s + 1 + (a - (d + 1)) = s + (a - d) by omega]
    · omega
    · rw [show a = d by omega, store_self, Nat.sub_self, Nat.add_zero]
    · exact store_of_ne (by omega)

theorem copyDown_eq (n : ℕ) (h : s ≤ d) : copyDown m d s n = moved m d s n := by
  induction n generalizing m with
  | zero => funext a; exact (moved_of_apart (by omega)).symm
  | succ n ih =>
    rw [copyDown, ih]
    funext a
    unfold moved
    split_ifs with h1 h2 h3
    · exact store_of_ne (by omega)
    · omega
    · rw [show a = d + n by omega, store_self, Nat.add_sub_cancel_left]
    · exact store_of_ne (by omega)

/-- The bytes `[p, p + n)`. -/
abbrev bytes (m : Mem) (p n : ℕ) : List UInt8 := ByteBlock.window m p n

theorem bytes_moved (m : Mem) (d s n : ℕ) : bytes (moved m d s n) d n = bytes m s n := by
  apply ByteBlock.window_congr
  intro i hi
  exact moved_add hi

theorem bytes_moved_apart {p : ℕ} (h : Apart p k d n) :
    bytes (moved m d s n) p k = bytes m p k := by
  apply ByteBlock.window_congr
  intro i hi
  unfold Apart at h
  exact moved_of_apart (by omega)

theorem bytes_append_moved (m : Mem) (p n s k : ℕ) :
    bytes (moved m (p + n) s k) p (n + k) = bytes m p n ++ bytes m s k := by
  unfold bytes
  rw [ByteBlock.window_add]
  congr 1
  · exact bytes_moved_apart (Or.inl le_rfl)
  · exact bytes_moved m (p + n) s k

theorem bytes_store_apart {a p : ℕ} {v : UInt8} (h : Apart p k a 1) :
    bytes (store m a v) p k = bytes m p k := by
  apply ByteBlock.window_congr
  intro i hi
  unfold Apart at h
  exact store_of_ne (by omega)

end ByteMemory
