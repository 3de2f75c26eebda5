import ArmoniOS.Lib.ByteMemory

/-! `kli_utoa` and `kli_itoa` of `libkarm/string.c`. The digits are pushed on a small array, the last
one first, and popped into the caller's buffer as far as it reaches. -/
namespace Libkarm
open ByteMemory List

/-- The loop over the digits with `room` cells of the array free; its head is the cell written last. -/
def pushDigits (value : ℕ) : ℕ → List UInt8 → List UInt8
  | 0, tmp => tmp
  | room + 1, tmp =>
    if 0 < value then pushDigits (value / 10) room (UInt8.ofNat (48 + value % 10) :: tmp) else tmp

/-- `char tmp[24]` after the digits of the value are in it. -/
def digitsOf (value : BitVec 64) : List UInt8 :=
  if value = 0 then [48] else pushDigits value.toNat 24 []

/-- The loop that empties the array into the buffer, and the NUL behind it. -/
def popDigits (buf size : ℕ) (m : Mem) (out : ℕ) : List UInt8 → ℕ × Mem
  | [] => (out, store m (buf + out) 0)
  | c :: tmp =>
    if out + 1 < size then popDigits buf size (store m (buf + out) c) (out + 1) tmp
    else (out, store m (buf + out) 0)

def kliUtoa (value : BitVec 64) (buf size : ℕ) (m : Mem) : ℕ × Mem :=
  if size = 0 then (0, m) else popDigits buf size m 0 (digitsOf value)

def kliItoa (value : BitVec 64) (buf size : ℕ) (m : Mem) : ℕ × Mem :=
  let negative := value.toInt < 0
  if size = 0 then (0, m)
  else
    let magnitude := if negative then ~~~value + 1 else value
    if negative ∧ 0 + 1 < size then popDigits buf size (store m (buf + 0) 45) 1 (digitsOf magnitude)
    else popDigits buf size m 0 (digitsOf magnitude)

/-- The characters of a text as bytes. -/
def chars (s : String) : List UInt8 := s.toList.map fun c => UInt8.ofNat c.toNat

/-- A call leaves the text in the buffer, cut to what it holds, and returns the length of that. -/
structure Leaves (text : List UInt8) (buf size : ℕ) (m : Mem) (r : ℕ × Mem) : Prop where
  count : r.1 = min text.length (size - 1)
  text : bytes r.2 buf r.1 = text.take r.1
  nul : r.2 (buf + r.1) = 0
  kept : ∀ a, a < buf ∨ buf + size ≤ a → r.2 a = m a

/-! ### The digits -/

theorem chars_repr (n : ℕ) : chars (toString n) =
    (if n < 10 then [] else chars (toString (n / 10))) ++ [UInt8.ofNat (48 + n % 10)] := by
  have hlast {d : ℕ} (h : d < 10) : UInt8.ofNat (Nat.digitChar d).toNat = UInt8.ofNat (48 + d) := by
    interval_cases d <;> rfl
  simp only [chars, Nat.toString_eq_repr, Nat.repr, String.toList_ofList]
  rw [Nat.toDigits_eq_if (by decide)]
  split_ifs with h
  · simp [hlast h, Nat.mod_eq_of_lt h]
  · simp [hlast (Nat.mod_lt n (by decide : 0 < 10))]

theorem pushDigits_eq {value room : ℕ} (h0 : 0 < value) (h : value < 10 ^ room) (tmp : List UInt8) :
    pushDigits value room tmp = chars (toString value) ++ tmp := by
  induction room generalizing value tmp with
  | zero => exact absurd h (not_lt.mpr h0)
  | succ room ih =>
    rw [pushDigits, if_pos h0, chars_repr, append_assoc]
    split_ifs with hlt
    · rw [Nat.div_eq_of_lt hlt]
      cases room <;> rfl
    · exact ih (by omega) (by rw [pow_succ] at h; omega) _

theorem digitsOf_eq (value : BitVec 64) : digitsOf value = chars (toString value.toNat) := by
  unfold digitsOf
  split_ifs with h
  · rw [h]
    rfl
  · have hlt := value.isLt
    rw [pushDigits_eq (by bv_omega) (by omega), append_nil]

/-! ### The buffer -/

section Buffer
variable {buf size : ℕ} {m m₀ : Mem} {done : List UInt8} (hlen : done.length ≤ size)
  (hdone : bytes m buf done.length = done)
  (hkept : ∀ a, a < buf ∨ buf + (size + 1) ≤ a → m a = m₀ a)
include hlen hdone hkept

/-- The text is `done ++ tmp`, `done` is in the buffer, and the NUL ends it there. -/
theorem leaves_stop {tmp : List UInt8} (hstop : tmp = [] ∨ done.length = size) :
    Leaves (done ++ tmp) buf (size + 1) m₀ (done.length, store m (buf + done.length) 0) where
  count := by
    rcases hstop with rfl | hfull
    · simp [hlen]
    · simp [hfull]
  text := by rw [bytes_store_apart (.inl le_rfl), hdone, take_left]
  nul := store_self ..
  kept a ha := (store_of_ne (by omega)).trans (hkept a ha)

theorem popDigits_leaves (tmp : List UInt8) :
    Leaves (done ++ tmp) buf (size + 1) m₀ (popDigits buf (size + 1) m done.length tmp) := by
  induction tmp generalizing done m with
  | nil => exact leaves_stop hlen hdone hkept (.inl rfl)
  | cons c tmp ih =>
    unfold popDigits
    split_ifs with hroom
    · have hnext : bytes (store m (buf + done.length) c) buf (done ++ [c]).length = done ++ [c] := by
        rw [length_append, length_singleton, bytes, ByteBlock.window_add, ← bytes,
          bytes_store_apart (.inl le_rfl), hdone]
        simp [ByteBlock.window]
      have hleaves := ih (by simpa using Nat.lt_of_succ_lt_succ hroom) hnext fun a ha =>
        (store_of_ne (by omega)).trans (hkept a ha)
      rwa [append_assoc, singleton_append, length_append, length_singleton] at hleaves
    · exact leaves_stop hlen hdone hkept (.inr (by omega))

end Buffer

theorem toString_of_neg {value : BitVec 64} (h : value.toInt < 0) :
    chars (toString value.toInt) = 45 :: chars (toString (~~~value + 1).toNat) := by
  have hmagnitude : ∃ k, (~~~value + 1).toNat = k + 1 ∧ value.toInt = Int.negSucc k := by
    have hlt := value.isLt
    have hone : (1 : BitVec 64).toNat = 1 := rfl
    rw [BitVec.toInt_eq_toNat_cond] at h ⊢
    rw [BitVec.toNat_add, BitVec.toNat_not, hone]
    split_ifs at h ⊢ with hpos
    · omega
    · exact ⟨2 ^ 64 - value.toNat - 1, by omega, by omega⟩
  obtain ⟨k, hk, hint⟩ := hmagnitude
  rw [hint, hk]
  change chars ("-" ++ (k + 1).repr) = _
  simp [chars]

/-- For every value and every buffer that has room for the NUL, both functions leave the decimal text
of the value, cut to the buffer. In a buffer of no bytes they write nothing. -/
theorem decimal_text_written (value : BitVec 64) (buf size : ℕ) (m : Mem) :
    Leaves (chars (toString value.toNat)) buf (size + 1) m (kliUtoa value buf (size + 1) m) ∧
      Leaves (chars (toString value.toInt)) buf (size + 1) m (kliItoa value buf (size + 1) m) ∧
      kliUtoa value buf 0 m = (0, m) ∧ kliItoa value buf 0 m = (0, m) := by
  have hstart (text : List UInt8) : Leaves text buf (size + 1) m (popDigits buf (size + 1) m 0 text) :=
    @popDigits_leaves buf size m m [] (Nat.zero_le _) rfl (fun _ _ => rfl) text
  refine ⟨?_, ?_, rfl, rfl⟩
  · rw [kliUtoa, if_neg (Nat.succ_ne_zero size), digitsOf_eq]
    exact hstart _
  · unfold kliItoa
    dsimp only
    rw [if_neg (Nat.succ_ne_zero size), digitsOf_eq]
    by_cases hneg : value.toInt < 0
    · rw [if_pos hneg, toString_of_neg hneg]
      split_ifs with hroom
      · refine @popDigits_leaves buf size _ m [45] (Nat.lt_of_succ_lt_succ hroom.2) ?_ (fun a ha => ?_) _
        · simp [ByteBlock.window]
        · exact store_of_ne (by omega)
      · have hzero : size = 0 := by omega
        have hpop (l : List UInt8) : popDigits buf (0 + 1) m 0 l = (0, store m (buf + 0) 0) := by
          cases l <;> rfl
        rw [hzero, hpop]
        exact @leaves_stop buf 0 m m [] le_rfl rfl (fun _ _ => rfl) _ (.inr rfl)
    · have hint : value.toInt = value.toNat := by
        have hlt := value.isLt
        rw [BitVec.toInt_eq_toNat_cond] at hneg ⊢
        split_ifs at hneg ⊢
        · rfl
        · omega
      rw [if_neg hneg, if_neg fun h => hneg h.1, hint]
      exact hstart _

/-- Nothing is written into a buffer of no bytes, the NUL neither. -/
theorem utoa_empty_buffer :
    ¬ Leaves (chars (toString (0 : ℕ))) 0 0 (fun _ => 1) (kliUtoa 0 0 0 fun _ => 1) :=
  fun h => absurd h.nul (by decide)

end Libkarm
