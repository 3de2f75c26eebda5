import Mathlib

/-! Fixed-size byte blocks with positional stores and little-endian fields. -/
namespace ByteBlock

open List

variable {i o o' k : ℕ}

section Window
variable {α : Type*} {f f' : ℕ → α}

/-- The `k` values from position `o` on. -/
def window (f : ℕ → α) (o k : ℕ) : List α := (range k).map fun j => f (o + j)

@[simp] theorem window_length (o k : ℕ) : (window f o k).length = k := by simp [window]

@[simp] theorem window_zero (o : ℕ) : window f o 0 = [] := rfl

theorem window_getElem (o k : ℕ) (h : i < (window f o k).length) :
    (window f o k)[i] = f (o + i) := by
  simp [window]

theorem window_add (o k l : ℕ) : window f o (k + l) = window f o k ++ window f (o + k) l := by
  simp only [window, range_add, map_append, map_map]
  congr 1
  apply map_congr_left
  simp [Nat.add_assoc]

theorem window_congr (h : ∀ i < k, f (o + i) = f' (o' + i)) : window f o k = window f' o' k := by
  apply map_congr_left
  intro i hi
  exact h i (mem_range.mp hi)

theorem window_slice (size offset cap : ℕ) :
    ((window f 0 size).drop offset).take cap = window f offset (min (size - offset) cap) := by
  apply ext_getElem
  · simp [Nat.min_comm]
  · simp [window]

end Window

/-- A buffer of exactly `n` bytes. -/
abbrev Block (n : ℕ) : Type := Fin n → UInt8

variable {n : ℕ}

namespace Block

def zero : Block n := fun _ => 0

/-- Byte `i`; positions past the end read as zero. -/
def get (s : Block n) (i : ℕ) : UInt8 := if h : i < n then s ⟨i, h⟩ else 0

/-- Copy `bs` to position `o`. -/
def put (s : Block n) (o : ℕ) (bs : List UInt8) : Block n :=
  fun i => if o ≤ i.val ∧ i.val < o + bs.length then bs.getD (i.val - o) 0 else s i

/-- The `k` bytes from position `o` on. -/
def slice (s : Block n) (o k : ℕ) : List UInt8 := (range k).map fun j => s.get (o + j)

def le16 (s : Block n) (o : ℕ) : ℕ := (s.get o).toNat + 2 ^ 8 * (s.get (o + 1)).toNat

def le32 (s : Block n) (o : ℕ) : ℕ :=
  (s.get o).toNat + 2 ^ 8 * (s.get (o + 1)).toNat + 2 ^ 16 * (s.get (o + 2)).toNat +
    2 ^ 24 * (s.get (o + 3)).toNat

def bytes16 (x : ℕ) : List UInt8 := [UInt8.ofNat x, UInt8.ofNat (x / 2 ^ 8)]

def bytes32 (x : ℕ) : List UInt8 :=
  [UInt8.ofNat x, UInt8.ofNat (x / 2 ^ 8), UInt8.ofNat (x / 2 ^ 16), UInt8.ofNat (x / 2 ^ 24)]

def putLe16 (s : Block n) (o x : ℕ) : Block n := s.put o (bytes16 x)

def putLe32 (s : Block n) (o x : ℕ) : Block n := s.put o (bytes32 x)

variable {s t : Block n}

@[simp] theorem zero_get (i : ℕ) : (zero : Block n).get i = 0 := by
  unfold get zero
  split <;> rfl

theorem get_put (s : Block n) (o i : ℕ) (bs : List UInt8) : (s.put o bs).get i =
      if i < n ∧ o ≤ i ∧ i < o + bs.length then bs.getD (i - o) 0 else s.get i := by
  by_cases h : i < n
  · simp [get, put, h]
  · simp [get, h]

variable {bs : List UInt8}

theorem get_put_of_notMem (s : Block n)
    (h : i < o ∨ o + bs.length ≤ i) : (s.put o bs).get i = s.get i := by
  rw [get_put, if_neg]
  omega

theorem get_put_add (s : Block n) (o j : ℕ) (bs : List UInt8) (hj : j < bs.length)
    (hn : o + j < n) : (s.put o bs).get (o + j) = bs.getD j 0 := by
  rw [get_put, if_pos ⟨hn, by omega, by omega⟩]
  simp

@[simp] theorem bytes16_length (x : ℕ) : (bytes16 x).length = 2 := rfl

@[simp] theorem bytes32_length (x : ℕ) : (bytes32 x).length = 4 := rfl

@[simp] theorem slice_length (s : Block n) (o k : ℕ) : (s.slice o k).length = k := by simp [slice]

theorem slice_congr (h : ∀ i, o ≤ i → i < o + k → s.get i = t.get i) : s.slice o k = t.slice o k :=
  window_congr fun i hi => h (o + i) (by omega) (by omega)

theorem slice_put_self (s : Block n) (h : o + bs.length ≤ n) :
    (s.put o bs).slice o bs.length = bs := by
  apply ext_getElem (by simp)
  intro j hj hj'
  simp only [slice, getElem_map, getElem_range]
  rw [get_put_add s o j bs hj' (by omega)]
  simp [hj']

theorem le16_lt (s : Block n) (o : ℕ) : s.le16 o < 2 ^ 16 := by
  have h0 := (s.get o).toNat_lt
  have h1 := (s.get (o + 1)).toNat_lt
  simp only [le16]
  omega

theorem le32_lt (s : Block n) (o : ℕ) : s.le32 o < 2 ^ 32 := by
  have h0 := (s.get o).toNat_lt
  have h1 := (s.get (o + 1)).toNat_lt
  have h2 := (s.get (o + 2)).toNat_lt
  have h3 := (s.get (o + 3)).toNat_lt
  simp only [le32]
  omega

theorem le16_congr (h : ∀ i, o ≤ i → i < o + 2 → s.get i = t.get i) : s.le16 o = t.le16 o := by
  simp only [le16, h o (by omega) (by omega), h (o + 1) (by omega) (by omega)]

theorem le32_congr (h : ∀ i, o ≤ i → i < o + 4 → s.get i = t.get i) : s.le32 o = t.le32 o := by
  simp only [le32, h o (by omega) (by omega), h (o + 1) (by omega) (by omega),
    h (o + 2) (by omega) (by omega), h (o + 3) (by omega) (by omega)]

theorem le16_putLe16 (s : Block n) {x : ℕ} (ho : o + 2 ≤ n) (hx : x < 2 ^ 16) :
    (s.putLe16 o x).le16 o = x := by
  have h0 := get_put_add s o 0 (bytes16 x) (by simp) (by omega)
  have h1 := get_put_add s o 1 (bytes16 x) (by simp) (by omega)
  simp only [Nat.add_zero] at h0
  simp only [le16, putLe16, h0, h1]
  simp [bytes16]
  omega

theorem le32_putLe32 (s : Block n) {x : ℕ} (ho : o + 4 ≤ n) (hx : x < 2 ^ 32) :
    (s.putLe32 o x).le32 o = x := by
  have h0 := get_put_add s o 0 (bytes32 x) (by simp) (by omega)
  have h1 := get_put_add s o 1 (bytes32 x) (by simp) (by omega)
  have h2 := get_put_add s o 2 (bytes32 x) (by simp) (by omega)
  have h3 := get_put_add s o 3 (bytes32 x) (by simp) (by omega)
  simp only [Nat.add_zero] at h0
  simp only [le32, putLe32, h0, h1, h2, h3]
  simp [bytes32]
  omega

end Block
end ByteBlock
