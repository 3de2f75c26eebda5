import Mathlib

/-! `parse_signed` of `console.c`. A string is the list of its bytes before the NUL. An arithmetic
operation whose result is outside the range of its C type has no result here, so `none` stands for an
overflow anywhere in the call. -/
namespace Console
open List

def inU32 (x : ℤ) : Option ℤ := if 0 ≤ x ∧ x < 4294967296 then some x else none

def inI32 (x : ℤ) : Option ℤ := if -2147483648 ≤ x ∧ x < 2147483648 then some x else none

def isDigit (c : UInt8) : Bool := decide (48 ≤ c.toNat) && decide (c.toNat ≤ 57)

/-- The loop of `parse_signed`: `some none` is its return of -1, otherwise the value and where it
stopped. -/
def parseDigits (maxAbs value : ℤ) : List UInt8 → Option (Option (ℤ × List UInt8))
  | [] => some (some (value, []))
  | c :: s =>
    if isDigit c then do
      let digit ← inU32 (c.toNat - 48)
      let room ← inU32 (maxAbs - digit)
      if room / 10 < value then some none
      else
        let shifted ← inU32 (value * 10)
        let next ← inU32 (shifted + digit)
        parseDigits maxAbs next s
    else some (some (value, c :: s))

/-- What the call returns, and what it leaves in `*out` and `*cursor`. -/
structure Parsed where
  status : ℤ
  out : ℤ
  cursor : List UInt8
  deriving DecidableEq

def parseSigned (cursor : List UInt8) (out : ℤ) : Option Parsed :=
  let negative := cursor.head? = some 45
  let s := if negative then cursor.tail else cursor
  if s.head?.any isDigit = false then some ⟨-1, out, cursor⟩
  else do
    let maxAbs := if negative then 2147483648 else 2147483647
    match ← parseDigits maxAbs 0 s with
    | none => some ⟨-1, out, cursor⟩
    | some (value, rest) =>
      if negative ∧ value = 2147483648 then some ⟨0, -2147483648, rest⟩
      else
        let signed ← inI32 value
        let result ← if negative then inI32 (-signed) else some signed
        some ⟨0, result, rest⟩

/-! ### Numerals -/

/-- An optional minus and digits. -/
def IsNumeral (l : List UInt8) : Prop :=
  ∃ sign digits, l = sign ++ digits ∧ (sign = [] ∨ sign = [45]) ∧ ∀ c ∈ digits, isDigit c = true

/-- The integer that digits denote behind those of `value`. -/
def digitsFrom (value : ℤ) (digits : List UInt8) : ℤ :=
  digits.foldl (fun v c => v * 10 + (c.toNat - 48)) value

def denoted (l : List UInt8) : ℤ :=
  if l.head? = some 45 then -digitsFrom 0 l.tail else digitsFrom 0 l

theorem inU32_of_mem {x : ℤ} (h0 : 0 ≤ x) (h : x < 4294967296) : inU32 x = some x := if_pos ⟨h0, h⟩

theorem inI32_of_mem {x : ℤ} (h0 : -2147483648 ≤ x) (h : x < 2147483648) : inI32 x = some x :=
  if_pos ⟨h0, h⟩

theorem isDigit_iff {c : UInt8} : isDigit c = true ↔ 48 ≤ c.toNat ∧ c.toNat ≤ 57 := by
  simp [isDigit]

theorem digitsFrom_cons (value : ℤ) (c : UInt8) (digits : List UInt8) :
    digitsFrom value (c :: digits) = digitsFrom (value * 10 + (c.toNat - 48)) digits := rfl

theorem le_digitsFrom {value : ℤ} (h0 : 0 ≤ value) (s : List UInt8) :
    value ≤ digitsFrom value (s.takeWhile isDigit) := by
  induction s generalizing value with
  | nil => exact le_rfl
  | cons c s ih =>
    rw [takeWhile_cons]
    split_ifs with hc
    · have hdigit := isDigit_iff.mp hc
      have hnext := @ih (value * 10 + (c.toNat - 48)) (by omega)
      rw [digitsFrom_cons]
      omega
    · exact le_rfl

/-- The guard lets a digit pass exactly if the value with it is within the bound, and a value beyond
the bound only grows. -/
theorem parseDigits_eq {maxAbs value : ℤ} (hmax : 9 ≤ maxAbs ∧ maxAbs ≤ 2147483648) (h0 : 0 ≤ value)
    (hle : value ≤ maxAbs) (s : List UInt8) :
    parseDigits maxAbs value s = some (if digitsFrom value (s.takeWhile isDigit) ≤ maxAbs
      then some (digitsFrom value (s.takeWhile isDigit), s.dropWhile isDigit) else none) := by
  induction s generalizing value with
  | nil => rw [takeWhile_nil, digitsFrom, foldl_nil, if_pos hle]; rfl
  | cons c s ih =>
    rw [parseDigits, takeWhile_cons, dropWhile_cons]
    by_cases hc : isDigit c = true
    · have hdigit := isDigit_iff.mp hc
      rw [if_pos hc, if_pos hc, if_pos hc, inU32_of_mem (by omega) (by omega), Option.bind_eq_bind,
        Option.bind_some, inU32_of_mem (by omega) (by omega), Option.bind_some, digitsFrom_cons]
      have hnonneg : 0 ≤ value * 10 + (c.toNat - 48) := by omega
      by_cases hguard : (maxAbs - (c.toNat - 48)) / 10 < value
      · have hgrow := le_digitsFrom hnonneg s
        rw [if_pos hguard, if_neg (by omega)]
      · rw [if_neg hguard, inU32_of_mem (by omega) (by omega), Option.bind_some,
          inU32_of_mem hnonneg (by omega), Option.bind_some]
        exact ih hnonneg (by omega)
    · rw [if_neg hc, if_neg hc, if_neg hc, digitsFrom, foldl_nil, if_pos hle]

theorem head_any_isDigit (s : List UInt8) :
    s.head?.any isDigit = true ↔ ∃ c ∈ s.takeWhile isDigit, isDigit c = true := by
  cases s with
  | nil => simp
  | cons c s =>
    rw [takeWhile_cons]
    cases hc : isDigit c <;> simp [hc]

/-- `parse_signed` behind the sign, which sets the bound. -/
theorem parseSigned_eq (cursor : List UInt8) (out : ℤ) :
    let negative := cursor.head? = some 45
    let s := if negative then cursor.tail else cursor
    let value := digitsFrom 0 (s.takeWhile isDigit)
    parseSigned cursor out = some (
      if (∃ c ∈ s.takeWhile isDigit, isDigit c = true) ∧
        value ≤ if negative then 2147483648 else 2147483647
      then ⟨0, if negative then -value else value, s.dropWhile isDigit⟩ else ⟨-1, out, cursor⟩) := by
  intro negative s value
  have hpos : 0 ≤ value := le_digitsFrom le_rfl s
  unfold parseSigned
  simp only [← head_any_isDigit]
  by_cases hdigit : s.head?.any isDigit = true
  · have hloop := @parseDigits_eq (if negative then 2147483648 else 2147483647) 0
      (by split_ifs <;> omega) le_rfl (by split_ifs <;> omega) s
    rw [if_neg (by simp [s, negative, hdigit]), hloop, Option.bind_eq_bind, Option.bind_some]
    by_cases hle : value ≤ if negative then 2147483648 else 2147483647
    · rw [if_pos hle, if_pos ⟨hdigit, hle⟩]
      dsimp only
      by_cases hneg : negative
      · rw [if_pos hneg] at hle ⊢
        by_cases hmin : value = 2147483648
        · rw [if_pos ⟨hneg, hmin⟩, hmin]
        · rw [if_neg fun h => hmin h.2, inI32_of_mem (by omega) (by omega), Option.bind_eq_bind,
            Option.bind_some, if_pos hneg, inI32_of_mem (by omega) (by omega), Option.bind_some]
      · rw [if_neg hneg] at hle ⊢
        rw [if_neg fun h => hneg h.1, inI32_of_mem (by omega) (by omega), Option.bind_eq_bind,
          Option.bind_some, if_neg hneg, Option.bind_some]
    · rw [if_neg hle, if_neg fun h => hle h.2]
  · rw [if_pos (by simpa using hdigit), if_neg fun h => hdigit h.1]

theorem digits_length_le {q s : List UInt8} (hq : ∀ c ∈ q, isDigit c = true) (h : q <+: s) :
    q.length ≤ (s.takeWhile isDigit).length := by
  obtain ⟨t, rfl⟩ := h
  rw [takeWhile_append_of_pos hq, length_append]
  exact Nat.le_add_right ..

/-- On every string, the call takes the longest numeral at the cursor. It succeeds exactly if that has
a digit and denotes a 32-bit integer, which it returns; otherwise the cursor stays. No operation
overflows. -/
theorem parse_signed_exact (s : List UInt8) (out : ℤ) :
    ∃ l rest, s = l ++ rest ∧ IsNumeral l ∧ (∀ q, q <+: s → IsNumeral q → q.length ≤ l.length) ∧
      parseSigned s out = some (
        if (∃ c ∈ l, isDigit c = true) ∧ -2147483648 ≤ denoted l ∧ denoted l ≤ 2147483647
        then ⟨0, denoted l, rest⟩ else ⟨-1, out, s⟩) := by
  have hall (t : List UInt8) : ∀ c ∈ t.takeWhile isDigit, isDigit c = true :=
    all_eq_true.mp all_takeWhile
  rw [parseSigned_eq]
  by_cases hminus : s.head? = some 45
  · obtain ⟨t, rfl⟩ : ∃ t, s = 45 :: t := by
      rw [head?_eq_some_iff] at hminus
      exact hminus
    have hpos := le_digitsFrom le_rfl t
    refine ⟨45 :: t.takeWhile isDigit, t.dropWhile isDigit, by simp, ⟨[45], _, rfl, .inr rfl, hall t⟩,
      ?_, ?_⟩
    · rintro q hq ⟨sign, digits, rfl, rfl | rfl, hdigits⟩
      · exact (digits_length_le hdigits hq).trans (Nat.zero_le _)
      · exact Nat.succ_le_succ (digits_length_le hdigits (cons_prefix_cons.mp hq).2)
    · have hdigit : (∃ c ∈ t.takeWhile isDigit, isDigit c = true) ↔
          ∃ c ∈ 45 :: t.takeWhile isDigit, isDigit c = true := by
        simp [show isDigit 45 = false from rfl]
      refine congrArg some (if_congr (and_congr hdigit ?_) rfl rfl)
      change digitsFrom 0 (t.takeWhile isDigit) ≤ 2147483648 ↔
        -2147483648 ≤ -digitsFrom 0 (t.takeWhile isDigit) ∧
          -digitsFrom 0 (t.takeWhile isDigit) ≤ 2147483647
      omega
  · have hdenoted : denoted (s.takeWhile isDigit) = digitsFrom 0 (s.takeWhile isDigit) :=
      if_neg fun h => absurd (hall s 45 (mem_of_mem_head? h)) Bool.false_ne_true
    have hpos := le_digitsFrom le_rfl s
    refine ⟨s.takeWhile isDigit, s.dropWhile isDigit, by simp, ⟨[], _, rfl, .inl rfl, hall s⟩, ?_, ?_⟩
    · rintro q hq ⟨sign, digits, rfl, rfl | rfl, hdigits⟩
      · exact digits_length_le hdigits hq
      · obtain ⟨t, rfl⟩ := hq
        exact absurd rfl hminus
    · rw [hdenoted]
      simp only [if_neg hminus]
      exact congrArg some (if_congr (and_congr_right fun _ => by omega) rfl rfl)

end Console
