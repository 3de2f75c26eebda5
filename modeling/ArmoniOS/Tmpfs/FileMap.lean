import ArmoniOS.Tmpfs.Files

/-! The slots refine a finite map from names to byte strings. -/
namespace Tmpfs
open Exec ByteBlock List

abbrev FileMap : Type := List UInt8 → Option (List UInt8)

/-- `data` written over `content` at `offset`; a gap is filled with zeros. -/
def overlay (content : List UInt8) (offset : ℕ) (data : List UInt8) : List UInt8 :=
  (content ++ replicate (offset - content.length) 0).take offset ++ data ++
    content.drop (offset + data.length)

def clamped (offset : ℕ) (data : List UInt8) : List UInt8 := data.take (maxFileSize - offset)

section Map
open Classical

/-- The calls on the map. A file can be created while fewer than eight exist. -/
noncomputable def FileMap.step (m : FileMap) : Op → Reply × FileMap
  | .create name =>
      if name ≠ [] ∧ m name = none ∧ {other | m other ≠ none}.ncard < maxFiles ∧
          name.length < maxName then
        (.done, Function.update m name (some []))
      else (.failed, m)
  | .write name offset data =>
      match m name with
      | none => (.failed, m)
      | some content =>
          if maxFileSize < offset then (.failed, m)
          else (.count (clamped offset data).length,
            Function.update m name (some (overlay content offset (clamped offset data))))
  | .read name offset capacity =>
      match m name with
      | none => (.failed, m)
      | some content =>
          if content.length < offset then (.failed, m)
          else (.bytes ((content.drop offset).take capacity), m)
  | .stat name => ((m name).elim .failed fun content => .size content.length, m)
  | .delete name =>
      if m name = none then (.failed, m) else (.done, Function.update m name none)

noncomputable def FileMap.run (m : FileMap) : List Op → List Reply × FileMap
  | [] => ([], m)
  | op :: ops =>
      let r := m.step op
      let rest := FileMap.run r.2 ops
      (r.1 :: rest.1, rest.2)

end Map

/-- The last byte written at a position of the file since it was created, zero if there is none.
The history has the latest call first. -/
def lastByte (name : List UInt8) (k : ℕ) : List (Op × Reply) → UInt8
  | [] => 0
  | (.create other, .done) :: history => if other = name then 0 else lastByte name k history
  | (.write other offset data, .count n) :: history =>
      if other = name ∧ offset ≤ k ∧ k < offset + n then data.getD (k - offset) 0
      else lastByte name k history
  | _ :: history => lastByte name k history

section Overlay
variable {content data : List UInt8} {offset : ℕ}

theorem overlay_length : (overlay content offset data).length =
    max content.length (offset + data.length) := by
  simp [overlay]
  omega

theorem overlay_getD (k : ℕ) : (overlay content offset data).getD k 0 =
    if offset ≤ k ∧ k < offset + data.length then data.getD (k - offset) 0
    else content.getD k 0 := by
  have hlen : ((content ++ replicate (offset - content.length) (0 : UInt8)).take offset).length =
      offset := by
    simp
    omega
  simp only [getD_eq_getElem?_getD, overlay, append_assoc]
  rcases Nat.lt_or_ge k offset with hk | hk
  · rw [if_neg (by omega), getElem?_append_left (by omega), getElem?_take_of_lt hk]
    rcases Nat.lt_or_ge k content.length with hc | hc
    · rw [getElem?_append_left hc]
    · rw [getElem?_append_right hc, getElem?_replicate, getElem?_eq_none hc]
      split_ifs <;> rfl
  · rw [getElem?_append_right (by omega), hlen]
    rcases Nat.lt_or_ge k (offset + data.length) with hd | hd
    · rw [if_pos ⟨hk, hd⟩, getElem?_append_left (by omega)]
    · rw [if_neg (by omega), getElem?_append_right (by omega), getElem?_drop]
      congr 2
      omega

theorem clamped_length : (clamped offset data).length =
    if maxFileSize - offset < data.length then maxFileSize - offset else data.length := by
  simp [clamped]
  split_ifs <;> omega

theorem clamped_getD {j : ℕ} (h : j < maxFileSize - offset) :
    (clamped offset data).getD j 0 = data.getD j 0 := by
  simp [clamped, getD_eq_getElem?_getD, getElem?_take_of_lt h]

end Overlay
end Tmpfs
