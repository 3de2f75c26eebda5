import Mathlib

/-! Boot keyboard reports, from `usb/hid.c` and `usb/hid_driver.c`. A report lists up to six keys that
are down. The driver remembers the keys it has reported as pressed in six slots, and reports a release
when a key is missing for the second time, so that one empty report in between does not count. -/
namespace Usb

open List

section Keymap

inductive NavKey where
  | up | down | left | right | pgup | pgdn | home | endKey | insert | delete

def inputKeyFromNav : NavKey → BitVec 32
  | .up => 0x101
  | .down => 0x102
  | .left => 0x103
  | .right => 0x104
  | .pgup => 0x105
  | .pgdn => 0x106
  | .home => 0x107
  | .endKey => 0x108
  | .insert => 0x109
  | .delete => 0x10a

def inputKeyFromCtrlLetter (letter : ℕ) : BitVec 32 :=
  if 97 ≤ letter ∧ letter ≤ 122 then BitVec.ofNat 32 (letter - 97 + 1)
  else if 65 ≤ letter ∧ letter ≤ 90 then BitVec.ofNat 32 (letter - 65 + 1)
  else 0

/-- `kHIDUnshifted` from usage 0x04 on; the entries before and behind are zero. -/
def hidUnshifted : List ℕ :=
  [97, 98, 99, 100, 101, 102, 103, 104, 105, 106, 107, 108, 109, 110, 111, 112, 113, 114, 115, 116,
    117, 118, 119, 120, 121, 122, 49, 50, 51, 52, 53, 54, 55, 56, 57, 48, 10, 27, 8, 9, 32, 45, 61, 91,
    93, 92, 0, 59, 39, 96, 44, 46, 47]

/-- `kHIDShifted` from usage 0x04 on. -/
def hidShifted : List ℕ :=
  [65, 66, 67, 68, 69, 70, 71, 72, 73, 74, 75, 76, 77, 78, 79, 80, 81, 82, 83, 84, 85, 86, 87, 88, 89,
    90, 33, 64, 35, 36, 37, 94, 38, 42, 40, 41, 10, 27, 8, 9, 32, 95, 43, 123, 125, 124, 0, 58, 34, 126,
    60, 62, 63]

def hidUsageToAscii (usage : UInt8) (shifted : Bool) : BitVec 32 :=
  if usage ≥ 0x80 ∨ usage < 0x04 then 0
  else BitVec.ofNat 32 ((if shifted then hidShifted else hidUnshifted).getD (usage.toNat - 4) 0)

/-- The left and right control bits, and the left and right shift bits. -/
def hidModCtrl : UInt8 := 0x11

def hidModShift : UInt8 := 0x22

def hidUsageToInputKey (usage modifiers : UInt8) : BitVec 32 :=
  if modifiers &&& hidModCtrl ≠ 0 ∧ usage ≥ 0x04 ∧ usage ≤ 0x1d then
    inputKeyFromCtrlLetter (97 + usage.toNat - 4)
  else if usage = 0x49 then inputKeyFromNav .insert
  else if usage = 0x4a then inputKeyFromNav .home
  else if usage = 0x4b then inputKeyFromNav .pgup
  else if usage = 0x4c then inputKeyFromNav .delete
  else if usage = 0x4d then inputKeyFromNav .endKey
  else if usage = 0x4e then inputKeyFromNav .pgdn
  else if usage = 0x4f then inputKeyFromNav .right
  else if usage = 0x50 then inputKeyFromNav .left
  else if usage = 0x51 then inputKeyFromNav .down
  else if usage = 0x52 then inputKeyFromNav .up
  else hidUsageToAscii usage (modifiers &&& hidModShift ≠ 0)

end Keymap

/-- `HID_KEY_NONE` -/
def hidKeyNone : UInt8 := 0

structure KeyboardReport where
  modifiers : UInt8
  keys : Fin 6 → UInt8

/-- One index of `prev_keys`, `prev_key_values` and `release_pending`. -/
structure KeySlot where
  key : UInt8
  value : BitVec 32
  pending : Bool
  deriving DecidableEq

def KeySlot.empty : KeySlot := ⟨hidKeyNone, 0, false⟩

abbrev Keyboard : Type := Fin 6 → KeySlot

def Keyboard.init : Keyboard := fun _ => .empty

def Keyboard.set (dev : Keyboard) (i : Fin 6) (s : KeySlot) : Keyboard := Function.update dev i s

/-- An event of a key. The usage code is not in the event that the driver writes; it is kept here to
say whose event it is. -/
structure KeyEvent where
  usage : UInt8
  pressed : Bool
  key : BitVec 32
  deriving DecidableEq

def KeySlot.release (s : KeySlot) : List KeyEvent :=
  if s.value ≠ 0 then [⟨s.key, false, s.value⟩] else []

def keyInReport (report : KeyboardReport) (key : UInt8) : Bool :=
  (finRange 6).any fun i => report.keys i = key

def keySlot (dev : Keyboard) (key : UInt8) : Option (Fin 6) :=
  (finRange 6).find? fun i => (dev i).key = key

def emptyKeySlot (dev : Keyboard) : Option (Fin 6) :=
  (finRange 6).find? fun i => (dev i).key = hidKeyNone

/-- The first loop of `usb_hid_keyboard_report` over the slots `is`; the last component says whether
the function has returned. -/
def releaseKeys (report : KeyboardReport) (outLen : ℕ) :
    List (Fin 6) → Keyboard → List KeyEvent → Keyboard × List KeyEvent × Bool
  | [], dev, out => (dev, out, false)
  | i :: is, dev, out =>
      if (dev i).key = hidKeyNone then releaseKeys report outLen is dev out
      else if keyInReport report (dev i).key then
        releaseKeys report outLen is (dev.set i { dev i with pending := false }) out
      else if (dev i).pending = false then
        releaseKeys report outLen is (dev.set i { dev i with pending := true }) out
      else
        if (out ++ (dev i).release).length ≥ outLen then
          (dev.set i .empty, out ++ (dev i).release, true)
        else releaseKeys report outLen is (dev.set i .empty) (out ++ (dev i).release)

def pressKeys (modifiers : UInt8) (outLen : ℕ) :
    List UInt8 → Keyboard → List KeyEvent → Keyboard × List KeyEvent
  | [], dev, out => (dev, out)
  | cur :: rest, dev, out =>
      if cur = hidKeyNone then pressKeys modifiers outLen rest dev out
      else
        match keySlot dev cur with
        | some i => pressKeys modifiers outLen rest (dev.set i { dev i with pending := false }) out
        | none =>
            match emptyKeySlot dev with
            | none => pressKeys modifiers outLen rest dev out
            | some i =>
                let key := hidUsageToInputKey cur modifiers
                let dev' := dev.set i ⟨cur, key, false⟩
                if key ≠ 0 then
                  let out' := out ++ [⟨cur, true, key⟩]
                  if out'.length ≥ outLen then (dev', out')
                  else pressKeys modifiers outLen rest dev' out'
                else pressKeys modifiers outLen rest dev' out

def usbHidKeyboardReport (dev : Keyboard) (report : KeyboardReport) (outLen : ℕ) :
    Keyboard × List KeyEvent :=
  if outLen = 0 then (dev, [])
  else
    let released := releaseKeys report outLen (finRange 6) dev []
    if released.2.2 then (released.1, released.2.1)
    else pressKeys report.modifiers outLen ((finRange 6).map report.keys) released.1 released.2.1

/-- One index of the slots changes. Only two kinds of change write an event, and only if the key has
a value: a remembered key is given up, or a key that is not remembered gets an empty slot. -/
inductive Change (dev : Keyboard) : List KeyEvent → Keyboard → Prop
  | mark (i : Fin 6) (pending : Bool) : Change dev [] (dev.set i { dev i with pending := pending })
  | leave (i : Fin 6) (hkey : (dev i).key ≠ hidKeyNone) :
      Change dev (dev i).release (dev.set i .empty)
  | enter (i : Fin 6) {cur : UInt8} (key : BitVec 32) (hcur : cur ≠ hidKeyNone)
      (hnew : ∀ j, (dev j).key ≠ cur) (hempty : (dev i).key = hidKeyNone) :
      Change dev (if key ≠ 0 then [⟨cur, true, key⟩] else []) (dev.set i ⟨cur, key, false⟩)

inductive Changes (dev : Keyboard) : List KeyEvent → Keyboard → Prop
  | refl : Changes dev [] dev
  | tail {dev' dev'' : Keyboard} {es es' : List KeyEvent} (h : Changes dev es dev')
      (hstep : Change dev' es' dev'') : Changes dev (es ++ es') dev''

variable {key : UInt8} {i : Fin 6}

section Loops
variable {dev₀ dev : Keyboard} {out : List KeyEvent}

theorem Changes.mark (h : Changes dev₀ out dev) (i : Fin 6) (pending : Bool) :
    Changes dev₀ out (dev.set i { dev i with pending := pending }) := by
  simpa using h.tail (.mark i pending)

theorem releaseKeys_changes (report : KeyboardReport) (outLen : ℕ) (is : List (Fin 6))
    (h : Changes dev₀ out dev) :
    Changes dev₀ (releaseKeys report outLen is dev out).2.1
      (releaseKeys report outLen is dev out).1 := by
  induction is generalizing dev out with
  | nil => exact h
  | cons i is ih =>
    unfold releaseKeys
    split_ifs with hkey hin hpending hret
    · exact ih h
    · exact ih (h.mark i false)
    · exact ih (h.mark i true)
    · exact h.tail (.leave i hkey)
    · exact ih (h.tail (.leave i hkey))

theorem keySlot_eq_some (h : keySlot dev key = some i) : (dev i).key = key := by
  simpa using find?_some h

theorem keySlot_eq_none (h : keySlot dev key = none) (i : Fin 6) : (dev i).key ≠ key := by
  simpa using find?_eq_none.mp h i (mem_finRange i)

theorem pressKeys_changes (modifiers : UInt8) (outLen : ℕ) (keys : List UInt8)
    (h : Changes dev₀ out dev) :
    Changes dev₀ (pressKeys modifiers outLen keys dev out).2
      (pressKeys modifiers outLen keys dev out).1 := by
  induction keys generalizing dev out with
  | nil => exact h
  | cons cur rest ih =>
    unfold pressKeys
    split_ifs with hcur
    · exact ih h
    cases hseen : keySlot dev cur with
    | some i => exact ih (h.mark i false)
    | none =>
      cases hempty : emptyKeySlot dev with
      | none => exact ih h
      | some i =>
        have hslot := keySlot_eq_some hempty
        have henter := h.tail (.enter i (hidUsageToInputKey cur modifiers) hcur
          (keySlot_eq_none hseen) hslot)
        dsimp only
        split_ifs with hkey hret
        · rw [if_pos hkey] at henter
          exact henter
        · rw [if_pos hkey] at henter
          exact ih henter
        · rw [if_neg hkey, append_nil] at henter
          exact ih henter

end Loops

theorem usbHidKeyboardReport_changes (dev : Keyboard) (report : KeyboardReport) (outLen : ℕ) :
    Changes dev (usbHidKeyboardReport dev report outLen).2
      (usbHidKeyboardReport dev report outLen).1 := by
  unfold usbHidKeyboardReport
  have hnone : Changes dev [] dev := .refl
  have hrel := releaseKeys_changes report outLen (finRange 6) hnone
  split_ifs with h0
  · exact .refl
  · dsimp only
    split_ifs with hret
    · exact hrel
    · exact pressKeys_changes _ _ _ hrel

variable {k : BitVec 32} {es : List KeyEvent}

section Balance

def Keyboard.Distinct (dev : Keyboard) : Prop :=
  ∀ i j, (dev i).key ≠ hidKeyNone → (dev i).key = (dev j).key → i = j

/-- The value with which the key was reported as pressed, zero if it was not. -/
def Keyboard.held (dev : Keyboard) (u : UInt8) : BitVec 32 :=
  match keySlot dev u with
  | some i => (dev i).value
  | none => 0

/-- Follow the events of one key, where `k` is the value that is down and zero stands for none: a press
must find none down, and a release must have the value of the press before it. The result is what is
down at the end. -/
def follow (k : BitVec 32) : List KeyEvent → Option (BitVec 32)
  | [] => some k
  | e :: es =>
      if k = 0 then if e.pressed ∧ e.key ≠ 0 then follow e.key es else none
      else if e.pressed = false ∧ e.key = k then follow 0 es else none

/-- Press, release, press, … with the value of each press on its release. -/
def Alternates (es : List KeyEvent) : Prop := (follow 0 es).isSome

theorem follow_append (k : BitVec 32) (es es' : List KeyEvent) :
    follow k (es ++ es') = (follow k es).bind fun k' => follow k' es' := by
  induction es generalizing k with
  | nil => rfl
  | cons e es ih =>
    simp only [cons_append, follow]
    split_ifs
    · exact ih e.key
    · rfl
    · exact ih 0
    · rfl

def eventsOf (u : UInt8) (es : List KeyEvent) : List KeyEvent := es.filter (·.usage = u)

variable {dev dev' : Keyboard} {u : UInt8}

theorem held_eq_value (hd : dev.Distinct) (hkey : (dev i).key ≠ hidKeyNone) :
    dev.held (dev i).key = (dev i).value := by
  unfold Keyboard.held
  cases hslot : keySlot dev (dev i).key with
  | none => exact absurd rfl (keySlot_eq_none hslot i)
  | some j => rw [hd i j hkey (keySlot_eq_some hslot).symm]

theorem held_eq_zero (h : ∀ i, (dev i).key ≠ u) : dev.held u = 0 := by
  unfold Keyboard.held
  cases hslot : keySlot dev u with
  | none => rfl
  | some i => exact absurd (keySlot_eq_some hslot) (h i)

theorem held_congr (hd : dev.Distinct) (hd' : dev'.Distinct) (hu : u ≠ hidKeyNone)
    (h : ∀ i, (dev i).key = u → (dev' i).key = u ∧ (dev' i).value = (dev i).value)
    (h' : ∀ i, (dev' i).key = u → (dev i).key = u) : dev'.held u = dev.held u := by
  by_cases hex : ∃ i, (dev i).key = u
  · obtain ⟨i, rfl⟩ := hex
    obtain ⟨hkey, hvalue⟩ := h i rfl
    rw [held_eq_value hd hu, ← hvalue, ← hkey]
    exact held_eq_value hd' (hkey ▸ hu)
  · rw [held_eq_zero fun i hi => hex ⟨i, hi⟩, held_eq_zero fun i hi => hex ⟨i, h' i hi⟩]

@[simp] theorem Keyboard.set_self (i : Fin 6) (s : KeySlot) : dev.set i s i = s := by
  simp [Keyboard.set]

theorem Keyboard.set_of_ne {j : Fin 6} (h : j ≠ i) (s : KeySlot) : dev.set i s j = dev j := by
  simp [Keyboard.set, h]

theorem Change.distinct (hd : dev.Distinct) (h : Change dev es dev') : dev'.Distinct := by
  cases h with
  | mark i pending =>
    have hkey (j : Fin 6) : (dev.set i { dev i with pending := pending } j).key = (dev j).key := by
      by_cases hj : j = i
      · simp [hj]
      · rw [Keyboard.set_of_ne hj]
    intro j k
    rw [hkey, hkey]
    exact hd j k
  | leave i hkey =>
    intro j k hj hjk
    by_cases hji : j = i
    · subst hji
      simp [KeySlot.empty] at hj
    by_cases hki : k = i
    · subst hki
      rw [hjk] at hj
      simp [KeySlot.empty] at hj
    rw [Keyboard.set_of_ne hji] at hj hjk
    rw [Keyboard.set_of_ne hki] at hjk
    exact hd j k hj hjk
  | enter i key hcur hnew hempty =>
    intro j k hj hjk
    by_cases hji : j = i
    · by_cases hki : k = i
      · rw [hji, hki]
      · subst hji
        rw [Keyboard.set_self, Keyboard.set_of_ne hki] at hjk
        exact absurd hjk.symm (hnew k)
    · rw [Keyboard.set_of_ne hji] at hj hjk
      by_cases hki : k = i
      · subst hki
        rw [Keyboard.set_self] at hjk
        exact absurd hjk (hnew j)
      · rw [Keyboard.set_of_ne hki] at hjk
        exact hd j k hj hjk

theorem Change.follow (hd : dev.Distinct) (h : Change dev es dev')
    (hu : u ≠ hidKeyNone) : follow (dev.held u) (eventsOf u es) = some (dev'.held u) := by
  have hd' := h.distinct hd
  cases h with
  | mark i pending =>
    rw [held_congr hd hd' hu]
    · rfl
    · intro j hj
      by_cases hji : j = i
      · subst hji
        simpa using hj
      · simpa [Keyboard.set_of_ne hji] using hj
    · intro j hj
      by_cases hji : j = i
      · subst hji
        simpa using hj
      · simpa [Keyboard.set_of_ne hji] using hj
  | leave i hkey =>
    by_cases hui : (dev i).key = u
    · subst hui
      have hnone : (dev.set i .empty).held (dev i).key = 0 := by
        apply held_eq_zero
        intro j hj
        by_cases hji : j = i
        · subst hji
          exact hkey (by simpa [KeySlot.empty] using hj.symm)
        · rw [Keyboard.set_of_ne hji] at hj
          exact hji (hd i j hkey hj.symm).symm
      rw [hnone, held_eq_value hd hkey]
      unfold KeySlot.release
      split_ifs with hv
      · rw [eventsOf, filter_cons_of_pos (by simp)]
        rw [Usb.follow, if_neg hv, if_pos ⟨rfl, rfl⟩]
        rfl
      · rw [not_not.mp hv]
        rfl
    · rw [held_congr hd hd' hu]
      · unfold KeySlot.release
        split_ifs <;> simp [eventsOf, hui, Usb.follow]
      · intro j hj
        have hji : j ≠ i := fun h => hui (h ▸ hj)
        simpa [Keyboard.set_of_ne hji] using hj
      · intro j hj
        by_cases hji : j = i
        · subst hji
          exact absurd (by simpa [KeySlot.empty] using hj.symm) hu
        · rwa [Keyboard.set_of_ne hji] at hj
  | @enter i cur key hcur hnew hempty =>
    by_cases huc : cur = u
    · subst huc
      have hself : (dev.set i ⟨cur, key, false⟩).held cur = key := by
        have := held_eq_value (i := i) hd' (by simpa using hcur)
        simpa using this
      rw [hself, held_eq_zero hnew]
      split_ifs with hk
      · rw [eventsOf, filter_cons_of_pos (by simp)]
        rw [Usb.follow, if_pos rfl, if_pos ⟨rfl, hk⟩]
        rfl
      · rw [not_not.mp hk]
        rfl
    · rw [held_congr hd hd' hu]
      · split_ifs <;> simp [eventsOf, huc, Usb.follow]
      · intro j hj
        have hji : j ≠ i := by
          rintro rfl
          exact hu (hj.symm.trans hempty)
        simpa [Keyboard.set_of_ne hji] using hj
      · intro j hj
        by_cases hji : j = i
        · subst hji
          exact absurd (by simpa using hj) huc
        · rwa [Keyboard.set_of_ne hji] at hj

theorem Changes.distinct (hd : dev.Distinct) (h : Changes dev es dev') : dev'.Distinct := by
  induction h with
  | refl => exact hd
  | tail _ hstep ih => exact hstep.distinct ih

theorem Changes.follow (hd : dev.Distinct) (h : Changes dev es dev')
    (hu : u ≠ hidKeyNone) : follow (dev.held u) (eventsOf u es) = some (dev'.held u) := by
  induction h with
  | refl => rfl
  | tail h hstep ih =>
    have hsplit (es es' : List KeyEvent) : eventsOf u (es ++ es') = eventsOf u es ++ eventsOf u es' :=
      filter_append es es'
    rw [hsplit, follow_append, ih]
    exact hstep.follow (h.distinct hd) hu

end Balance

variable {outLen : ℕ}

section Bounds

theorem KeySlot.release_length_le (s : KeySlot) : s.release.length ≤ 1 := by
  unfold KeySlot.release
  split_ifs <;> simp

theorem releaseKeys_length (report : KeyboardReport) (is : List (Fin 6)) (dev : Keyboard)
    {out : List KeyEvent} (hout : out.length < outLen) :
    (releaseKeys report outLen is dev out).2.1.length ≤ outLen ∧
      ((releaseKeys report outLen is dev out).2.2 = false →
        (releaseKeys report outLen is dev out).2.1.length < outLen) := by
  induction is generalizing dev out with
  | nil => exact ⟨hout.le, fun _ => hout⟩
  | cons i is ih =>
    have hle := (dev i).release_length_le
    unfold releaseKeys
    split_ifs with hkey hin hpending hret
    · exact ih _ hout
    · exact ih _ hout
    · exact ih _ hout
    · refine ⟨?_, by simp⟩
      rw [length_append]
      omega
    · exact ih _ (not_le.mp hret)

theorem pressKeys_length (modifiers : UInt8) (keys : List UInt8) (dev : Keyboard)
    {out : List KeyEvent} (hout : out.length < outLen) :
    (pressKeys modifiers outLen keys dev out).2.length ≤ outLen := by
  induction keys generalizing dev out with
  | nil => exact hout.le
  | cons cur rest ih =>
    unfold pressKeys
    split_ifs with hcur
    · exact ih dev hout
    cases keySlot dev cur with
    | some i => exact ih _ hout
    | none =>
      cases emptyKeySlot dev with
      | none => exact ih _ hout
      | some i =>
        dsimp only
        split_ifs with hkey hret
        · rw [length_append, length_singleton]
          exact hout
        · exact ih _ (not_le.mp hret)
        · exact ih _ hout

theorem usbHidKeyboardReport_length (dev : Keyboard) (report : KeyboardReport) (outLen : ℕ) :
    (usbHidKeyboardReport dev report outLen).2.length ≤ outLen := by
  unfold usbHidKeyboardReport
  split_ifs with h0
  · exact Nat.zero_le _
  · have hrel := releaseKeys_length report (finRange 6) dev
      (show ([] : List KeyEvent).length < outLen from Nat.pos_of_ne_zero h0)
    dsimp only
    split_ifs with hret
    · exact hrel.1
    · exact pressKeys_length _ _ _ (hrel.2 (by simpa using hret))

end Bounds

end Usb
