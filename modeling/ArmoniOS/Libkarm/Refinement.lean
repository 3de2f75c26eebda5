import ArmoniOS.Libkarm.DynamicString

/-! Buffers and strings as byte lists. Any sequence of operations on the objects of one arena keeps
each object's bytes to itself, and every operation does to them what its name says or, when it fails,
nothing; only a failed initialisation empties the object it was called for. -/
namespace Libkarm
open ByteMemory World

/-- The operations, with the addresses of the object and of the argument. The last argument of the two
single-byte appends is the address of the local variable that holds the byte. -/
inductive Op where
  | bufferInit (p : ℕ) (arena : Bool)
  | bufferInitCapacity (p : ℕ) (arena : Bool) (initial : ℕ)
  | bufferReserve (p minimum : ℕ)
  | bufferAppend (p data size : ℕ)
  | bufferAppendByte (p : ℕ) (value : UInt8) (slot : ℕ)
  | bufferClear (p : ℕ)
  | stringInit (p : ℕ) (arena : Bool)
  | stringInitCapacity (p : ℕ) (arena : Bool) (initial : ℕ)
  | stringAssignN (p text length : ℕ)
  | stringAssign (p text : ℕ)
  | stringAppendN (p text length : ℕ)
  | stringAppend (p text : ℕ)
  | stringAppendChar (p : ℕ) (value : UInt8) (slot : ℕ)
  | stringClear (p : ℕ)

namespace Op

/-- The two clear functions return nothing; a call that their check turns away counts as failed. -/
def exec (w : World) : Op → ℤ × World
  | .bufferInit p arena => kliBufferInit w (.buffer p) arena
  | .bufferInitCapacity p arena initial => kliBufferInitCapacity w (.buffer p) arena initial
  | .bufferReserve p minimum => kliBufferReserve w (.buffer p) minimum
  | .bufferAppend p data size => kliBufferAppend w (.buffer p) data size
  | .bufferAppendByte p value slot => kliBufferAppendByte w (.buffer p) value slot
  | .bufferClear p =>
      (if bufferIsValid w (.buffer p) then 0 else kliInval, kliBufferClear w (.buffer p))
  | .stringInit p arena => kliStringInit w p arena
  | .stringInitCapacity p arena initial => kliStringInitCapacity w p arena initial
  | .stringAssignN p text length => kliStringAssignN w p text length
  | .stringAssign p text => kliStringAssign w p text
  | .stringAppendN p text length => kliStringAppendN w p text length
  | .stringAppend p text => kliStringAppend w p text
  | .stringAppendChar p value slot => kliStringAppendChar w p value slot
  | .stringClear p => (if stringStorageIsValid w p then 0 else kliInval, kliStringClear w p)

def target : Op → Handle
  | .bufferInit p _ | .bufferInitCapacity p _ _ | .bufferReserve p _ | .bufferAppend p _ _
  | .bufferAppendByte p _ _ | .bufferClear p => .buffer p
  | .stringInit p _ | .stringInitCapacity p _ _ | .stringAssignN p _ _ | .stringAssign p _
  | .stringAppendN p _ _ | .stringAppend p _ | .stringAppendChar p _ _ | .stringClear p => .string p

def isInit : Op → Bool
  | .bufferInit .. | .bufferInitCapacity .. | .stringInit .. | .stringInitCapacity .. => true
  | _ => false

def apply (w : World) : Op → List UInt8 → List UInt8
  | .bufferInit .., _ | .bufferInitCapacity .., _ | .stringInit .., _
  | .stringInitCapacity .., _ | .bufferClear _, _ | .stringClear _, _ => []
  | .bufferReserve .., old => old
  | .bufferAppend _ data size, old | .stringAppendN _ data size, old =>
      old ++ bytes w.mem data size
  | .bufferAppendByte _ value _, old | .stringAppendChar _ value _, old => old ++ [value]
  | .stringAssignN _ text length, _ => bytes w.mem text length
  | .stringAssign _ text, _ => textAt w.mem text
  | .stringAppend _ text, old => old ++ textAt w.mem text

/-- The argument may lie anywhere but in the free part of the arena; a local variable lies outside the
arena. -/
def Args (w : World) : Op → Prop
  | .bufferAppend _ data size | .stringAssignN _ data size | .stringAppendN _ data size =>
      w.arena.Settled data size
  | .stringAssign _ text | .stringAppend _ text => w.arena.Settled text (strlen w.mem text)
  | .bufferAppendByte _ _ slot | .stringAppendChar _ _ slot =>
      slot < w.arena.base ∨ w.arena.limit ≤ slot
  | _ => True

instance (w : World) (op : Op) : Decidable (op.Args w) := by
  cases op <;> unfold Args <;> infer_instance

end Op

structure Refines (w : World) (op : Op) (result : ℤ × World) : Prop where
  owned : result.2.Owned
  others : ∀ h ≠ op.target, result.2.contents h = w.contents h
  success : 0 ≤ result.1 → result.2.contents op.target = op.apply w (w.contents op.target)
  failure : result.1 < 0 → result.2.contents op.target =
    if op.isInit = true ∧ op.target.address ≠ 0 then [] else w.contents op.target

variable {status : ℤ} {w₁ : World}

section Rules
variable {w w' : World} {op : Op} {r : ℤ × World} (hw : w.Owned)
include hw

theorem refines_unchanged (hneg : status < 0)
    (hop : op.isInit = false ∨ op.target.address = 0) : Refines w op (status, w) where
  owned := hw
  others _ _ := rfl
  success h := absurd h (not_le.mpr hneg)
  failure _ := by
    have hnot : ¬ (op.isInit = true ∧ op.target.address ≠ 0) := by
      rcases hop with h | h <;> simp [h]
    rw [if_neg hnot]

theorem refines_emptied (hneg : status < 0) (hinit : op.isInit = true)
    (haddr : op.target.address ≠ 0) (hc : Change w w' op.target) (howned : w'.Owned)
    (hempty : w'.contents op.target = []) : Refines w op (status, w') where
  owned := howned
  others _ hne := hc.contents_of_other hw hne
  success h := absurd h (not_le.mpr hneg)
  failure _ := by rw [if_pos ⟨hinit, haddr⟩, hempty]

theorem refines_done (hc : Change w w' op.target) (howned : w'.Owned)
    (heq : w'.contents op.target = op.apply w (w.contents op.target)) : Refines w op (0, w') where
  owned := howned
  others _ hne := hc.contents_of_other hw hne
  success _ := heq
  failure h := absurd h (lt_irrefl 0)

theorem refines_of_outcome {good : World → Prop} (hop : op.isInit = false)
    (hc₁ : Change w w₁ op.target) (howned₁ : w₁.Owned)
    (heq₁ : w₁.contents op.target = w.contents op.target) (h : Outcome w₁ good r)
    (hgood : ∀ w', good w' → Change w₁ w' op.target ∧ w'.Owned ∧
      w'.contents op.target = op.apply w (w.contents op.target)) : Refines w op r := by
  rcases h with ⟨status, hneg, rfl⟩ | ⟨w', rfl, hw'⟩
  · refine ⟨howned₁, fun h hne => hc₁.contents_of_other hw hne, ?_, fun _ => ?_⟩
    · exact fun h => absurd h (not_le.mpr hneg)
    · rw [if_neg (by simp [hop]), heq₁]
  · obtain ⟨hc, howned, heq⟩ := hgood w' hw'
    exact refines_done hw (hc₁.trans hc) howned heq

theorem World.Change.owned_buffer {p : ℕ} (hc : Change w w' (.buffer p))
    (hheld : w'.Held (.buffer p)) : w'.Owned :=
  hc.owned hw hheld (by simp)

end Rules

section Outside
variable {w : World} {m : Mem}
  (hm : ∀ a, w.arena.base ≤ a → a < w.arena.limit → m a = w.mem a)
include hm

theorem change_outside (hv : w.arena.Valid) (h : Handle) : Change w { w with mem := m } h := by
  have htop := hv.top_le
  refine ⟨hv, rfl, rfl, le_rfl, fun _ _ => rfl, .inr (.inl ⟨rfl, rfl⟩), ?_⟩
  intro a hbase hlt _ _
  exact hm a hbase (by omega)

variable (hw : w.Owned)
include hw

theorem mem_outside_of_block (h : Handle) {a : ℕ} (hle : (w.objects h).data ≤ a)
    (hlt : a < (w.objects h).data + (w.objects h).capacity) : m a = w.mem a := by
  have hin := (hw.held h).inside (by omega)
  have htop := hw.valid.top_le
  exact hm a (by omega) (by omega)

theorem contents_outside (h : Handle) : contents { w with mem := m } h = w.contents h := by
  apply ByteBlock.window_congr
  intro i hi
  have hle := (hw.held h).length_le
  exact mem_outside_of_block hm hw h (by dsimp only; omega) (by dsimp only at hi ⊢; omega)

theorem owned_outside : Owned { w with mem := m } where
  valid := hw.valid
  held h := ⟨(hw.held h).cleared, (hw.held h).length_le, (hw.held h).null, (hw.held h).inside⟩
  apart := hw.apart
  terminated p harena := by
    obtain ⟨hlt, hnul, htext⟩ := hw.terminated p harena
    refine ⟨hlt, ?_, by rwa [contents_outside hm hw]⟩
    rw [← hnul]
    exact mem_outside_of_block hm hw _ (Nat.le_add_right _ _) (by dsimp only; omega)

end Outside

variable {slot : ℕ} {w : World}

theorem store_outside (value : UInt8) (h : slot < w.arena.base ∨ w.arena.limit ≤ slot) (a : ℕ)
    (hbase : w.arena.base ≤ a) (hlimit : a < w.arena.limit) : store w.mem slot value a = w.mem a :=
  store_of_ne (by omega)

variable {arena : Arena}

theorem settled_local (h : slot < arena.base ∨ arena.limit ≤ slot) : arena.Settled slot 1 := by
  intro i hi
  have hbase : arena.base ≤ arena.top := Nat.le_add_right _ _
  omega

theorem bytes_store_one (m : Mem) (slot : ℕ) (value : UInt8) :
    bytes (store m slot value) slot 1 = [value] := by
  simp [bytes, ByteBlock.window]

variable {value : UInt8}

section Buffers
variable {w : World} (hw : w.Owned) (p : ℕ)
include hw

theorem refines_bufferInit_outcome {op : Op} {r : ℤ × World} (htarget : op.target = .buffer p)
    (hinit : op.isInit = true) (happly : ∀ old, op.apply w old = [])
    (h : InitOutcome w (.buffer p) (fun w' => Holds w w' (.buffer p) []) r) : Refines w op r := by
  cases h with
  | null h0 => exact refines_unchanged hw kliInval_neg (.inr (by rwa [htarget]))
  | failed hneg h0 hempty =>
    rw [← htarget] at h0 hempty
    exact refines_emptied hw hneg hinit h0 hempty.change
      ((htarget ▸ hempty.change).owned_buffer hw (htarget ▸ hempty.held)) hempty.contents_eq
  | done h0 hholds =>
    have howned := hholds.change.owned_buffer hw hholds.held
    rw [← htarget] at hholds
    exact refines_done hw hholds.change howned (hholds.contents_eq.trans (happly _).symm)

theorem refines_bufferInit (arena : Bool) :
    Refines w (.bufferInit p arena) (kliBufferInit w (.buffer p) arena) := by
  apply refines_bufferInit_outcome hw p rfl rfl (fun _ => rfl)
  have hinit := kliBufferInit_outcome hw.valid (.buffer p) arena
  generalize kliBufferInit w (.buffer p) arena = result at hinit ⊢
  cases hinit with
  | null h0 => exact .null h0
  | failed hneg h0 hempty => exact .failed hneg h0 hempty
  | done h0 heq => exact .done h0 (heq ▸ holds_set_attached hw.valid _)

theorem refines_bufferReserve (minimum : ℕ) :
    Refines w (.bufferReserve p minimum) (kliBufferReserve w (.buffer p) minimum) := by
  apply refines_of_outcome hw rfl (Change.refl hw.valid _) hw rfl
    (kliBufferReserve_outcome hw.valid (hw.held _) minimum)
  intro w' hres
  exact ⟨hres.change, hres.change.owned_buffer hw hres.held, hres.contents_eq⟩

theorem refines_bufferAppend {data size : ℕ} (hargs : (Op.bufferAppend p data size).Args w) :
    Refines w (.bufferAppend p data size) (kliBufferAppend w (.buffer p) data size) := by
  apply refines_of_outcome hw rfl (Change.refl hw.valid _) hw rfl
    (kliBufferAppend_outcome hw.valid (hw.held _) hargs)
  intro w' hholds
  exact ⟨hholds.change, hholds.change.owned_buffer hw hholds.held, hholds.contents_eq⟩

theorem refines_bufferAppendByte (hargs : (Op.bufferAppendByte p value slot).Args w) :
    Refines w (.bufferAppendByte p value slot) (kliBufferAppendByte w (.buffer p) value slot) := by
  have hout := store_outside value hargs
  have hlocal := owned_outside hout hw
  apply refines_of_outcome hw rfl (change_outside hout hw.valid _) hlocal
    (contents_outside hout hw _)
    (kliBufferAppend_outcome hlocal.valid (hlocal.held _) (settled_local hargs))
  intro w' hholds
  refine ⟨hholds.change, hholds.change.owned_buffer hlocal hholds.held, ?_⟩
  change w'.contents (.buffer p) = w.contents (.buffer p) ++ [value]
  rw [hholds.contents_eq, contents_outside hout hw, bytes_store_one]

theorem refines_bufferClear : Refines w (.bufferClear p)
      (if bufferIsValid w (.buffer p) then 0 else kliInval, kliBufferClear w (.buffer p)) := by
  unfold kliBufferClear
  by_cases hvalid : bufferIsValid w (.buffer p) = true
  · rw [if_pos hvalid, if_neg (not_not.mpr hvalid)]
    have harena := ((bufferIsValid_iff hw.valid (hw.held _)).mp hvalid).2
    have hc : Change w (w.rewrite (.buffer p) w.mem 0) (.buffer p) :=
      change_rewrite hw.valid 0 fun _ _ => rfl
    have hheld : (w.rewrite (.buffer p) w.mem 0).Held (.buffer p) :=
      (hw.held _).rewrite harena (Nat.zero_le _)
    exact refines_done hw hc (hc.owned_buffer hw hheld) (contents_rewrite _ _)
  · rw [if_neg hvalid, if_pos hvalid]
    exact refines_unchanged hw kliInval_neg (.inl rfl)

end Buffers

variable {text length : ℕ}

section Strings
variable {w : World} (hw : w.Owned) (p : ℕ)
include hw

theorem refines_of_text {op : Op} {r : ℤ × World} {bs : List UInt8}
    (htarget : op.target = .string p) (hop : op.isInit = false)
    (hc₁ : Change w w₁ op.target) (howned₁ : w₁.Owned)
    (heq₁ : w₁.contents op.target = w.contents op.target)
    (hbs : bs = op.apply w (w.contents op.target))
    (h : Outcome w₁ (fun w' => HoldsText w₁ w' p bs) r) : Refines w op r := by
  apply refines_of_outcome hw hop hc₁ howned₁ heq₁ h
  intro w' htext
  rw [htarget]
  refine ⟨htext.holds.change, htext.owned howned₁, ?_⟩
  rw [htext.holds.contents_eq, hbs, htarget]

theorem refines_stringAssign (hargs : (Op.stringAssign p text).Args w) :
    Refines w (.stringAssign p text) (kliStringAssign w p text) := by
  apply refines_of_text hw p rfl rfl (Change.refl hw.valid _) hw rfl (bytes_strlen _ _)
  exact .ite (fun _ => .invalid) fun _ => kliStringAssignN_outcome hw p hargs

theorem refines_stringAppend (hargs : (Op.stringAppend p text).Args w) :
    Refines w (.stringAppend p text) (kliStringAppend w p text) := by
  apply refines_of_text hw p rfl rfl (Change.refl hw.valid _) hw rfl
    (congrArg (w.contents (.string p) ++ ·) (bytes_strlen w.mem text))
  exact .ite (fun _ => .invalid) fun _ => kliStringAppendN_outcome hw p hargs

theorem refines_stringAppendChar (hargs : (Op.stringAppendChar p value slot).Args w) :
    Refines w (.stringAppendChar p value slot) (kliStringAppendChar w p value slot) := by
  unfold kliStringAppendChar
  split_ifs with hnul
  · exact refines_unchanged hw kliInval_neg (.inl rfl)
  · have hout := store_outside value hargs
    have hlocal := owned_outside hout hw
    apply refines_of_text hw p rfl rfl (change_outside hout hw.valid _) hlocal
      (contents_outside hout hw _) _
      (kliStringAppendN_outcome hlocal p (settled_local hargs))
    rw [contents_outside hout hw, bytes_store_one]
    rfl

theorem refines_stringClear : Refines w (.stringClear p)
      (if stringStorageIsValid w p then 0 else kliInval, kliStringClear w p) := by
  unfold kliStringClear
  by_cases hvalid : stringStorageIsValid w p = true
  · rw [if_pos hvalid, if_neg (not_not.mpr hvalid)]
    obtain ⟨-, harena⟩ := of_stringStorageIsValid hw hvalid
    obtain ⟨hlt, -, -⟩ := hw.terminated p harena
    have hres : Reserved w w (.string p) (0 + 1) := Reserved.refl hw.valid (hw.held _) (by omega)
    have htext := hres.holdsText harena (fun _ _ => rfl) rfl (by simp)
    exact refines_done hw htext.holds.change (htext.owned hw) htext.holds.contents_eq
  · rw [if_neg hvalid, if_pos hvalid]
    exact refines_unchanged hw kliInval_neg (.inl rfl)

theorem refines_stringInitCapacity {op : Op} (htarget : op.target = .string p)
    (hinit : op.isInit = true) (happly : ∀ old, op.apply w old = []) (arena : Bool) (initial : ℕ) :
    Refines w op (kliStringInitCapacity w p arena initial) := by
  have h := kliStringInitCapacity_outcome hw.valid p arena initial
  generalize kliStringInitCapacity w p arena initial = result at h ⊢
  cases h with
  | null h0 => exact refines_unchanged hw kliInval_neg (.inr (by rw [htarget]; exact h0))
  | failed hneg h0 hcleared =>
    have hempty := hcleared.emptied
    rw [← htarget] at hempty
    exact refines_emptied hw hneg hinit (by rwa [htarget]) hempty.change (hcleared.owned hw)
      hempty.contents_eq
  | done h0 htext =>
    have hholds := htext.holds
    rw [← htarget] at hholds
    exact refines_done hw hholds.change (htext.owned hw) (hholds.contents_eq.trans (happly _).symm)

end Strings

theorem refines_exec (hw : w.Owned) (op : Op) (hargs : op.Args w) : Refines w op (op.exec w) := by
  cases op with
  | bufferInit p arena => exact refines_bufferInit hw p arena
  | bufferInitCapacity p arena initial =>
    exact refines_bufferInit_outcome hw p rfl rfl (fun _ => rfl)
      (kliBufferInitCapacity_outcome hw.valid (.buffer p) arena initial)
  | bufferReserve p minimum => exact refines_bufferReserve hw p minimum
  | bufferAppend p data size => exact refines_bufferAppend hw p hargs
  | bufferAppendByte p value slot => exact refines_bufferAppendByte hw p hargs
  | bufferClear p => exact refines_bufferClear hw p
  | stringInit p arena => exact refines_stringInitCapacity hw p rfl rfl (fun _ => rfl) arena 0
  | stringInitCapacity p arena initial =>
    exact refines_stringInitCapacity hw p rfl rfl (fun _ => rfl) arena initial
  | stringAssignN p text length =>
    exact refines_of_text hw p rfl rfl (Change.refl hw.valid _) hw rfl rfl
      (kliStringAssignN_outcome hw p hargs)
  | stringAssign p text => exact refines_stringAssign hw p hargs
  | stringAppendN p text length =>
    exact refines_of_text hw p rfl rfl (Change.refl hw.valid _) hw rfl rfl
      (kliStringAppendN_outcome hw p hargs)
  | stringAppend p text => exact refines_stringAppend hw p hargs
  | stringAppendChar p value slot => exact refines_stringAppendChar hw p hargs
  | stringClear p => exact refines_stringClear hw p

def World.start (mem : Mem) (arena : Arena) : World := ⟨mem, arena, fun _ => bufferClearAll⟩

def World.run (w : World) (ops : List Op) : World := ops.foldl (fun w op => (op.exec w).2) w

def World.Legal (w : World) : List Op → Prop
  | [] => True
  | op :: ops => op.Args w ∧ Legal (op.exec w).2 ops

theorem owned_start (mem : Mem) (hv : arena.Valid) : (start mem arena).Owned where
  valid := hv
  held h := by constructor <;> simp [start, bufferClearAll]
  apart _ _ _ := by simp [start, bufferClearAll, Apart]
  terminated := by simp [start, bufferClearAll]

theorem owned_run (hw : w.Owned) {ops : List Op} (hlegal : w.Legal ops) : (w.run ops).Owned := by
  induction ops generalizing w with
  | nil => exact hw
  | cons op ops ih => exact ih (refines_exec hw op hlegal.1).owned hlegal.2

/-- After any operations on the objects of one arena, and for the next one: if it succeeds its object
holds what the operation makes of its bytes; if it fails the bytes are as before, or gone if it was to
initialise the object; the other objects keep theirs. Every string has room for its terminator, the
terminator, and no other NUL. A slice of any object may be the argument. -/
theorem operations_refine_byte_lists (mem : Mem) (arena : Arena) (hv : arena.Valid) (ops : List Op)
    (hlegal : (start mem arena).Legal ops) :
    let w := (start mem arena).run ops
    (∀ op : Op, op.Args w → (0 ≤ (op.exec w).1 →
        (op.exec w).2.contents op.target = op.apply w (w.contents op.target)) ∧
      ((op.exec w).1 < 0 → (op.exec w).2.contents op.target =
        if op.isInit = true ∧ op.target.address ≠ 0 then [] else w.contents op.target) ∧
      ∀ h ≠ op.target, (op.exec w).2.contents h = w.contents h) ∧
    (∀ p, (w.objects (.string p)).arena = true →
      (w.objects (.string p)).length < (w.objects (.string p)).capacity ∧
      w.mem ((w.objects (.string p)).data + (w.objects (.string p)).length) = 0 ∧
      0 ∉ w.contents (.string p)) ∧
    ∀ h o n, o + n ≤ (w.objects h).length → w.arena.Settled ((w.objects h).data + o) n := by
  intro w
  have hw : w.Owned := owned_run (owned_start mem hv) hlegal
  refine ⟨?_, hw.terminated, ?_⟩
  · intro op hargs
    have href := refines_exec hw op hargs
    exact ⟨href.success, href.failure, href.others⟩
  · intro h o n hle i hi
    have hlen := (hw.held h).length_le
    have := (hw.held h).inside (by omega)
    omega

theorem operations_refine_byte_lists_self_append :
    let mem : Mem := fun a => if a = 0x100 then 97 else if a = 0x101 then 98 else 0
    let w := (start mem ⟨0x1000, 512, 0, 0⟩).run [.stringInit 8 true, .stringAssignN 8 0x100 2]
    let op := Op.stringAppendN 8 (w.objects (.string 8)).data 2
    (op.exec w).1 = 0 ∧ (op.exec w).2.contents (.string 8) = w.contents (.string 8) ++ [97, 98] := by
  intro mem w op
  have h := operations_refine_byte_lists mem ⟨0x1000, 512, 0, 0⟩ ⟨by decide, by decide, by decide⟩
    [.stringInit 8 true, .stringAssignN 8 0x100 2] ⟨trivial, by decide +kernel, trivial⟩
  have hargs : op.Args w := by
    change w.arena.Settled (w.objects (.string 8)).data 2
    decide +kernel
  have hstatus : (op.exec w).1 = 0 := by decide +kernel
  have hdata : bytes w.mem (w.objects (.string 8)).data 2 = [97, 98] := by decide +kernel
  have happly := (h.1 op hargs).1 hstatus.ge
  exact ⟨hstatus, happly.trans (congrArg (w.contents (.string 8) ++ ·) hdata)⟩

/-- A string that holds a byte loses it to an initialisation that fails. -/
theorem failed_init_drops_contents :
    let mem : Mem := fun a => if a = 0x100 then 97 else 0
    let w := (start mem ⟨0x1000, 512, 0, 0⟩).run [.stringInit 8 true, .stringAssignN 8 0x100 1]
    let result := (Op.stringInitCapacity 8 true wordMax).exec w
    w.contents (.string 8) = [97] ∧ result.1 = kliInval ∧ result.2.contents (.string 8) = [] := by
  decide +kernel

end Libkarm
