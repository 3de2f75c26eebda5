import ArmoniOS.Libkarm.Buffer

/-! The NUL-terminated strings of `libkarm/buffer.c`: a buffer whose byte at its length is NUL and
whose text has no other. -/
namespace Libkarm
open ByteMemory List

def stringStorageIsValid (w : World) (p : ℕ) : Bool :=
  let b := w.objects (.string p)
  if p = 0 then false
  else if ¬ bufferIsValid w (.string p) ∨ b.data = 0 ∨ b.capacity = 0 ∨ b.length ≥ b.capacity then
    false
  else if w.arena.base > wordMax - w.arena.offset then false
  else
    let arenaUsedEnd := w.arena.base + w.arena.offset
    if b.data < w.arena.base ∨ b.data > arenaUsedEnd ∨ b.data > wordMax - b.capacity then false
    else if b.data + b.capacity > arenaUsedEnd then false
    else w.mem (b.data + b.length) = 0

def textHasNul (m : Mem) (text length : ℕ) : Bool :=
  (range length).any fun i => m (text + i) = 0

/-- `strlen` of `libkarm/string.c`, over at most `n` bytes. -/
def strlenWithin (m : Mem) : ℕ → ℕ → ℕ
  | 0, _ => 0
  | n + 1, s => if m s = 0 then 0 else strlenWithin m n (s + 1) + 1

def strlen (m : Mem) (s : ℕ) : ℕ := strlenWithin m (2 ^ 64 - s) s

def stringReserveText (w : World) (p textCapacity : ℕ) : ℤ × World :=
  if ¬ stringStorageIsValid w p ∨ textCapacity = wordMax then (kliInval, w)
  else
    let result := kliBufferReserve w (.string p) (textCapacity + 1)
    if result.1 < 0 then result
    else
      let b := result.2.objects (.string p)
      (0, { result.2 with mem := store result.2.mem (b.data + b.length) 0 })

def kliStringInitCapacity (w : World) (p : ℕ) (arena : Bool) (initial : ℕ) : ℤ × World :=
  if p = 0 then (kliInval, w)
  else
    let cleared := w.set (.string p) bufferClearAll
    if initial = wordMax then (kliInval, cleared)
    else
      let init := kliBufferInit cleared (.string p) arena
      if init.1 < 0 then init
      else
        let result := kliBufferReserve init.2 (.string p) (initial + 1)
        if result.1 < 0 then (result.1, result.2.set (.string p) bufferClearAll)
        else
          let b := result.2.objects (.string p)
          (0, World.set { result.2 with mem := store result.2.mem b.data 0 } (.string p)
            { b with length := 0 })

def kliStringInit (w : World) (p : ℕ) (arena : Bool) : ℤ × World :=
  kliStringInitCapacity w p arena 0

def kliStringAssignN (w : World) (p text length : ℕ) : ℤ × World :=
  if ¬ stringStorageIsValid w p then (kliInval, w)
  else if length ≠ 0 ∧ text = 0 then (kliInval, w)
  else if length = wordMax ∨ length ≠ 0 ∧ textHasNul w.mem text length then (kliInval, w)
  else
    let result := stringReserveText w p length
    if result.1 < 0 then result
    else
      let b := result.2.objects (.string p)
      let mem := if length ≠ 0 then memmove result.2.mem b.data text length else result.2.mem
      (0, World.set { result.2 with mem := store mem (b.data + length) 0 } (.string p)
        { b with length := length })

def kliStringAssign (w : World) (p text : ℕ) : ℤ × World :=
  if text = 0 then (kliInval, w) else kliStringAssignN w p text (strlen w.mem text)

def kliStringAppendN (w : World) (p text length : ℕ) : ℤ × World :=
  if ¬ stringStorageIsValid w p then (kliInval, w)
  else if length = 0 then (0, w)
  else if text = 0 ∨ textHasNul w.mem text length ∨
      (w.objects (.string p)).length > wordMax - length then (kliInval, w)
  else
    let required := (w.objects (.string p)).length + length
    if required = wordMax then (kliInval, w)
    else
      let result := stringReserveText w p required
      if result.1 < 0 then result
      else
        let b := result.2.objects (.string p)
        (0, World.set
          { result.2 with
            mem := store (memmove result.2.mem (b.data + b.length) text length) (b.data + required) 0 }
          (.string p) { b with length := required })

def kliStringAppend (w : World) (p text : ℕ) : ℤ × World :=
  if text = 0 then (kliInval, w) else kliStringAppendN w p text (strlen w.mem text)

/-- The value lies in a local variable at `slot` while it is appended. -/
def kliStringAppendChar (w : World) (p : ℕ) (value : UInt8) (slot : ℕ) : ℤ × World :=
  if value = 0 then (kliInval, w)
  else kliStringAppendN { w with mem := store w.mem slot value } p slot 1

def kliStringClear (w : World) (p : ℕ) : World :=
  if ¬ stringStorageIsValid w p then w
  else
    let b := w.objects (.string p)
    World.set { w with mem := store w.mem b.data 0 } (.string p) { b with length := 0 }

variable {text length : ℕ}

theorem textHasNul_eq_false {m : Mem} :
    textHasNul m text length = false ↔ 0 ∉ bytes m text length := by
  simp only [textHasNul, any_eq_false, decide_eq_true_eq, bytes, ByteBlock.window,
    mem_map, not_exists, not_and]

theorem strlenWithin_eq (m : Mem) (n s : ℕ) :
    bytes m s (strlenWithin m n s) = (bytes m s n).takeWhile (· ≠ 0) := by
  induction n generalizing s with
  | zero => rfl
  | succ n ih =>
    have hcons (k : ℕ) : bytes m s (k + 1) = m s :: bytes m (s + 1) k := by
      unfold bytes
      rw [Nat.add_comm k 1, ByteBlock.window_add]
      rfl
    rw [strlenWithin, hcons]
    split_ifs with hnul
    · simp [hnul]
    · rw [hcons, ih]
      simp [hnul]

/-- The text at `s`: what stands before its first NUL. -/
def textAt (m : Mem) (s : ℕ) : List UInt8 := (bytes m s (2 ^ 64 - s)).takeWhile (· ≠ 0)

theorem bytes_strlen (m : Mem) (s : ℕ) : bytes m s (strlen m s) = textAt m s :=
  strlenWithin_eq m _ s

variable {p : ℕ}

section Spec
variable {w : World} (hw : w.Owned)
include hw

theorem of_stringStorageIsValid (h : stringStorageIsValid w p = true) :
    bufferIsValid w (.string p) = true ∧ (w.objects (.string p)).arena = true := by
  have hvalid : bufferIsValid w (.string p) = true := by
    unfold stringStorageIsValid at h
    dsimp only at h
    split_ifs at h with h0 hbad
    all_goals
      simp only [not_or, Bool.not_eq_true, Bool.not_eq_false] at hbad
      exact hbad.1
  exact ⟨hvalid, ((bufferIsValid_iff hw.valid (hw.held _)).mp hvalid).2⟩

theorem stringReserveText_outcome (p textCapacity : ℕ) :
    Outcome w (fun w' => Reserved w w' (.string p) (textCapacity + 1))
      (stringReserveText w p textCapacity) := by
  apply Outcome.guard
  intro hgood
  obtain ⟨hvalid, harena⟩ := of_stringStorageIsValid hw (not_not.mp (not_or.mp hgood).1)
  obtain ⟨hlt, hnul, -⟩ := hw.terminated p harena
  apply Outcome.bind (kliBufferReserve_outcome hw.valid (hw.held (.string p)) _)
  intro w₁ heq hres
  rw [heq]
  apply Outcome.done
  rcases hres.same_or_fresh with rfl | hfresh
  -- without growth the terminator is already there
  · have hsame : { w₁ with mem := store w₁.mem ((w₁.objects (.string p)).data +
        (w₁.objects (.string p)).length) 0 } = w₁ := by
      rw [← hnul, store, Function.update_eq_self]
    rwa [hsame]
  · have hcap := hres.capacity_le
    have hlen := hres.length_eq
    have hin := hres.held.inside (by omega)
    have hlimit := hres.change.limit_eq ▸ hres.change.valid.top_le
    have hsame : { w₁ with mem := store w₁.mem ((w₁.objects (.string p)).data +
        (w₁.objects (.string p)).length) 0 } = w₁.rewrite (.string p)
          (store w₁.mem ((w₁.objects (.string p)).data + (w₁.objects (.string p)).length) 0)
          (w₁.objects (.string p)).length := by
      simp [World.rewrite, World.set]
    rw [hsame]
    refine ⟨hres.change.trans (World.change_rewrite hres.change.valid _ ?_),
      hres.held.rewrite (hres.arena_eq.trans harena) hres.held.length_le, by simpa using hlen,
      by simpa using hres.arena_eq, by simpa using hres.minimum_le, by simpa using hcap, ?_, ?_, ?_⟩
    · intro a ha
      exact store_of_ne (by omega)
    · rw [World.contents_rewrite, ← hres.contents_eq]
      exact bytes_store_apart (.inl le_rfl)
    · intro a ha
      rw [World.rewrite_mem, store_of_ne (by omega)]
      exact hres.settled a ha
    · exact .inr (by simpa using hfresh)

end Spec

/-- What a successful string operation leaves: the text, and a terminator after it. -/
structure HoldsText (w w' : World) (p : ℕ) (bs : List UInt8) : Prop where
  holds : Holds w w' (.string p) bs
  length_lt : (w'.objects (.string p)).length < (w'.objects (.string p)).capacity
  nul : w'.mem ((w'.objects (.string p)).data + (w'.objects (.string p)).length) = 0
  text : 0 ∉ bs

variable {w' : World} {bs : List UInt8} {w : World}

theorem HoldsText.owned (hw : w.Owned) (h : HoldsText w w' p bs) : w'.Owned := by
  apply h.holds.change.owned hw h.holds.held
  intro _ _ _
  refine ⟨h.length_lt, h.nul, ?_⟩
  rw [h.holds.contents_eq]
  exact h.text

theorem HoldsText.of_change {w w₁ : World} (hc : World.Change w w₁ (.string p))
    (h : HoldsText w₁ w' p bs) : HoldsText w w' p bs :=
  ⟨⟨hc.trans h.holds.change, h.holds.held, h.holds.arena_eq, h.holds.contents_eq⟩, h.length_lt, h.nul,
    h.text⟩

theorem Reserved.holdsText {w w₁ : World} {n : ℕ} {m : Mem}
    (hres : Reserved w w₁ (.string p) (n + 1)) (harena : (w.objects (.string p)).arena = true)
    (hm : ∀ a, a < (w₁.objects (.string p)).data ∨ (w₁.objects (.string p)).data + (w₁.objects (.string p)).capacity ≤ a → m a = w₁.mem a)
    (hbytes : bytes m (w₁.objects (.string p)).data n = bs) (htext : 0 ∉ bs) :
    HoldsText w
      (w₁.rewrite (.string p) (store m ((w₁.objects (.string p)).data + n) 0) n) p bs := by
  have hcap := hres.minimum_le
  have harena₁ := hres.arena_eq.trans harena
  refine ⟨⟨hres.change.trans (World.change_rewrite hres.change.valid _ ?_),
    hres.held.rewrite harena₁ (by omega), by simpa using harena₁, ?_⟩, ?_, ?_, htext⟩
  · intro a ha
    rw [store_of_ne (by omega)]
    exact hm a ha
  · rw [World.contents_rewrite, ← hbytes]
    exact bytes_store_apart (.inl le_rfl)
  · simp only [World.rewrite_objects]
    omega
  · simp

structure ClearedText (w w' : World) (p : ℕ) : Prop where
  change : World.Change w w' (.string p)
  cleared : w'.objects (.string p) = bufferClearAll

theorem ClearedText.emptied (h : ClearedText w w' p) : Emptied w w' (.string p) := by
  refine ⟨h.change, ?_, ?_⟩
  · constructor <;> simp [h.cleared, bufferClearAll]
  · simp [World.contents, h.cleared, bufferClearAll]

theorem ClearedText.owned (hw : w.Owned) (h : ClearedText w w' p) : w'.Owned :=
  h.change.owned hw h.emptied.held (by simp [h.cleared, bufferClearAll])

inductive TextOutcome (w : World) (p : ℕ) : ℤ × World → Prop
  | null (h0 : p = 0) : TextOutcome w p (kliInval, w)
  | failed {status : ℤ} {w' : World} (hneg : status < 0) (h0 : p ≠ 0)
      (hcleared : ClearedText w w' p) : TextOutcome w p (status, w')
  | done {w' : World} (h0 : p ≠ 0) (htext : HoldsText w w' p []) : TextOutcome w p (0, w')

theorem kliStringInitCapacity_outcome (hv : w.arena.Valid) (p : ℕ) (arena : Bool) (initial : ℕ) :
    TextOutcome w p (kliStringInitCapacity w p arena initial) := by
  unfold kliStringInitCapacity
  by_cases h0 : p = 0
  · rw [if_pos h0]
    exact .null h0
  rw [if_neg h0]
  -- a failure at any point leaves the string cleared
  have hfail (w₁ : World) (hc₁ : World.Change w w₁ (.string p)) :
      ClearedText w (w₁.set (.string p) bufferClearAll) p :=
    ⟨hc₁.trans (World.change_set_empty hc₁.valid (.string p) false), World.set_objects_self⟩
  have hcleared := hfail w (World.Change.refl hv _)
  by_cases hmax : initial = wordMax
  · rw [if_pos hmax]
    exact .failed kliInval_neg h0 hcleared
  rw [if_neg hmax]
  have hinit : kliBufferInit (w.set (.string p) bufferClearAll) (.string p) arena =
      (kliInval, (w.set (.string p) bufferClearAll).set (.string p) bufferClearAll) ∨
      kliBufferInit (w.set (.string p) bufferClearAll) (.string p) arena =
      (0, (w.set (.string p) bufferClearAll).set (.string p)
        { bufferClearAll with arena := true }) := by
    unfold kliBufferInit
    rw [if_neg (show ¬ (Handle.string p).address = 0 from h0)]
    split_ifs
    · exact .inl rfl
    · exact .inr rfl
  rcases hinit with heq | heq
  · simp only [heq, kliInval_neg, if_true]
    exact .failed kliInval_neg h0 (hfail _ hcleared.change)
  simp only [heq, lt_irrefl, if_false]
  have hholds := holds_set_attached hcleared.change.valid (.string p)
  have hc₁ := hcleared.change.trans hholds.change
  rcases kliBufferReserve_outcome hc₁.valid hholds.held (initial + 1) with
    ⟨status, hneg, heq⟩ | ⟨w₂, heq, hres⟩
  · simp only [heq, if_pos hneg]
    exact .failed hneg h0 (hfail _ hc₁)
  simp only [heq, lt_irrefl, if_false]
  have htext : HoldsText w (w₂.rewrite (.string p)
      (store w₂.mem ((w₂.objects (.string p)).data + 0) 0) 0) p [] :=
    ((hres.mono (by omega)).holdsText hholds.arena_eq (fun _ _ => rfl) rfl (by simp)).of_change hc₁
  exact .done h0 htext

section Ops
variable {w : World} (hw : w.Owned)
include hw

theorem kliStringAssignN_outcome (p : ℕ) (hset : w.arena.Settled text length) :
    Outcome w (fun w' => HoldsText w w' p (bytes w.mem text length))
      (kliStringAssignN w p text length) := by
  unfold kliStringAssignN
  apply Outcome.guard
  intro hvalid
  obtain ⟨-, harena⟩ := of_stringStorageIsValid hw (not_not.mp hvalid)
  apply Outcome.guard
  intro hnull
  apply Outcome.guard
  intro hgood
  have htext : 0 ∉ bytes w.mem text length := by
    rw [not_or, not_and, Bool.not_eq_true, textHasNul_eq_false] at hgood
    by_cases hzero : length = 0
    · simp [hzero]
    · exact hgood.2 hzero
  apply Outcome.bind (stringReserveText_outcome hw p length)
  intro w₁ heq hres
  have hcap := hres.minimum_le
  simp only [heq, memmove_unless_empty]
  apply Outcome.done
  apply hres.holdsText harena _ _ htext
  · intro a ha
    exact moved_of_apart (by omega)
  · rw [bytes_moved, hres.bytes_eq hset]

theorem kliStringAppendN_outcome (p : ℕ) (hset : w.arena.Settled text length) :
    Outcome w (fun w' => HoldsText w w' p (w.contents (.string p) ++ bytes w.mem text length))
      (kliStringAppendN w p text length) := by
  apply Outcome.guard
  intro hvalid
  obtain ⟨-, harena⟩ := of_stringStorageIsValid hw (not_not.mp hvalid)
  obtain ⟨hlt, hnul, htext⟩ := hw.terminated p harena
  apply Outcome.ite
  · intro hzero
    have hself : HoldsText w w p (w.contents (.string p)) :=
      ⟨⟨World.Change.refl hw.valid _, hw.held _, harena, rfl⟩, hlt, hnul, htext⟩
    exact .done (by simpa [hzero] using hself)
  intro hpos
  apply Outcome.guard
  intro hgood
  apply Outcome.guard
  intro hmax
  apply Outcome.bind (stringReserveText_outcome hw p _)
  intro w₁ heq hres
  have hcap := hres.minimum_le
  have hlen := hres.length_eq
  simp only [heq, memmove_eq]
  apply Outcome.done
  apply hres.holdsText harena
  · intro a ha
    exact moved_of_apart (by omega)
  · rw [← hlen, bytes_append_moved, hres.bytes_eq hset, ← hres.contents_eq]
    rfl
  · rw [not_or, not_or, Bool.not_eq_true, textHasNul_eq_false] at hgood
    rw [mem_append, not_or]
    exact ⟨htext, hgood.2.1⟩

end Ops
end Libkarm
