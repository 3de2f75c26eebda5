import ArmoniOS.Libkarm.Arena

/-! The growable buffers of `libkarm/buffer.c` over one arena. Every object is a record of a data
pointer, a length and a capacity, kept in a table by its address; its bytes lie in the memory shared
by all of them. Growth takes a fresh block and leaves the old one behind. -/
namespace Libkarm
open ByteMemory

def kliNomem : ℤ := -2

def kliInval : ℤ := -7

theorem kliNomem_neg : kliNomem < 0 := by decide

theorem kliInval_neg : kliInval < 0 := by decide

/-- `memmove` of `libkarm/string.c` -/
def memmove (m : Mem) (dst src n : ℕ) : Mem :=
  if dst = src ∨ n = 0 then m
  else if dst < src then copyUp m dst src n
  else copyDown m dst src n

theorem memmove_eq (m : Mem) (dst src n : ℕ) : memmove m dst src n = moved m dst src n := by
  unfold memmove
  split_ifs with htriv hlt
  · funext a
    unfold moved
    split_ifs with ha
    · rcases htriv with rfl | rfl
      · rw [Nat.add_sub_cancel' ha.1]
      · omega
    · rfl
  · exact copyUp_eq n hlt
  · exact copyDown_eq n (not_lt.mp hlt)

theorem memmove_unless_empty (m : Mem) (dst src n : ℕ) :
    (if n ≠ 0 then memmove m dst src n else m) = moved m dst src n := by
  rw [← memmove_eq]
  split_ifs with hzero
  · rfl
  · rw [memmove, if_pos (.inr (not_not.mp hzero))]

/-- `kli_buffer_t`; the arena pointer is null or names the one arena. -/
structure Buffer where
  data : ℕ
  length : ℕ
  capacity : ℕ
  arena : Bool
  deriving DecidableEq

/-- The address of a `kli_buffer_t`, or of a `kli_string_t` for the buffer inside it. -/
inductive Handle where
  | buffer (p : ℕ)
  | string (p : ℕ)
  deriving DecidableEq

def Handle.address : Handle → ℕ
  | .buffer p => p
  | .string p => p

structure World where
  mem : Mem
  arena : Arena
  objects : Handle → Buffer

namespace World

def set (w : World) (h : Handle) (b : Buffer) : World :=
  { w with objects := Function.update w.objects h b }

variable {w : World} {h h' : Handle} {b : Buffer}

@[simp] theorem set_mem : (w.set h b).mem = w.mem := rfl

@[simp] theorem set_arena : (w.set h b).arena = w.arena := rfl

@[simp] theorem set_objects_self : (w.set h b).objects h = b := by simp [set]

theorem set_objects_of_ne (hne : h' ≠ h) : (w.set h b).objects h' = w.objects h' := by
  simp [set, hne]

def contents (w : World) (h : Handle) : List UInt8 :=
  bytes w.mem (w.objects h).data (w.objects h).length

@[simp] theorem contents_length : (w.contents h).length = (w.objects h).length := by
  simp [contents]

end World

def kliBufferMinCapacity : ℕ := 64

def bufferClearAll : Buffer := ⟨0, 0, 0, false⟩

def bufferIsValid (w : World) (h : Handle) : Bool :=
  if h.address = 0 ∨ (w.objects h).arena = false ∨ w.arena.base = 0 ∨
      w.arena.offset > w.arena.capacity ∨ (w.objects h).length > (w.objects h).capacity then false
  else if (w.objects h).capacity = 0 ∧ (w.objects h).data ≠ 0 ∨
      (w.objects h).capacity ≠ 0 ∧ (w.objects h).data = 0 then false
  else true

/-- The argument `arena` says whether the arena pointer is not null. -/
def kliBufferInit (w : World) (h : Handle) (arena : Bool) : ℤ × World :=
  if h.address = 0 then (kliInval, w)
  else if arena = false ∨ w.arena.base = 0 ∨ w.arena.offset > w.arena.capacity then
    (kliInval, w.set h bufferClearAll)
  else (0, w.set h { bufferClearAll with arena := true })

/-- The doubling loop of `kli_buffer_reserve`, for at most `n` rounds. -/
def growCapacity (minimum : ℕ) : ℕ → ℕ → ℕ
  | 0, capacity => capacity
  | n + 1, capacity =>
      if capacity < minimum then
        if capacity > wordMax / 2 then minimum else growCapacity minimum n (capacity * 2)
      else capacity

/-- A nonzero capacity cannot be doubled more often than a word has bits. -/
def newCapacity (minimum capacity : ℕ) : ℕ :=
  growCapacity minimum 64 (if capacity < kliBufferMinCapacity then kliBufferMinCapacity else capacity)

def kliBufferReserve (w : World) (h : Handle) (minimum : ℕ) : ℤ × World :=
  if ¬ bufferIsValid w h then (kliInval, w)
  else if minimum ≤ (w.objects h).capacity then (0, w)
  else if newCapacity minimum (w.objects h).capacity < minimum then (kliNomem, w)
  else
    let newData := (kliArenaAlloc w.arena (newCapacity minimum (w.objects h).capacity)).1
    if newData = 0 then (kliNomem, w)
    else
      (0, World.set
        { w with
          arena := (kliArenaAlloc w.arena (newCapacity minimum (w.objects h).capacity)).2
          mem :=
            if (w.objects h).length ≠ 0 then
              memmove w.mem newData (w.objects h).data (w.objects h).length
            else w.mem }
        h
        { w.objects h with
          data := newData
          capacity := newCapacity minimum (w.objects h).capacity })

def kliBufferInitCapacity (w : World) (h : Handle) (arena : Bool) (initial : ℕ) : ℤ × World :=
  let result := kliBufferInit w h arena
  if result.1 < 0 ∨ initial = 0 then result else kliBufferReserve result.2 h initial

def kliBufferAppend (w : World) (h : Handle) (data size : ℕ) : ℤ × World :=
  if ¬ bufferIsValid w h then (kliInval, w)
  else if size = 0 then (0, w)
  else if data = 0 ∨ (w.objects h).length > wordMax - size then (kliInval, w)
  else
    let required := (w.objects h).length + size
    let result := kliBufferReserve w h required
    if result.1 < 0 then result
    else
      let b := result.2.objects h
      (0, World.set { result.2 with mem := memmove result.2.mem (b.data + b.length) data size } h
        { b with length := required })

/-- The value lies in a local variable at `slot` while it is appended. -/
def kliBufferAppendByte (w : World) (h : Handle) (value : UInt8) (slot : ℕ) : ℤ × World :=
  kliBufferAppend { w with mem := store w.mem slot value } h slot 1

def kliBufferClear (w : World) (h : Handle) : World :=
  if ¬ bufferIsValid w h then w else w.set h { w.objects h with length := 0 }

def Arena.Settled (arena : Arena) (p n : ℕ) : Prop :=
  ∀ i < n, p + i < arena.top ∨ arena.limit ≤ p + i

instance (arena : Arena) (p n : ℕ) : Decidable (arena.Settled p n) :=
  inferInstanceAs (Decidable (∀ i < n, p + i < arena.top ∨ arena.limit ≤ p + i))

namespace World

/-- An object is cleared, or it is empty and without storage, or its storage is a block of the used
part of the arena. -/
structure Held (w : World) (h : Handle) : Prop where
  cleared : (w.objects h).arena = false → w.objects h = bufferClearAll
  length_le : (w.objects h).length ≤ (w.objects h).capacity
  null : (w.objects h).capacity = 0 → (w.objects h).data = 0
  inside : (w.objects h).capacity ≠ 0 → w.arena.base ≤ (w.objects h).data ∧
    (w.objects h).data + (w.objects h).capacity ≤ w.arena.top

/-- What an operation on `h` may do. Its object keeps its block, loses it, or gets one from the free
part of the arena; of the used part only the block before and the block after are written. -/
structure Change (w w' : World) (h : Handle) : Prop where
  valid : w'.arena.Valid
  base_eq : w'.arena.base = w.arena.base
  limit_eq : w'.arena.limit = w.arena.limit
  top_le : w.arena.top ≤ w'.arena.top
  others : ∀ h' ≠ h, w'.objects h' = w.objects h'
  place : (w'.objects h).data = 0 ∧ (w'.objects h).capacity = 0 ∨
    (w'.objects h).data = (w.objects h).data ∧
      (w'.objects h).capacity = (w.objects h).capacity ∨
    w.arena.top ≤ (w'.objects h).data
  kept : ∀ a, w.arena.base ≤ a → a < w.arena.top →
    (a < (w.objects h).data ∨ (w.objects h).data + (w.objects h).capacity ≤ a) →
    (a < (w'.objects h).data ∨ (w'.objects h).data + (w'.objects h).capacity ≤ a) →
    w'.mem a = w.mem a

variable {w w' w'' : World} {h h' : Handle}

theorem Change.refl (hv : w.arena.Valid) (h : Handle) : Change w w h :=
  ⟨hv, rfl, rfl, le_rfl, fun _ _ => rfl, .inr (.inl ⟨rfl, rfl⟩), fun _ _ _ _ _ => rfl⟩

theorem Change.trans (h₁ : Change w w' h) (h₂ : Change w' w'' h) : Change w w'' h where
  valid := h₂.valid
  base_eq := h₂.base_eq.trans h₁.base_eq
  limit_eq := h₂.limit_eq.trans h₁.limit_eq
  top_le := h₁.top_le.trans h₂.top_le
  others h' hne := (h₂.others h' hne).trans (h₁.others h' hne)
  place := by
    rcases h₂.place with h0 | ⟨hd, hc⟩ | hfresh
    · exact .inl h0
    · rw [hd, hc]
      exact h₁.place
    · exact .inr (.inr (h₁.top_le.trans hfresh))
  kept a hbase htop hout hout'' := by
    -- the block in between is one of the two, or lies above every address used before
    have hout' : a < (w'.objects h).data ∨ (w'.objects h).data + (w'.objects h).capacity ≤ a := by
      rcases h₁.place with h0 | ⟨hd, hc⟩ | hfresh
      · omega
      · rwa [hd, hc]
      · omega
    rw [h₂.kept a (h₁.base_eq ▸ hbase) (htop.trans_le h₁.top_le) hout' hout'',
      h₁.kept a hbase htop hout hout']

/-- Every object has its own block, and every string is terminated and has no other NUL. -/
structure Owned (w : World) : Prop where
  valid : w.arena.Valid
  held : ∀ h, w.Held h
  apart : ∀ h h', h ≠ h' → Apart (w.objects h).data (w.objects h).capacity
    (w.objects h').data (w.objects h').capacity
  terminated : ∀ p, (w.objects (.string p)).arena = true →
    (w.objects (.string p)).length < (w.objects (.string p)).capacity ∧
      w.mem ((w.objects (.string p)).data + (w.objects (.string p)).length) = 0 ∧
      0 ∉ w.contents (.string p)

section Frame
variable (hw : w.Owned) (hc : Change w w' h)
include hw hc

theorem Change.mem_of_other (hne : h' ≠ h) {a : ℕ} (hle : (w.objects h').data ≤ a)
    (hlt : a < (w.objects h').data + (w.objects h').capacity) : w'.mem a = w.mem a := by
  have hin := (hw.held h').inside (by omega)
  have hap := hw.apart h' h hne
  unfold Apart at hap
  apply hc.kept a (by omega) (by omega) (by omega)
  rcases hc.place with h0 | ⟨hd, hcap⟩ | hfresh <;> omega

theorem Change.contents_of_other (hne : h' ≠ h) : w'.contents h' = w.contents h' := by
  unfold contents
  rw [hc.others h' hne]
  apply ByteBlock.window_congr
  intro i hi
  have hle := (hw.held h').length_le
  exact hc.mem_of_other hw hne (by omega) (by omega)

theorem Change.held_of_other (hne : h' ≠ h) : w'.Held h' := by
  have hh := hw.held h'
  have heq := hc.others h' hne
  have htop := hc.top_le
  refine ⟨by rw [heq]; exact hh.cleared, by rw [heq]; exact hh.length_le,
    by rw [heq]; exact hh.null, ?_⟩
  rw [heq, hc.base_eq]
  intro hcap
  have := hh.inside hcap
  omega

theorem Change.apart_of_other (hne : h' ≠ h) :
    Apart (w'.objects h').data (w'.objects h').capacity (w'.objects h).data
      (w'.objects h).capacity := by
  rw [hc.others h' hne]
  have hap := hw.apart h' h hne
  have hh := hw.held h'
  unfold Apart at hap ⊢
  rcases hc.place with ⟨h0, hcap⟩ | ⟨hd, hcap⟩ | hfresh
  · omega
  · rwa [hd, hcap]
  · by_cases hz : (w.objects h').capacity = 0
    · have := hh.null hz
      omega
    · have := hh.inside hz
      omega

end Frame

/-- A change keeps the ownership of the other objects; what is left is the object itself. -/
theorem Change.owned (hw : w.Owned) (hc : Change w w' h) (hheld : w'.Held h)
    (hterm : ∀ p, h = .string p → (w'.objects h).arena = true →
      (w'.objects h).length < (w'.objects h).capacity ∧
        w'.mem ((w'.objects h).data + (w'.objects h).length) = 0 ∧ 0 ∉ w'.contents h) :
    w'.Owned where
  valid := hc.valid
  held h' := by
    by_cases hne : h' = h
    · rwa [hne]
    · exact hc.held_of_other hw hne
  apart h₁ h₂ hne := by
    by_cases h₁h : h₁ = h
    · subst h₁h
      exact (hc.apart_of_other hw hne.symm).symm
    by_cases h₂h : h₂ = h
    · subst h₂h
      exact hc.apart_of_other hw hne
    rw [hc.others h₁ h₁h, hc.others h₂ h₂h]
    exact hw.apart h₁ h₂ hne
  terminated p harena := by
    by_cases hp : Handle.string p = h
    · subst hp
      exact hterm p rfl harena
    · rw [hc.others _ hp] at harena ⊢
      obtain ⟨hlt, hnul, htext⟩ := hw.terminated p harena
      refine ⟨hlt, ?_, by rwa [hc.contents_of_other hw hp]⟩
      rw [hc.mem_of_other hw hp (by omega) (by omega), hnul]

theorem change_set_empty (hv : w.arena.Valid) (h : Handle) (arena : Bool) :
    Change w (w.set h { bufferClearAll with arena := arena }) h where
  valid := hv
  base_eq := rfl
  limit_eq := rfl
  top_le := le_rfl
  others h' hne := set_objects_of_ne hne
  place := by simp [bufferClearAll]
  kept _ _ _ _ _ := rfl

theorem held_set_empty (w : World) (h : Handle) (arena : Bool) :
    (w.set h { bufferClearAll with arena := arena }).Held h := by
  constructor <;> simp +contextual [bufferClearAll]

def rewrite (w : World) (h : Handle) (m : Mem) (n : ℕ) : World :=
  World.set { w with mem := m } h { w.objects h with length := n }

@[simp] theorem rewrite_mem (m : Mem) (n : ℕ) : (w.rewrite h m n).mem = m := rfl

@[simp] theorem rewrite_arena (m : Mem) (n : ℕ) : (w.rewrite h m n).arena = w.arena := rfl

@[simp] theorem rewrite_objects (m : Mem) (n : ℕ) :
    (w.rewrite h m n).objects h = { w.objects h with length := n } := by
  simp [rewrite]

theorem contents_rewrite (m : Mem) (n : ℕ) :
    (w.rewrite h m n).contents h = bytes m (w.objects h).data n := by
  simp [contents]

theorem change_rewrite (hv : w.arena.Valid) {m : Mem} (n : ℕ)
    (hm : ∀ a, a < (w.objects h).data ∨ (w.objects h).data + (w.objects h).capacity ≤ a →
      m a = w.mem a) : Change w (w.rewrite h m n) h where
  valid := hv
  base_eq := rfl
  limit_eq := rfl
  top_le := le_rfl
  others h' hne := set_objects_of_ne hne
  place := by simp
  kept a _ _ hout _ := hm a hout

theorem Held.rewrite (hh : w.Held h) (harena : (w.objects h).arena = true) {m : Mem} {n : ℕ}
    (hn : n ≤ (w.objects h).capacity) : (w.rewrite h m n).Held h := by
  constructor
  · simp [harena]
  · simpa using hn
  · simpa using hh.null
  · simpa using hh.inside

end World

variable {h : Handle}

theorem bufferIsValid_iff {w : World} (hv : w.arena.Valid) (hh : w.Held h) :
    bufferIsValid w h = true ↔ h.address ≠ 0 ∧ (w.objects h).arena = true := by
  have hpos := hv.base_pos
  have hoffset := hv.offset_le
  have hlen := hh.length_le
  have hpair : ¬ ((w.objects h).capacity = 0 ∧ (w.objects h).data ≠ 0 ∨
      (w.objects h).capacity ≠ 0 ∧ (w.objects h).data = 0) := by
    by_cases hcap : (w.objects h).capacity = 0
    · simp [hcap, hh.null hcap]
    · have := hh.inside hcap
      omega
  unfold bufferIsValid
  split_ifs with hbad
  · simp only [false_iff, not_and, Bool.not_eq_true]
    intro hnull
    rcases hbad with h0 | harena | h0 | hlt | hlt
    · exact absurd h0 hnull
    · exact harena
    all_goals omega
  · simp only [not_or, Bool.not_eq_false] at hbad
    simp [hbad.1, hbad.2.1]

/-- A call either fails with a negative status and changes nothing, or returns zero in a world that
is `good`. -/
def Outcome (w : World) (good : World → Prop) (result : ℤ × World) : Prop :=
  (∃ status < 0, result = (status, w)) ∨ ∃ w', result = (0, w') ∧ good w'

namespace Outcome
variable {w w' : World} {good : World → Prop} {r r' : ℤ × World}

theorem invalid : Outcome w good (kliInval, w) := .inl ⟨kliInval, kliInval_neg, rfl⟩

theorem exhausted : Outcome w good (kliNomem, w) := .inl ⟨kliNomem, kliNomem_neg, rfl⟩

theorem done (h : good w') : Outcome w good (0, w') := .inr ⟨w', rfl, h⟩

theorem ite {c : Prop} [Decidable c] (hpos : c → Outcome w good r) (hneg : ¬ c → Outcome w good r') :
    Outcome w good (if c then r else r') := by
  split_ifs with h
  · exact hpos h
  · exact hneg h

theorem guard {c : Prop} [Decidable c] (h : ¬ c → Outcome w good r) :
    Outcome w good (if c then (kliInval, w) else r) :=
  ite (fun _ => invalid) h

/-- A failure of the first call is returned, otherwise the second part runs where it ended. -/
theorem bind {mid : World → Prop} (h : Outcome w mid r)
    (hnext : ∀ w₁, r = (0, w₁) → mid w₁ → Outcome w good r') :
    Outcome w good (if r.1 < 0 then r else r') := by
  rcases h with ⟨status, hneg, rfl⟩ | ⟨w₁, rfl, hmid⟩
  · rw [if_pos hneg]
    exact .inl ⟨status, hneg, rfl⟩
  · exact hnext w₁ rfl hmid

end Outcome

/-- A successful reservation: the same bytes in a block that is large enough. -/
structure Reserved (w w' : World) (h : Handle) (minimum : ℕ) : Prop where
  change : World.Change w w' h
  held : w'.Held h
  length_eq : (w'.objects h).length = (w.objects h).length
  arena_eq : (w'.objects h).arena = (w.objects h).arena
  minimum_le : minimum ≤ (w'.objects h).capacity
  capacity_le : (w.objects h).capacity ≤ (w'.objects h).capacity
  contents_eq : w'.contents h = w.contents h
  settled : ∀ a, a < w.arena.top ∨ w.arena.limit ≤ a → w'.mem a = w.mem a
  same_or_fresh : w' = w ∨ w.arena.top ≤ (w'.objects h).data

theorem Reserved.refl {w : World} {minimum : ℕ} (hv : w.arena.Valid) (hh : w.Held h)
    (hle : minimum ≤ (w.objects h).capacity) : Reserved w w h minimum :=
  ⟨World.Change.refl hv h, hh, rfl, rfl, hle, le_rfl, rfl, fun _ _ => rfl, .inl rfl⟩

theorem Reserved.mono {w w' : World} {n minimum : ℕ} (hle : n ≤ minimum)
    (hres : Reserved w w' h minimum) : Reserved w w' h n :=
  { hres with minimum_le := hle.trans hres.minimum_le }

section Reserve
variable {w : World} {h : Handle} (hv : w.arena.Valid) (hh : w.Held h)
include hv hh

theorem reserved_grow {minimum p size alignment : ℕ} (hgives : w.arena.Gives size alignment p)
    (hmin : minimum ≤ size) (hcap : (w.objects h).capacity ≤ size)
    (harena : (w.objects h).arena = true) :
    Reserved w (World.set { w with
        arena := w.arena.advance p size
        mem := moved w.mem p (w.objects h).data (w.objects h).length } h
        { w.objects h with data := p, capacity := size }) h minimum := by
  have habove := hgives.above
  have hbelow := hgives.below
  have htop := hgives.top_advance
  have hbase : w.arena.base ≤ w.arena.top := Nat.le_add_right _ _
  have hlen := hh.length_le
  have hmoved (a : ℕ) (ha : a < w.arena.top ∨ w.arena.limit ≤ a) :
      moved w.mem p (w.objects h).data (w.objects h).length a = w.mem a :=
    moved_of_apart (by omega)
  refine ⟨⟨hgives.valid_advance hv, rfl, rfl, ?_, ?_, ?_, ?_⟩, ⟨?_, ?_, ?_, ?_⟩, ?_, ?_, ?_, ?_, ?_,
    hmoved, ?_⟩
  · change w.arena.top ≤ (w.arena.advance p size).top
    omega
  · exact fun h' hne => World.set_objects_of_ne hne
  · exact .inr (.inr (by simpa using habove))
  · exact fun a _ hlt _ _ => hmoved a (.inl hlt)
  · simp [harena]
  · simpa using hlen.trans hcap
  · have := hgives.size_pos
    simp only [World.set_objects_self]
    omega
  · simp only [World.set_objects_self, World.set_arena, Arena.advance_base, htop]
    omega
  · simp
  · simp
  · simpa using hmin
  · simpa using hcap
  · simp only [World.contents, World.set_objects_self, World.set_mem]
    exact bytes_moved _ _ _ _
  · exact .inr (by simpa using habove)

theorem kliBufferReserve_outcome (minimum : ℕ) :
    Outcome w (fun w' => Reserved w w' h minimum) (kliBufferReserve w h minimum) := by
  apply Outcome.guard
  intro hvalid
  apply Outcome.ite
  · intro hle
    exact .done (.refl hv hh hle)
  intro hgt
  apply Outcome.ite
  · exact fun _ => Outcome.exhausted
  intro hsmall
  rcases alloc_cases hv (newCapacity minimum (w.objects h).capacity) pointerSize with
    hnull | ⟨p, hgives, hp⟩
  · rw [if_pos (show (kliArenaAlloc w.arena _).1 = 0 from congrArg Prod.fst hnull)]
    exact .exhausted
  · have halloc : kliArenaAlloc w.arena (newCapacity minimum (w.objects h).capacity) =
        (p, w.arena.advance p (newCapacity minimum (w.objects h).capacity)) := hp
    simp only [halloc, if_neg (hgives.ne_zero hv), memmove_unless_empty]
    have harena := ((bufferIsValid_iff hv hh).mp (not_not.mp hvalid)).2
    exact .done (reserved_grow hv hh hgives (not_lt.mp hsmall) (by omega) harena)

end Reserve

theorem Reserved.bytes_eq {w w₁ : World} {minimum p n : ℕ} (hres : Reserved w w₁ h minimum)
    (hset : w.arena.Settled p n) : bytes w₁.mem p n = bytes w.mem p n := by
  apply ByteBlock.window_congr
  intro i hi
  exact hres.settled _ (hset i hi)

/-- What a successful operation leaves: its object holds `bs`, and nothing else has changed hands. -/
structure Holds (w w' : World) (h : Handle) (bs : List UInt8) : Prop where
  change : World.Change w w' h
  held : w'.Held h
  arena_eq : (w'.objects h).arena = true
  contents_eq : w'.contents h = bs

structure Emptied (w w' : World) (h : Handle) : Prop where
  change : World.Change w w' h
  held : w'.Held h
  contents_eq : w'.contents h = []

theorem emptied_set {w : World} (hv : w.arena.Valid) (h : Handle) (arena : Bool) :
    Emptied w (w.set h { bufferClearAll with arena := arena }) h :=
  ⟨World.change_set_empty hv h arena, World.held_set_empty w h arena,
    by simp [World.contents, bufferClearAll]⟩

/-- An initialisation fails because the address is null, or fails and leaves the object empty, or
leaves it empty and attached to the arena. -/
inductive InitOutcome (w : World) (h : Handle) (good : World → Prop) : ℤ × World → Prop
  | null (h0 : h.address = 0) : InitOutcome w h good (kliInval, w)
  | failed {status : ℤ} {w' : World} (hneg : status < 0) (h0 : h.address ≠ 0)
      (hempty : Emptied w w' h) : InitOutcome w h good (status, w')
  | done {w' : World} (h0 : h.address ≠ 0) (hgood : good w') : InitOutcome w h good (0, w')

section
variable {w : World} (hv : w.arena.Valid)
include hv

theorem kliBufferInit_outcome (h : Handle) (arena : Bool) :
    InitOutcome w h (fun w' => w' = w.set h { bufferClearAll with arena := true })
      (kliBufferInit w h arena) := by
  unfold kliBufferInit
  split_ifs with hnull harena
  · exact .null hnull
  · exact .failed kliInval_neg hnull (emptied_set hv h false)
  · exact .done hnull rfl

theorem holds_set_attached (h : Handle) :
    Holds w (w.set h { bufferClearAll with arena := true }) h [] := by
  have hempty := emptied_set hv h true
  exact ⟨hempty.change, hempty.held, by simp, hempty.contents_eq⟩

theorem kliBufferInitCapacity_outcome (h : Handle) (arena : Bool) (initial : ℕ) :
    InitOutcome w h (fun w' => Holds w w' h []) (kliBufferInitCapacity w h arena initial) := by
  unfold kliBufferInitCapacity
  have hinit := kliBufferInit_outcome hv h arena
  generalize kliBufferInit w h arena = result at hinit ⊢
  cases hinit with
  | null h0 =>
    exact .null h0
  | failed hneg h0 hempty =>
    rw [if_pos (.inl hneg)]
    exact .failed hneg h0 hempty
  | done h0 heq =>
    subst heq
    have hholds := holds_set_attached hv h
    simp only [lt_irrefl, false_or]
    split_ifs with hzero
    · exact .done h0 hholds
    · rcases kliBufferReserve_outcome hholds.change.valid hholds.held initial with
        ⟨status, hneg, heq⟩ | ⟨w', heq, hres⟩
      · rw [heq]
        exact .failed hneg h0 (emptied_set hv h true)
      · rw [heq]
        exact .done h0 ⟨hholds.change.trans hres.change, hres.held,
          hres.arena_eq.trans hholds.arena_eq, hres.contents_eq.trans hholds.contents_eq⟩

/-- An append fails, or the object holds its bytes followed by the argument's, as they were before
the call. -/
theorem kliBufferAppend_outcome (hh : w.Held h) {data size : ℕ} (hset : w.arena.Settled data size) :
    Outcome w (fun w' => Holds w w' h (w.contents h ++ bytes w.mem data size))
      (kliBufferAppend w h data size) := by
  apply Outcome.guard
  intro hvalid
  have harena := ((bufferIsValid_iff hv hh).mp (not_not.mp hvalid)).2
  apply Outcome.ite
  · intro hzero
    exact .done ⟨World.Change.refl hv h, hh, harena, by simp [hzero]⟩
  intro hpos
  apply Outcome.guard
  intro hfits
  apply Outcome.bind (kliBufferReserve_outcome hv hh _)
  intro w₁ heq hres
  have harena₁ := hres.arena_eq.trans harena
  have hcap := hres.minimum_le
  have hlen := hres.length_eq
  simp only [heq, memmove_eq]
  refine .done ⟨hres.change.trans (World.change_rewrite hres.change.valid _ ?_),
    hres.held.rewrite harena₁ hcap, by simpa using harena₁, ?_⟩
  · intro a ha
    exact moved_of_apart (by omega)
  · apply (World.contents_rewrite _ _).trans
    rw [← hlen, bytes_append_moved, hres.bytes_eq hset, ← hres.contents_eq]
    rfl

end

end Libkarm
