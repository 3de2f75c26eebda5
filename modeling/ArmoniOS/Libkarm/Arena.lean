import ArmoniOS.Lib.ByteMemory

/-! The monotonic arena of `libkarm/arena.c`. Addresses and sizes are 64-bit words and the null
pointer is address zero; an allocation only moves the offset forward, and a reset gives every block
back at once. -/
namespace Libkarm
open ByteMemory

/-- `UINTPTR_MAX` and `SIZE_MAX`. -/
def wordMax : ℕ := 2 ^ 64 - 1

def word (x : ℕ) : ℕ := x % 2 ^ 64

theorem word_of_le {x : ℕ} (h : x ≤ wordMax) : word x = x :=
  Nat.mod_eq_of_lt (h.trans_lt (by decide))

structure Arena where
  base : ℕ
  capacity : ℕ
  offset : ℕ
  mappingSize : ℕ
  deriving DecidableEq

def arenaClear : Arena := ⟨0, 0, 0, 0⟩

def kliArenaInit (buffer capacity : ℕ) : ℤ × Arena :=
  if buffer = 0 ∨ capacity = 0 then (-1, arenaClear)
  else (0, { arenaClear with base := buffer, capacity := capacity })

def kliArenaAllocAligned (arena : Arena) (size alignment : ℕ) : ℕ × Arena :=
  if arena.base = 0 ∨ size = 0 ∨ alignment = 0 ∨ alignment &&& (alignment - 1) ≠ 0 ∨
      arena.offset > arena.capacity then (0, arena)
  else if arena.base > wordMax - arena.offset then (0, arena)
  else
    let current := arena.base + arena.offset
    if current > wordMax - (alignment - 1) then (0, arena)
    else
      let aligned := word (current + alignment - 1) &&& (wordMax - (alignment - 1))
      let padding := aligned - current
      let remaining := arena.capacity - arena.offset
      if padding > remaining ∨ size > remaining - padding then (0, arena)
      else (aligned, { arena with offset := word (arena.offset + word (padding + size)) })

/-- `sizeof(uintptr_t)` -/
def pointerSize : ℕ := 8

def kliArenaAlloc (arena : Arena) (size : ℕ) : ℕ × Arena :=
  kliArenaAllocAligned arena size pointerSize

def kliArenaReset (arena : Arena) : Arena :=
  if arena.base = 0 then arena else { arena with offset := 0 }

/-- An arena over a region of the address space, with its offset inside. -/
structure Arena.Valid (arena : Arena) : Prop where
  base_ne : arena.base ≠ 0
  region : arena.base + arena.capacity ≤ 2 ^ 64
  offset_le : arena.offset ≤ arena.capacity

def Arena.top (arena : Arena) : ℕ := arena.base + arena.offset

def Arena.limit (arena : Arena) : ℕ := arena.base + arena.capacity

variable {arena : Arena}

theorem Arena.Valid.top_le (h : arena.Valid) : arena.top ≤ arena.limit :=
  Nat.add_le_add_left h.offset_le _

theorem Arena.Valid.base_pos (h : arena.Valid) : 0 < arena.base := Nat.pos_of_ne_zero h.base_ne

def Arena.Overflows (arena : Arena) (alignment : ℕ) : Prop :=
  2 ^ 64 ≤ arena.top + (alignment - 1)

def Arena.Lacks (arena : Arena) (size alignment : ℕ) : Prop :=
  arena.limit < roundUp arena.top alignment + size

/-- The arena after a block of `size` bytes at `p`. -/
def Arena.advance (arena : Arena) (p size : ℕ) : Arena :=
  { arena with offset := p + size - arena.base }

@[simp] theorem Arena.advance_base (arena : Arena) (p size : ℕ) :
    (arena.advance p size).base = arena.base := rfl

@[simp] theorem Arena.advance_limit (arena : Arena) (p size : ℕ) :
    (arena.advance p size).limit = arena.limit := rfl

/-- What a successful allocation guarantees about the block `p`. -/
structure Arena.Gives (arena : Arena) (size alignment p : ℕ) : Prop where
  size_pos : 0 < size
  aligned : alignment ∣ p
  above : arena.top ≤ p
  below : p + size ≤ arena.limit

variable {size alignment p : ℕ}

theorem Arena.Gives.ne_zero (hv : arena.Valid) (h : arena.Gives size alignment p) : p ≠ 0 := by
  have hpos := hv.base_pos
  have habove := h.above
  unfold Arena.top at habove
  omega

theorem Arena.Gives.top_advance (h : arena.Gives size alignment p) :
    (arena.advance p size).top = p + size := by
  have habove := h.above
  unfold Arena.top at habove
  simp only [Arena.advance, Arena.top]
  omega

theorem Arena.Gives.valid_advance (hv : arena.Valid) (h : arena.Gives size alignment p) :
    (arena.advance p size).Valid := by
  have hbelow := h.below
  unfold Arena.limit at hbelow
  refine ⟨hv.base_ne, hv.region, ?_⟩
  simp only [Arena.advance]
  omega

section Alloc
variable {arena : Arena} (hv : arena.Valid)
include hv

theorem aligned_eq {k : ℕ} (h : ¬ arena.Overflows (2 ^ k)) :
    word (arena.base + arena.offset + 2 ^ k - 1) &&& (wordMax - (2 ^ k - 1)) =
      roundUp arena.top (2 ^ k) := by
  have hpos := hv.base_pos
  have hpow : 0 < 2 ^ k := by positivity
  unfold Arena.Overflows Arena.top at h
  have hk : k ≤ 64 := by
    apply (Nat.pow_le_pow_iff_right (show 1 < 2 by decide)).mp
    omega
  have hlt : arena.base + arena.offset + 2 ^ k - 1 < 2 ^ 64 := by omega
  unfold word wordMax
  rw [Nat.mod_eq_of_lt hlt, and_mask_eq hk hlt]
  rfl

/-- An allocation is refused and changes nothing, or it takes the first aligned address. -/
theorem kliArenaAllocAligned_eq (size k : ℕ) [Decidable (arena.Overflows (2 ^ k))]
    [Decidable (arena.Lacks size (2 ^ k))] :
    kliArenaAllocAligned arena size (2 ^ k) =
      if size = 0 ∨ arena.Overflows (2 ^ k) ∨ arena.Lacks size (2 ^ k) then (0, arena)
      else (roundUp arena.top (2 ^ k), arena.advance (roundUp arena.top (2 ^ k)) size) := by
  have hpow : 0 < 2 ^ k := by positivity
  have hpos := hv.base_pos
  have hoffset := hv.offset_le
  have hregion := hv.region
  by_cases hsize : size = 0
  · rw [if_pos (.inl hsize)]
    exact if_pos (.inr (.inl hsize))
  have hargs : ¬ (arena.base = 0 ∨ size = 0 ∨ 2 ^ k = 0 ∨ 2 ^ k &&& (2 ^ k - 1) ≠ 0 ∨
      arena.offset > arena.capacity) := by
    simp only [hv.base_ne, hsize, hpow.ne', and_pred_of_pow, ne_eq, not_true_eq_false, false_or]
    omega
  unfold kliArenaAllocAligned
  rw [if_neg hargs]
  dsimp only
  by_cases hover : arena.Overflows (2 ^ k)
  · rw [if_pos (Or.inr (Or.inl hover))]
    have hguard : arena.base + arena.offset > wordMax - (2 ^ k - 1) := by
      unfold Arena.Overflows Arena.top at hover
      unfold wordMax
      omega
    rw [if_pos hguard, ite_self]
  have hbase : ¬ arena.base > wordMax - arena.offset := by
    unfold Arena.Overflows Arena.top at hover
    unfold wordMax
    omega
  have hguard : ¬ arena.base + arena.offset > wordMax - (2 ^ k - 1) := by
    unfold Arena.Overflows Arena.top at hover
    unfold wordMax
    omega
  rw [if_neg hbase, if_neg hguard, aligned_eq hv hover]
  have habove : arena.base + arena.offset ≤ roundUp arena.top (2 ^ k) := le_roundUp hpow
  have hfit : (roundUp arena.top (2 ^ k) - (arena.base + arena.offset) >
      arena.capacity - arena.offset ∨ size > arena.capacity - arena.offset -
        (roundUp arena.top (2 ^ k) - (arena.base + arena.offset))) ↔
      arena.Lacks size (2 ^ k) := by
    unfold Arena.Lacks Arena.limit
    omega
  simp only [hfit, hsize, hover, false_or]
  split_ifs with hlacks
  · rfl
  -- neither addition of the new offset wraps
  · unfold Arena.Lacks Arena.limit at hlacks
    have hpad : word (roundUp arena.top (2 ^ k) - (arena.base + arena.offset) + size) =
        roundUp arena.top (2 ^ k) - (arena.base + arena.offset) + size :=
      word_of_le (by unfold wordMax; omega)
    have hsum : arena.offset + (roundUp arena.top (2 ^ k) - (arena.base + arena.offset) + size) =
        roundUp arena.top (2 ^ k) + size - arena.base := by omega
    have hword : word (roundUp arena.top (2 ^ k) + size - arena.base) =
        roundUp arena.top (2 ^ k) + size - arena.base :=
      word_of_le (by unfold wordMax; omega)
    rw [hpad, hsum, hword]
    rfl

theorem alloc_cases (size alignment : ℕ) : kliArenaAllocAligned arena size alignment = (0, arena) ∨
      ∃ p, arena.Gives size alignment p ∧
        kliArenaAllocAligned arena size alignment = (p, arena.advance p size) := by
  classical
  by_cases hpow : ∃ k, alignment = 2 ^ k
  · obtain ⟨k, rfl⟩ := hpow
    rw [kliArenaAllocAligned_eq hv]
    split_ifs with h
    · exact .inl rfl
    · simp only [Arena.Lacks, not_or, not_lt] at h
      have hk : 0 < 2 ^ k := by positivity
      have hgives : arena.Gives size (2 ^ k) (roundUp arena.top (2 ^ k)) :=
        ⟨Nat.pos_of_ne_zero h.1, dvd_roundUp, le_roundUp hk, h.2.2⟩
      exact .inr ⟨_, hgives, rfl⟩
  · left
    apply if_pos
    by_cases hzero : alignment = 0
    · exact .inr (.inr (.inl hzero))
    · refine .inr (.inr (.inr (.inl fun hand => hpow ?_)))
      exact exists_pow_of_and_pred hzero hand

end Alloc

section History

structure Block where
  address : ℕ
  size : ℕ
  alignment : ℕ
  deriving DecidableEq

inductive ArenaOp where
  | alloc (size alignment : ℕ)
  | reset

structure History where
  arena : Arena
  blocks : List Block
  deriving DecidableEq

def History.step (t : History) : ArenaOp → History
  | .alloc size alignment =>
      let result := kliArenaAllocAligned t.arena size alignment
      ⟨result.2, if result.1 = 0 then t.blocks else ⟨result.1, size, alignment⟩ :: t.blocks⟩
  | .reset => ⟨kliArenaReset t.arena, []⟩

def History.run (t : History) (ops : List ArenaOp) : History := ops.foldl History.step t

/-- The blocks are aligned, lie one after another below the first free address, and the arena still
covers the region it was made over. -/
structure History.Sound (base capacity : ℕ) (t : History) : Prop where
  valid : t.arena.Valid
  base_eq : t.arena.base = base
  capacity_eq : t.arena.capacity = capacity
  aligned : ∀ b ∈ t.blocks, b.alignment ∣ b.address
  inside : ∀ b ∈ t.blocks, base ≤ b.address ∧ b.address + b.size ≤ t.arena.top
  apart : t.blocks.Pairwise fun b c => Apart b.address b.size c.address c.size

variable {base capacity : ℕ} {t : History}

section
variable (h : t.Sound base capacity)
include h

theorem History.Sound.alloc (size alignment : ℕ) :
    (t.step (.alloc size alignment)).Sound base capacity := by
  rcases alloc_cases h.valid size alignment with hnull | ⟨p, hgives, hp⟩
  · simp only [History.step, hnull, if_true]
    exact h
  · have hne := hgives.ne_zero h.valid
    have hbase : base ≤ t.arena.top := h.base_eq ▸ Nat.le_add_right _ _
    have htop := hgives.top_advance
    have habove := hgives.above
    simp only [History.step, hp, if_neg hne]
    refine ⟨hgives.valid_advance h.valid, h.base_eq, h.capacity_eq, ?_, ?_, ?_⟩
    · intro b hb
      rcases List.mem_cons.mp hb with rfl | hb
      · exact hgives.aligned
      · exact h.aligned b hb
    · intro b hb
      rw [htop]
      rcases List.mem_cons.mp hb with rfl | hb
      · exact ⟨hbase.trans habove, le_rfl⟩
      · have := h.inside b hb
        omega
    -- the older blocks end below the address that was free
    · apply List.pairwise_cons.mpr
      refine ⟨fun b hb => .inr ?_, h.apart⟩
      exact (h.inside b hb).2.trans habove

theorem History.Sound.reset : (t.step .reset).Sound base capacity := by
  have hreset : kliArenaReset t.arena = { t.arena with offset := 0 } := if_neg h.valid.base_ne
  simp only [History.step, hreset]
  exact ⟨⟨h.valid.base_ne, h.valid.region, Nat.zero_le _⟩, h.base_eq, h.capacity_eq, by simp,
    by simp, List.Pairwise.nil⟩

theorem History.Sound.run (ops : List ArenaOp) : (t.run ops).Sound base capacity := by
  induction ops generalizing t with
  | nil => exact h
  | cons op ops ih =>
    cases op with
    | alloc size alignment => exact ih (h.alloc size alignment)
    | reset => exact ih h.reset

end

/-- After any allocations and resets over a region of the address space: the blocks returned since
the last reset are aligned, inside the region and pairwise apart, and the offset is inside the
region. The next allocation returns such a block, or fails and changes nothing; it fails exactly if
it asks for no byte, its address computation overflows, or the aligned block does not fit. -/
theorem arena_run_allocations (buffer capacity : ℕ) (hinit : (kliArenaInit buffer capacity).1 = 0)
    (hregion : buffer + capacity ≤ 2 ^ 64) (ops : List ArenaOp) :
    let t := History.run ⟨(kliArenaInit buffer capacity).2, []⟩ ops
    t.arena.offset ≤ capacity ∧ (∀ b ∈ t.blocks, b.alignment ∣ b.address ∧ buffer ≤ b.address ∧
        b.address + b.size ≤ buffer + capacity) ∧
      t.blocks.Pairwise (fun b c => Apart b.address b.size c.address c.size) ∧
      ∀ size k : ℕ,
        let result := kliArenaAllocAligned t.arena size (2 ^ k)
        (result.1 ≠ 0 → 2 ^ k ∣ result.1 ∧ buffer ≤ result.1 ∧ result.1 + size ≤ buffer + capacity ∧
          ∀ b ∈ t.blocks, Apart b.address b.size result.1 size) ∧
        (result.1 = 0 → result.2 = t.arena) ∧
        (result.1 = 0 ↔ size = 0 ∨ 2 ^ 64 ≤ buffer + t.arena.offset + (2 ^ k - 1) ∨
          buffer + capacity < roundUp (buffer + t.arena.offset) (2 ^ k) + size) := by
  classical
  intro t
  have hstart : History.Sound buffer capacity ⟨(kliArenaInit buffer capacity).2, []⟩ := by
    have hnull : ¬ (buffer = 0 ∨ capacity = 0) := by
      intro hnull
      simp [kliArenaInit, hnull] at hinit
    rw [kliArenaInit, if_neg hnull]
    exact ⟨⟨fun h0 => hnull (.inl h0), hregion, Nat.zero_le _⟩, rfl, rfl, by simp, by simp,
      List.Pairwise.nil⟩
  have h : t.Sound buffer capacity := hstart.run ops
  have hlimit : t.arena.limit = buffer + capacity := by
    rw [Arena.limit, h.base_eq, h.capacity_eq]
  have htop : t.arena.top = buffer + t.arena.offset := by rw [Arena.top, h.base_eq]
  refine ⟨h.capacity_eq ▸ h.valid.offset_le, ?_, h.apart, ?_⟩
  · intro b hb
    refine ⟨h.aligned b hb, (h.inside b hb).1, ?_⟩
    exact hlimit ▸ (h.inside b hb).2.trans h.valid.top_le
  intro size k result
  refine ⟨?_, ?_, ?_⟩
  · intro hne
    rcases alloc_cases h.valid size (2 ^ k) with hnull | ⟨p, hgives, hp⟩
    · exact absurd (congrArg Prod.fst hnull) hne
    · have hresult : result.1 = p := congrArg Prod.fst hp
      rw [hresult]
      have habove := hgives.above
      refine ⟨hgives.aligned, by omega, hlimit ▸ hgives.below, fun b hb => .inl ?_⟩
      exact (h.inside b hb).2.trans habove
  · intro hzero
    rcases alloc_cases h.valid size (2 ^ k) with hnull | ⟨p, hgives, hp⟩
    · exact congrArg Prod.snd hnull
    · exact absurd ((congrArg Prod.fst hp).symm.trans hzero) (hgives.ne_zero h.valid)
  · rw [← htop, ← hlimit]
    change _ ↔ size = 0 ∨ t.arena.Overflows (2 ^ k) ∨ t.arena.Lacks size (2 ^ k)
    have hpow : 0 < 2 ^ k := by positivity
    have hpos := h.valid.base_pos
    have habove : t.arena.top ≤ roundUp t.arena.top (2 ^ k) := le_roundUp hpow
    have hresult := kliArenaAllocAligned_eq h.valid size k
    change result = _ at hresult
    rw [hresult]
    split_ifs with hbad
    · simp [hbad]
    · simp only [hbad, iff_false]
      unfold Arena.top at habove ⊢
      omega

theorem arena_run_allocations_two_blocks :
    let t := History.run ⟨(kliArenaInit 0x1001 95).2, []⟩ [.alloc 7 32, .alloc 8 8]
    t.blocks = [⟨0x1028, 8, 8⟩, ⟨0x1020, 7, 32⟩] ∧ t.arena.offset ≤ 95 :=
  ⟨by decide +kernel,
    (arena_run_allocations 0x1001 95 (by decide) (by decide) [.alloc 7 32, .alloc 8 8]).1⟩

/-- A request for no byte fails although the aligned address is inside the region and nothing
overflows. -/
theorem empty_request_fails_with_room :
    let arena := (kliArenaInit 0x1000 64).2
    kliArenaAllocAligned arena 0 8 = (0, arena) ∧ ¬ 2 ^ 64 ≤ 0x1000 + arena.offset + (8 - 1) ∧
      roundUp (0x1000 + arena.offset) 8 + 0 ≤ 0x1000 + 64 := by
  decide +kernel

end History
end Libkarm
