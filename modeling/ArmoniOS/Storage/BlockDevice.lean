import ArmoniOS.Lib.ByteBlock
import ArmoniOS.Lib.Exec

/-! Block devices and the views nested in them: `block_device.c`, and `mbr.c`, which opens the first
FAT32 partition of a device as a view. An access through a view is passed from parent to parent
until it is refused or reaches the root. -/
namespace Storage
open Exec List Option

def flagReadOnly : BitVec 32 := 1

def uint64Max : BitVec 64 := 0xffffffffffffffff

/-- The fields of `block_device_t`; of a callback only whether it is there. -/
structure Fields where
  hasRead : Bool
  hasWrite : Bool
  hasFlush : Bool
  blockCount : BitVec 64
  blockSize : BitVec 32
  flags : BitVec 32

def Fields.ReadOnly (d : Fields) : Prop := d.flags &&& flagReadOnly ≠ 0
deriving Decidable

/-- A device with callbacks of its own, or a view whose callbacks pass on to its parent. -/
inductive Device where
  | root (fields : Fields)
  | view (fields : Fields) (parent : Device) (base : BitVec 64)

def Device.fields : Device → Fields
  | .root fields => fields
  | .view fields _ _ => fields

structure Call where
  write : Bool
  first : BitVec 64
  count : BitVec 32

/-- The calls that have reached the root, and the operands of the additions on the way. -/
structure Bus where
  calls : List Call
  sums : List (BitVec 64 × BitVec 64)

def blockDeviceRangeValid (d : Fields) (first : BitVec 64) (count : BitVec 32) : Bool :=
  if ¬ d.hasRead ∨ d.blockCount = 0 ∨ d.blockSize = 0 then false
  else if count = 0 then first ≤ d.blockCount
  else first < d.blockCount ∧ count.setWidth 64 ≤ d.blockCount - first

def blockDeviceInit (d : Fields) : Option Fields :=
  if ¬ d.hasRead ∨ d.blockCount = 0 ∨ d.blockSize = 0 ∨ d.flags &&& ~~~flagReadOnly ≠ 0 ∨
      (¬ d.ReadOnly ∧ ¬ d.hasWrite) then none
  else some d

def callRoot (reply : Call → Bool) (call : Call) : Run Bus Unit := fun bus =>
  (if reply call then some () else none, { bus with calls := bus.calls ++ [call] })

def logSum (a b : BitVec 64) : Run Bus Unit :=
  modify fun bus => { bus with sums := bus.sums ++ [(a, b)] }

/-- `block_device_read` and `block_device_write`, with `block_device_view_read` and
`block_device_view_write` for the step to the parent. `reply` is the status of the root's
callback. -/
def blockDeviceAccess (write : Bool) (reply : Call → Bool) (device : Device) (first : BitVec 64)
    (count : BitVec 32) (buffer : Bool) : Run Bus Unit :=
  if ¬ blockDeviceRangeValid device.fields first count ∨ (count ≠ 0 ∧ ¬ buffer) ∨
      (write ∧ (device.fields.ReadOnly ∨ ¬ device.fields.hasWrite)) then fail
  else if count = 0 then pure ()
  else
    match device with
    | .root _ => callRoot reply ⟨write, first, count⟩
    | .view _ parent base =>
        if uint64Max - base < first then fail
        else do
          logSum base first
          blockDeviceAccess write reply parent (base + first) count buffer

def blockDeviceRead := blockDeviceAccess false

def blockDeviceWrite := blockDeviceAccess true

def blockDeviceViewInit (parent : Device) (base count : BitVec 64) (flags : BitVec 32) :
    Option Device :=
  let p := parent.fields
  if ¬ p.hasRead ∨ p.blockCount = 0 ∨ p.blockSize = 0 ∨ p.flags &&& ~~~flagReadOnly ≠ 0 ∨
      (¬ p.ReadOnly ∧ ¬ p.hasWrite) ∨ flags &&& ~~~flagReadOnly ≠ 0 ∨ count = 0 ∨
      p.blockCount ≤ base ∨ p.blockCount - base < count then none
  else
    let childFlags := p.flags ||| flags
    let write := childFlags &&& flagReadOnly = 0
    match blockDeviceInit ⟨true, write, p.hasFlush, count, p.blockSize, childFlags⟩ with
    | some fields => some (.view fields parent base)
    | none => none

def mbrSectorSize : ℕ := 512

structure Partition where
  startLba : ℕ
  sectorCount : ℕ
  type : UInt8

def mbrTypeIsFat32 (type : UInt8) : Bool :=
  type = 0x0b ∨ type = 0x0c ∨ type = 0x1b ∨ type = 0x1c

def mbrEntry (sector : ByteBlock.Block mbrSectorSize) (index : ℕ) : Option Partition :=
  let entry := 446 + index * 16
  let boot := sector.get entry
  let type := sector.get (entry + 4)
  let startLba := sector.le32 (entry + 8)
  let sectorCount := sector.le32 (entry + 12)
  if (boot ≠ 0x00 ∧ boot ≠ 0x80) ∨ ¬ mbrTypeIsFat32 type then none
  else if startLba = 0 ∨ sectorCount = 0 ∨ 2 ^ 32 - 1 - (sectorCount - 1) < startLba then none
  else some ⟨startLba, sectorCount, type⟩

def mbrFindFat32Partition (sector : ByteBlock.Block mbrSectorSize) : Option Partition :=
  if sector.get 510 ≠ 0x55 ∨ sector.get 511 ≠ 0xaa then none
  else (range 4).findSome? (mbrEntry sector)

def viewOfPartition (device : Device) (partition : Partition) : Option Device :=
  blockDeviceViewInit device (BitVec.ofNat 64 partition.startLba)
    (BitVec.ofNat 64 partition.sectorCount) 0

/-- `sector` is what the read of block zero delivers. -/
def mbrOpenFat32Partition (reply : Call → Bool) (device : Device)
    (sector : ByteBlock.Block mbrSectorSize) : Run Bus Device := do
  if device.fields.blockSize.toNat ≠ mbrSectorSize then fail
  else
    blockDeviceRead reply device 0 1 true
    match (mbrFindFat32Partition sector).bind (viewOfPartition device) with
    | some view => pure view
    | none => fail

/-- The devices of a tree over a root: views of views, opened directly or as partitions. -/
inductive Opened : Device → Prop
  | root (fields : Fields) : Opened (.root fields)
  | view {parent device : Device} {base count : BitVec 64} {flags : BitVec 32} (h : Opened parent)
      (hinit : blockDeviceViewInit parent base count flags = some device) : Opened device
  | partition {parent device : Device} {reply : Call → Bool} {bus : Bus}
      {sector : ByteBlock.Block mbrSectorSize} (h : Opened parent)
      (hopen : (mbrOpenFat32Partition reply parent sector bus).1 = some device) :
      Opened device

def Device.base : Device → ℕ
  | .root _ => 0
  | .view _ parent base => parent.base + base.toNat

def Device.path : Device → List Device
  | .root fields => [.root fields]
  | .view fields parent base => .view fields parent base :: parent.path

/-- Every view lies in the window of its parent and is read-only if the parent is. -/
def Device.Nested : Device → Prop
  | .root _ => True
  | .view fields parent base => parent.Nested ∧
      base.toNat + fields.blockCount.toNat ≤ parent.fields.blockCount.toNat ∧
      (parent.fields.ReadOnly → fields.ReadOnly)

section Views
variable {device parent : Device} {base count : BitVec 64} {flags : BitVec 32}

theorem readOnly_or (a b : BitVec 32) (h : a &&& flagReadOnly ≠ 0) :
    (a ||| b) &&& flagReadOnly ≠ 0 := by
  intro hzero
  apply h
  apply BitVec.eq_of_getElem_eq
  intro i hi
  have hbit := congrArg (fun v => v.getLsbD i) hzero
  simp only [BitVec.getLsbD_and, BitVec.getLsbD_or] at hbit
  cases ha : a.getLsbD i <;> simp_all

theorem blockDeviceViewInit_nested (hparent : parent.Nested)
    (hinit : blockDeviceViewInit parent base count flags = some device) : device.Nested := by
  unfold blockDeviceViewInit blockDeviceInit at hinit
  dsimp only at hinit
  split at hinit
  · cases hinit
  next hok =>
    split at hinit
    next fields hfields =>
      split at hfields
      · cases hfields
      · obtain rfl := some.inj hfields
        obtain rfl := some.inj hinit
        refine ⟨hparent, ?_, readOnly_or _ _⟩
        simp only [not_or] at hok
        bv_omega
    · cases hinit

theorem Opened.nested (h : Opened device) : device.Nested := by
  induction h with
  | root fields => trivial
  | view h hinit ih => exact blockDeviceViewInit_nested ih hinit
  | partition h hopen ih =>
    unfold mbrOpenFat32Partition at hopen
    split at hopen
    · cases hopen
    · rcases hread : blockDeviceRead _ _ 0 1 true _ with ⟨_ | _, bus'⟩
      · rw [bind_of_none hread] at hopen
        cases hopen
      · rw [bind_of_some hread] at hopen
        cases hview : (mbrFindFat32Partition _).bind (viewOfPartition _) with
        | none =>
          rw [hview] at hopen
          cases hopen
        | some view =>
          rw [hview] at hopen
          obtain rfl := some.inj hopen
          obtain ⟨partition, -, hinit⟩ := bind_eq_some_iff.1 hview
          exact blockDeviceViewInit_nested ih hinit

end Views

section Accesses
variable {write : Bool} {reply : Call → Bool} {device : Device} {first : BitVec 64}
  {count : BitVec 32} {buffer : Bool} {bus : Bus}

theorem blockDeviceRangeValid_le {d : Fields} (h : blockDeviceRangeValid d first count = true) :
    first.toNat + count.toNat ≤ d.blockCount.toNat := by
  unfold blockDeviceRangeValid at h
  split_ifs at h with hnone hzero
  · simp only [decide_eq_true_eq] at h
    bv_omega
  · simp only [decide_eq_true_eq] at h
    bv_omega

theorem Device.Nested.writable (h : device.Nested) (hwrite : ¬ device.fields.ReadOnly) :
    ∀ v ∈ device.path, ¬ v.fields.ReadOnly := by
  induction device with
  | root fields =>
    intro v hv
    obtain rfl := mem_singleton.1 hv
    exact hwrite
  | view fields parent base ih =>
    intro v hv
    rcases mem_cons.1 hv with rfl | hv
    · exact hwrite
    · exact ih h.1 (fun hro => hwrite (h.2.2 hro)) v hv

/-- The call is the access, moved by the bases on the path and inside every window on it. -/
structure Exact (write : Bool) (device : Device) (first : BitVec 64) (count : BitVec 32)
    (call : Call) : Prop where
  kind : call.write = write
  length : call.count = count
  translated : call.first.toNat = device.base + first.toNat
  inside : ∀ v ∈ device.path, v.base ≤ call.first.toNat ∧
    call.first.toNat + count.toNat ≤ v.base + v.fields.blockCount.toNat
  writable : write = true → ∀ v ∈ device.path, ¬ v.fields.ReadOnly

structure Passed (write : Bool) (device : Device) (first : BitVec 64) (count : BitVec 32)
    (bus : Bus) (result : Option Unit × Bus) : Prop where
  calls : (result.1 = none ∧ result.2.calls = bus.calls) ∨
    (count = 0 ∧ result.1 = some () ∧ result.2.calls = bus.calls) ∨
    ∃ call, Exact write device first count call ∧ result.2.calls = bus.calls ++ [call]
  accepted : result.1 = some () ∨ result.2.calls ≠ bus.calls →
    first.toNat + count.toNat ≤ device.fields.blockCount.toNat
  sums : ∃ sums, result.2.sums = bus.sums ++ sums ∧
    ∀ s ∈ sums, s.1.toNat + s.2.toNat < 2 ^ 64

theorem passed_fail : Passed write device first count bus (none, bus) where
  calls := .inl ⟨rfl, rfl⟩
  accepted h := by simp at h
  sums := ⟨[], by simp, by simp⟩

theorem access_cases (hnested : device.Nested) (next : Run Bus Unit)
    (hnext : first.toNat + count.toNat ≤ device.fields.blockCount.toNat →
      (write = true → ∀ v ∈ device.path, ¬ v.fields.ReadOnly) →
      Passed write device first count bus (next bus)) :
    Passed write device first count bus
      ((if ¬ blockDeviceRangeValid device.fields first count ∨ (count ≠ 0 ∧ ¬ buffer) ∨
        (write ∧ (device.fields.ReadOnly ∨ ¬ device.fields.hasWrite)) then fail
      else if count = 0 then pure () else next) bus) := by
  split
  · exact passed_fail
  next hok =>
    simp only [not_or, not_not] at hok
    obtain ⟨hvalid, -, hmode⟩ := hok
    have hrange := blockDeviceRangeValid_le hvalid
    split
    next hzero => exact ⟨.inr (.inl ⟨hzero, rfl, rfl⟩), fun _ => hrange, [], by simp, by simp⟩
    · apply hnext hrange
      intro hwrite
      apply hnested.writable
      intro hro
      exact hmode ⟨hwrite, .inl hro⟩

theorem access_passed (hnested : device.Nested) : Passed write device first count bus
      (blockDeviceAccess write reply device first count buffer bus) := by
  induction device generalizing first bus with
  | root fields =>
    unfold blockDeviceAccess
    apply access_cases hnested
    intro hrange hwritable
    have hexact : Exact write (.root fields) first count ⟨write, first, count⟩ := by
      refine ⟨rfl, rfl, (Nat.zero_add _).symm, ?_, hwritable⟩
      intro v hv
      obtain rfl := mem_singleton.1 hv
      exact ⟨Nat.zero_le _, by simpa [Device.base] using hrange⟩
    exact ⟨.inr (.inr ⟨_, hexact, rfl⟩), fun _ => hrange, [], by simp [callRoot], by simp⟩
  | view fields parent base ih =>
    unfold blockDeviceAccess
    apply access_cases hnested
    intro hrange hwritable
    dsimp only
    split
    · exact passed_fail
    next hguard =>
      have hsum : base.toNat + first.toNat < 2 ^ 64 := by
        unfold uint64Max at hguard
        bv_omega
      have hadd : (base + first).toNat = base.toNat + first.toNat := by bv_omega
      have hparent := @ih (base + first) { bus with sums := bus.sums ++ [(base, first)] } hnested.1
      rw [bind_of_some (show logSum base first bus = (some (), _) from rfl)]
      obtain ⟨hcalls, -, sums, hsums, hall⟩ := hparent
      refine ⟨?_, fun _ => hrange, (base, first) :: sums, by simpa using hsums, ?_⟩
      · apply hcalls.imp_right
        apply Or.imp_right
        rintro ⟨call, hexact, hcall⟩
        refine ⟨call, ⟨hexact.kind, hexact.length, ?_, ?_, hwritable⟩, hcall⟩
        · rw [hexact.translated, hadd, Device.base, Nat.add_assoc]
        · intro v hv
          rcases mem_cons.1 hv with rfl | hv
          · have hfirst := hexact.translated
            simp only [Device.base, Device.fields] at hrange ⊢
            omega
          · exact hexact.inside v hv
      · intro s hs
        rcases mem_cons.1 hs with rfl | hs
        · exact hsum
        · exact hall s hs

/-- An access through a view of any depth is refused or reaches the root as exactly its blocks
moved by the bases on the path, inside all enclosing windows and without a wrapping addition, and a
write never passes a read-only device. -/
theorem view_access_exact (write : Bool) (reply : Call → Bool) (device : Device)
    (h : Opened device) (first : BitVec 64) (count : BitVec 32) (buffer : Bool) (bus : Bus) :
    let result := blockDeviceAccess write reply device first count buffer bus
    Passed write device first count bus result ∧
      (write = true → (∃ v ∈ device.path, v.fields.ReadOnly) → result.2.calls = bus.calls) := by
  intro result
  have hpassed : Passed write device first count bus result := access_passed h.nested
  refine ⟨hpassed, fun hwrite hreadOnly => ?_⟩
  obtain ⟨v, hv, hro⟩ := hreadOnly
  rcases hpassed.calls with ⟨-, hnone⟩ | ⟨-, -, hnone⟩ | ⟨call, hexact, -⟩
  · exact hnone
  · exact hnone
  · exact absurd hro (hexact.writable hwrite v hv)

end Accesses

/-- A view of twenty blocks in a view of fifty blocks in a device of a thousand. -/
def nestedView : Device :=
  .view ⟨true, true, false, 20, 512, 0⟩
    (.view ⟨true, true, false, 50, 512, 0⟩ (.root ⟨true, true, false, 1000, 512, 0⟩) 100) 10

theorem view_access_exact_nested :
    let result := blockDeviceAccess true (fun _ => true) nestedView 5 3 true ⟨[], []⟩
    result.2.calls = [⟨true, 115, 3⟩] ∧ Passed true nestedView 5 3 ⟨[], []⟩ result ∧
      (true = true → (∃ v ∈ nestedView.path, v.fields.ReadOnly) → result.2.calls = []) := by
  have hroot := Opened.root ⟨true, true, false, 1000, 512, 0⟩
  have houter := hroot.view (show blockDeviceViewInit _ 100 50 0 = _ from rfl)
  have hopened := houter.view (show blockDeviceViewInit _ 10 20 0 = _ from rfl)
  exact ⟨rfl, view_access_exact true _ nestedView hopened 5 3 true ⟨[], []⟩⟩

end Storage
