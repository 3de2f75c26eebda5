import ArmoniOS.Lib.OnesComplement
import ArmoniOS.Net.Dhcp

/-! The IPv4 header that `write_ipv4_header` of `dhcp.c` builds, with its checksum. -/
namespace Net
open List

/-- The first two loops of `checksum`: big-endian words, the last one padded. -/
def addWords (sum : UInt32) : List UInt8 → UInt32
  | a :: b :: rest => addWords (sum + (a.toUInt32 <<< 8 ||| b.toUInt32)) rest
  | [a] => sum + a.toUInt32 <<< 8
  | [] => sum

def foldCarry (sum : UInt32) : UInt32 := (sum &&& (0xFFFF : UInt32)) + sum >>> 16

theorem foldCarry_toNat (sum : UInt32) :
    (foldCarry sum).toNat = sum.toNat % 65536 + sum.toNat / 65536 := by
  have hlt := sum.toNat_lt
  have hand : (sum &&& (0xFFFF : UInt32)).toNat = sum.toNat % 65536 := by
    rw [UInt32.toNat_and]
    exact Nat.and_two_pow_sub_one_eq_mod _ 16
  have hshift : (sum >>> 16).toNat = sum.toNat / 65536 := by
    rw [UInt32.toNat_shiftRight]
    exact Nat.shiftRight_eq_div_pow _ 16
  rw [foldCarry, UInt32.toNat_add, hand, hshift]
  exact Nat.mod_eq_of_lt (by omega)

theorem shiftRight_eq_zero {sum : UInt32} : sum >>> 16 = 0 ↔ sum.toNat < 65536 := by
  rw [← UInt32.toNat_inj, UInt32.toNat_shiftRight]
  change sum.toNat >>> 16 = 0 ↔ _
  rw [Nat.shiftRight_eq_div_pow, Nat.div_eq_zero_iff_lt (by decide)]

/-- The last loop of `checksum`. -/
def foldCarries (sum : UInt32) : UInt32 :=
  if sum >>> 16 = 0 then sum else foldCarries (foldCarry sum)
termination_by sum.toNat
decreasing_by
  have := mt shiftRight_eq_zero.mpr ‹_›
  rw [foldCarry_toNat]
  omega

def checksum (data : List UInt8) : UInt16 := (~~~foldCarries (addWords 0 data)).toUInt16

def putBe16 (packet : List UInt8) (i : ℕ) (value : UInt16) : List UInt8 :=
  (packet.set i (value >>> 8 &&& 0xff).toUInt8).set (i + 1) (value &&& 0xff).toUInt8

def setIpAddr (packet : List UInt8) (i : ℕ) (ip : UInt32) : List UInt8 :=
  (((packet.set i (ip &&& 0xFF).toUInt8).set (i + 1) (ip >>> 8 &&& 0xFF).toUInt8).set (i + 2)
    (ip >>> 16 &&& 0xFF).toUInt8).set (i + 3) (ip >>> 24 &&& 0xFF).toUInt8

/-- The 20 bytes that the call leaves at `packet`; the memset clears what was there. -/
def writeIpv4Header (info : NetInfo) (payloadLen destIp : UInt32) (proto : UInt8) : List UInt8 :=
  let totalLen := 20 + payloadLen
  let packet := replicate 20 0
  let packet := (packet.set 0 0x45).set 1 0
  let packet := putBe16 packet 2 totalLen.toUInt16
  let packet := (packet.set 8 64).set 9 proto
  let packet := if info.ip = 0 then (((packet.set 12 0).set 13 0).set 14 0).set 15 0
    else setIpAddr packet 12 info.ip
  let packet := if destIp = 0 then (((packet.set 16 255).set 17 255).set 18 255).set 19 255
    else setIpAddr packet 16 destIp
  putBe16 packet 10 (checksum packet)

/-! ### The receiver -/

/-- The 16-bit words of a packet in network order. -/
def words : List UInt8 → List ℕ
  | a :: b :: rest => (a.toNat * 256 + b.toNat) :: words rest
  | [a] => [a.toNat * 256]
  | [] => []

theorem words_le (data : List UInt8) : ∀ w ∈ words data, w ≤ 65535 := by
  induction data using words.induct with
  | case1 a b rest ih =>
    have ha := a.toNat_lt
    have hb := b.toNat_lt
    exact forall_mem_cons.mpr ⟨by omega, ih⟩
  | case2 a =>
    have ha := a.toNat_lt
    exact forall_mem_singleton.mpr (by omega)
  | case3 => exact forall_mem_nil _

theorem highByte_toNat (a : UInt8) : (a.toUInt32 <<< 8).toNat = a.toNat <<< 8 := by
  have ha := a.toNat_lt
  rw [UInt32.toNat_shiftLeft, UInt8.toNat_toUInt32]
  change a.toNat <<< 8 % 4294967296 = _
  exact Nat.mod_eq_of_lt (by rw [Nat.shiftLeft_eq]; omega)

theorem word_toNat (a b : UInt8) :
    (a.toUInt32 <<< 8 ||| b.toUInt32).toNat = a.toNat * 256 + b.toNat := by
  rw [UInt32.toNat_or, highByte_toNat, UInt8.toNat_toUInt32,
    ← Nat.shiftLeft_add_eq_or_of_lt b.toNat_lt, Nat.shiftLeft_eq]

theorem addWords_toNat {sum : UInt32} {data : List UInt8}
    (h : sum.toNat + (words data).sum < 4294967296) :
    (addWords sum data).toNat = sum.toNat + (words data).sum := by
  induction data using words.induct generalizing sum with
  | case1 a b rest ih =>
    rw [words, sum_cons] at h ⊢
    have hstep : (sum + (a.toUInt32 <<< 8 ||| b.toUInt32)).toNat =
        sum.toNat + (a.toNat * 256 + b.toNat) := by
      rw [UInt32.toNat_add, word_toNat]
      omega
    rw [addWords, ih (by omega), hstep]
    omega
  | case2 a =>
    rw [words, sum_singleton] at h ⊢
    rw [addWords, UInt32.toNat_add, highByte_toNat, Nat.shiftLeft_eq, Nat.mod_eq_of_lt h]
  | case3 => rfl

theorem foldCarries_spec (sum : UInt32) :
    (foldCarries sum).toNat < 65536 ∧ (foldCarries sum).toNat ≡ sum.toNat [MOD 65535] := by
  induction sum using foldCarries.induct with
  | case1 sum hdone =>
    rw [foldCarries, if_pos hdone]
    exact ⟨shiftRight_eq_zero.mp hdone, rfl⟩
  | case2 sum hmore ih =>
    rw [foldCarries, if_neg hmore]
    refine ⟨ih.1, ih.2.trans ?_⟩
    rw [foldCarry_toNat]
    unfold Nat.ModEq
    omega

theorem checksum_dvd {data : List UInt8} (h : (words data).sum < 4294967296) :
    65535 ∣ (words data).sum + (checksum data).toNat := by
  have hsum := @addWords_toNat 0 data (by simpa using h)
  obtain ⟨hlt, hmod⟩ := foldCarries_spec (addWords 0 data)
  have hnot : (checksum data).toNat = 65535 - (foldCarries (addWords 0 data)).toNat := by
    rw [checksum, UInt32.toNat_toUInt16, UInt32.toNat_not]
    change (4294967295 - _) % 65536 = _
    omega
  rw [hsum] at hmod
  change _ ≡ 0 + _ [MOD _] at hmod
  rw [hnot]
  unfold Nat.ModEq at hmod
  omega

theorem be16_toNat (value : UInt16) :
    (value >>> 8 &&& 0xff).toUInt8.toNat * 256 + (value &&& 0xff).toUInt8.toNat = value.toNat := by
  have hlt := value.toNat_lt
  have hhigh : (value >>> 8 &&& 0xff).toUInt8.toNat = value.toNat / 256 := by
    rw [UInt16.toNat_toUInt8, UInt16.toNat_and, UInt16.toNat_shiftRight]
    change (value.toNat >>> 8 &&& 2 ^ 8 - 1) % 256 = _
    rw [Nat.and_two_pow_sub_one_eq_mod, Nat.shiftRight_eq_div_pow]
    omega
  have hlow : (value &&& 0xff).toUInt8.toNat = value.toNat % 256 := by
    rw [UInt16.toNat_toUInt8, UInt16.toNat_and]
    change (value.toNat &&& 2 ^ 8 - 1) % 256 = _
    rw [Nat.and_two_pow_sub_one_eq_mod]
    omega
  rw [hhigh, hlow]
  omega

/-- Every header passes the receiver's check, also with the length cut to 16 bits. -/
theorem ipv4_header_sums_to_ones (info : NetInfo) (payloadLen destIp : UInt32) (proto : UInt8) :
    (words (writeIpv4Header info payloadLen destIp proto)).length = 10 ∧
      OnesComplement.sum 0xFFFF (words (writeIpv4Header info payloadLen destIp proto)) = 0xFFFF := by
  obtain ⟨l₀, l₁, s₀, s₁, s₂, s₃, d₀, d₁, d₂, d₃, hheader⟩ : ∃ l₀ l₁ s₀ s₁ s₂ s₃ d₀ d₁ d₂ d₃ : UInt8,
      let packet := [0x45, 0, l₀, l₁, 0, 0, 0, 0, 64, proto, 0, 0, s₀, s₁, s₂, s₃, d₀, d₁, d₂, d₃]
      writeIpv4Header info payloadLen destIp proto = putBe16 packet 10 (checksum packet) := by
    unfold writeIpv4Header
    split_ifs <;> exact ⟨_, _, _, _, _, _, _, _, _, _, rfl⟩
  generalize hpacket : [0x45, 0, l₀, l₁, 0, 0, 0, 0, 64, proto, 0, 0, s₀, s₁, s₂, s₃, d₀, d₁, d₂, d₃] =
    packet at hheader
  have hbound : (words packet).sum ≤ 10 * 65535 := by
    rw [← hpacket]
    exact sum_le_card_nsmul _ _ (words_le _)
  have hsum : (words (putBe16 packet 10 (checksum packet))).sum =
      (words packet).sum + (checksum packet).toNat := by
    rw [← be16_toNat, ← hpacket]
    simp [words, putBe16]
    omega
  rw [hheader]
  refine ⟨by rw [← hpacket]; rfl, OnesComplement.sum_eq_self (words_le _) ?_ ?_⟩
  · rw [hsum]
    exact checksum_dvd (by omega)
  · rw [hsum, ← hpacket]
    simp [words]

end Net
