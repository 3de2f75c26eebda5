import ArmoniOS.Lib.ByteBlock

/-! Volume geometry: the boot-sector fields `fat32_mount` accepts and the 32-bit
sector arithmetic derived from them. -/
namespace Fat32
open ByteBlock

def sectorSize : ℕ := 512

abbrev Sector : Type := Block 512

def clusterMask : ℕ := 0x0fffffff
def clusterEoc : ℕ := 0x0ffffff8
def clusterBad : ℕ := 0x0ffffff7
def uint32Max : ℕ := 0xffffffff

/-- Wrap-around of `uint32_t` arithmetic. -/
def u32 (x : ℕ) : ℕ := x % 2 ^ 32

theorem u32_of_lt {x : ℕ} (h : x < 2 ^ 32) : u32 x = x := Nat.mod_eq_of_lt h

theorem u32_of_le {x : ℕ} (h : x ≤ uint32Max) : u32 x = x := u32_of_lt (Nat.lt_succ_of_le h)

/-- The geometry fields of a mounted `fat32_fs_t`, with what the mount checks establish. -/
structure Geometry where
  sectorsPerCluster : ℕ
  reservedSectors : ℕ
  fatCount : ℕ
  sectorsPerFat : ℕ
  totalSectors : ℕ
  fatStartLba : ℕ
  dataStartLba : ℕ
  rootCluster : ℕ
  clusterCount : ℕ
  sectorsPerCluster_pos : 0 < sectorsPerCluster
  sectorsPerCluster_le : sectorsPerCluster ≤ 128
  reservedSectors_pos : 0 < reservedSectors
  fatCount_pos : 0 < fatCount
  totalSectors_lt : totalSectors < 2 ^ 32
  fatStartLba_eq : fatStartLba = reservedSectors
  dataStartLba_eq : dataStartLba = reservedSectors + fatCount * sectorsPerFat
  dataStartLba_lt : dataStartLba < totalSectors
  clusterCount_eq : clusterCount = (totalSectors - dataStartLba) / sectorsPerCluster
  clusterCount_le : clusterCount ≤ clusterBad - 2
  fat_covers : (clusterCount + 2 + 127) / 128 ≤ sectorsPerFat
  rootCluster_ge : 2 ≤ rootCluster
  rootCluster_lt : rootCluster - 2 < clusterCount

/-- The checks of `fat32_mount`, in source order, on the boot sector it reads. -/
def fat32Mount (boot : Sector) : Option Geometry :=
  let bytesPerSector := boot.le16 11
  let sectorsPerCluster := (boot.get 13).toNat
  let reserved := boot.le16 14
  let fatCount := (boot.get 16).toNat
  let rootEntries := boot.le16 17
  let totalSectors := if boot.le16 19 = 0 then boot.le32 32 else boot.le16 19
  let sectorsPerFat := boot.le32 36
  let rootCluster := boot.le32 44
  if h : bytesPerSector ≠ sectorSize ∨ sectorsPerCluster = 0 ∨ 128 < sectorsPerCluster ∨
      sectorsPerCluster &&& (sectorsPerCluster - 1) ≠ 0 ∨ reserved = 0 ∨ fatCount = 0 ∨
      rootEntries ≠ 0 ∨ totalSectors = 0 ∨ sectorsPerFat = 0 ∨
      (uint32Max - reserved) / fatCount < sectorsPerFat then none
  else
    let dataStart := u32 (reserved + u32 (fatCount * sectorsPerFat))
    if h' : totalSectors ≤ dataStart then none
    else
      let clusterCount := (totalSectors - dataStart) / sectorsPerCluster
      if h'' : clusterCount = 0 ∨ clusterBad - 2 < clusterCount ∨
          sectorsPerFat < (clusterCount + 2 + 127) / 128 ∨ rootCluster < 2 ∨
          clusterCount ≤ rootCluster - 2 then none
      else
        have hfit : reserved + fatCount * sectorsPerFat < 2 ^ 32 := by
          have hr : reserved < 2 ^ 16 := boot.le16_lt 14
          have hc : 0 < fatCount := by omega
          have hle := (Nat.le_div_iff_mul_le hc).mp (not_lt.mp fun hlt => h (by tauto))
          rw [Nat.mul_comm] at hle
          unfold uint32Max at hle
          omega
        have hdata : dataStart = reserved + fatCount * sectorsPerFat := by
          have hm : fatCount * sectorsPerFat < 2 ^ 32 := by omega
          simp only [dataStart, u32_of_lt hm, u32_of_lt hfit]
        some
          { sectorsPerCluster, reservedSectors := reserved, fatCount, sectorsPerFat, totalSectors
            fatStartLba := reserved, dataStartLba := dataStart, rootCluster, clusterCount
            sectorsPerCluster_pos := by omega
            sectorsPerCluster_le := by omega
            reservedSectors_pos := by omega
            fatCount_pos := by omega
            totalSectors_lt := by
              have h16 := boot.le16_lt 19
              have h32 := boot.le32_lt 32
              simp only [totalSectors]
              split <;> omega
            fatStartLba_eq := rfl
            dataStartLba_eq := hdata
            dataStartLba_lt := by omega
            clusterCount_eq := rfl
            clusterCount_le := by omega
            fat_covers := by omega
            rootCluster_ge := by omega
            rootCluster_lt := by omega }

def clusterIsEoc (cluster : ℕ) : Prop := clusterEoc ≤ cluster
deriving Decidable

namespace Geometry

def clusterIsData (g : Geometry) (cluster : ℕ) : Prop :=
  2 ≤ cluster ∧ cluster - 2 < g.clusterCount
deriving Decidable

def clusterSize (g : Geometry) : ℕ := g.sectorsPerCluster * sectorSize

def clusterToLba (g : Geometry) (cluster : ℕ) : ℕ :=
  u32 (g.dataStartLba + u32 (u32 (cluster + (2 ^ 32 - 2)) * g.sectorsPerCluster))

/-- The expression `cluster_to_lba(fs, cluster) + sector` of every data access. -/
def sectorLba (g : Geometry) (cluster sector : ℕ) : ℕ := u32 (g.clusterToLba cluster + sector)

end Geometry

def fatOffset (cluster : ℕ) : ℕ := u32 (cluster * 4)

def fatEntryOffset (cluster : ℕ) : ℕ := fatOffset cluster % sectorSize

variable {c s : ℕ}

theorem rows_inj {k k' i i' m : ℕ} (hi : i < m) (hi' : i' < m) (h : k * m + i = k' * m + i') :
    k = k' ∧ i = i' := by
  have hunique {k i : ℕ} (hi : i < m) : (k * m + i) / m = k ∧ (k * m + i) % m = i :=
    (Nat.div_mod_unique (Nat.zero_lt_of_lt hi)).mpr ⟨by ring, hi⟩
  have hkey := @hunique k i hi
  rw [h, (hunique hi').1, (hunique hi').2] at hkey
  exact ⟨hkey.1.symm, hkey.2.symm⟩

namespace Geometry

/-- Sector of the FAT entry of `cluster` in copy `copy`, as `write_fat_entry` computes it. -/
def fatEntryLba (g : Geometry) (copy cluster : ℕ) : ℕ :=
  u32 (u32 (g.fatStartLba + u32 (copy * g.sectorsPerFat)) + fatOffset cluster / sectorSize)

variable (g : Geometry)

theorem cluster_sectors_le : g.dataStartLba + g.clusterCount * g.sectorsPerCluster ≤
    g.totalSectors := by
  have h := Nat.div_mul_le_self (g.totalSectors - g.dataStartLba) g.sectorsPerCluster
  rw [← g.clusterCount_eq] at h
  have := g.dataStartLba_lt
  omega

theorem clusterIsData.lt_bad {g : Geometry} (h : g.clusterIsData c) : c < clusterBad := by
  have h1 := h.2
  have h2 := g.clusterCount_le
  omega

theorem clusterIsData.not_eoc {g : Geometry} (h : g.clusterIsData c) : ¬ clusterIsEoc c := by
  have := h.lt_bad
  unfold clusterIsEoc clusterEoc
  unfold clusterBad at this
  omega

theorem rootCluster_data : g.clusterIsData g.rootCluster := ⟨g.rootCluster_ge, g.rootCluster_lt⟩

section
variable (hc : g.clusterIsData c)
include hc

section
variable (hs : s < g.sectorsPerCluster)
include hs

theorem data_index_lt :
    (c - 2) * g.sectorsPerCluster + s < g.clusterCount * g.sectorsPerCluster := by
  have h := Nat.mul_le_mul_right g.sectorsPerCluster hc.2
  rw [Nat.succ_mul] at h
  omega

theorem sectorLba_eq : g.sectorLba c s = g.dataStartLba + (c - 2) * g.sectorsPerCluster + s := by
  have hlt := g.data_index_lt hc hs
  have hle := g.cluster_sectors_le
  have htot := g.totalSectors_lt
  have hbad := hc.lt_bad
  have h2 := hc.1
  have hsub : u32 (c + (2 ^ 32 - 2)) = c - 2 := by
    unfold u32
    unfold clusterBad at hbad
    omega
  unfold sectorLba clusterToLba
  rw [hsub, u32_of_lt (x := (c - 2) * _) (by omega), u32_of_lt (x := g.dataStartLba + _) (by omega),
    u32_of_lt (by omega)]

theorem sectorLba_ge : g.dataStartLba ≤ g.sectorLba c s := by
  rw [g.sectorLba_eq hc hs]
  omega

theorem sectorLba_lt : g.sectorLba c s < g.totalSectors := by
  have hlt := g.data_index_lt hc hs
  have hle := g.cluster_sectors_le
  rw [g.sectorLba_eq hc hs]
  omega

end

theorem sectorLba_inj {c' s' : ℕ} (hc' : g.clusterIsData c') (hs : s < g.sectorsPerCluster)
    (hs' : s' < g.sectorsPerCluster) (h : g.sectorLba c s = g.sectorLba c' s') :
    c = c' ∧ s = s' := by
  rw [g.sectorLba_eq hc hs, g.sectorLba_eq hc' hs'] at h
  obtain ⟨hcc, hss⟩ : c - 2 = c' - 2 ∧ s = s' := rows_inj hs hs' (by omega)
  have h2 := hc.1
  have h2' := hc'.1
  exact ⟨by omega, hss⟩

end

end Geometry

theorem fatOffset_eq {g : Geometry} (hc : g.clusterIsData c) : fatOffset c = c * 4 := by
  have := hc.lt_bad
  unfold clusterBad at this
  exact u32_of_lt (by omega)

theorem fatEntryOffset_eq {g : Geometry} (hc : g.clusterIsData c) :
    fatEntryOffset c = 4 * (c % 128) := by
  unfold fatEntryOffset sectorSize
  rw [fatOffset_eq hc]
  omega

namespace Geometry
variable (g : Geometry)

theorem fat_sector_lt (hc : g.clusterIsData c) : c / 128 < g.sectorsPerFat := by
  have h := g.fat_covers
  have := hc.2
  omega

section
variable {k : ℕ} (hk : k < g.fatCount)
include hk

theorem fat_copy_le : k * g.sectorsPerFat + g.sectorsPerFat ≤ g.fatCount * g.sectorsPerFat := by
  have h := Nat.mul_le_mul_right g.sectorsPerFat hk
  rwa [Nat.succ_mul] at h

theorem fatEntryLba_eq (hc : g.clusterIsData c) :
    g.fatEntryLba k c = g.reservedSectors + k * g.sectorsPerFat + c / 128 := by
  have hs := g.fat_sector_lt hc
  have hcopy := g.fat_copy_le hk
  have hstart := g.dataStartLba_eq
  have hlt := g.dataStartLba_lt
  have htot := g.totalSectors_lt
  have hq : fatOffset c / sectorSize = c / 128 := by
    rw [fatOffset_eq hc]
    unfold sectorSize
    omega
  unfold fatEntryLba
  rw [hq, g.fatStartLba_eq, u32_of_lt (x := k * _) (by omega),
    u32_of_lt (x := g.reservedSectors + _) (by omega), u32_of_lt (by omega)]

theorem fatEntryLba_lt_data (hc : g.clusterIsData c) : g.fatEntryLba k c < g.dataStartLba := by
  have hs := g.fat_sector_lt hc
  have hcopy := g.fat_copy_le hk
  have hstart := g.dataStartLba_eq
  rw [g.fatEntryLba_eq hk hc]
  omega

end

end Geometry

/-- Over every accepted boot sector the 32-bit address arithmetic is exact: data sectors of
distinct clusters are distinct sectors of the data region, FAT entries stay inside their own
copy, and no data cluster number is a marker value. -/
theorem fat32Mount_addresses_exact (boot : Sector) (g : Geometry)
    (hm : fat32Mount boot = some g) (c : ℕ) (hc : g.clusterIsData c) :
    (g.sectorsPerCluster = (boot.get 13).toNat ∧ g.reservedSectors = boot.le16 14 ∧
      g.fatCount = (boot.get 16).toNat ∧ g.sectorsPerFat = boot.le32 36 ∧
      g.totalSectors = (if boot.le16 19 = 0 then boot.le32 32 else boot.le16 19) ∧
      g.rootCluster = boot.le32 44) ∧
    (∀ s < g.sectorsPerCluster, g.dataStartLba + (c - 2) * g.sectorsPerCluster + s < 2 ^ 32 ∧
      g.sectorLba c s = g.dataStartLba + (c - 2) * g.sectorsPerCluster + s ∧
      g.dataStartLba ≤ g.sectorLba c s ∧ g.sectorLba c s < g.totalSectors ∧
      ∀ c' s', g.clusterIsData c' → s' < g.sectorsPerCluster →
        g.sectorLba c s = g.sectorLba c' s' → c = c' ∧ s = s') ∧
    (∀ k < g.fatCount, g.reservedSectors + k * g.sectorsPerFat ≤ g.fatEntryLba k c ∧
      g.fatEntryLba k c < g.reservedSectors + (k + 1) * g.sectorsPerFat ∧
      g.fatEntryLba k c < g.dataStartLba ∧ fatEntryOffset c + 4 ≤ sectorSize) ∧
    c ≠ clusterBad ∧ ¬ clusterIsEoc c := by
  refine ⟨?_, fun s hs => ?_, fun k hk => ?_, hc.lt_bad.ne, hc.not_eoc⟩
  · unfold fat32Mount at hm
    dsimp only at hm
    split_ifs at hm <;> obtain rfl := Option.some.inj hm <;> simp_all
  · have hlt := g.sectorLba_lt hc hs
    have heq := g.sectorLba_eq hc hs
    have htot := g.totalSectors_lt
    exact ⟨by omega, heq, g.sectorLba_ge hc hs, hlt,
      fun c' s' hc' hs' => g.sectorLba_inj hc hc' hs hs'⟩
  · have hs := g.fat_sector_lt hc
    have heq := g.fatEntryLba_eq hk hc
    refine ⟨by omega, ?_, g.fatEntryLba_lt_data hk hc, ?_⟩
    · rw [heq, Nat.succ_mul]
      omega
    · rw [fatEntryOffset_eq hc]
      unfold sectorSize
      omega

/-- A boot sector with the given geometry and the root directory in cluster 2. -/
def bootSector (sectorsPerCluster reserved fats sectorsPerFat total : ℕ) : Sector :=
  (((((((Block.zero : Sector).putLe16 11 512).put 13 [UInt8.ofNat sectorsPerCluster]).putLe16 14
    reserved).put 16 [UInt8.ofNat fats]).putLe32 32 total).putLe32 36 sectorsPerFat).putLe32 44 2

def smallBoot (fats total : ℕ) : Sector := bootSector 1 1 fats 1 total

def smallGeometry (fats total : ℕ) (h : (fat32Mount (smallBoot fats total)).isSome) : Geometry :=
  (fat32Mount (smallBoot fats total)).get h

theorem fat32Mount_addresses_small : (smallGeometry 2 16 (by decide +kernel)).clusterIsData 5 ∧
    (smallGeometry 2 16 (by decide +kernel)).sectorLba 5 0 = 6 ∧
    (smallGeometry 2 16 (by decide +kernel)).fatEntryLba 1 5 < 3 := by
  have h := fat32Mount_addresses_exact (smallBoot 2 16) (smallGeometry 2 16 (by decide +kernel))
    (by simp [smallGeometry]) 5 (by decide +kernel)
  have hs := h.2.1 0 (by decide +kernel)
  have hf := h.2.2.1 1 (by decide +kernel)
  exact ⟨by decide +kernel, hs.2.1.trans (by decide +kernel), hf.2.2.1.trans_le (by decide +kernel)⟩

end Fat32
