import ArmoniOS.Fat32.Lookup

/-! Updates of the FAT copies and the functions built on them, on images. Reads always succeed
here; a write may fail, and then only the copies before it have been patched. -/
namespace Fat32
open Exec ByteBlock Function List

namespace Device

def WritesOk (dev : Device) : Prop := ∀ n, dev.writeOk n = true

theorem reliable_writesOk : reliable.WritesOk := fun _ => rfl

end Device

variable (g : Geometry)

/-- Copy `copy` with the entry of `c` replaced by `x`. -/
def patchFat (d : Disk) (copy c x : ℕ) : Disk :=
  update d (g.fatEntryLba copy c)
    ((d (g.fatEntryLba copy c)).putLe32 (fatEntryOffset c) (x &&& clusterMask))

/-- The first `n` copies patched. -/
def patchCopies (d : Disk) (c x : ℕ) : ℕ → Disk
  | 0 => d
  | n + 1 => patchFat g (patchCopies d c x n) n c x

def setFat (d : Disk) (c x : ℕ) : Disk := patchCopies g d c x g.fatCount

def Mirror (d : Disk) : Prop :=
  ∀ k < g.fatCount, ∀ s < g.sectorsPerFat,
    d (g.reservedSectors + k * g.sectorsPerFat + s) = d (g.reservedSectors + s)

variable {g} {d : Disk} {c x : ℕ}

variable {c' : ℕ}

theorem fatEntryLba_inj {k k' c : ℕ} (hk : k < g.fatCount) (hk' : k' < g.fatCount)
    (hc : g.clusterIsData c) (hc' : g.clusterIsData c')
    (h : g.fatEntryLba k c = g.fatEntryLba k' c') : k = k' ∧ c / 128 = c' / 128 := by
  rw [g.fatEntryLba_eq hk hc, g.fatEntryLba_eq hk' hc'] at h
  exact rows_inj (g.fat_sector_lt hc) (g.fat_sector_lt hc') (by omega)

variable {n : ℕ}

theorem patchCopies_apply (hc : g.clusterIsData c) (hn : n ≤ g.fatCount) (lba : ℕ) :
    patchCopies g d c x n lba =
      if ∃ k < n, lba = g.fatEntryLba k c then
        (d lba).putLe32 (fatEntryOffset c) (x &&& clusterMask)
      else d lba := by
  induction n with
  | zero => simp [patchCopies]
  | succ n ih =>
    have ih := ih (by omega)
    simp only [patchCopies, patchFat]
    by_cases hl : lba = g.fatEntryLba n c
    · have hfresh : ¬ ∃ k < n, lba = g.fatEntryLba k c := by
        rintro ⟨k, hk, hk'⟩
        have := (fatEntryLba_inj (by omega) (by omega) hc hc (hl.symm.trans hk')).1
        omega
      rw [if_pos ⟨n, by omega, hl⟩, ← hl, update_self, ih, if_neg hfresh]
    · rw [update_of_ne hl, ih]
      have hiff : (∃ k < n + 1, lba = g.fatEntryLba k c) ↔ ∃ k < n, lba = g.fatEntryLba k c := by
        constructor
        · rintro ⟨k, hk, hk'⟩
          rcases Nat.lt_succ_iff_lt_or_eq.mp hk with hlt | rfl
          · exact ⟨k, hlt, hk'⟩
          · exact absurd hk' hl
        · rintro ⟨k, hk, hk'⟩
          exact ⟨k, by omega, hk'⟩
      simp only [hiff]

variable {lba : ℕ}

theorem patchCopies_of_ge (hc : g.clusterIsData c) (hn : n ≤ g.fatCount) (hl : g.dataStartLba ≤ lba) : patchCopies g d c x n lba = d lba := by
  rw [patchCopies_apply hc hn, if_neg]
  rintro ⟨k, hk, rfl⟩
  have := g.fatEntryLba_lt_data (show k < g.fatCount by omega) hc
  omega

theorem mask_of_lt {x : ℕ} (h : x < 2 ^ 28) : x &&& clusterMask = x := by
  rw [and_clusterMask, Nat.mod_eq_of_lt h]

section
variable (hc : g.clusterIsData c)
include hc

theorem fatValue_patchCopies (hc' : g.clusterIsData c') (hx : x < 2 ^ 28) (hn : n ≤ g.fatCount) :
    fatValue g (patchCopies g d c x n) c' =
      if 0 < n ∧ c' = c then x else fatValue g d c' := by
  have hpos := g.fatCount_pos
  have ho : fatEntryOffset c + 4 ≤ 512 := by
    rw [fatEntryOffset_eq hc]
    omega
  unfold fatValue
  rw [patchCopies_apply hc hn]
  by_cases hsec : ∃ k < n, g.fatEntryLba 0 c' = g.fatEntryLba k c
  · obtain ⟨k, hk, hk'⟩ := hsec
    obtain ⟨h0, hdiv⟩ := fatEntryLba_inj hpos (by omega) hc' hc hk'
    rw [if_pos ⟨k, hk, hk'⟩]
    by_cases hcc : c' = c
    · rw [if_pos ⟨by omega, hcc⟩, hcc, Block.le32_putLe32 _ ho (by rw [mask_of_lt hx]; omega),
        mask_of_lt hx, mask_of_lt hx]
    · rw [if_neg (by tauto)]
      congr 1
      apply Block.le32_congr
      intro i h1 h2
      rw [fatEntryOffset_eq hc'] at h1 h2
      apply Block.get_put_of_notMem
      rw [fatEntryOffset_eq hc, Block.bytes32_length]
      omega
  · rw [if_neg hsec, if_neg]
    rintro ⟨hn0, rfl⟩
    exact hsec ⟨0, hn0, rfl⟩

theorem fatValue_setFat (hc' : g.clusterIsData c') (hx : x < 2 ^ 28) :
    fatValue g (setFat g d c x) c' = if c' = c then x else fatValue g d c' := by
  have hpos := g.fatCount_pos
  rw [setFat, fatValue_patchCopies hc hc' hx le_rfl]
  simp [hpos]

theorem setFat_of_ge (hl : g.dataStartLba ≤ lba) :
    setFat g d c x lba = d lba := patchCopies_of_ge hc le_rfl hl

theorem mirror_setFat (h : Mirror g d) : Mirror g (setFat g d c x) := by
  intro k hk s hs
  have hpos := g.fatCount_pos
  have hq := g.fat_sector_lt hc
  have hlba : ∀ j < g.fatCount, ∀ i < g.sectorsPerFat,
      (∃ k < g.fatCount, g.reservedSectors + j * g.sectorsPerFat + i = g.fatEntryLba k c) ↔
        i = c / 128 := by
    intro j hj i hi
    constructor
    · rintro ⟨k', hk', he⟩
      rw [g.fatEntryLba_eq hk' hc] at he
      exact (rows_inj hi hq (show j * g.sectorsPerFat + i = k' * g.sectorsPerFat + _ by omega)).2
    · rintro rfl
      exact ⟨j, hj, (g.fatEntryLba_eq hj hc).symm⟩
  have h0 := hlba 0 hpos s hs
  have hzero : g.reservedSectors + 0 * g.sectorsPerFat + s = g.reservedSectors + s := by simp
  rw [hzero] at h0
  rw [setFat, patchCopies_apply hc le_rfl, patchCopies_apply hc le_rfl, h k hk s hs]
  simp only [hlba k hk s hs, h0]

theorem fatValue_congr {d' : Disk} (h : ∀ lba < g.dataStartLba, d' lba = d lba) :
    fatValue g d' c = fatValue g d c := by
  rw [fatValue, fatValue, h _ (g.fatEntryLba_lt_data g.fatCount_pos hc)]

end

theorem mirror_congr {d' : Disk} (h : ∀ lba < g.dataStartLba, d' lba = d lba) (hm : Mirror g d) :
    Mirror g d' := by
  intro k hk s hs
  have hcopy := g.fat_copy_le hk
  have hstart := g.dataStartLba_eq
  rw [h _ (by omega), h _ (by omega), hm k hk s hs]

section Writes
variable {dev : Device}

theorem writeSector_apply (hw : dev.writable = true) (hl : lba < g.totalSectors) (kind : WriteKind)
    (buffer : Sector) (v : Volume) :
    writeSector g dev kind lba buffer v =
      if dev.writeOk v.writes then (some (), v.store kind lba buffer)
      else (none, v.miss kind lba) := by
  rw [writeSector, if_neg (by simp [hw, hl])]
  rfl

theorem writeSector_changes (hw : dev.writable = true) (hl : lba < g.totalSectors) (kind : WriteKind)
    (buffer : Sector) {v u : Volume} (hq : v.Quiet u) :
    ∃ w, w.writes = v.writes + 1 ∧
      writeSector g dev kind lba buffer u = (if dev.writeOk v.writes then some () else none, w) ∧
      w.disk = if dev.writeOk v.writes then update v.disk lba buffer else v.disk := by
  rw [writeSector_apply hw hl, ← hq.1, ← hq.2]
  cases dev.writeOk u.writes with
  | true => exact ⟨_, u.store_writes kind lba buffer, rfl, rfl⟩
  | false => exact ⟨_, u.miss_writes kind lba, rfl, rfl⟩

/-- What patching some of the copies leaves behind: `n` writes succeeded, and if these are not
all, the next one failed. -/
structure Patched (dev : Device) (c x : ℕ) (v w : Volume) (n : ℕ) : Prop where
  le : n ≤ g.fatCount
  disk : w.disk = patchCopies g v.disk c x n
  ok : ∀ i < n, dev.writeOk (v.writes + i) = true
  fail : n < g.fatCount → dev.writeOk (v.writes + n) = false
  writes : n = g.fatCount → w.writes = v.writes + g.fatCount

theorem Patched.full {v w : Volume} (h : Patched (g := g) dev c x v w n)
    (hok : ∀ i < g.fatCount, dev.writeOk (v.writes + i) = true) : n = g.fatCount := by
  by_contra hne
  have hlt : n < g.fatCount := by have := h.le; omega
  exact absurd (hok n hlt) (by rw [h.fail hlt]; decide)

theorem Patched.all {v w : Volume} (h : Patched (g := g) dev c x v w n) (hw : dev.WritesOk) :
    n = g.fatCount := h.full fun _ _ => hw _

theorem clusterEoc_lt : clusterEoc < 2 ^ 28 := by decide

theorem data_lt (hc : g.clusterIsData c) : c < 2 ^ 28 := by
  have := hc.lt_bad
  unfold clusterBad at this
  omega

theorem allocateCluster_full (hr : dev.ReadsOk) {v : Volume} (h : freeCluster g v.disk = none)
    (prev : ℕ) : ∃ w, v.Quiet w ∧ allocateCluster g dev prev v = (none, w) := by
  obtain ⟨u, hu, hq⟩ := (findFreeCluster_reads g hr).run v
  rw [h] at hu
  exact ⟨u, hq, by rw [allocateCluster, bind_of_none hu]⟩

variable (hr : dev.ReadsOk) (hw : dev.writable = true)
include hr hw

theorem rewriteSector_apply (hl : lba < g.totalSectors) (kind : WriteKind) (edit : Sector → Sector)
    (v : Volume) :
    ∃ w, w.writes = v.writes + 1 ∧
      (readSector g dev lba >>= fun _ => editSector edit >>= fun _ => currentSector >>= fun s =>
        writeSector g dev kind lba s) v = (if dev.writeOk v.writes then some () else none, w) ∧
      w.disk = if dev.writeOk v.writes then update v.disk lba (edit (v.disk lba))
        else v.disk := by
  rw [bind_of_some (readSector_ok g hr hl v), bind_of_some (editSector_apply _ _),
    bind_of_some (currentSector_apply _)]
  exact writeSector_changes hw hl kind _ (v.quiet_load lba)

theorem writeFatCopy_apply (hc : g.clusterIsData c) {k : ℕ} (hk : k < g.fatCount) (v : Volume) :
    ∃ w, w.writes = v.writes + 1 ∧
      writeFatCopy g dev c x k v = (if dev.writeOk v.writes then some () else none, w) ∧
      w.disk = if dev.writeOk v.writes then patchFat g v.disk k c x else v.disk :=
  rewriteSector_apply hr hw ((g.fatEntryLba_lt_data hk hc).trans g.dataStartLba_lt) .fat _ v

theorem forEach_writeFatCopy (hc : g.clusterIsData c) {k : ℕ} (hn : k + n = g.fatCount)
    {v u : Volume} (hd : u.disk = patchCopies g v.disk c x k) (hu : u.writes = v.writes + k)
    (hok : ∀ i < k, dev.writeOk (v.writes + i) = true) :
    ∃ j w, forEach (writeFatCopy g dev c x) (range' k n) u =
        (if j = g.fatCount then some () else none, w) ∧ Patched (g := g) dev c x v w j := by
  induction n generalizing k u with
  | zero =>
    refine ⟨k, u, by simp [show k = g.fatCount by omega], by omega, hd, hok, by omega, ?_⟩
    omega
  | succ n ih =>
    obtain ⟨w, hww, hrun, hwd⟩ := writeFatCopy_apply hr hw hc (show k < g.fatCount by omega) u
    rw [hu] at hrun hwd hww
    rw [range'_succ, forEach_cons]
    by_cases hk : dev.writeOk (v.writes + k) = true
    · simp only [hk, if_true] at hrun hwd
      rw [bind_of_some hrun]
      refine ih (by omega) (by rw [hwd, hd]; rfl) (by omega) fun i hi => ?_
      rcases Nat.lt_succ_iff_lt_or_eq.mp hi with hlt | rfl
      · exact hok i hlt
      · exact hk
    · simp only [hk, if_false, Bool.false_eq_true] at hrun hwd
      rw [bind_of_none hrun]
      refine ⟨k, w, by simp [show k ≠ g.fatCount by omega], by omega, hwd.trans hd, hok,
        fun _ => by simpa using hk, by omega⟩

theorem writeFatEntry_apply (hc : g.clusterIsData c)
    (hx : x = 0 ∨ clusterIsEoc x ∨ g.clusterIsData x) (v : Volume) :
    ∃ j w, writeFatEntry g dev c x v = (if j = g.fatCount then some () else none, w) ∧
      Patched (g := g) dev c x v w j := by
  rw [writeFatEntry, if_neg (by simp [hw, hc]; tauto), range_eq_range']
  exact forEach_writeFatCopy hr hw hc (by omega) rfl rfl (by simp)

variable {v : Volume}

theorem allocateCluster_head {y : ℕ} (h : freeCluster g v.disk = some y) :
    ∃ u w j, v.Quiet u ∧ Patched (g := g) dev y clusterEoc u w j ∧
      allocateCluster g dev 0 v = (if j = g.fatCount then some y else none, w) := by
  obtain ⟨u, hu, hq⟩ := (findFreeCluster_reads g hr).run v
  rw [h] at hu
  obtain ⟨j, w, hrun, hp⟩ := writeFatEntry_apply hr hw (freeCluster_some g h).1
    (.inr (.inl le_rfl)) u
  refine ⟨u, w, j, hq, hp, ?_⟩
  rw [allocateCluster, bind_of_some hu, if_neg (by simp)]
  exact bind_pure_of_ite hrun

theorem allocateCluster_append {y : ℕ} (hc : g.clusterIsData c)
    (he : clusterIsEoc (fatValue g v.disk c)) (h : freeCluster g v.disk = some y) :
    ∃ u w j, v.Quiet u ∧ Patched (g := g) dev c y u w j ∧
      (j ≠ g.fatCount → allocateCluster g dev c v = (none, w)) ∧
      (j = g.fatCount → ∃ w' j', Patched (g := g) dev y clusterEoc w w' j' ∧
        allocateCluster g dev c v = (if j' = g.fatCount then some y else none, w')) := by
  have hy := freeCluster_some g h
  obtain ⟨u₀, hu₀, hq₀⟩ := (findFreeCluster_reads g hr).run v
  rw [h] at hu₀
  have hread := readFatEntry_apply g hr c true u₀
  have hd₀ := hq₀.1
  have hnext : decodeFat g true (fatValue g u₀.disk c) = some (fatValue g v.disk c) := by
    rw [hd₀, decodeFat, if_neg]
    rintro (hb | ⟨-, hn, -⟩)
    · exact eoc_ne_bad he hb
    · exact hn he
  rw [if_pos hc, hnext] at hread
  have hq : v.Quiet (u₀.load (g.fatEntryLba 0 c)) := hq₀.trans (u₀.quiet_load _)
  obtain ⟨j, w, hrun, hp⟩ := writeFatEntry_apply hr hw hc (.inr (.inr hy.1))
    (u₀.load (g.fatEntryLba 0 c))
  have hstart : allocateCluster g dev c v =
      (writeFatEntry g dev c y >>= fun _ => writeFatEntry g dev y clusterEoc >>= fun _ =>
        pure y) (u₀.load (g.fatEntryLba 0 c)) := by
    have hc0 : c ≠ 0 := by have := hc.1; omega
    rw [allocateCluster, bind_of_some hu₀, if_pos hc0, bind_of_some hread, if_pos he]
  refine ⟨_, w, j, hq, hp, fun hj => ?_, fun hj => ?_⟩
  · rw [if_neg hj] at hrun
    rw [hstart, bind_of_none hrun]
  · rw [if_pos hj] at hrun
    obtain ⟨j', w', hrun', hp'⟩ := writeFatEntry_apply hr hw hy.1 (.inr (.inl le_rfl)) w
    refine ⟨w', j', hp', ?_⟩
    rw [hstart, bind_of_some hrun]
    exact bind_pure_of_ite hrun'

end Writes

def clearChain (g : Geometry) (d : Disk) (cs : List ℕ) : Disk := cs.foldl (fun d c => setFat g d c 0) d

variable {cs : List ℕ}

section
variable (hcs : ∀ c ∈ cs, g.clusterIsData c)
include hcs

theorem clearChain_of_ge (hl : g.dataStartLba ≤ lba) : clearChain g d cs lba = d lba := by
  induction cs generalizing d with
  | nil => rfl
  | cons c cs ih =>
    rw [clearChain, foldl_cons, ← clearChain, ih fun x hx => hcs x (by simp [hx])]
    exact setFat_of_ge (hcs c (by simp)) hl

theorem fatValue_clearChain (hx : g.clusterIsData x) :
    fatValue g (clearChain g d cs) x = if x ∈ cs then 0 else fatValue g d x := by
  induction cs generalizing d with
  | nil => rfl
  | cons c cs ih =>
    rw [clearChain, foldl_cons, ← clearChain, ih fun y hy => hcs y (by simp [hy]),
      fatValue_setFat (hcs c (by simp)) hx (by norm_num)]
    by_cases h1 : x ∈ cs
    · simp [h1]
    · by_cases h2 : x = c <;> simp [h1, h2]

theorem mirror_clearChain (h : Mirror g d) : Mirror g (clearChain g d cs) := by
  induction cs generalizing d with
  | nil => exact h
  | cons c cs ih =>
    exact ih (fun y hy => hcs y (by simp [hy])) (mirror_setFat (hcs c (by simp)) h)

end

theorem freeChainFrom_apply {dev : Device} (hr : dev.ReadsOk) (hw : dev.writable = true)
    {v : Volume} (h : ChainFrom g v.disk c cs) (hn : cs.length ≤ n)
    (hok : ∀ i < cs.length * g.fatCount, dev.writeOk (v.writes + i) = true) :
    ∃ w, freeChainFrom g dev n c v = (some (), w) ∧ w.disk = clearChain g v.disk cs ∧
      w.writes = v.writes + cs.length * g.fatCount := by
  induction cs generalizing c n v with
  | nil => exact absurd rfl h.ne_nil
  | cons a rest ih =>
    obtain rfl : a = c := by simpa using h.head
    obtain ⟨m, rfl⟩ : ∃ m, n = m + 1 := ⟨n - 1, by simp at hn; omega⟩
    have ha := h.head_data
    obtain ⟨j, w, hrun, hp⟩ := writeFatEntry_apply hr hw ha (.inl rfl)
      (v.load (g.fatEntryLba 0 a))
    rw [length_cons, Nat.add_mul, Nat.one_mul] at hok
    have hj := hp.full fun i hi => by
      exact hok i (by omega)
    rw [if_pos hj] at hrun
    have hwd : w.disk = setFat g v.disk a 0 := by rw [hp.disk, hj]; rfl
    have hww : w.writes = v.writes + g.fatCount := by rw [hp.writes hj, Volume.load_writes]
    rw [freeChainFrom, if_pos ha]
    cases rest with
    | nil =>
      rw [bind_of_some (h.readFatEntry_singleton hr), bind_of_some hrun,
        if_pos h.nextCluster_singleton.2]
      exact ⟨w, rfl, hwd, by simpa using hww⟩
    | cons b rest =>
      rw [bind_of_some (h.readFatEntry_cons hr), bind_of_some hrun, if_neg h.tail.head_data.not_eoc]
      have htail : ChainFrom g w.disk b (b :: rest) := by
        refine h.tail.congr fun x hx => ?_
        have hne : x ≠ a := by
          rintro rfl
          exact (nodup_cons.mp h.nodup).1 hx
        rw [hwd, fatValue_setFat ha (h.tail.data x hx) (by norm_num), if_neg hne]
      obtain ⟨w', hrun', hw', hcount⟩ := ih htail (by simpa using hn) fun i hi => by
        rw [hww, Nat.add_assoc]
        exact hok _ (by omega)
      refine ⟨w', hrun', by rw [hw', hwd]; rfl, ?_⟩
      rw [hcount, hww, length_cons (a := a)]
      ring

end Fat32
