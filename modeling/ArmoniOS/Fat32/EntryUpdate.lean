import ArmoniOS.Fat32.Ownership

/-! Edits of one directory entry, and the three kinds of sector writes as updates that touch one
slot and the clusters of its owner only. -/
namespace Fat32
open Exec ByteBlock Function Block

/-- The edit changes no byte outside the slot at `o`. -/
def InSlot (o : ℕ) (edit : Sector → Sector) : Prop :=
  ∀ s i, i < o ∨ o + 32 ≤ i → (edit s).get i = s.get i

variable {name : List UInt8} {x : ℕ}

section Edits
variable (s : Sector) {o : ℕ}

theorem put_inSlot {k : ℕ} {bs : List UInt8} (h : k + bs.length ≤ 32) :
    InSlot o fun s => s.put (o + k) bs :=
  fun s _ hi => s.get_put_of_notMem (by omega)

theorem InSlot.comp {e e' : Sector → Sector} (h : InSlot o e) (h' : InSlot o e') :
    InSlot o fun s => e' (e s) :=
  fun s i hi => (h' (e s) i hi).trans (h s i hi)

theorem storeSize_inSlot (x : ℕ) : InSlot o fun s => s.putLe32 (o + 28) x := put_inSlot (by simp)

theorem storeCluster_inSlot (c : ℕ) :
    InSlot o fun s => (s.putLe16 (o + 20) (c / 2 ^ 16)).putLe16 (o + 26) (c % 2 ^ 16) :=
  (put_inSlot (by simp)).comp (put_inSlot (by simp))

theorem storeName_inSlot (h : name.length ≤ 32) : InSlot o fun s => s.put o name := by
  simpa using put_inSlot (k := 0) (show 0 + name.length ≤ 32 by omega)

theorem writeDirEntry_inSlot (h : name.length ≤ 32) (attr : UInt8) (c size : ℕ) :
    InSlot o fun s => writeDirEntry s o name attr c size :=
  ((((((storeName_inSlot (by simp)).comp (storeName_inSlot h)).comp (put_inSlot (by simp))).comp
    (put_inSlot (by simp))).comp (put_inSlot (by simp))).comp (put_inSlot (by simp)))

variable (ho : o + 32 ≤ 512)
include ho

theorem dirEntryAt_storeSize (hx : x < 2 ^ 32) :
    dirEntryAt (s.putLe32 (o + 28) x) o = { dirEntryAt s o with size := x } := by
  have hkeep : ∀ i, i < o + 28 → (s.putLe32 (o + 28) x).get i = s.get i :=
    fun i hi => s.get_put_of_notMem (.inl hi)
  have hname : (s.putLe32 (o + 28) x).slice o 11 = s.slice o 11 :=
    slice_congr fun j _ _ => hkeep j (by omega)
  have hhigh : (s.putLe32 (o + 28) x).le16 (o + 20) = s.le16 (o + 20) :=
    le16_congr fun j _ _ => hkeep j (by omega)
  have hlow := le16_congr fun j _ _ => hkeep j (by omega)
  simp only [dirEntryAt, hname, hkeep (o + 11) (by omega), hhigh, hlow,
    le32_putLe32 s (show o + 28 + 4 ≤ 512 by omega) hx]

theorem dirEntryAt_storeCluster {c : ℕ} (hc : c < 2 ^ 32) :
    dirEntryAt ((s.putLe16 (o + 20) (c / 2 ^ 16)).putLe16 (o + 26) (c % 2 ^ 16)) o =
      { dirEntryAt s o with firstCluster := c } := by
  generalize ht : (s.putLe16 (o + 20) (c / 2 ^ 16)).putLe16 (o + 26) (c % 2 ^ 16) = t
  have hkeep : ∀ i, i < o + 20 ∨ o + 28 ≤ i → t.get i = s.get i := by
    intro i hi
    rw [← ht, putLe16, get_put_of_notMem _ (by simp; omega), putLe16,
      get_put_of_notMem _ (by simp; omega)]
  have hname : t.slice o 11 = s.slice o 11 := slice_congr fun j _ _ => hkeep j (by omega)
  have hsize : t.le32 (o + 28) = s.le32 (o + 28) := le32_congr fun j _ _ => hkeep j (by omega)
  have hlow : t.le16 (o + 26) = c % 2 ^ 16 := by
    rw [← ht]
    exact le16_putLe16 _ (by omega) (by omega)
  have hhigh : t.le16 (o + 20) = c / 2 ^ 16 := by
    rw [← ht, le16_congr fun j h1 h2 => ?_,
      le16_putLe16 s (show o + 20 + 2 ≤ 512 by omega) (show c / 2 ^ 16 < 2 ^ 16 by omega)]
    exact get_put_of_notMem _ (by omega)
  have hcluster : c / 2 ^ 16 * 2 ^ 16 + c % 2 ^ 16 = c := by omega
  simp only [dirEntryAt, hname, hkeep (o + 11) (by omega), hhigh, hlow, hsize, hcluster]

theorem dirEntryAt_storeName (hn : name.length = 11) :
    dirEntryAt (s.put o name) o = { dirEntryAt s o with name := name } := by
  have hkeep : ∀ i, o + 11 ≤ i → (s.put o name).get i = s.get i :=
    fun i hi => s.get_put_of_notMem (.inr (by omega))
  have hname : (s.put o name).slice o 11 = name := by
    have := s.slice_put_self (show o + name.length ≤ 512 by omega)
    rwa [hn] at this
  have hhigh : (s.put o name).le16 (o + 20) = s.le16 (o + 20) :=
    le16_congr fun j _ _ => hkeep j (by omega)
  have hlow : (s.put o name).le16 (o + 26) = s.le16 (o + 26) :=
    le16_congr fun j _ _ => hkeep j (by omega)
  have hsize : (s.put o name).le32 (o + 28) = s.le32 (o + 28) :=
    le32_congr fun j _ _ => hkeep j (by omega)
  simp only [dirEntryAt, hname, hkeep (o + 11) (by omega), hhigh, hlow, hsize]

theorem mark_storeMark (m : UInt8) : (dirEntryAt (s.put o [m]) o).mark = m := by
  rw [mark_dirEntryAt]
  simpa using s.get_put_add o 0 [m] (by simp) (by omega)

theorem dirEntryAt_writeDirEntry (hn : name.length = 11) (attr : UInt8) {c size : ℕ}
    (hc : c < 2 ^ 32) (hsize : size < 2 ^ 32) :
    dirEntryAt (writeDirEntry s o name attr c size) o = ⟨name, attr, c, size⟩ := by
  unfold writeDirEntry
  rw [dirEntryAt_storeSize _ ho hsize, dirEntryAt_storeCluster _ ho hc]
  generalize (s.put o (List.replicate 32 0)) = t
  have hname : ((t.put o name).put (o + 11) [attr]).slice o 11 = name := by
    rw [slice_congr fun j _ _ => get_put_of_notMem _ (.inl (by omega))]
    have := t.slice_put_self (show o + name.length ≤ 512 by omega)
    rwa [hn] at this
  have hattr : ((t.put o name).put (o + 11) [attr]).get (o + 11) = attr := by
    simpa using (t.put o name).get_put_add (o + 11) 0 [attr] (by simp) (by omega)
  simp only [dirEntryAt, hname, hattr]

end Edits

variable {g : Geometry} {T : ℕ → Prop} {p₀ : Slot} {d : Disk}

/-- The slot lies in the data region, outside the clusters of `T`. -/
structure Apart (g : Geometry) (T : ℕ → Prop) (p₀ : Slot) : Prop where
  ge : g.dataStartLba ≤ p₀.1
  lt : p₀.1 < g.totalSectors
  room : p₀.2 + 32 ≤ sectorSize
  ne : ∀ x s, g.clusterIsData x → s < g.sectorsPerCluster → T x → g.sectorLba x s ≠ p₀.1

theorem Site.apart {scope : Owner → Prop} {cs₀ : List ℕ} (hc : Chained g scope d)
    (hs : Site g scope d p₀ cs₀) : Apart g (Loose g d cs₀) p₀ := by
  obtain ⟨o, ho, hp⟩ := hs.inDir
  obtain ⟨cs, hcs⟩ := hc.dirChain o ho
  obtain ⟨y, hy, t, ht, hlba, hoff⟩ := hcs.mem_dirSlots.mp hp
  have hdata := hcs.data y hy
  constructor
  · rw [hlba]
    exact g.sectorLba_ge hdata ht
  · rw [hlba]
    exact g.sectorLba_lt hdata ht
  · exact slotOffset_le hoff
  · intro x s hx hs' hloose he
    obtain ⟨rfl, -⟩ := g.sectorLba_inj hx hdata hs' ht (he.trans hlba)
    exact hs.not_loose hc (.inl ho) (hs.dir_ne ho) (.inr hcs) hy hloose

/-- Only sectors of cluster `c` differ. -/
def OnlyCluster (g : Geometry) (c : ℕ) (d d' : Disk) : Prop :=
  ∀ lba, (∀ s < g.sectorsPerCluster, lba ≠ g.sectorLba c s) → d' lba = d lba

namespace OnlyCluster
variable {c : ℕ} {d' d'' : Disk}

theorem refl (d : Disk) : OnlyCluster g c d d := fun _ _ => rfl

theorem trans (h : OnlyCluster g c d d') (h' : OnlyCluster g c d' d'') : OnlyCluster g c d d'' :=
  fun lba hl => (h' lba hl).trans (h lba hl)

theorem update {s : ℕ} (hs : s < g.sectorsPerCluster) (b : Sector) :
    OnlyCluster g c d (update d (g.sectorLba c s) b) :=
  fun _ hl => update_of_ne (hl s hs) _ _

section
variable (h : OnlyCluster g c d d')
include h

theorem below (hc : g.clusterIsData c) : ∀ lba < g.dataStartLba, d' lba = d lba := by
  intro lba hlba
  refine h lba fun s hs he => ?_
  have := g.sectorLba_ge hc hs
  omega

theorem fatValue_eq (hc : g.clusterIsData c) {y : ℕ} (hy : g.clusterIsData y) :
    fatValue g d' y = fatValue g d y := fatValue_congr hy (h.below hc)

theorem sector_eq (hc : g.clusterIsData c) {y s : ℕ} (hy : g.clusterIsData y)
    (hs : s < g.sectorsPerCluster) (hne : y ≠ c) : d' (g.sectorLba y s) = d (g.sectorLba y s) := by
  refine h _ fun t ht he => hne ?_
  exact (g.sectorLba_inj hy hc hs ht he).1

end

end OnlyCluster

namespace Apart
variable (ha : Apart g T p₀) {c : ℕ}
include ha

theorem entryAt_patchCopies (hc : g.clusterIsData c) {n : ℕ} (hn : n ≤ g.fatCount) :
    entryAt (patchCopies g d c x n) p₀ = entryAt d p₀ := by
  rw [entryAt, entryAt, patchCopies_of_ge hc hn ha.ge]

theorem touches_patchCopies (hc : g.clusterIsData c) (hT : T c) (hx : x < 2 ^ 28) {n : ℕ}
    (hn : n ≤ g.fatCount) : Touches g T p₀ d (patchCopies g d c x n) := by
  constructor
  · intro y hy hny
    rw [fatValue_patchCopies hc hy hx hn, if_neg]
    rintro ⟨-, rfl⟩
    exact hny hT
  · intro y s hy hs _ _
    exact patchCopies_of_ge hc hn (g.sectorLba_ge hy hs)
  · intro i _
    rw [patchCopies_of_ge hc hn ha.ge]

theorem touches_slot {edit : Sector → Sector} (he : InSlot p₀.2 edit) :
    Touches g T p₀ d (update d p₀.1 (edit (d p₀.1))) := by
  have hge := ha.ge
  constructor
  · intro y hy _
    refine fatValue_congr hy fun lba hlba => update_of_ne ?_ _ _
    omega
  · intro y s _ _ _ hne
    exact update_of_ne hne _ _
  · intro i hi
    rw [update_self]
    exact he _ i hi

theorem touches_data {d' : Disk} (hc : g.clusterIsData c) (hT : T c) (h : OnlyCluster g c d d') :
    Touches g T p₀ d d' := by
  constructor
  · intro y hy _
    exact h.fatValue_eq hc hy
  · intro y s hy hs hny _
    refine h.sector_eq hc hy hs ?_
    rintro rfl
    exact hny hT
  · intro i _
    rw [h _ fun t ht => (ha.ne c t hc ht hT).symm]

theorem entryAt_data {d' : Disk} (hc : g.clusterIsData c) (hT : T c) (h : OnlyCluster g c d d') :
    entryAt d' p₀ = entryAt d p₀ := by
  rw [entryAt, entryAt, h _ fun t ht => (ha.ne c t hc ht hT).symm]

end Apart

theorem Apart.sector_eq (ha : Apart g T p₀) (b : Sector) {s : ℕ} (hx : g.clusterIsData x)
    (hs : s < g.sectorsPerCluster) (hT : T x) :
    update d p₀.1 b (g.sectorLba x s) = d (g.sectorLba x s) :=
  update_of_ne (ha.ne x s hx hs hT) _ _

theorem Apart.below (ha : Apart g T p₀) (b : Sector) :
    ∀ lba < g.dataStartLba, update d p₀.1 b lba = d lba := by
  intro lba hlba
  have hge := ha.ge
  exact update_of_ne (by omega) _ _

theorem Apart.fatValue_slot (ha : Apart g T p₀) (b : Sector) (hx : g.clusterIsData x) :
    fatValue g (update d p₀.1 b) x = fatValue g d x := fatValue_congr hx (ha.below b)

theorem entryAt_update (b : Sector) : entryAt (update d p₀.1 b) p₀ = dirEntryAt b p₀.2 := by
  rw [entryAt, update_self]

/-- One directory write: it fails and changes nothing, or the edited sector is on the medium. -/
theorem updateDirSector_apply {dev : Device} (hr : dev.ReadsOk) (hw : dev.writable = true) {lba : ℕ}
    (hl : lba < g.totalSectors) (edit : Sector → Sector) (v : Volume) :
    ∃ r w, updateDirSector g dev lba edit v = (r, w) ∧ w.writes = v.writes + 1 ∧
      (r = none ∧ dev.writeOk v.writes = false ∧ w.disk = v.disk ∨
        r = some () ∧ w.disk = update v.disk lba (edit (v.disk lba))) := by
  obtain ⟨w, hcount, hrun, hdisk⟩ := rewriteSector_apply hr hw hl .dir edit v
  refine ⟨_, w, hrun, hcount, ?_⟩
  cases hok : dev.writeOk v.writes with
  | false => exact .inl ⟨by simp, rfl, by simpa [hok] using hdisk⟩
  | true => exact .inr ⟨by simp, by simpa [hok] using hdisk⟩

end Fat32
