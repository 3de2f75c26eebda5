import ArmoniOS.Fat32.Image

/-! Directories as lists of slots. The nested loops of a scan visit the slots of the clusters
reached through the FAT, in order, so that a scan is a fold over that list followed by what the
FAT said where the walk stopped. -/
namespace Fat32
open Exec List

abbrev Slot : Type := ℕ × ℕ

def entryAt (d : Disk) (p : Slot) : DirEntry := dirEntryAt (d p.1) p.2

def sectorSlots (lba : ℕ) : List Slot := slotOffsets.map (Prod.mk lba)

variable {xs : List Slot} {p : Slot}

section Fold
variable {α β : Type}

def foldSlots (f : Slot → β → Option (Visit β α)) : List Slot → β → Option (Visit β α)
  | [], b => some (.next b)
  | p :: ps, b =>
      match f p b with
      | none => none
      | some (.done a) => some (.done a)
      | some (.next b') => foldSlots f ps b'

variable {f : Slot → β → Option (Visit β α)}

@[simp] theorem foldSlots_nil (b : β) : foldSlots f [] b = some (.next b) := rfl

theorem foldSlots_append (xs ys : List Slot) (b : β) : foldSlots f (xs ++ ys) b =
      match foldSlots f xs b with
      | none => none
      | some (.done a) => some (.done a)
      | some (.next b') => foldSlots f ys b' := by
  induction xs generalizing b with
  | nil => rfl
  | cons p ps ih =>
    simp only [cons_append, foldSlots]
    rcases f p b with _ | ⟨b' | a⟩
    · rfl
    · exact ih b'
    · rfl

/-- The fold over `slots` from `b₀` comes to slot `p` with loop variables `b`. -/
def Reached (f : Slot → β → Option (Visit β α)) (slots : List Slot) (b₀ : β) (p : Slot) (b : β) :
    Prop :=
  ∃ before after, slots = before ++ p :: after ∧ foldSlots f before b₀ = some (.next b)

theorem Reached.append_right {b₀ b : β} (h : Reached f xs b₀ p b) (ys : List Slot) :
    Reached f (xs ++ ys) b₀ p b := by
  obtain ⟨before, after, rfl, hb⟩ := h
  exact ⟨before, after ++ ys, by simp, hb⟩

theorem Reached.append_left {ys : List Slot} {b₀ b₁ b : β} (h : Reached f ys b₁ p b)
    (hx : foldSlots f xs b₀ = some (.next b₁)) :
    Reached f (xs ++ ys) b₀ p b := by
  obtain ⟨before, after, rfl, hb⟩ := h
  exact ⟨xs ++ before, after, by simp, by rw [foldSlots_append, hx]; exact hb⟩

end Fold

variable (g : Geometry)

def clusterSlots (c : ℕ) : List Slot :=
  (range g.sectorsPerCluster).flatMap fun s => sectorSlots (g.sectorLba c s)

/-- The clusters the walk from `cluster` reads, and the cluster value it leaves the loop with;
`none` when the FAT refuses the next one. -/
def walk (d : Disk) : (remaining cluster : ℕ) → List ℕ × Option ℕ
  | 0, cluster => ([], some cluster)
  | remaining + 1, cluster =>
      if g.clusterIsData cluster then
        match nextCluster g d cluster with
        | none => ([cluster], none)
        | some next => (cluster :: (walk d remaining next).1, (walk d remaining next).2)
      else ([], some cluster)

def dirClusters (d : Disk) (start : ℕ) : List ℕ := (walk g d g.clusterCount start).1

def dirSlots (d : Disk) (start : ℕ) : List Slot := (dirClusters g d start).flatMap (clusterSlots g)

/-- The value of a scan of the directory at `start`, given what the entry loop decides. -/
def scanImage {α β : Type} (d : Disk) (f : Slot → β → Option (Visit β α)) (start : ℕ) (b : β) :
    Option (Visit (ℕ × β) α) :=
  match foldSlots f (dirSlots g d start) b with
  | none => none
  | some (.done a) => some (.done a)
  | some (.next b') => (walk g d g.clusterCount start).2.map fun c => .next (c, b')

variable {c : ℕ}

theorem walk_clusters_data (d : Disk) {n x : ℕ} (hx : x ∈ (walk g d n c).1) :
    g.clusterIsData x := by
  induction n generalizing c with
  | zero => simp [walk] at hx
  | succ n ih =>
    simp only [walk] at hx
    split at hx
    next hc =>
      cases hn : nextCluster g d c with
      | none =>
        obtain rfl : x = c := by simpa [hn] using hx
        exact hc
      | some next =>
        rcases mem_cons.mp (by simpa [hn] using hx) with rfl | hx
        · exact hc
        · exact ih hx
    next => simp at hx

theorem mem_sectorSlots {lba : ℕ} : p ∈ sectorSlots lba ↔ p.1 = lba ∧ p.2 ∈ slotOffsets := by
  obtain ⟨l, o⟩ := p
  simp only [sectorSlots, mem_map, Prod.mk.injEq]
  constructor
  · rintro ⟨_, ho, rfl, rfl⟩
    exact ⟨rfl, ho⟩
  · rintro ⟨rfl, ho⟩
    exact ⟨o, ho, rfl, rfl⟩

theorem mem_clusterSlots : p ∈ clusterSlots g c ↔
      ∃ s < g.sectorsPerCluster, p.1 = g.sectorLba c s ∧ p.2 ∈ slotOffsets := by
  simp [clusterSlots, mem_sectorSlots]

theorem mem_slotOffsets {o : ℕ} : o ∈ slotOffsets ↔ ∃ i < 16, o = 32 * i := by
  simp only [slotOffsets, mem_map, mem_range]
  exact ⟨fun ⟨i, hi, h⟩ => ⟨i, hi, h.symm⟩, fun ⟨i, hi, h⟩ => ⟨i, hi, h.symm⟩⟩

theorem slotOffset_le {o : ℕ} (h : o ∈ slotOffsets) : o + 32 ≤ sectorSize := by
  obtain ⟨i, hi, rfl⟩ := mem_slotOffsets.mp h
  unfold sectorSize
  omega

theorem mem_dirSlots {d : Disk} {start : ℕ} (h : p ∈ dirSlots g d start) :
    ∃ c s, g.clusterIsData c ∧ s < g.sectorsPerCluster ∧ p.1 = g.sectorLba c s ∧
      p.2 ∈ slotOffsets := by
  obtain ⟨c, hc, hp⟩ := mem_flatMap.mp h
  obtain ⟨s, hs, h1, h2⟩ := (mem_clusterSlots g).mp hp
  exact ⟨c, s, walk_clusters_data g d hc, hs, h1, h2⟩

section Scan
variable {α β : Type} {dev : Device}

/-- On the image `d`, with the slot's entry in the buffer, the visit only reads and decides `f`;
when the entry loop goes on, the buffer still shows the entries that follow in the sector. -/
def VisitsAs (visit : ℕ → ℕ → β → FsM (Visit β α)) (d : Disk) (f : Slot → β → Option (Visit β α))
    (p : Slot) (b : β) : Prop :=
  ∀ v : Volume, v.disk = d → dirEntryAt v.sector p.2 = entryAt d p →
    (visit p.1 p.2 b v).1 = f p b ∧ v.Quiet (visit p.1 p.2 b v).2 ∧
    ∀ b', f p b = some (.next b') → ∀ o ∈ slotOffsets, p.2 < o →
      dirEntryAt v.sector o = entryAt d (p.1, o) →
      dirEntryAt (visit p.1 p.2 b v).2.sector o = entryAt d (p.1, o)

variable {visit : ℕ → ℕ → β → FsM (Visit β α)} {d : Disk} {f : Slot → β → Option (Visit β α)}

theorem scanEntries_spec {lba : ℕ} {offsets : List ℕ} (hsorted : offsets.Pairwise (· < ·))
    (hsub : ∀ o ∈ offsets, o ∈ slotOffsets) {b : β}
    (h : ∀ p b', Reached f (offsets.map (Prod.mk lba)) b p b' → VisitsAs visit d f p b')
    (v : Volume) (hd : v.disk = d) (hs : ∀ o ∈ offsets, dirEntryAt v.sector o = entryAt d (lba, o)) :
    (scanEntries visit lba offsets b v).1 = foldSlots f (offsets.map (Prod.mk lba)) b ∧
      v.Quiet (scanEntries visit lba offsets b v).2 := by
  induction offsets generalizing b v with
  | nil => exact ⟨rfl, Volume.Quiet.refl v⟩
  | cons o os ih =>
    obtain ⟨h1, h2, h3⟩ := h (lba, o) b ⟨[], _, rfl, rfl⟩ v hd (hs o (by simp))
    simp only [map_cons, foldSlots, scanEntries]
    rcases hv : visit lba o b v with ⟨_ | ⟨b' | a⟩, w⟩ <;> rw [hv] at h1 h2 h3
    · rw [bind_of_none hv, ← h1]
      exact ⟨rfl, h2⟩
    · rw [bind_of_some hv, ← h1]
      have hnext : foldSlots f [(lba, o)] b = some (.next b') := by simp [foldSlots, ← h1]
      obtain ⟨h4, h5⟩ := ih (pairwise_cons.mp hsorted).2 (fun x hx => hsub x (by simp [hx]))
        (fun p b'' hp => h p b'' (hp.append_left hnext)) w (h2.1.trans hd) fun x hx =>
          h3 b' h1.symm x (hsub x (by simp [hx])) ((pairwise_cons.mp hsorted).1 x hx)
            (hs x (by simp [hx]))
      exact ⟨h4, h2.trans h5⟩
    · rw [bind_of_some hv, ← h1]
      exact ⟨rfl, h2⟩

theorem slotOffsets_sorted : slotOffsets.Pairwise (· < ·) := by decide

theorem scanSectors_spec (hr : dev.ReadsOk) {sectors : List ℕ}
    (hlt : ∀ s ∈ sectors, g.sectorLba c s < g.totalSectors) {b : β}
    (h : ∀ p b', Reached f (sectors.flatMap fun s => sectorSlots (g.sectorLba c s)) b p b' → VisitsAs visit d f p b')
    (v : Volume) (hd : v.disk = d) :
    (scanSectors g dev visit c sectors b v).1 =
        foldSlots f (sectors.flatMap fun s => sectorSlots (g.sectorLba c s)) b ∧
      v.Quiet (scanSectors g dev visit c sectors b v).2 := by
  induction sectors generalizing b v with
  | nil => exact ⟨rfl, Volume.Quiet.refl v⟩
  | cons s ss ih =>
    have hread := readSector_ok g hr (hlt s (by simp)) v
    obtain ⟨h1, h2⟩ := scanEntries_spec slotOffsets_sorted (fun o ho => ho)
      (fun p b' hp => h p b' (hp.append_right _)) (v.load (g.sectorLba c s)) hd
      fun o _ => by rw [← hd]; rfl
    simp only [flatMap_cons, foldSlots_append, scanSectors]
    rw [bind_of_some hread]
    change (_ = foldSlots f (sectorSlots _) b) at h1
    have hq := (v.quiet_load (g.sectorLba c s)).trans h2
    rcases hv : scanEntries visit (g.sectorLba c s) slotOffsets b (v.load (g.sectorLba c s)) with
      ⟨_ | ⟨b' | a⟩, w⟩ <;> rw [hv] at h1 hq
    · rw [bind_of_none hv, ← h1]
      exact ⟨rfl, hq⟩
    · rw [bind_of_some hv, ← h1]
      obtain ⟨h4, h5⟩ := ih (fun x hx => hlt x (by simp [hx]))
        (fun p b'' hp => h p b'' (hp.append_left h1.symm)) w (hq.1.trans hd)
      exact ⟨h4, hq.trans h5⟩
    · rw [bind_of_some hv, ← h1]
      exact ⟨rfl, hq⟩

theorem scanClusters_spec (hr : dev.ReadsOk) {n : ℕ} {b : β}
    (h : ∀ p b', Reached f ((walk g d n c).1.flatMap (clusterSlots g)) b p b' → VisitsAs visit d f p b')
    (v : Volume) (hd : v.disk = d) :
    (scanClusters g dev visit n c b v).1 =
        (match foldSlots f ((walk g d n c).1.flatMap (clusterSlots g)) b with
        | none => none
        | some (.done a) => some (.done a)
        | some (.next b') => (walk g d n c).2.map fun c' => .next (c', b')) ∧
      v.Quiet (scanClusters g dev visit n c b v).2 := by
  induction n generalizing c b v with
  | zero => exact ⟨rfl, Volume.Quiet.refl v⟩
  | succ n ih =>
    simp only [scanClusters]
    by_cases hc : g.clusterIsData c
    · have hw1 : (walk g d (n + 1) c).1 =
          c :: ((nextCluster g d c).elim [] fun x => (walk g d n x).1) := by
        simp only [walk, if_pos hc]
        cases nextCluster g d c <;> rfl
      have hw2 : (walk g d (n + 1) c).2 = (nextCluster g d c).bind fun x => (walk g d n x).2 := by
        simp only [walk, if_pos hc]
        cases nextCluster g d c <;> rfl
      rw [if_pos hc]
      rw [hw1] at h ⊢
      rw [hw2]
      simp only [flatMap_cons, foldSlots_append] at h ⊢
      obtain ⟨h1, h2⟩ := scanSectors_spec g hr
        (fun s (hs : s ∈ range g.sectorsPerCluster) =>
          g.sectorLba_lt hc (mem_range.mp hs))
        (fun p b' hp => h p b' (hp.append_right _)) v hd
      change (_ = foldSlots f (clusterSlots g c) b) at h1
      rcases hv : scanSectors g dev visit c (range g.sectorsPerCluster) b v with
        ⟨_ | ⟨b' | a⟩, w⟩ <;> rw [hv] at h1 h2
      · rw [bind_of_none hv, ← h1]
        exact ⟨rfl, h2⟩
      · rw [bind_of_some hv, ← h1]
        have hwd : w.disk = d := h2.1.trans hd
        rcases hn : readFatEntry g dev c true w with ⟨_ | x, u⟩ <;>
          obtain ⟨h3, h4⟩ := (nextCluster_reads g hr c).of_eq hn <;> rw [hwd] at h3
        · dsimp only
          rw [bind_of_none hn, ← h3]
          exact ⟨rfl, h2.trans h4⟩
        · dsimp only
          rw [bind_of_some hn, ← h3]
          rw [← h3] at h
          obtain ⟨h5, h6⟩ := ih (fun p b'' hp => h p b'' (hp.append_left h1.symm)) u
            (h4.1.trans hwd)
          exact ⟨h5, (h2.trans h4).trans h6⟩
      · rw [bind_of_some hv, ← h1]
        exact ⟨rfl, h2⟩
    · simp only [walk, if_neg hc]
      exact ⟨rfl, Volume.Quiet.refl v⟩

theorem scanDirectory_spec (hr : dev.ReadsOk) {start : ℕ} {b : β} (v : Volume)
    (h : ∀ p b', Reached f (dirSlots g v.disk start) b p b' → VisitsAs visit v.disk f p b') :
    (scanDirectory g dev visit start b v).1 = scanImage g v.disk f start b ∧
      v.Quiet (scanDirectory g dev visit start b v).2 :=
  scanClusters_spec g hr h v rfl

/-- A visit that never loses the buffer makes the whole scan a function of the image. -/
theorem scanDirectory_reads (hr : dev.ReadsOk) {F : Disk → Slot → β → Option (Visit β α)}
    (h : ∀ d p b, VisitsAs visit d (F d) p b) (start : ℕ) (b : β) :
    Reads (scanDirectory g dev visit start b) fun d => scanImage g d (F d) start b :=
  fun v => scanDirectory_spec g hr v fun p b' _ => h v.disk p b'

end Scan
end Fat32
