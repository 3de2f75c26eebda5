import ArmoniOS.Fat32.RootOps

/-! Free clusters and root entries under the root operations, on volumes whose bytes may be anything
where no chain or entry needs them. -/
namespace Fat32
open Exec ByteBlock SmallVolume

variable {g : Geometry} {dev : Device} {d : Disk}

/-! ### The search for a free cluster -/

/-- What a search for the lowest free cluster should answer. -/
def LowestFree (g : Geometry) (d : Disk) : Option ℕ → Prop
  | some c => g.clusterIsData c ∧ fatValue g d c = 0 ∧
      ∀ x < c, g.clusterIsData x → fatValue g d x ≠ 0
  | none => ∀ x, g.clusterIsData x → fatValue g d x ≠ 0

/-- If any cluster is free, one is below every cluster marked bad. -/
def BadBehindFree (g : Geometry) (d : Disk) : Prop :=
  ∀ b x, g.clusterIsData b → fatValue g d b = clusterBad → g.clusterIsData x → fatValue g d x = 0 →
    ∃ y < b, g.clusterIsData y ∧ fatValue g d y = 0

theorem freeClusterFrom_passed {n c x y : ℕ} (h : freeClusterFrom g d n c = some x) (hc : c ≤ y)
    (hy : y < x) : fatValue g d y ≠ 0 ∧ fatValue g d y ≠ clusterBad := by
  induction n generalizing c with
  | zero => cases h
  | succ n ih =>
    simp only [freeClusterFrom] at h
    split_ifs at h with hstop hzero
    · cases h
      omega
    · rcases hc.eq_or_lt with rfl | hlt
      · exact ⟨hzero, fun hbad => hstop (.inr hbad)⟩
      · exact ih h hlt

theorem freeClusterFrom_stopped {n c x : ℕ} (h : freeClusterFrom g d n c = none)
    (hn : c + n = g.clusterCount + 2) (hx : g.clusterIsData x) (hc : c ≤ x) (hc2 : 2 ≤ c)
    (h0 : fatValue g d x = 0) :
    ∃ b, g.clusterIsData b ∧ fatValue g d b = clusterBad ∧ ∀ y, c ≤ y → y < b → fatValue g d y ≠ 0 := by
  induction n generalizing c with
  | zero =>
    obtain ⟨-, hlt⟩ := hx
    omega
  | succ n ih =>
    simp only [freeClusterFrom] at h
    split_ifs at h with hstop hzero
    · have hdata : g.clusterIsData c := ⟨hc2, by omega⟩
      exact ⟨c, hdata, hstop.resolve_left (not_not.mpr hdata), fun y _ _ => by omega⟩
    · have hlt : c < x := hc.lt_of_ne (by rintro rfl; exact hzero h0)
      obtain ⟨b, hb, hbad, hbelow⟩ := ih h (by omega) hlt (by omega)
      refine ⟨b, hb, hbad, fun y hy hyb => ?_⟩
      rcases hy.eq_or_lt with rfl | hy
      · exact hzero
      · exact hbelow y hy hyb

theorem lowestFree_iff : LowestFree g d (freeCluster g d) ↔ BadBehindFree g d := by
  cases hfree : freeCluster g d with
  | some c =>
    obtain ⟨hc, h0⟩ := freeCluster_some g hfree
    refine iff_of_true ⟨hc, h0, fun x hx hdata => ?_⟩ fun b x hb hbad _ _ => ⟨c, ?_, hc, h0⟩
    · exact (freeClusterFrom_passed hfree hdata.1 hx).1
    · by_contra hle
      rcases (not_lt.mp hle).eq_or_lt with rfl | hlt
      · rw [hbad] at h0
        cases h0
      · exact (freeClusterFrom_passed hfree hb.1 hlt).2 hbad
  | none =>
    constructor
    · intro hnone b x _ _ hx h0
      exact absurd h0 (hnone x hx)
    · intro hbehind x hx h0
      obtain ⟨b, hb, hbad, hbelow⟩ := freeClusterFrom_stopped hfree (Nat.add_comm _ _) hx hx.1 le_rfl h0
      obtain ⟨y, hyb, hy, hy0⟩ := hbehind b x hb hbad hx h0
      exact hbelow y hy.1 hyb hy0

/-- The search answers right, and a cluster is allocated as long as one is free, exactly if the free
ones do not all lie behind a cluster marked bad. -/
theorem free_cluster_found_iff (hr : dev.ReadsOk) (hw : dev.writable = true) (hok : dev.WritesOk)
    (v : Volume) :
    (LowestFree g v.disk (findFreeCluster g dev v).1 ∧
      ∀ prev x, prev = 0 ∨ g.clusterIsData prev ∧ clusterIsEoc (fatValue g v.disk prev) →
        g.clusterIsData x → fatValue g v.disk x = 0 →
        ∃ y, (allocateCluster g dev prev v).1 = some y) ↔ BadBehindFree g v.disk := by
  obtain ⟨hfind, -⟩ := findFreeCluster_reads g hr v
  rw [hfind, lowestFree_iff]
  refine ⟨And.left, fun h => ⟨h, fun prev x hprev hx h0 => ?_⟩⟩
  have hlowest := lowestFree_iff.mpr h
  cases hfree : freeCluster g v.disk with
  | none =>
    rw [hfree] at hlowest
    exact absurd h0 (hlowest x hx)
  | some y =>
    refine ⟨y, ?_⟩
    rcases hprev with rfl | ⟨hprev, heoc⟩
    · obtain ⟨u, w, j, -, hp, hrun⟩ := allocateCluster_head hr hw hfree
      rw [hrun, if_pos (hp.all hok)]
    · obtain ⟨u, w, j, -, hp, -, hthen⟩ := allocateCluster_append hr hw hprev heoc hfree
      obtain ⟨w', j', hp', hrun⟩ := hthen (hp.all hok)
      rw [hrun, if_pos (hp'.all hok)]

theorem free_cluster_found_twoFiles :
    let g := geometry
    let v := twoFiles
    LowestFree g v.disk (findFreeCluster g .reliable v).1 := by
  have hgood : ∀ b < 16, fatValue geometry twoFiles.disk b ≠ clusterBad := by
    decide +kernel
  refine ((free_cluster_found_iff (fun _ => rfl) rfl (fun _ => rfl) twoFiles).mpr ?_).1
  intro b x hb hbad
  exact absurd hbad (hgood b (by have := hb.2; simp only [show geometry.clusterCount = 14 from rfl] at this; omega))

/-- Cluster 3 is marked bad, all others behind the root directory are free. -/
def badCluster : Volume :=
  fresh (disk 1 16 (fatSector [clusterMask, clusterBad]) [])

/-- A file cannot be created although twelve clusters are free. -/
theorem bad_cluster_hides_free_ones :
    let v := badCluster
    geometry.clusterIsData 4 ∧ fatValue geometry v.disk 4 = 0 ∧
      (findFreeCluster geometry .reliable v).1 = none ∧
      (fat32Create geometry .reliable (bytes "A") v).1 = none := by
  decide +kernel

/-! ### What opening accepts, and failing calls -/

theorem Reads.triple {α : Type} {m : FsM α} {f : Disk → Option α} (h : Reads m f) (v : Volume) :
    Triple v.Quiet m (fun a w => v.Quiet w ∧ f v.disk = some a) v.Quiet := by
  intro u hu
  obtain ⟨hres, hq⟩ := h u
  have hud := hu.1
  constructor
  · intro a w hw
    rw [hw] at hres hq
    exact ⟨hu.trans hq, by rw [← hud]; exact hres.symm⟩
  · intro w hw
    rw [hw] at hq
    exact hu.trans hq

section Atomic
variable {v : Volume} {name newName : List UInt8} (hr : dev.ReadsOk) (hok : dev.WritesOk)

theorem writeSectors_succeed (hok : dev.WritesOk) (hw : dev.writable = true) (kind : WriteKind)
    (b : Sector) (lba : ℕ → ℕ) {l : List ℕ} (hl : ∀ s ∈ l, lba s < g.totalSectors) (v : Volume) :
    ∃ w, forEach (fun s => writeSector g dev kind (lba s) b) l v = (some (), w) := by
  induction l generalizing v with
  | nil => exact ⟨v, rfl⟩
  | cons s l ih =>
    rw [forEach_cons, bind_of_some (by rw [writeSector_apply hw (hl s (by simp)), if_pos (hok _)])]
    exact ih (fun x hx => hl x (by simp [hx])) _

include hr hok

theorem updateDirSector_succeeds (hw : dev.writable = true) {lba : ℕ} (hl : lba < g.totalSectors)
    (edit : Sector → Sector) (v : Volume) :
    ∃ w, updateDirSector g dev lba edit v = (some (), w) := by
  obtain ⟨r, w, hrun, -, ⟨-, hfail, -⟩ | ⟨rfl, -⟩⟩ := updateDirSector_apply hr hw hl edit v
  · rw [hok] at hfail
    cases hfail
  · exact ⟨w, hrun⟩

theorem allocateCluster_atomic (hw : dev.writable = true) :
    Triple v.Quiet (allocateCluster g dev 0) (fun y _ => g.clusterIsData y) v.Quiet := by
  intro u hu
  cases hfree : freeCluster g u.disk with
  | none =>
    obtain ⟨w, hq, hrun⟩ := allocateCluster_full hr hfree 0
    simpa [hrun] using hu.trans hq
  | some y =>
    obtain ⟨t, w, j, -, hp, hrun⟩ := allocateCluster_head hr hw hfree
    simpa [hrun, hp.all hok] using (freeCluster_some g hfree).1

theorem fat32Create_atomic : Triple v.Quiet (fat32Create g dev name) (fun _ _ => True) v.Quiet := by
  apply Triple.ite fun _ => Triple.fail fun _ h => h
  intro hwritable
  have hw : dev.writable = true := by simpa using hwritable
  cases makeShortName name with
  | none => exact .fail fun _ h => h
  | some short =>
    apply Triple.bind ((Reads.attempt (fat32OpenRoot_reads g hr name)).triple v)
    intro opened
    cases opened with
    | some f => exact .fail fun _ h => h.1
    | none =>
      apply Triple.bind (((findFreeDirEntry_reads g hr).triple v).mono (fun _ h => h.1)
        (fun _ _ h => h) fun _ h => h)
      intro p u hu
      refine Triple.bind (allocateCluster_atomic hr hok hw) (fun y t hy => ?_) u hu.1
      -- nothing fails behind the first write
      obtain ⟨w, hrun⟩ := updateDirSector_succeeds hr hok hw (slot_lba_lt (freeSlot_mem hu.2))
        (fun s => writeDirEntry s p.2 short attrArchive y 0) t
      obtain ⟨w', hrun'⟩ := writeSectors_succeed hok hw .data Block.zero
        (g.sectorLba y) (fun s hs => g.sectorLba_lt hy (List.mem_range.mp hs)) { w with writeSectorBuffer := Block.zero }
      rw [bind_of_some hrun, bind_of_some (modify_apply _), bind_of_some get_apply,
        bind_of_some hrun']
      simp

theorem fat32Delete_atomic : Triple v.Quiet (fat32Delete g dev name) (fun _ _ => True) v.Quiet := by
  unfold fat32Delete
  apply Triple.ite fun _ => Triple.fail fun _ h => h
  intro hguard
  have hw : dev.writable = true := by simpa using fun hf => hguard (.inl hf)
  apply Triple.bind ((fat32OpenRoot_reads g hr name).triple v)
  intro f u hu
  have hud : u.disk = v.disk := hu.1.1
  obtain ⟨wanted, -, p, hchoice, cs, hcs, -, -, rfl⟩ := openRootImage_eq_some.mp hu.2
  rw [← hud] at hcs
  obtain ⟨t, hrel, -, -⟩ := releaseChain_apply hr hw hcs fun _ _ => hok _
  obtain ⟨w, hrun⟩ := updateDirSector_succeeds hr hok hw (rootChoice_lba_lt hchoice)
    (fun s => s.put p.2 [deletedMark]) t
  rw [hud] at hrel
  simp [handleAt, bind_of_some hrel, hrun]

theorem fat32Rename_atomic :
    Triple v.Quiet (fat32Rename g dev name newName) (fun _ _ => True) v.Quiet := by
  apply Triple.ite fun _ => Triple.fail fun _ h => h
  intro hwritable
  have hw : dev.writable = true := by simpa using hwritable
  cases makeShortName newName with
  | none => exact .fail fun _ h => h
  | some short =>
    apply Triple.bind ((fat32OpenRoot_reads g hr name).triple v)
    intro f u hu
    obtain ⟨wanted, -, p, hchoice, cs, -, -, -, rfl⟩ := openRootImage_eq_some.mp hu.2
    refine Triple.bind ((Reads.attempt (fat32OpenRoot_reads g hr newName)).triple v) (fun found => ?_)
      u hu.1
    cases found with
    | some _ => exact .fail fun _ h => h.1
    | none =>
      intro t _
      obtain ⟨w, hrun⟩ := updateDirSector_succeeds hr hok hw (rootChoice_lba_lt hchoice)
        (fun s => s.put p.2 short) t
      simp [handleAt, hrun]

end Atomic

theorem root_calls_checked (hr : dev.ReadsOk) (hok : dev.WritesOk) (v : Volume) :
    (∀ name wanted p, makeShortName name = some wanted → rootChoice g v.disk wanted = some p →
      ((∃ f, (fat32OpenRoot g dev name v).1 = some f ∧ (f.dirLba, f.dirOffset) = p) ↔
        (entryAt v.disk p).size = 0 ∧ (entryAt v.disk p).firstCluster < 2 ∨
          ∃ cs, ChainFrom g v.disk (entryAt v.disk p).firstCluster cs ∧ cs.Nodup ∧
            cs.length * g.clusterSize ≤ uint32Max ∧
            (entryAt v.disk p).size ≤ cs.length * g.clusterSize)) ∧
    ∀ name w, fat32Create g dev name v = (none, w) ∨ fat32Delete g dev name v = (none, w) ∨
      (∃ newName, fat32Rename g dev name newName v = (none, w)) → v.Quiet w := by
  constructor
  · intro name wanted p hname hp
    rw [(fat32OpenRoot_reads g hr name v).1]
    constructor
    · rintro ⟨f, hf, -⟩
      obtain ⟨w, hw, q, hq, cs, hcs, hsize, hmax, -⟩ := openRootImage_eq_some.mp hf
      obtain rfl := Option.some.inj (hname.symm.trans hw)
      obtain rfl := Option.some.inj (hp.symm.trans hq)
      rcases hcs with ⟨hlt, rfl⟩ | hcs
      · exact .inl ⟨by simpa using hsize, hlt⟩
      · exact .inr ⟨cs, hcs, hcs.nodup, hmax, hsize⟩
    · have hopen (cs : List ℕ) (hcs : HasChain g v.disk (some p) cs)
          (hsize : (entryAt v.disk p).size ≤ cs.length * g.clusterSize)
          (hmax : cs.length * g.clusterSize ≤ uint32Max) :=
        openRootImage_eq_some.mpr ⟨wanted, hname, p, hp, cs, hcs, hsize, hmax, rfl⟩
      rintro (⟨h0, hlt⟩ | ⟨cs, hcs, -, hmax, hsize⟩)
      · exact ⟨_, hopen [] (.inl ⟨hlt, rfl⟩) (by simp [h0]) (by simp), rfl⟩
      · exact ⟨_, hopen cs (.inr hcs) hsize hmax, rfl⟩
  · rintro name w (h | h | ⟨newName, h⟩)
    · exact (fat32Create_atomic hr hok v (.refl v)).2 w h
    · exact (fat32Delete_atomic hr hok v (.refl v)).2 w h
    · exact (fat32Rename_atomic hr hok v (.refl v)).2 w h

/-- An existing name is not created again, and nothing is written. -/
theorem root_calls_checked_existing :
    let v := twoFiles
    let w := (fat32Create geometry .reliable (bytes "a.txt") v).2
    v.Quiet w :=
  (root_calls_checked Device.reliable_readsOk Device.reliable_writesOk twoFiles).2
    (bytes "a.txt") _ (.inl (Prod.ext (by decide +kernel) rfl))

end Fat32
