import ArmoniOS.Lib.LinkedChain
import ArmoniOS.Fat32.Files

/-! What a disk image says, independently of buffers and callbacks, and the functions that only
read: with working read callbacks they return what the image says and change nothing on it. -/
namespace Fat32
open Exec ByteBlock LinkedChain

abbrev Disk : Type := ℕ → Sector

variable (g : Geometry)

/-- The 28-bit entry of `cluster` in the first FAT copy, the copy all reads use. -/
def fatValue (d : Disk) (cluster : ℕ) : ℕ :=
  (d (g.fatEntryLba 0 cluster)).le32 (fatEntryOffset cluster) &&& clusterMask

theorem and_clusterMask (x : ℕ) : x &&& clusterMask = x % 2 ^ 28 :=
  Nat.and_two_pow_sub_one_eq_mod x 28

/-- The value check of `read_fat_entry`. -/
def decodeFat (chain : Bool) (value : ℕ) : Option ℕ :=
  if value = clusterBad ∨ (chain ∧ ¬ clusterIsEoc value ∧ ¬ g.clusterIsData value) then none
  else some value

/-- The successor of `cluster`, if the entry is acceptable inside a chain. -/
def nextCluster (d : Disk) (cluster : ℕ) : Option ℕ :=
  if g.clusterIsData cluster then decodeFat g true (fatValue g d cluster) else none

namespace Device

def ReadsOk (dev : Device) : Prop := ∀ n, dev.readOk n = true

def reliable : Device := ⟨fun _ => true, true, fun _ => true⟩

theorem reliable_readsOk : reliable.ReadsOk := fun _ => rfl

end Device

namespace Volume

/-- The state after a successful `read_sector`. -/
def load (v : Volume) (lba : ℕ) : Volume :=
  { v with sector := v.disk lba, trace := .read lba :: v.trace }

/-- The state after a successful `write_sector`. -/
def store (v : Volume) (kind : WriteKind) (lba : ℕ) (buffer : Sector) : Volume :=
  { v with disk := Function.update v.disk lba buffer, trace := .write kind lba :: v.trace }

/-- The state after a `write_sector` whose callback fails. -/
def miss (v : Volume) (kind : WriteKind) (lba : ℕ) : Volume :=
  { v with trace := .write kind lba :: v.trace }

section Fields
variable (v : Volume) (kind : WriteKind) (lba : ℕ) (buffer : Sector)

@[simp] theorem load_disk : (v.load lba).disk = v.disk := rfl
@[simp] theorem load_sector : (v.load lba).sector = v.disk lba := rfl
@[simp] theorem load_writes : (v.load lba).writes = v.writes := by
  simp [writes, load, Access.isWrite]
@[simp] theorem store_disk : (v.store kind lba buffer).disk = Function.update v.disk lba buffer := rfl
@[simp] theorem store_writes : (v.store kind lba buffer).writes = v.writes + 1 := by
  simp [writes, store, List.countP_cons, Access.isWrite]
@[simp] theorem store_sector : (v.store kind lba buffer).sector = v.sector := rfl
@[simp] theorem miss_disk : (v.miss kind lba).disk = v.disk := rfl
@[simp] theorem miss_writes : (v.miss kind lba).writes = v.writes + 1 := by
  simp [writes, miss, List.countP_cons, Access.isWrite]

end Fields

def Quiet (v w : Volume) : Prop := w.disk = v.disk ∧ w.writes = v.writes

theorem Quiet.refl (v : Volume) : Quiet v v := ⟨rfl, rfl⟩

theorem Quiet.trans {u v w : Volume} (h : Quiet u v) (h' : Quiet v w) : Quiet u w :=
  ⟨h'.1.trans h.1, h'.2.trans h.2⟩

theorem quiet_load (v : Volume) (lba : ℕ) : Quiet v (v.load lba) := ⟨rfl, v.load_writes lba⟩

end Volume

variable {dev : Device}

theorem readSector_ok (hr : dev.ReadsOk) {lba : ℕ} (h : lba < g.totalSectors) (v : Volume) :
    readSector g dev lba v = (some (), v.load lba) := by
  simp only [readSector, hr v.reads, if_neg (not_le.mpr h), if_true]
  rfl

@[simp] theorem currentSector_apply (v : Volume) : currentSector v = (some v.sector, v) := rfl

@[simp] theorem editSector_apply (f : Sector → Sector) (v : Volume) :
    editSector f v = (some (), { v with sector := f v.sector }) := rfl

theorem fatSector_eq (c : ℕ) :
    u32 (g.fatStartLba + fatOffset c / sectorSize) = g.fatEntryLba 0 c := by
  have h := g.dataStartLba_eq
  have h1 := g.dataStartLba_lt
  have h2 := g.totalSectors_lt
  have h3 : g.fatStartLba < 2 ^ 32 := by
    rw [g.fatStartLba_eq]
    omega
  have h4 : u32 (0 * g.sectorsPerFat) = 0 := by simp [u32]
  rw [Geometry.fatEntryLba, h4, Nat.add_zero, u32_of_lt h3]

theorem readFatEntry_apply (hr : dev.ReadsOk) (c : ℕ) (chain : Bool) (v : Volume) :
    readFatEntry g dev c chain v =
      if g.clusterIsData c then
        (decodeFat g chain (fatValue g v.disk c), v.load (g.fatEntryLba 0 c))
      else (none, v) := by
  unfold readFatEntry
  split
  next hc =>
    have hlt := (g.fatEntryLba_lt_data g.fatCount_pos hc).trans g.dataStartLba_lt
    rw [fatSector_eq, bind_of_some (readSector_ok g hr hlt v), bind_of_some (currentSector_apply _)]
    exact run_ite_fail
  next => rfl

/-- `m` only reads, and its result is `f` of the image. -/
def Reads {α : Type} (m : FsM α) (f : Disk → Option α) : Prop :=
  ∀ v, (m v).1 = f v.disk ∧ v.Quiet (m v).2

section Reads
variable {α β : Type} {m : FsM α} {f : Disk → Option α}

theorem Reads.run (h : Reads m f) (v : Volume) : ∃ w, m v = (f v.disk, w) ∧ v.Quiet w :=
  ⟨_, Prod.ext (h v).1 rfl, (h v).2⟩

theorem Reads.of_eq {v w : Volume} {r : Option α} (h : Reads m f) (hm : m v = (r, w)) :
    r = f v.disk ∧ v.Quiet w := by
  have hv := h v
  rwa [hm] at hv

protected theorem Reads.pure (a : α) : Reads (pure a) fun _ => some a := fun v => ⟨rfl, Volume.Quiet.refl v⟩

protected theorem Reads.fail : Reads (fail : FsM α) fun _ => none := fun v => ⟨rfl, Volume.Quiet.refl v⟩

protected theorem Reads.bind {k : α → FsM β} {h : α → Disk → Option β} (hm : Reads m f)
    (hk : ∀ a, Reads (k a) (h a)) : Reads (m >>= k) fun d => (f d).bind fun a => h a d := by
  intro v
  rcases hv : m v with ⟨_ | a, w⟩ <;> obtain ⟨h1, h2⟩ := hm.of_eq hv
  · rw [bind_of_none hv]
    exact ⟨by simp [← h1], h2⟩
  · obtain ⟨h3, h4⟩ := hk a w
    have hd := h2.1
    rw [bind_of_some hv]
    exact ⟨by simp [← h1, h3, hd], h2.trans h4⟩

protected theorem Reads.ite {c : Prop} [Decidable c] {m' : FsM α} {f' : Disk → Option α} (h : Reads m f)
    (h' : Reads m' f') : Reads (if c then m else m') fun d => if c then f d else f' d := by
  split
  · exact h
  · exact h'

protected theorem Reads.attempt (hm : Reads m f) : Reads (attempt m) fun d => some (f d) := by
  intro v
  obtain ⟨h1, h2⟩ := hm v
  exact ⟨by rw [attempt_apply, h1], h2⟩

theorem Reads.congr {f' : Disk → Option α} (hm : Reads m f) (h : ∀ d, f d = f' d) : Reads m f' :=
  fun v => ⟨(hm v).1.trans (h _), (hm v).2⟩

end Reads

section FatReads
variable (hr : dev.ReadsOk)
include hr

theorem readFatEntry_reads (c : ℕ) (chain : Bool) : Reads (readFatEntry g dev c chain)
    fun d => if g.clusterIsData c then decodeFat g chain (fatValue g d c) else none := by
  intro v
  rw [readFatEntry_apply g hr]
  split
  · exact ⟨rfl, v.quiet_load _⟩
  · exact ⟨rfl, Volume.Quiet.refl v⟩

theorem nextCluster_reads (c : ℕ) :
    Reads (readFatEntry g dev c true) fun d => nextCluster g d c := readFatEntry_reads g hr c true

end FatReads

/-- The search of `find_free_cluster` on an image: an entry marked bad stops it. -/
def freeClusterFrom (d : Disk) : (remaining cluster : ℕ) → Option ℕ
  | 0, _ => none
  | remaining + 1, cluster =>
      if ¬ g.clusterIsData cluster ∨ fatValue g d cluster = clusterBad then none
      else if fatValue g d cluster = 0 then some cluster
      else freeClusterFrom d remaining (cluster + 1)

def freeCluster (d : Disk) : Option ℕ := freeClusterFrom g d g.clusterCount 2

def capacityFrom (d : Disk) : (remaining total cluster : ℕ) → Option ℕ
  | 0, _, _ => none
  | remaining + 1, total, cluster =>
      if uint32Max < total + g.clusterSize then none
      else
        match nextCluster g d cluster with
        | none => none
        | some next =>
            if clusterIsEoc next then some (total + g.clusterSize)
            else capacityFrom d remaining (total + g.clusterSize) next

def capacity (d : Disk) (firstCluster : ℕ) : Option ℕ :=
  if g.clusterIsData firstCluster then capacityFrom g d g.clusterCount 0 firstCluster else none

section FatLoops
variable (hr : dev.ReadsOk)
include hr

theorem findFreeFrom_reads (remaining c : ℕ) :
    Reads (findFreeFrom g dev remaining c) fun d => freeClusterFrom g d remaining c := by
  induction remaining generalizing c with
  | zero => exact .fail
  | succ n ih =>
    refine (Reads.bind (readFatEntry_reads g hr c false) fun value =>
      Reads.ite (Reads.pure c) (ih (c + 1))).congr fun d => ?_
    by_cases hc : g.clusterIsData c
    · by_cases hb : fatValue g d c = clusterBad <;> simp [freeClusterFrom, decodeFat, hc, hb]
    · simp [freeClusterFrom, hc]

theorem findFreeCluster_reads :
    Reads (findFreeCluster g dev) fun d => freeCluster g d := findFreeFrom_reads g hr _ _

theorem chainCapacityFrom_reads (remaining total c : ℕ) :
    Reads (chainCapacityFrom g dev remaining total c)
      fun d => capacityFrom g d remaining total c := by
  induction remaining generalizing total c with
  | zero => exact .fail
  | succ n ih =>
    refine (Reads.ite Reads.fail (Reads.bind (nextCluster_reads g hr c) fun next =>
      Reads.ite (Reads.pure (total + g.clusterSize)) (ih _ next))).congr fun d => ?_
    simp only [capacityFrom]
    cases nextCluster g d c <;> rfl

theorem fileChainCapacity_reads (c : ℕ) :
    Reads (fileChainCapacity g dev c) fun d => capacity g d c :=
  .ite (chainCapacityFrom_reads g hr _ _ c) .fail

end FatLoops

theorem freeClusterFrom_some {d : Disk} {remaining c x : ℕ}
    (h : freeClusterFrom g d remaining c = some x) : g.clusterIsData x ∧ fatValue g d x = 0 := by
  induction remaining generalizing c with
  | zero => simp [freeClusterFrom] at h
  | succ n ih =>
    simp only [freeClusterFrom] at h
    split_ifs at h with h1 h2
    · obtain rfl : c = x := Option.some.inj h
      exact ⟨by tauto, h2⟩
    · exact ih h

theorem freeCluster_some {d : Disk} {x : ℕ} (h : freeCluster g d = some x) :
    g.clusterIsData x ∧ fatValue g d x = 0 := freeClusterFrom_some g h

end Fat32
