import ArmoniOS.Lib.Exec
import ArmoniOS.Fat32.Geometry

/-! The mounted volume: the sector callbacks, the two shared sector buffers and the FAT
operations of `kernel/fat32.c` that go through them. -/
namespace Fat32
open Exec

/-- What a sector write is for; the source has one caller of `write_sector` per kind and site. -/
inductive WriteKind where
  | fat | dir | data
  deriving DecidableEq

inductive Access where
  | read (lba : ℕ)
  | write (kind : WriteKind) (lba : ℕ)
  deriving DecidableEq

def Access.isRead : Access → Bool
  | .read _ => true
  | .write _ _ => false

def Access.isWrite : Access → Bool
  | .read _ => false
  | .write _ _ => true

/-- The caller-supplied callbacks: whether a write callback is installed, and which calls,
numbered from the start of the trace, report an error. -/
structure Device where
  readOk : ℕ → Bool
  writable : Bool
  writeOk : ℕ → Bool

/-- The mutable part of `fat32_fs_t` with the medium behind its callbacks. `trace` lists the
callback calls made so far, latest first. -/
structure Volume where
  disk : ℕ → Sector
  sector : Sector
  writeSectorBuffer : Sector
  trace : List Access

namespace Volume

def reads (v : Volume) : ℕ := v.trace.countP Access.isRead

def writes (v : Volume) : ℕ := v.trace.countP Access.isWrite

end Volume

abbrev FsM (α : Type) : Type := Run Volume α

variable (g : Geometry) (dev : Device)

def readSector (lba : ℕ) : FsM Unit := fun v =>
  if g.totalSectors ≤ lba then (none, v)
  else if dev.readOk v.reads then
    (some (), { v with sector := v.disk lba, trace := .read lba :: v.trace })
  else (none, { v with trace := .read lba :: v.trace })

def writeSector (kind : WriteKind) (lba : ℕ) (buffer : Sector) : FsM Unit := fun v =>
  if dev.writable = false ∨ g.totalSectors ≤ lba then (none, v)
  else if dev.writeOk v.writes then
    (some (), { v with
      disk := Function.update v.disk lba buffer
      trace := .write kind lba :: v.trace })
  else (none, { v with trace := .write kind lba :: v.trace })

/-- Assignments to `fs->sector` between two calls. -/
def editSector (f : Sector → Sector) : FsM Unit := modify fun v => { v with sector := f v.sector }

def currentSector : FsM Sector := do
  let v ← Exec.get
  pure v.sector

def readFatEntry (cluster : ℕ) (chain : Bool) : FsM ℕ :=
  if g.clusterIsData cluster then do
    readSector g dev (u32 (g.fatStartLba + fatOffset cluster / sectorSize))
    let sector ← currentSector
    let value := sector.le32 (fatEntryOffset cluster) &&& clusterMask
    if value = clusterBad ∨ (chain ∧ ¬ clusterIsEoc value ∧ ¬ g.clusterIsData value) then fail
    else pure value
  else fail

def writeFatCopy (cluster value copy : ℕ) : FsM Unit := do
  readSector g dev (g.fatEntryLba copy cluster)
  editSector fun s => s.putLe32 (fatEntryOffset cluster) (value &&& clusterMask)
  let sector ← currentSector
  writeSector g dev .fat (g.fatEntryLba copy cluster) sector

def writeFatEntry (cluster value : ℕ) : FsM Unit :=
  if dev.writable = false ∨ ¬ g.clusterIsData cluster ∨
      (value ≠ 0 ∧ ¬ clusterIsEoc value ∧ ¬ g.clusterIsData value) then fail
  else forEach (writeFatCopy g dev cluster value) (List.range g.fatCount)

/-- The search loop, with `remaining` clusters left from `cluster` on. -/
def findFreeFrom : (remaining cluster : ℕ) → FsM ℕ
  | 0, _ => fail
  | remaining + 1, cluster => do
      let value ← readFatEntry g dev cluster false
      if value = 0 then pure cluster else findFreeFrom remaining (cluster + 1)

/-- The failure status stands for the source's result `0`. -/
def findFreeCluster : FsM ℕ := findFreeFrom g dev g.clusterCount 2

def allocateCluster (prevCluster : ℕ) : FsM ℕ := do
  let newCluster ← findFreeCluster g dev
  if prevCluster ≠ 0 then do
    let prevValue ← readFatEntry g dev prevCluster true
    if clusterIsEoc prevValue then do
      writeFatEntry g dev prevCluster newCluster
      writeFatEntry g dev newCluster clusterEoc
      pure newCluster
    else fail
  else do
    writeFatEntry g dev newCluster clusterEoc
    pure newCluster

def freeChainFrom : (remaining cluster : ℕ) → FsM Unit
  | 0, _ => fail
  | remaining + 1, cluster =>
      if g.clusterIsData cluster then do
        let next ← readFatEntry g dev cluster true
        writeFatEntry g dev cluster 0
        if clusterIsEoc next then pure () else freeChainFrom remaining next
      else fail

def freeClusterChain (firstCluster : ℕ) : FsM Unit := freeChainFrom g dev g.clusterCount firstCluster

def chainCapacityFrom : (remaining total cluster : ℕ) → FsM ℕ
  | 0, _, _ => fail
  | remaining + 1, total, cluster =>
      if uint32Max < total + g.clusterSize then fail
      else do
        let next ← readFatEntry g dev cluster true
        if clusterIsEoc next then pure (total + g.clusterSize)
        else chainCapacityFrom remaining (total + g.clusterSize) next

def fileChainCapacity (firstCluster : ℕ) : FsM ℕ :=
  if g.clusterIsData firstCluster then chainCapacityFrom g dev g.clusterCount 0 firstCluster
  else fail

/-- `dir_read_fat_entry` is `read_fat_entry` with its chain check always on. -/
def dirReadFatEntry (cluster : ℕ) : FsM ℕ := readFatEntry g dev cluster true

/-- `dir_file_capacity` repeats `file_chain_capacity` statement for statement. -/
def dirFileCapacity (firstCluster : ℕ) : FsM ℕ := fileChainCapacity g dev firstCluster

end Fat32
