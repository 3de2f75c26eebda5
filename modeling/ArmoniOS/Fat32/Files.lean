import ArmoniOS.Fat32.Scan

/-! File contents and root mutation: `fat32_read`, `fat32_write`, `fat32_create`,
`fat32_delete` and `fat32_rename`. -/
namespace Fat32
open Exec ByteBlock

variable (g : Geometry) (dev : Device)

/-- `while (skip >= cluster_size)` of `fat32_read`: the subtraction runs `offset / cluster_size`
times and leaves the remainder. -/
def readSkip : (rounds cluster : ℕ) → FsM ℕ
  | 0, cluster => pure cluster
  | rounds + 1, cluster => do
      let next ← readFatEntry g dev cluster true
      if clusterIsEoc next ∨ next < 2 then fail else readSkip rounds next

/-- The sector loop of `fat32_read`; the result is what was copied and what is still wanted. -/
def readSectors (cluster : ℕ) : List ℕ → (clusterOffset remaining : ℕ) → List UInt8 →
    FsM (List UInt8 × ℕ)
  | [], _, remaining, copied => pure (copied, remaining)
  | sector :: sectors, clusterOffset, remaining, copied =>
      if remaining = 0 then pure (copied, remaining)
      else if sectorSize ≤ clusterOffset then
        readSectors cluster sectors (clusterOffset - sectorSize) remaining copied
      else do
        readSector g dev (g.sectorLba cluster sector)
        let buffer ← currentSector
        let count := min (sectorSize - clusterOffset) remaining
        readSectors cluster sectors 0 (remaining - count)
          (copied ++ buffer.slice clusterOffset count)

/-- The cluster loop of `fat32_read`; every round copies at least one byte. -/
def readClusters : (fuel cluster skip remaining : ℕ) → List UInt8 → FsM (List UInt8)
  | 0, _, _, _, copied => pure copied
  | fuel + 1, cluster, skip, remaining, copied => do
      let (copied', remaining') ←
        readSectors g dev cluster (List.range g.sectorsPerCluster) skip remaining copied
      if remaining' = 0 then pure copied'
      else do
        let next ← readFatEntry g dev cluster true
        if clusterIsEoc next ∨ next < 2 then fail
        else readClusters fuel next 0 remaining' copied'

def fat32Read (file : FileHandle) (offset capacity : ℕ) : FsM (List UInt8) :=
  if file.size < offset then fail
  else
    let remaining := min (file.size - offset) capacity
    if remaining = 0 then pure []
    else if file.firstCluster < 2 then fail
    else do
      let cluster ← readSkip g dev (offset / g.clusterSize) file.firstCluster
      readClusters g dev remaining cluster (offset % g.clusterSize) remaining []

/-- Read a directory sector, edit it in the shared buffer and write it back. -/
def updateDirSector (lba : ℕ) (edit : Sector → Sector) : FsM Unit := do
  readSector g dev lba
  editSector edit
  let sector ← currentSector
  writeSector g dev .dir lba sector

/-- Volume and file handle: `fat32_write` updates both, also when it fails. -/
abbrev FileM (α : Type) : Type := Run (Volume × FileHandle) α

def onVolume {α : Type} (m : FsM α) : FileM α := zoom Prod.fst (fun s v => (v, s.2)) m

def currentFile : FileM FileHandle := do
  let s ← Exec.get
  pure s.2

def editFile (f : FileHandle → FileHandle) : FileM Unit := modify fun s => (s.1, f s.2)

def advanceOrAllocateCluster (cluster : ℕ) : FileM ℕ :=
  if cluster < 2 then fail
  else do
    let next ← onVolume (readFatEntry g dev cluster true)
    let file ← currentFile
    if clusterIsEoc next then
      if uint32Max < g.clusterSize ∨ uint32Max - g.clusterSize < file.capacity then fail
      else do
        let newCluster ← onVolume (allocateCluster g dev cluster)
        editFile fun f => { f with capacity := f.capacity + g.clusterSize }
        pure newCluster
    else if next < 2 then fail
    else pure next

def writeSkip : (rounds cluster : ℕ) → FileM ℕ
  | 0, cluster => pure cluster
  | rounds + 1, cluster => do
      let next ← advanceOrAllocateCluster g dev cluster
      writeSkip rounds next

/-- Merge `data` into the sector just read and write it through `write_sector_buffer`. -/
def writeDataSector (lba sectorOffset : ℕ) (data : List UInt8) : FsM Unit := do
  readSector g dev lba
  modify fun v => { v with writeSectorBuffer := v.sector.put sectorOffset data }
  let v ← Exec.get
  writeSector g dev .data lba v.writeSectorBuffer

/-- The sector loop of `fat32_write`; the result is the data not yet written. -/
def writeSectors (cluster : ℕ) : List ℕ → (clusterOffset : ℕ) → List UInt8 → FsM (List UInt8)
  | [], _, data => pure data
  | sector :: sectors, clusterOffset, data =>
      if data = [] then pure data
      else if sectorSize ≤ clusterOffset then
        writeSectors cluster sectors (clusterOffset - sectorSize) data
      else do
        let count := min (sectorSize - clusterOffset) data.length
        writeDataSector g dev (g.sectorLba cluster sector) clusterOffset (data.take count)
        writeSectors cluster sectors 0 (data.drop count)

/-- The cluster loop of `fat32_write`; every round writes at least one byte. -/
def writeClusters : (fuel cluster skip : ℕ) → List UInt8 → FileM Unit
  | 0, _, _, _ => pure ()
  | fuel + 1, cluster, skip, data =>
      if cluster < 2 ∨ clusterIsEoc cluster then fail
      else do
        let rest ← onVolume
          (writeSectors g dev cluster (List.range g.sectorsPerCluster) skip data)
        if rest = [] then pure ()
        else do
          let next ← advanceOrAllocateCluster g dev cluster
          writeClusters fuel next 0 rest

/-- An empty file gets its first cluster, recorded in the handle before the entry. -/
def bootstrapFirstCluster : FileM Unit := do
  let file ← currentFile
  if file.firstCluster < 2 then do
    let head ← onVolume (allocateCluster g dev 0)
    editFile fun f => { f with firstCluster := head, capacity := g.clusterSize }
    onVolume (updateDirSector g dev file.dirLba fun s =>
      (s.putLe16 (file.dirOffset + 20) (head / 2 ^ 16)).putLe16 (file.dirOffset + 26)
        (head % 2 ^ 16))
  else pure ()

def storeSize (newSize : ℕ) : FileM Unit := do
  let file ← currentFile
  onVolume (updateDirSector g dev file.dirLba fun s => s.putLe32 (file.dirOffset + 28) newSize)
  editFile fun f => { f with size := newSize }

/-- The result is `*bytes_written`. -/
def fat32Write (offset : ℕ) (data : List UInt8) : FileM ℕ := do
  let file ← currentFile
  if dev.writable = false ∨ file.size < offset ∨ file.capacity < offset ∨
      g.totalSectors ≤ file.dirLba ∨ sectorSize < u32 (file.dirOffset + 32) then fail
  else if data = [] then do
    storeSize g dev (u32 offset)
    pure 0
  else do
    bootstrapFirstCluster g dev
    let file ← currentFile
    let cluster ← writeSkip g dev (offset / g.clusterSize) file.firstCluster
    writeClusters g dev data.length cluster (offset % g.clusterSize) data
    storeSize g dev (u32 (offset + data.length))
    pure data.length

def fat32Create (name : List UInt8) : FsM FileHandle :=
  if dev.writable = false then fail
  else
    match makeShortName name with
    | none => fail
    | some shortName => do
        match ← attempt (fat32OpenRoot g dev name) with
        | some _ => fail
        | none => do
            let (dirLba, dirOffset) ← findFreeDirEntry g dev
            let newCluster ← allocateCluster g dev 0
            updateDirSector g dev dirLba fun s =>
              writeDirEntry s dirOffset shortName attrArchive newCluster 0
            modify fun v => { v with writeSectorBuffer := Block.zero }
            let v ← Exec.get
            forEach (fun s => writeSector g dev .data (g.sectorLba newCluster s) v.writeSectorBuffer)
              (List.range g.sectorsPerCluster)
            pure ⟨newCluster, dirLba, dirOffset, g.clusterSize, 0⟩

def releaseChain (firstCluster : ℕ) : FsM Unit :=
  if 2 ≤ firstCluster then freeClusterChain g dev firstCluster else pure ()

def fat32Delete (name : List UInt8) : FsM Unit :=
  if dev.writable = false ∨ makeShortName name = none then fail
  else do
    let file ← fat32OpenRoot g dev name
    releaseChain g dev file.firstCluster
    updateDirSector g dev file.dirLba fun s => s.put file.dirOffset [deletedMark]

def fat32Rename (oldName newName : List UInt8) : FsM Unit :=
  if dev.writable = false then fail
  else
    match makeShortName newName with
    | none => fail
    | some newShort => do
        let file ← fat32OpenRoot g dev oldName
        match ← attempt (fat32OpenRoot g dev newName) with
        | some _ => fail
        | none => updateDirSector g dev file.dirLba fun s => s.put file.dirOffset newShort

end Fat32
