import ArmoniOS.Fat32.Volume
import ArmoniOS.Fat32.Entry

/-! Directory scans. Six functions of the source walk a directory with the same three nested
loops over clusters, sectors and entries, reading each entry out of the shared sector buffer;
they differ in what they do with one entry. -/
namespace Fat32
open Exec

/-- What the body of the entry loop decides: go on with the loop variables, or return. -/
inductive Visit (β α : Type) where
  | next (state : β)
  | done (result : α)
  deriving DecidableEq

/-- The entry offsets `0, 32, ..., 480` of one sector. -/
def slotOffsets : List ℕ := (List.range 16).map (32 * ·)

section Loops
variable {α β : Type} (g : Geometry) (dev : Device) (visit : ℕ → ℕ → β → FsM (Visit β α))

def scanEntries (lba : ℕ) : List ℕ → β → FsM (Visit β α)
  | [], b => pure (.next b)
  | offset :: offsets, b => do
      match ← visit lba offset b with
      | .done a => pure (.done a)
      | .next b' => scanEntries lba offsets b'

def scanSectors (cluster : ℕ) : List ℕ → β → FsM (Visit β α)
  | [], b => pure (.next b)
  | sector :: sectors, b => do
      readSector g dev (g.sectorLba cluster sector)
      match ← scanEntries visit (g.sectorLba cluster sector) slotOffsets b with
      | .done a => pure (.done a)
      | .next b' => scanSectors cluster sectors b'

/-- `while (cluster_is_data(fs, cluster) && remaining-- != 0)`; leaving the loop hands back the
last cluster value. -/
def scanClusters : (remaining cluster : ℕ) → β → FsM (Visit (ℕ × β) α)
  | 0, cluster, b => pure (.next (cluster, b))
  | remaining + 1, cluster, b =>
      if g.clusterIsData cluster then do
        match ← scanSectors g dev visit cluster (List.range g.sectorsPerCluster) b with
        | .done a => pure (.done a)
        | .next b' => do
            let next ← readFatEntry g dev cluster true
            scanClusters remaining next b'
      else pure (.next (cluster, b))

def scanDirectory (start : ℕ) (b : β) : FsM (Visit (ℕ × β) α) :=
  scanClusters g dev visit g.clusterCount start b

end Loops

/-- `fat32_file_t`. -/
structure FileHandle where
  firstCluster : ℕ
  dirLba : ℕ
  dirOffset : ℕ
  capacity : ℕ
  size : ℕ
  deriving DecidableEq

/-- `fat32_path_info_t`. -/
structure PathInfo where
  firstCluster : ℕ
  dirLba : ℕ
  dirOffset : ℕ
  capacity : ℕ
  size : ℕ
  attributes : UInt8
  deriving DecidableEq

/-- `fat32_dirent_t`; `name` is the text before the terminator. -/
structure Dirent where
  name : List UInt8
  size : ℕ
  attributes : UInt8
  deriving DecidableEq

variable (g : Geometry) (dev : Device)

/-- What `fat32_open_root` does with the entry whose name matches. -/
def openRootEntry (e : DirEntry) (lba offset : ℕ) : FsM FileHandle :=
  if e.size ≠ 0 ∧ e.firstCluster < 2 then fail
  else if 2 ≤ e.firstCluster then do
    let capacity ← fileChainCapacity g dev e.firstCluster
    if capacity < e.size then fail
    else pure ⟨e.firstCluster, lba, offset, capacity, e.size⟩
  else pure ⟨e.firstCluster, lba, offset, 0, e.size⟩

def openRootVisit (wanted : List UInt8) (lba offset : ℕ) (_ : Unit) :
    FsM (Visit Unit FileHandle) := do
  let sector ← currentSector
  let e := dirEntryAt sector offset
  if e.mark = 0 then fail
  else if e.mark = deletedMark ∨ e.attr = attrLongName ∨ e.isDirectory then pure (.next ())
  else if e.name ≠ wanted then pure (.next ())
  else do
    let file ← openRootEntry g dev e lba offset
    pure (.done file)

def fat32OpenRoot (name : List UInt8) : FsM FileHandle :=
  match makeShortName name with
  | none => fail
  | some wanted => do
      match ← scanDirectory g dev (openRootVisit g dev wanted) g.rootCluster () with
      | .done file => pure file
      | .next _ => fail

/-- The shared end of the textual listings: a full buffer and the end marker both return what
was written so far. -/
def listVisit (skip : DirEntry → Prop) [DecidablePred skip] (_ offset : ℕ) (out : ListOutput) :
    FsM (Visit ListOutput (List UInt8)) := do
  let sector ← currentSector
  let e := dirEntryAt sector offset
  if e.mark = 0 then pure (.done out.buffer)
  else if e.mark = deletedMark ∨ e.attr = attrLongName ∨ e.isVolumeId ∨ skip e then
    pure (.next out)
  else
    match appendShortName e out with
    | (out', true) => pure (.next out')
    | (out', false) => pure (.done out'.buffer)

def fat32ListRootAt (offset capacity : ℕ) : FsM (List UInt8) := do
  match ← scanDirectory g dev (listVisit fun _ => False) g.rootCluster ⟨capacity, offset, 0, []⟩ with
  | .done bytes => pure bytes
  | .next (cluster, out) => if clusterIsEoc cluster then pure out.buffer else fail

def findFreeVisit (lba offset : ℕ) (_ : Unit) : FsM (Visit Unit (ℕ × ℕ)) := do
  let sector ← currentSector
  let first := sector.get offset
  if first = 0 ∨ first = deletedMark then pure (.done (lba, offset)) else pure (.next ())

def findFreeDirEntry : FsM (ℕ × ℕ) := do
  match ← scanDirectory g dev findFreeVisit g.rootCluster () with
  | .done slot => pure slot
  | .next _ => fail

/-- The checks follow the assignments of the source; `capacity` stays 0 for a directory and for a
file without a data cluster. -/
def dirFillInfo (e : DirEntry) (lba offset : ℕ) : FsM PathInfo :=
  if e.isDirectory then
    if g.clusterIsData e.firstCluster then
      pure ⟨e.firstCluster, lba, offset, 0, e.size, e.attr⟩
    else fail
  else if e.size ≠ 0 ∧ ¬ g.clusterIsData e.firstCluster then fail
  else if g.clusterIsData e.firstCluster then do
    let capacity ← dirFileCapacity g dev e.firstCluster
    if capacity < e.size then fail
    else pure ⟨e.firstCluster, lba, offset, capacity, e.size, e.attr⟩
  else pure ⟨e.firstCluster, lba, offset, 0, e.size, e.attr⟩

def dirFindVisit (wanted : List UInt8) (lba offset : ℕ) (_ : Unit) :
    FsM (Visit Unit PathInfo) := do
  let sector ← currentSector
  let e := dirEntryAt sector offset
  if e.mark = 0 then fail
  else if e.mark = deletedMark ∨ e.attr = attrLongName ∨ e.isVolumeId then pure (.next ())
  else if e.name = wanted then do
    let info ← dirFillInfo g dev e lba offset
    pure (.done info)
  else pure (.next ())

def dirFindEntry (directoryCluster : ℕ) (component : List UInt8) : FsM PathInfo :=
  if g.clusterIsData directoryCluster then
    match dirMakeShortName component with
    | none => fail
    | some wanted => do
        match ← scanDirectory g dev (dirFindVisit g dev wanted) directoryCluster () with
        | .done info => pure info
        | .next _ => fail
  else fail

def componentMax : ℕ := 12

/-- `dir_next_component`: the component and the rest of the path after it, with the slashes on
both sides skipped. -/
def dirNextComponent (cursor : List UInt8) : Option (List UInt8 × List UInt8) :=
  let p := cursor.dropWhile (· = charSlash)
  let component := p.takeWhile (· ≠ charSlash)
  if p = [] ∨ componentMax < component.length then none
  else some (component, (p.drop component.length).dropWhile (· = charSlash))

/-- The component loop; every round consumes at least one byte of the path. -/
def lookupFrom : (fuel : ℕ) → (cursor : List UInt8) → (directoryCluster : ℕ) → FsM PathInfo
  | 0, _, _ => fail
  | fuel + 1, cursor, directoryCluster =>
      match dirNextComponent cursor with
      | none => fail
      | some (component, rest) => do
          let current ← dirFindEntry g dev directoryCluster component
          if rest = [] then pure current
          else if current.attributes &&& attrDirectory = 0 ∨
              ¬ g.clusterIsData current.firstCluster then fail
          else lookupFrom fuel rest current.firstCluster

def fat32LookupPath (path : List UInt8) : FsM PathInfo :=
  let cursor := path.dropWhile (· = charSlash)
  if cursor = [] then pure ⟨g.rootCluster, 0, 0, 0, 0, attrDirectory⟩
  else lookupFrom g dev path.length cursor g.rootCluster

def fat32OpenPath (path : List UInt8) : FsM FileHandle := do
  let info ← fat32LookupPath g dev path
  if info.attributes &&& attrDirectory ≠ 0 then fail
  else pure ⟨info.firstCluster, info.dirLba, info.dirOffset, info.capacity, info.size⟩

/-- Loop variables of `fat32_readdir_path`: the logical index and the entries output so far. -/
structure ReaddirState where
  logicalIndex : ℕ
  entries : List Dirent
  deriving DecidableEq

/-- The entry is decoded from the sector buffer, and `dir_fill_info` then walks the FAT through
the same buffer. -/
def readdirVisit (startIndex maxEntries lba offset : ℕ) (st : ReaddirState) :
    FsM (Visit ReaddirState (List Dirent)) := do
  let sector ← currentSector
  let e := dirEntryAt sector offset
  if e.mark = 0 then pure (.done st.entries)
  else if e.mark = deletedMark ∨ e.attr = attrLongName ∨ e.isVolumeId ∨ e.isDot then
    pure (.next st)
  else if st.logicalIndex < startIndex then
    pure (.next { st with logicalIndex := st.logicalIndex + 1 })
  else
    match dirCopyName e with
    | none => fail
    | some name => do
        let info ← dirFillInfo g dev e lba offset
        let entries := st.entries ++ [⟨name, info.size, info.attributes⟩]
        if entries.length = maxEntries then pure (.done entries)
        else pure (.next ⟨st.logicalIndex + 1, entries⟩)

def fat32ReaddirPath (path : List UInt8) (startIndex maxEntries : ℕ) : FsM (List Dirent) :=
  if maxEntries = 0 then fail
  else do
    let directory ← fat32LookupPath g dev path
    if directory.attributes &&& attrDirectory = 0 then fail
    else
      match ← scanDirectory g dev (readdirVisit g dev startIndex maxEntries)
          directory.firstCluster ⟨0, []⟩ with
      | .done entries => pure entries
      | .next (cluster, st) => if clusterIsEoc cluster then pure st.entries else fail

def fat32ListPathAt (path : List UInt8) (offset capacity : ℕ) : FsM (List UInt8) := do
  let info ← fat32LookupPath g dev path
  if info.attributes &&& attrDirectory = 0 then fail
  else
    match ← scanDirectory g dev (listVisit DirEntry.isDot) info.firstCluster
        ⟨capacity, offset, 0, []⟩ with
    | .done bytes => pure bytes
    | .next (cluster, out) => if clusterIsEoc cluster then pure out.buffer else fail

end Fat32
