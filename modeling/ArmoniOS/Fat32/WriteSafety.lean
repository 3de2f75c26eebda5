import ArmoniOS.Fat32.Readdir

/-! Where sector writes go. For any image and any pattern of callback failures, every operation
writes file data and directory sectors to data clusters and FAT updates to the FAT copies, as long
as the handle it writes through starts in a data cluster or nowhere. -/
namespace Fat32
open Exec List

variable (g : Geometry)

def InDataCluster (lba : ℕ) : Prop :=
  ∃ c s, g.clusterIsData c ∧ s < g.sectorsPerCluster ∧ lba = g.sectorLba c s

def InFatCopy (lba : ℕ) : Prop :=
  ∃ k c, k < g.fatCount ∧ g.clusterIsData c ∧ lba = g.fatEntryLba k c

/-- A callback call that stays inside the region its kind is meant for. -/
def Access.Confined : Access → Prop
  | .read _ => True
  | .write .data lba => InDataCluster g lba
  | .write .dir lba => InDataCluster g lba
  | .write .fat lba => InFatCopy g lba

def Confined (v : Volume) : Prop := ∀ a ∈ v.trace, a.Confined g

def HandlePlaced (f : FileHandle) : Prop := InDataCluster g f.dirLba ∧ f.dirOffset ∈ slotOffsets

def StartOk (cluster : ℕ) : Prop := cluster < 2 ∨ g.clusterIsData cluster

/-- The state of a write: confined so far, through a placed handle that starts in a data cluster
or nowhere. -/
def WriteOk (s : Volume × FileHandle) : Prop :=
  Confined g s.1 ∧ HandlePlaced g s.2 ∧ StartOk g s.2.firstCluster

variable {g} {dev : Device}

class ReadStable (I : Volume → Prop) : Prop where
  read : ∀ (v : Volume) (sector : Sector) (lba : ℕ), I v →
    I { v with sector := sector, trace := .read lba :: v.trace }

instance : ReadStable (Confined g) where
  read _ _ _ hv := fun a ha => (mem_cons.mp ha).elim (fun h => h ▸ trivial) (hv a)

instance : ReadStable fun _ => True where
  read _ _ _ _ := trivial

instance (v : Volume) : ReadStable v.Quiet where
  read _ _ _ hw := hw

variable {I : Volume → Prop} [ReadStable I]

theorem readSector_keeps (lba : ℕ) : Keeps I (readSector g dev lba) fun _ => True := by
  intro v hv
  refine ⟨?_, fun _ _ => trivial⟩
  unfold readSector
  split_ifs
  · exact hv
  · exact ReadStable.read v _ lba hv
  · exact ReadStable.read v v.sector lba hv

variable {lba : ℕ}

theorem writeSector_keeps {kind : WriteKind} (h : (Access.write kind lba).Confined g)
    (buffer : Sector) : Keeps (Confined g) (writeSector g dev kind lba buffer) fun _ => True := by
  intro v hv
  refine ⟨?_, fun _ _ => trivial⟩
  have hwrite : Confined g { v with trace := .write kind lba :: v.trace } :=
    fun a ha => (mem_cons.mp ha).elim (fun h' => h' ▸ h) (hv a)
  unfold writeSector
  split_ifs
  · exact hv
  · exact hwrite
  · exact hwrite

variable {J : Volume → Prop}

theorem currentSector_keeps : Keeps J currentSector fun _ => True :=
  .bind .get fun _ _ => .pure trivial

theorem editSector_keeps (f : Sector → Sector) :
    Keeps (Confined g) (editSector f) fun _ => True := .modify fun _ h => h

theorem readFatEntry_keeps (c : ℕ) (chain : Bool) : Keeps I (readFatEntry g dev c chain) fun x =>
      g.clusterIsData c ∧ (chain = true → clusterIsEoc x ∨ g.clusterIsData x) :=
  .ite (fun hc => .bind (readSector_keeps _) fun _ _ =>
    .bind currentSector_keeps fun _ _ => .guard fun h =>
      .pure ⟨hc, fun hchain => by tauto⟩) fun _ => .fail

variable {c : ℕ}

theorem writeFatCopy_keeps {k : ℕ} (hc : g.clusterIsData c) (hk : k < g.fatCount) (value : ℕ) :
    Keeps (Confined g) (writeFatCopy g dev c value k) fun _ => True := by
  have hlba : (Access.write .fat (g.fatEntryLba k c)).Confined g := ⟨k, c, hk, hc, rfl⟩
  exact .bind (readSector_keeps _) fun _ _ => .bind (editSector_keeps _) fun _ _ =>
    .bind currentSector_keeps fun _ _ => writeSector_keeps hlba _

theorem writeFatEntry_keeps (c value : ℕ) :
    Keeps (Confined g) (writeFatEntry g dev c value) fun _ => True :=
  .guard fun h => .forEach fun k hk =>
    writeFatCopy_keeps (by tauto) (mem_range.mp hk) value

theorem findFreeFrom_keeps (n c : ℕ) :
    Keeps I (findFreeFrom g dev n c) fun x => g.clusterIsData x := by
  induction n generalizing c with
  | zero => exact .fail
  | succ n ih =>
    exact .bind (readFatEntry_keeps c false) fun _ h =>
      .ite (fun _ => .pure h.1) fun _ => ih (c + 1)

theorem allocateCluster_keeps (c : ℕ) :
    Keeps (Confined g) (allocateCluster g dev c) fun x => g.clusterIsData x :=
  .bind (findFreeFrom_keeps _ _) fun _ hx => .ite
    (fun _ => .bind (readFatEntry_keeps c true) fun _ _ => .ite
      (fun _ => .bind (writeFatEntry_keeps _ _) fun _ _ =>
        .bind (writeFatEntry_keeps _ _) fun _ _ => .pure hx) fun _ => .fail)
    fun _ => .bind (writeFatEntry_keeps _ _) fun _ _ => .pure hx

theorem freeChainFrom_keeps (n c : ℕ) :
    Keeps (Confined g) (freeChainFrom g dev n c) fun _ => True := by
  induction n generalizing c with
  | zero => exact .fail
  | succ n ih =>
    exact .ite (fun _ => .bind (readFatEntry_keeps c true) fun next _ =>
      .bind (writeFatEntry_keeps c 0) fun _ _ =>
        .ite (fun _ => .pure trivial) fun _ => ih next) fun _ => .fail

theorem chainCapacityFrom_keeps (n total c : ℕ) :
    Keeps I (chainCapacityFrom g dev n total c) fun _ => True := by
  induction n generalizing total c with
  | zero => exact .fail
  | succ n ih =>
    exact .guard fun _ => .bind (readFatEntry_keeps c true)
      fun next _ => .ite (fun _ => .pure trivial) fun _ => ih _ next

theorem fileChainCapacity_keeps (c : ℕ) :
    Keeps I (fileChainCapacity g dev c) fun _ => g.clusterIsData c :=
  .ite (fun hc => (chainCapacityFrom_keeps _ _ _).mono fun _ _ => hc) fun _ => .fail

section Scans
variable {α β : Type} {visit : ℕ → ℕ → β → FsM (Visit β α)} {P : α → Prop}

/-- The returned value of a visit or scan, if it returns, satisfies `P`. -/
def Visit.Returns (P : α → Prop) : Visit β α → Prop
  | .done a => P a
  | .next _ => True

theorem scanEntries_keeps {offsets : List ℕ}
    (h : ∀ o ∈ offsets, ∀ b, Keeps J (visit lba o b) (Visit.Returns P)) (b : β) :
    Keeps J (scanEntries visit lba offsets b) (Visit.Returns P) := by
  induction offsets generalizing b with
  | nil => exact .pure trivial
  | cons o os ih =>
    refine .bind (h o (by simp) b) fun r hr => ?_
    cases r with
    | next b' => exact ih (fun x hx => h x (by simp [hx])) b'
    | done a => exact .pure hr

variable (hvisit : ∀ lba o b, InDataCluster g lba → o ∈ slotOffsets →
  Keeps I (visit lba o b) (Visit.Returns P))
include hvisit

theorem scanSectors_keeps (hc : g.clusterIsData c) {sectors : List ℕ}
    (hs : ∀ s ∈ sectors, s < g.sectorsPerCluster) (b : β) :
    Keeps I (scanSectors g dev visit c sectors b) (Visit.Returns P) := by
  induction sectors generalizing b with
  | nil => exact .pure trivial
  | cons s ss ih =>
    refine .bind (readSector_keeps _) fun _ _ => .bind (scanEntries_keeps
      (fun o ho b => hvisit _ o b ⟨c, s, hc, hs s (by simp), rfl⟩ ho) b) fun r hr => ?_
    cases r with
    | next b' => exact ih (fun x hx => hs x (by simp [hx])) b'
    | done a => exact .pure hr

theorem scanDirectory_keeps (start : ℕ) (b : β) :
    Keeps I (scanDirectory g dev visit start b) (Visit.Returns P) := by
  unfold scanDirectory
  generalize g.clusterCount = n
  induction n generalizing start b with
  | zero => exact .pure trivial
  | succ n ih =>
    refine .ite (fun hc => .bind (scanSectors_keeps hvisit hc
      (fun s hs => mem_range.mp hs) b) fun r hr => ?_) fun _ => .pure trivial
    cases r with
    | next b' => exact .bind (readFatEntry_keeps _ _) fun next _ => ih next b'
    | done a => exact .pure hr

end Scans

theorem openRootEntry_keeps (e : DirEntry) {offset : ℕ} (hl : InDataCluster g lba)
    (ho : offset ∈ slotOffsets) :
    Keeps I (openRootEntry g dev e lba offset) fun f =>
      HandlePlaced g f ∧ StartOk g f.firstCluster :=
  .guard fun _ => .ite (fun _ => .bind (fileChainCapacity_keeps _) fun _ hc => .guard
      fun _ => .pure ⟨⟨hl, ho⟩, .inr hc⟩)
    fun h => .pure ⟨⟨hl, ho⟩, .inl (by simpa using h)⟩

theorem dirFillInfo_keeps (e : DirEntry) {offset : ℕ} (hl : InDataCluster g lba)
    (ho : offset ∈ slotOffsets) :
    Keeps I (dirFillInfo g dev e lba offset) fun info =>
      InDataCluster g info.dirLba ∧ info.dirOffset ∈ slotOffsets :=
  .ite (fun _ => .ite (fun _ => .pure ⟨hl, ho⟩) fun _ => .fail) fun _ =>
    .guard fun _ => .ite (fun _ => .bind (fileChainCapacity_keeps _) fun _ _ => .guard
        fun _ => .pure ⟨hl, ho⟩)
      fun _ => .pure ⟨hl, ho⟩

theorem searchVisit_keeps {α : Type} {pick : DirEntry → Prop} [DecidablePred pick]
    {act : DirEntry → ℕ → ℕ → FsM α} {P : α → Prop}
    (hact : ∀ e lba o, InDataCluster g lba → o ∈ slotOffsets → Keeps J (act e lba o) P) (lba o : ℕ)
    (b : Unit) (hl : InDataCluster g lba) (ho : o ∈ slotOffsets) :
    Keeps J (searchVisit pick act lba o b) (Visit.Returns P) :=
  .bind currentSector_keeps fun _ _ => .guard fun _ => .ite
    (fun _ => .bind (hact _ lba o hl ho) fun _ ha => .pure ha) fun _ => .pure trivial

variable (name : List UInt8)

theorem fat32OpenRoot_keeps : Keeps I (fat32OpenRoot g dev name) fun f =>
      HandlePlaced g f ∧ StartOk g f.firstCluster := by
  unfold fat32OpenRoot
  cases makeShortName name with
  | none => exact .fail
  | some wanted =>
    simp only [openRootVisit_eq]
    refine .bind (scanDirectory_keeps (searchVisit_keeps fun e _ _ hl ho =>
      openRootEntry_keeps e hl ho) g.rootCluster ()) fun r hr => ?_
    cases r with
    | next _ => exact .fail
    | done f => exact .pure hr

theorem dirFindEntry_keeps (start : ℕ) (component : List UInt8) :
    Keeps I (dirFindEntry g dev start component) fun info =>
      InDataCluster g info.dirLba ∧ info.dirOffset ∈ slotOffsets := by
  refine .ite (fun _ => ?_) fun _ => .fail
  cases dirMakeShortName component with
  | none => exact .fail
  | some wanted =>
    simp only [dirFindVisit_eq]
    refine .bind (scanDirectory_keeps (searchVisit_keeps fun e _ _ hl ho =>
      dirFillInfo_keeps e hl ho) start ()) fun r hr => ?_
    cases r with
    | next _ => exact .fail
    | done f => exact .pure hr

theorem lookupFrom_keeps (fuel : ℕ) (cursor : List UInt8) (start : ℕ) :
    Keeps I (lookupFrom g dev fuel cursor start) fun info =>
      InDataCluster g info.dirLba ∧ info.dirOffset ∈ slotOffsets := by
  induction fuel generalizing cursor start with
  | zero => exact .fail
  | succ n ih =>
    unfold lookupFrom
    rcases dirNextComponent cursor with _ | ⟨component, rest⟩
    · exact .fail
    · exact .bind (dirFindEntry_keeps start component) fun current hcur =>
        .ite (fun _ => .pure hcur) fun _ => .guard fun _ =>
          ih rest _

theorem fat32OpenPath_keeps (path : List UInt8) :
    Keeps I (fat32OpenPath g dev path) (HandlePlaced g) := by
  have hlook : Keeps I (fat32LookupPath g dev path) fun info =>
      info.attributes &&& attrDirectory ≠ 0 ∨
        (InDataCluster g info.dirLba ∧ info.dirOffset ∈ slotOffsets) :=
    .ite (fun _ => .pure (.inl (show attrDirectory &&& attrDirectory ≠ 0 by decide))) fun _ =>
      (lookupFrom_keeps _ _ _).mono fun _ h => .inr h
  exact .bind hlook fun info hinfo => .guard fun h =>
    .pure (hinfo.resolve_left h)

theorem readSkip_keeps (rounds c : ℕ) : Keeps I (readSkip g dev rounds c) fun _ => True := by
  induction rounds generalizing c with
  | zero => exact .pure trivial
  | succ n ih =>
    exact .bind (readFatEntry_keeps c true) fun next _ =>
      .guard fun _ => ih next

theorem readSectors_keeps (c : ℕ) (sectors : List ℕ) (offset remaining : ℕ) (copied : List UInt8) :
    Keeps I (readSectors g dev c sectors offset remaining copied) fun _ => True := by
  induction sectors generalizing offset remaining copied with
  | nil => exact .pure trivial
  | cons sector sectors ih =>
    exact .ite (fun _ => .pure trivial) fun _ => .ite (fun _ => ih _ _ _) fun _ =>
      .bind (readSector_keeps _) fun _ _ => .bind currentSector_keeps fun _ _ => ih _ _ _

theorem readClusters_keeps (fuel c skip remaining : ℕ) (copied : List UInt8) :
    Keeps I (readClusters g dev fuel c skip remaining copied) fun _ => True := by
  induction fuel generalizing c skip remaining copied with
  | zero => exact .pure trivial
  | succ n ih =>
    exact .bind (readSectors_keeps _ _ _ _ _) fun _ _ => .ite (fun _ => .pure trivial)
      fun _ => .bind (readFatEntry_keeps c true) fun _ _ =>
        .guard fun _ => ih _ _ _ _

theorem fat32Read_keeps (f : FileHandle) (offset capacity : ℕ) :
    Keeps I (fat32Read g dev f offset capacity) fun _ => True :=
  .guard fun _ => .ite (fun _ => .pure trivial) fun _ =>
    .guard fun _ => .bind (readSkip_keeps _ _) fun _ _ =>
      readClusters_keeps _ _ _ _ _

theorem findFreeDirEntry_keeps : Keeps I (findFreeDirEntry g dev) fun p =>
      InDataCluster g p.1 ∧ p.2 ∈ slotOffsets := by
  have hvisit : ∀ lba o b, InDataCluster g lba → o ∈ slotOffsets → Keeps I (findFreeVisit lba o b)
        (Visit.Returns fun p => InDataCluster g p.1 ∧ p.2 ∈ slotOffsets) :=
    fun lba o b hl ho => .bind currentSector_keeps fun _ _ =>
      .ite (fun _ => .pure ⟨hl, ho⟩) fun _ => .pure trivial
  refine .bind (scanDirectory_keeps hvisit g.rootCluster ()) fun r hr => ?_
  cases r with
  | next _ => exact .fail
  | done p => exact .pure hr

theorem updateDirSector_keeps (h : InDataCluster g lba) (edit : Sector → Sector) :
    Keeps (Confined g) (updateDirSector g dev lba edit) fun _ => True := by
  have hlba : (Access.write .dir lba).Confined g := h
  exact .bind (readSector_keeps _) fun _ _ => .bind (editSector_keeps _) fun _ _ =>
    .bind currentSector_keeps fun _ _ => writeSector_keeps hlba _

theorem fat32Create_keeps : Keeps (Confined g) (fat32Create g dev name) fun f =>
      HandlePlaced g f ∧ StartOk g f.firstCluster := by
  refine .guard fun _ => ?_
  cases makeShortName name with
  | none => exact .fail
  | some shortName =>
    refine .bind (.attempt (fat32OpenRoot_keeps name)) fun existing _ => ?_
    cases existing with
    | some _ => exact .fail
    | none =>
      refine .bind findFreeDirEntry_keeps fun p hp =>
        .bind (allocateCluster_keeps 0) fun c hc =>
          .bind (updateDirSector_keeps hp.1 _) fun _ _ =>
            .bind (.modify fun _ h => h) fun _ _ => .bind .get fun v _ =>
              .bind (.forEach fun s hs => ?_) fun _ _ =>
                .pure ⟨⟨hp.1, hp.2⟩, .inr hc⟩
      have hlba : (Access.write .data (g.sectorLba c s)).Confined g :=
        ⟨c, s, hc, mem_range.mp hs, rfl⟩
      exact writeSector_keeps hlba _

theorem fat32Delete_keeps : Keeps (Confined g) (fat32Delete g dev name) fun _ => True :=
  .guard fun _ => .bind (fat32OpenRoot_keeps name) fun _ hf =>
    .bind (.ite (fun _ => freeChainFrom_keeps _ _) fun _ => .pure trivial)
      fun _ _ => updateDirSector_keeps hf.1.1 _

theorem fat32Rename_keeps (oldName newName : List UInt8) :
    Keeps (Confined g) (fat32Rename g dev oldName newName) fun _ => True := by
  refine .guard fun _ => ?_
  cases makeShortName newName with
  | none => exact .fail
  | some newShort =>
    refine .bind (fat32OpenRoot_keeps oldName) fun file hf =>
      .bind (.attempt (fat32OpenRoot_keeps newName)) fun existing _ => ?_
    cases existing with
    | some _ => exact .fail
    | none => exact updateDirSector_keeps hf.1.1 _

section Write

theorem onVolume_keeps {α : Type} {m : FsM α} {post : α → Prop} (h : Keeps (Confined g) m post) :
    Keeps (WriteOk g) (onVolume m) post :=
  .zoom h (fun _ ht => ht.1) fun _ _ ht hs => ⟨hs, ht.2⟩

theorem currentFile_keeps :
    Keeps (WriteOk g) currentFile fun f => HandlePlaced g f ∧ StartOk g f.firstCluster :=
  .bind .get fun _ hs => .pure hs.2

theorem advanceOrAllocateCluster_keeps (c : ℕ) :
    Keeps (WriteOk g) (advanceOrAllocateCluster g dev c) fun x => g.clusterIsData x :=
  .guard fun _ =>
    .bind (onVolume_keeps (readFatEntry_keeps c true)) fun _ hnext =>
      .bind currentFile_keeps fun _ _ => .ite (fun _ => .guard fun _ =>
          .bind (onVolume_keeps (allocateCluster_keeps c)) fun _ hx =>
            .bind (.modify fun _ h => h) fun _ _ => .pure hx)
        fun he => .guard fun _ =>
          .pure ((hnext.2 rfl).resolve_left he)

theorem writeSkip_keeps (rounds : ℕ) (hc : StartOk g c) :
    Keeps (WriteOk g) (writeSkip g dev rounds c) (StartOk g) := by
  induction rounds generalizing c with
  | zero => exact .pure hc
  | succ n ih =>
    exact .bind (advanceOrAllocateCluster_keeps c) fun _ hx => ih (.inr hx)

theorem writeDataSector_keeps (h : InDataCluster g lba) (offset : ℕ) (data : List UInt8) :
    Keeps (Confined g) (writeDataSector g dev lba offset data) fun _ => True := by
  have hlba : (Access.write .data lba).Confined g := h
  exact .bind (readSector_keeps _) fun _ _ => .bind (.modify fun _ h => h)
    fun _ _ => .bind .get fun _ _ => writeSector_keeps hlba _

theorem writeSectors_keeps (hc : g.clusterIsData c) {sectors : List ℕ}
    (hs : ∀ s ∈ sectors, s < g.sectorsPerCluster) (offset : ℕ) (data : List UInt8) :
    Keeps (Confined g) (writeSectors g dev c sectors offset data) fun _ => True := by
  induction sectors generalizing offset data with
  | nil => exact .pure trivial
  | cons s ss ih =>
    have hss : ∀ x ∈ ss, x < g.sectorsPerCluster := fun x hx => hs x (by simp [hx])
    exact .ite (fun _ => .pure trivial) fun _ => .ite (fun _ => ih hss _ _) fun _ =>
      .bind (writeDataSector_keeps ⟨c, s, hc, hs s (by simp), rfl⟩ _ _) fun _ _ => ih hss _ _

theorem writeClusters_keeps (fuel : ℕ) (hc : StartOk g c) (skip : ℕ) (data : List UInt8) :
    Keeps (WriteOk g) (writeClusters g dev fuel c skip data) fun _ => True := by
  induction fuel generalizing c skip data with
  | zero => exact .pure trivial
  | succ n ih =>
    refine .guard fun h => ?_
    have hdata := hc.resolve_left fun h2 => h (.inl h2)
    exact .bind (onVolume_keeps (writeSectors_keeps hdata (fun s hs => mem_range.mp hs)
      skip data)) fun _ _ => .ite (fun _ => .pure trivial) fun _ =>
        .bind (advanceOrAllocateCluster_keeps c) fun _ hx => ih (.inr hx) _ _

theorem bootstrapFirstCluster_keeps :
    Keeps (WriteOk g) (bootstrapFirstCluster g dev) fun _ => True :=
  .bind currentFile_keeps fun _ hf => .ite
    (fun _ => .bind (onVolume_keeps (allocateCluster_keeps 0)) fun _ hx =>
      .bind (.modify fun _ hs => ⟨hs.1, hs.2.1, .inr hx⟩) fun _ _ =>
        onVolume_keeps (updateDirSector_keeps hf.1.1 _))
    fun _ => .pure trivial

theorem storeSize_keeps (size : ℕ) : Keeps (WriteOk g) (storeSize g dev size) fun _ => True :=
  .bind currentFile_keeps fun _ hf =>
    .bind (onVolume_keeps (updateDirSector_keeps hf.1.1 _)) fun _ _ => .modify fun _ h => h

theorem fat32Write_keeps (offset : ℕ) (data : List UInt8) :
    Keeps (WriteOk g) (fat32Write g dev offset data) fun _ => True :=
  .bind currentFile_keeps fun _ _ => .guard fun _ => .ite
    (fun _ => .bind (storeSize_keeps _) fun _ _ => .pure trivial)
    fun _ => .bind bootstrapFirstCluster_keeps fun _ _ =>
      .bind currentFile_keeps fun _ hf => .bind (writeSkip_keeps _ hf.2) fun _ hc =>
        .bind (writeClusters_keeps _ hc _ _) fun _ _ =>
          .bind (storeSize_keeps _) fun _ _ => .pure trivial

end Write
/-- What the callers of the driver hold: the volume and the handles handed out so far. -/
structure Session where
  volume : Volume
  handles : List FileHandle

inductive FsOp where
  | openRoot (name : List UInt8)
  | openPath (path : List UInt8)
  | create (name : List UInt8)
  | delete (name : List UInt8)
  | rename (oldName newName : List UInt8)
  | write (handle offset : ℕ) (data : List UInt8)

variable {s : Session}

namespace Session
variable (g dev)

def handOut (s : Session) (r : Option FileHandle × Volume) : Session := ⟨r.2, s.handles ++ r.1.toList⟩

def step (s : Session) : FsOp → Session
  | .openRoot name => s.handOut (fat32OpenRoot g dev name s.volume)
  | .openPath path => s.handOut (fat32OpenPath g dev path s.volume)
  | .create name => s.handOut (fat32Create g dev name s.volume)
  | .delete name => { s with volume := (fat32Delete g dev name s.volume).2 }
  | .rename oldName newName => { s with volume := (fat32Rename g dev oldName newName s.volume).2 }
  | .write i offset data =>
      match s.handles[i]? with
      | none => s
      | some f =>
          let r := fat32Write g dev offset data (s.volume, f)
          ⟨r.2.1, s.handles.set i r.2.2⟩

def run (s : Session) (ops : List FsOp) : Session := ops.foldl (step g dev) s

/-- A write goes through a handle that starts in a data cluster or nowhere. -/
def StartsOk (s : Session) : FsOp → Prop
  | .write i _ _ => ∀ f ∈ s.handles[i]?, StartOk g f.firstCluster
  | _ => True

def RunStartsOk : Session → List FsOp → Prop
  | _, [] => True
  | s, op :: ops => s.StartsOk g op ∧ RunStartsOk (s.step g dev op) ops

def Placed (s : Session) : Prop := Confined g s.volume ∧ ∀ f ∈ s.handles, HandlePlaced g f

variable {g dev}

theorem Placed.handOut {m : FsM FileHandle} {post : FileHandle → Prop} (hs : s.Placed g)
    (hm : Keeps (Confined g) m post) (hp : ∀ f, post f → HandlePlaced g f) :
    (s.handOut (m s.volume)).Placed g := by
  obtain ⟨h1, h2⟩ := hm s.volume hs.1
  refine ⟨h1, fun f hf => ?_⟩
  rcases mem_append.mp hf with hf | hf
  · exact hs.2 f hf
  · exact hp f (h2 f (by simpa using hf))

theorem step_placed {op : FsOp} (hs : s.Placed g) (hop : s.StartsOk g op) :
    (s.step g dev op).Placed g := by
  cases op with
  | openRoot name => exact hs.handOut (fat32OpenRoot_keeps name) fun _ h => h.1
  | openPath path => exact hs.handOut (fat32OpenPath_keeps path) fun _ h => h
  | create name => exact hs.handOut (fat32Create_keeps name) fun _ h => h.1
  | delete name => exact ⟨(fat32Delete_keeps name s.volume hs.1).1, hs.2⟩
  | rename oldName newName => exact ⟨(fat32Rename_keeps oldName newName s.volume hs.1).1, hs.2⟩
  | write i offset data =>
    simp only [step]
    cases hf : s.handles[i]? with
    | none => exact hs
    | some f =>
      have hplaced := hs.2 f (mem_of_getElem? hf)
      have h1 : WriteOk g (fat32Write g dev offset data (s.volume, f)).2 :=
        (fat32Write_keeps offset data _ ⟨hs.1, hplaced, hop f hf⟩).1
      refine ⟨h1.1, fun f' hf' => ?_⟩
      rcases mem_or_eq_of_mem_set hf' with hf' | rfl
      · exact hs.2 f' hf'
      · exact h1.2.1

theorem run_placed {ops : List FsOp} (hs : s.Placed g) (hops : s.RunStartsOk g dev ops) :
    (s.run g dev ops).Placed g := by
  induction ops generalizing s with
  | nil => exact hs
  | cons op ops ih => exact ih (step_placed hs hops.1) hops.2

end Session

theorem InDataCluster.bounds (h : InDataCluster g lba) :
    g.reservedSectors ≤ lba ∧ lba < g.totalSectors := by
  obtain ⟨c, s, hc, hs, rfl⟩ := h
  have h1 := g.sectorLba_ge hc hs
  have h2 := g.dataStartLba_eq
  exact ⟨by omega, g.sectorLba_lt hc hs⟩

theorem InFatCopy.bounds (h : InFatCopy g lba) :
    g.reservedSectors ≤ lba ∧ lba < g.totalSectors := by
  obtain ⟨k, c, hk, hc, rfl⟩ := h
  have h1 := g.fatEntryLba_eq hk hc
  have h2 := g.fatEntryLba_lt_data hk hc
  have h3 := g.dataStartLba_lt
  exact ⟨by omega, by omega⟩

/-- In every run whose writes all go through handles that start in a data cluster or nowhere,
over any image and any callback failures, file data only reaches data clusters, FAT updates only
reach the FAT copies, and no write reaches a reserved sector or leaves both regions. -/
theorem session_writes_confined (g : Geometry) (dev : Device) (v : Volume) (ops : List FsOp)
    (hv : v.trace = []) (hops : Session.RunStartsOk g dev ⟨v, []⟩ ops) :
    ∀ kind lba, Access.write kind lba ∈ (Session.run g dev ⟨v, []⟩ ops).volume.trace →
      (kind = .data → InDataCluster g lba) ∧ (kind = .fat → InFatCopy g lba) ∧
      (InDataCluster g lba ∨ InFatCopy g lba) ∧ g.reservedSectors ≤ lba ∧
      lba < g.totalSectors := by
  intro kind lba hmem
  have hinit : Session.Placed g ⟨v, []⟩ := ⟨fun a ha => by simp [hv] at ha, by simp⟩
  have h := (Session.run_placed hinit hops).1 _ hmem
  cases kind with
  | fat =>
    have hfat := h
    exact ⟨by simp, fun _ => hfat, .inr hfat, hfat.bounds⟩
  | dir =>
    have hdata := h
    exact ⟨by simp, by simp, .inl hdata, hdata.bounds⟩
  | data =>
    have hdata := h
    exact ⟨fun _ => hdata, by simp, .inl hdata, hdata.bounds⟩

section Small
open SmallVolume

theorem session_writes_confined_twoFiles :
    let ops := [.openRoot (bytes "a.txt"), .write 0 0 (bytes "hi"), .delete (bytes "b.txt")]
    let trace := (Session.run geometry .reliable ⟨twoFiles, []⟩ ops).volume.trace
    (Access.write .data 3 ∈ trace ∧ Access.write .fat 1 ∈ trace) ∧
    ∀ kind lba, Access.write kind lba ∈ trace →
      (kind = .data → InDataCluster geometry lba) ∧ (kind = .fat → InFatCopy geometry lba) ∧
      (InDataCluster geometry lba ∨ InFatCopy geometry lba) ∧ geometry.reservedSectors ≤ lba ∧
      lba < geometry.totalSectors := by
  refine ⟨by decide +kernel, session_writes_confined geometry .reliable twoFiles _ rfl ?_⟩
  refine ⟨trivial, fun f hf => ?_, trivial, trivial⟩
  have hfile : (Session.step geometry .reliable ⟨twoFiles, []⟩
      (.openRoot (bytes "a.txt"))).handles[0]? = some ⟨3, 2, 0, 512, 5⟩ := by decide +kernel
  rw [hfile] at hf
  obtain rfl := Option.some.inj hf
  exact .inr (by decide +kernel)

def wideGeometry : Geometry := (fat32Mount (bootSector 32 32 2 16 192)).get (by decide +kernel)

def danglingFile : Volume :=
  fresh fun lba =>
    if lba = 0 then bootSector 32 32 2 16 192
    else if lba = 32 ∨ lba = 48 then fatSector [clusterMask]
    else if lba = 64 then dirSector [("C       TXT", attrArchive, 0x08000000, 0)]
    else ByteBlock.Block.zero

/-- Written through the handle `fat32_open_path` returns for it, the data lands in the boot
sector: the 32-bit sector number of its first cluster is 0. -/
theorem openPath_write_reaches_boot : fat32Mount (danglingFile.disk 0) = some wideGeometry ∧
    Access.write .data 0 ∈ (Session.run wideGeometry .reliable ⟨danglingFile, []⟩
      [.openPath (bytes "c.txt"), .write 0 0 (bytes "A")]).volume.trace ∧
    ((Session.run wideGeometry .reliable ⟨danglingFile, []⟩
      [.openPath (bytes "c.txt"), .write 0 0 (bytes "A")]).volume.disk 0).get 0 = 65 ∧
    (danglingFile.disk 0).get 0 = 0 :=
  ⟨(Option.some_get _).symm, by decide +kernel, by decide +kernel, by decide +kernel⟩

end Small
end Fat32
