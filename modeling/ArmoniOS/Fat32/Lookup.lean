import ArmoniOS.Fat32.Chain

/-! The two name lookups, `fat32_open_root` and `fat32_lookup_path`, as functions of the image,
and where they agree. -/
namespace Fat32
open Exec ByteBlock

section Search
variable {α β : Type} (live pick : Slot → Bool) (k : Slot → Option α)

/-- The entry loop of a name search: stop at the end marker, skip what is not picked. -/
def searchStep (p : Slot) (_ : Unit) : Option (Visit Unit α) :=
  if live p then if pick p then (k p).map .done else some (.next ()) else none

/-- What a search returns; leaving the loop without a hit is a failure. -/
def Visit.result : Visit β α → Option α
  | .done a => some a
  | .next _ => none

theorem foldSlots_search (ps : List Slot) :
    (foldSlots (searchStep live pick k) ps ()).bind Visit.result =
      ((ps.takeWhile live).find? pick).bind k := by
  induction ps with
  | nil => rfl
  | cons p ps ih =>
    simp only [foldSlots, searchStep, List.takeWhile_cons]
    cases live p with
    | false => rfl
    | true =>
      cases hp : pick p with
      | false => simpa [hp] using ih
      | true => cases hk : k p <;> simp [hp, hk, Visit.result]

theorem scanImage_search (g : Geometry) (d : Disk) (start : ℕ) :
    (scanImage g d (searchStep live pick k) start ()).bind Visit.result =
      (((dirSlots g d start).takeWhile live).find? pick).bind k := by
  rw [← foldSlots_search, scanImage]
  rcases foldSlots (searchStep live pick k) (dirSlots g d start) () with _ | ⟨_ | a⟩
  · rfl
  · cases (walk g d g.clusterCount start).2 <;> rfl
  · rfl

end Search

theorem mark_dirEntryAt (s : Sector) (o : ℕ) : (dirEntryAt s o).mark = s.get o := by
  simp [DirEntry.mark, dirEntryAt, Block.slice]

def DirEntry.Hidden (e : DirEntry) : Prop :=
  e.mark = deletedMark ∨ e.attr = attrLongName ∨ e.isVolumeId ∨ e.isDot
deriving Decidable

variable (g : Geometry)

def liveSlots (d : Disk) (start : ℕ) : List Slot :=
  (dirSlots g d start).takeWhile fun p => (entryAt d p).mark ≠ 0

/-- A live entry that is neither deleted nor part of a long name, with the given short name. -/
def DirEntry.Named (wanted : List UInt8) (e : DirEntry) : Prop :=
  e.mark ≠ deletedMark ∧ e.attr ≠ attrLongName ∧ e.name = wanted
deriving Decidable

/-- The entry `fat32_open_root` selects: directories are passed over. -/
def rootChoice (d : Disk) (wanted : List UInt8) : Option Slot :=
  (liveSlots g d g.rootCluster).find? fun p =>
    (entryAt d p).Named wanted ∧ ¬ (entryAt d p).isDirectory

/-- The entry `dir_find_entry` selects: volume labels are passed over. -/
def pathChoice (d : Disk) (start : ℕ) (wanted : List UInt8) : Option Slot :=
  (liveSlots g d start).find? fun p =>
    (entryAt d p).Named wanted ∧ ¬ (entryAt d p).isVolumeId

/-- What `fat32_open_root` makes of the selected entry `e` at `p`. -/
def openEntry (d : Disk) (e : DirEntry) (p : Slot) : Option FileHandle :=
  if e.size ≠ 0 ∧ e.firstCluster < 2 then none
  else if 2 ≤ e.firstCluster then
    (capacity g d e.firstCluster).bind fun k =>
      if k < e.size then none else some ⟨e.firstCluster, p.1, p.2, k, e.size⟩
  else some ⟨e.firstCluster, p.1, p.2, 0, e.size⟩

/-- What `dir_fill_info` makes of the entry `e` at `p`. -/
def fillInfo (d : Disk) (e : DirEntry) (p : Slot) : Option PathInfo :=
  if e.isDirectory then
    if g.clusterIsData e.firstCluster then
      some ⟨e.firstCluster, p.1, p.2, 0, e.size, e.attr⟩
    else none
  else if e.size ≠ 0 ∧ ¬ g.clusterIsData e.firstCluster then none
  else if g.clusterIsData e.firstCluster then
    (capacity g d e.firstCluster).bind fun k =>
      if k < e.size then none else some ⟨e.firstCluster, p.1, p.2, k, e.size, e.attr⟩
  else some ⟨e.firstCluster, p.1, p.2, 0, e.size, e.attr⟩

def openRootImage (d : Disk) (name : List UInt8) : Option FileHandle :=
  (makeShortName name).bind fun wanted => (rootChoice g d wanted).bind fun p =>
    openEntry g d (entryAt d p) p

def findEntryImage (d : Disk) (start : ℕ) (component : List UInt8) : Option PathInfo :=
  if g.clusterIsData start then
    (dirMakeShortName component).bind fun wanted =>
      (pathChoice g d start wanted).bind fun p => fillInfo g d (entryAt d p) p
  else none

def lookupImageFrom (d : Disk) : (fuel : ℕ) → (cursor : List UInt8) → (start : ℕ) → Option PathInfo
  | 0, _, _ => none
  | fuel + 1, cursor, start =>
      (dirNextComponent cursor).bind fun (component, rest) =>
        (findEntryImage g d start component).bind fun current =>
          if rest = [] then some current
          else if current.attributes &&& attrDirectory = 0 ∨
              ¬ g.clusterIsData current.firstCluster then none
          else lookupImageFrom d fuel rest current.firstCluster

def lookupImage (d : Disk) (path : List UInt8) : Option PathInfo :=
  let cursor := path.dropWhile (· = charSlash)
  if cursor = [] then some ⟨g.rootCluster, 0, 0, 0, 0, attrDirectory⟩
  else lookupImageFrom g d path.length cursor g.rootCluster

def openPathImage (d : Disk) (path : List UInt8) : Option FileHandle :=
  (lookupImage g d path).bind fun info =>
    if info.attributes &&& attrDirectory ≠ 0 then none
    else some ⟨info.firstCluster, info.dirLba, info.dirOffset, info.capacity, info.size⟩

/-- The slot `find_free_dir_entry` takes. -/
def freeSlot (d : Disk) : Option Slot :=
  (dirSlots g d g.rootCluster).find? fun p =>
    (entryAt d p).mark = 0 ∨ (entryAt d p).mark = deletedMark

section Visits
variable {α : Type}

def searchVisit (pick : DirEntry → Prop) [DecidablePred pick] (act : DirEntry → ℕ → ℕ → FsM α)
    (lba offset : ℕ) (_ : Unit) : FsM (Visit Unit α) := do
  let sector ← currentSector
  let e := dirEntryAt sector offset
  if e.mark = 0 then fail
  else if pick e then do
    let a ← act e lba offset
    pure (.done a)
  else pure (.next ())

theorem searchVisit_visitsAs (pick : DirEntry → Prop) [DecidablePred pick]
    {act : DirEntry → ℕ → ℕ → FsM α} {k : Disk → DirEntry → Slot → Option α}
    (hact : ∀ e p, Reads (act e p.1 p.2) fun d => k d e p) (d : Disk) (p : Slot) (b : Unit) :
    VisitsAs (searchVisit pick act) d
      (searchStep (fun p => (entryAt d p).mark ≠ 0) (fun p => pick (entryAt d p))
        fun p => k d (entryAt d p) p) p b := by
  intro v hd he
  unfold searchVisit
  rw [bind_of_some (currentSector_apply v)]
  simp only [he, searchStep]
  by_cases h0 : (entryAt d p).mark = 0
  · simp [h0, Volume.Quiet.refl]
  · by_cases hk : pick (entryAt d p)
    · obtain ⟨h1, h2⟩ := (Reads.bind (hact (entryAt d p) p) fun a =>
        .pure (Visit.done (β := Unit) a)) v
      simp only [h0, hk, if_false, ne_eq, not_false_eq_true, decide_true, if_true]
      refine ⟨?_, h2, ?_⟩
      · rw [h1, hd]
        dsimp only
        cases k d (entryAt d p) p <;> rfl
      · intro b' hb'
        cases hk : k d (entryAt d p) p <;> simp [hk] at hb'
    · simp [h0, hk, Volume.Quiet.refl]

end Visits

section Reads
variable {dev : Device}

theorem openRootVisit_eq (wanted : List UInt8) : openRootVisit g dev wanted =
      searchVisit (fun e => e.Named wanted ∧ ¬ e.isDirectory) (openRootEntry g dev) := by
  funext lba offset _ v
  unfold openRootVisit searchVisit
  rw [bind_of_some (currentSector_apply v), bind_of_some (currentSector_apply v)]
  generalize dirEntryAt v.sector offset = e
  by_cases h0 : e.mark = 0
  · rw [if_pos h0, if_pos h0]
  · rw [if_neg h0, if_neg h0]
    by_cases h1 : e.mark = deletedMark ∨ e.attr = attrLongName ∨ e.isDirectory
    · rw [if_pos h1, if_neg fun h => by unfold DirEntry.Named at h; tauto]
    · rw [if_neg h1]
      by_cases h2 : e.name = wanted
      · rw [if_neg (not_not.mpr h2), if_pos (by unfold DirEntry.Named; tauto)]
      · rw [if_pos h2, if_neg fun h => h2 h.1.2.2]

theorem dirFindVisit_eq (wanted : List UInt8) : dirFindVisit g dev wanted =
      searchVisit (fun e => e.Named wanted ∧ ¬ e.isVolumeId) (dirFillInfo g dev) := by
  funext lba offset _ v
  unfold dirFindVisit searchVisit
  rw [bind_of_some (currentSector_apply v), bind_of_some (currentSector_apply v)]
  generalize dirEntryAt v.sector offset = e
  by_cases h0 : e.mark = 0
  · rw [if_pos h0, if_pos h0]
  · rw [if_neg h0, if_neg h0]
    by_cases h1 : e.mark = deletedMark ∨ e.attr = attrLongName ∨ e.isVolumeId
    · rw [if_pos h1, if_neg fun h => by unfold DirEntry.Named at h; tauto]
    · rw [if_neg h1]
      by_cases h2 : e.name = wanted
      · rw [if_pos h2, if_pos (by unfold DirEntry.Named; tauto)]
      · rw [if_neg h2, if_neg fun h => h2 h.1.2.2]

theorem result_reads {α β : Type} {ret : Visit β α → FsM α} (hdone : ∀ a, ret (.done a) = pure a)
    (hnext : ∀ b, ret (.next b) = fail) (r : Visit β α) : Reads (ret r) fun _ => r.result := by
  cases r with
  | next b => exact hnext b ▸ .fail
  | done a => exact hdone a ▸ .pure a

theorem findFreeVisit_visitsAs (d : Disk) (p : Slot) (b : Unit) : VisitsAs findFreeVisit d
      (searchStep (fun _ => true)
        (fun p => (entryAt d p).mark = 0 ∨ (entryAt d p).mark = deletedMark) some) p b := by
  intro v _ hs
  have he : v.sector.get p.2 = (entryAt d p).mark := by rw [← hs, mark_dirEntryAt]
  unfold findFreeVisit
  rw [bind_of_some (currentSector_apply v)]
  simp only [he, searchStep]
  by_cases h : (entryAt d p).mark = 0 ∨ (entryAt d p).mark = deletedMark
  · simp [h, Volume.Quiet.refl]
  · simp [h, Volume.Quiet.refl]

variable (hr : dev.ReadsOk)
include hr

theorem dirFillInfo_reads (e : DirEntry) (p : Slot) :
    Reads (dirFillInfo g dev e p.1 p.2) fun d => fillInfo g d e p :=
  .ite (.ite (.pure _) .fail) (.ite .fail (.ite
    (.bind (fileChainCapacity_reads g hr _) fun _ => .ite .fail (.pure _))
    (.pure _)))

theorem search_reads {α : Type} (pick : DirEntry → Prop) [DecidablePred pick]
    {act : DirEntry → ℕ → ℕ → FsM α} {k : Disk → DirEntry → Slot → Option α}
    (hact : ∀ e p, Reads (act e p.1 p.2) fun d => k d e p) (start : ℕ)
    {ret : Visit (ℕ × Unit) α → FsM α} (hdone : ∀ a, ret (.done a) = pure a)
    (hnext : ∀ b, ret (.next b) = fail) :
    Reads (scanDirectory g dev (searchVisit pick act) start () >>= ret) fun d =>
      ((liveSlots g d start).find? fun p => pick (entryAt d p)).bind fun p =>
        k d (entryAt d p) p :=
  (Reads.bind (scanDirectory_reads g hr (searchVisit_visitsAs pick hact) start ())
    (result_reads hdone hnext)).congr fun d => scanImage_search _ _ _ g d start

theorem fat32OpenRoot_reads (name : List UInt8) :
    Reads (fat32OpenRoot g dev name) fun d => openRootImage g d name := by
  unfold fat32OpenRoot openRootImage
  cases makeShortName name with
  | none => exact .fail
  | some wanted =>
    simp only [openRootVisit_eq]
    exact search_reads g hr _ (fun e p => .ite .fail (.ite
      (.bind (fileChainCapacity_reads g hr _) fun _ => .ite .fail (.pure _)) (.pure _)))
      _ (fun _ => rfl) fun _ => rfl

theorem dirFindEntry_reads (start : ℕ) (component : List UInt8) :
    Reads (dirFindEntry g dev start component) fun d => findEntryImage g d start component := by
  refine .ite ?_ .fail
  cases dirMakeShortName component with
  | none => exact .fail
  | some wanted =>
    simp only [dirFindVisit_eq]
    exact search_reads g hr _ (dirFillInfo_reads g hr) _ (fun _ => rfl) fun _ => rfl

theorem lookupFrom_reads (fuel : ℕ) (cursor : List UInt8) (start : ℕ) :
    Reads (lookupFrom g dev fuel cursor start) fun d => lookupImageFrom g d fuel cursor start := by
  induction fuel generalizing cursor start with
  | zero => exact .fail
  | succ n ih =>
    unfold lookupFrom lookupImageFrom
    rcases dirNextComponent cursor with _ | ⟨component, rest⟩
    · exact .fail
    · exact .bind (dirFindEntry_reads g hr start component) fun current =>
        .ite (.pure current) (.ite .fail (ih rest _))

theorem fat32LookupPath_reads (path : List UInt8) :
    Reads (fat32LookupPath g dev path) fun d => lookupImage g d path := by
  exact .ite (.pure _) (lookupFrom_reads g hr _ _ _)

theorem fat32OpenPath_reads (path : List UInt8) :
    Reads (fat32OpenPath g dev path) fun d => openPathImage g d path :=
  .bind (fat32LookupPath_reads g hr path) fun _ => .ite .fail (.pure _)

theorem findFreeDirEntry_reads : Reads (findFreeDirEntry g dev) fun d => freeSlot g d := by
  refine (Reads.bind (scanDirectory_reads g hr findFreeVisit_visitsAs g.rootCluster ())
    (result_reads (fun _ => rfl) fun _ => rfl)).congr fun d => ?_
  rw [scanImage_search, freeSlot, List.takeWhile_eq_self_iff.mpr (by simp)]
  exact Option.bind_fun_some _

end Reads
end Fat32
