import ArmoniOS.Fat32.WriteSafety
import ArmoniOS.Vfs.Steps

/-! Open descriptors after a successful `vfs_unlink` or `vfs_rename`. The call unmounts the nodes
at the canonical paths it names, and with them their handles. Node paths are compared byte by byte
while FAT names ignore case, so a descriptor on the removed file survives exactly when its node has
another spelling of the path. -/
namespace Vfs
open Exec Fat32 List VfsOp

section Definitions
variable (g : Geometry) (dev : Device)

def Reached (s : System) : Prop := ∃ v boot ops, s = runOps g dev (bootSystem v boot) ops

/-- The canonical path of the file a successful unlink or rename takes away. -/
def VfsOp.removed (s : System) : VfsOp → Option (List UInt8)
  | .unlink path => (vfsUnlink g dev path s).1.bind fun _ => vfsNormalizePath path
  | .rename oldPath newPath =>
      (vfsRename g dev oldPath newPath s).1.bind fun _ => vfsNormalizePath oldPath
  | _ => none

def VfsOp.named : VfsOp → List (List UInt8)
  | .unlink path => [path].filterMap vfsNormalizePath
  | .rename oldPath newPath => [oldPath, newPath].filterMap vfsNormalizePath
  | _ => []

def rootEntryOf (s : System) (path : List UInt8) : Option (ℕ × ℕ) :=
  (fat32VfsRootName path).bind fun name =>
    (fat32OpenRoot g dev name s.volume).1.map fun f => (f.dirLba, f.dirOffset)

/-- The handle stands on an adapter slot whose file is at this directory position. -/
def OnEntry (s : System) (h : OpenFile) (p : ℕ × ℕ) : Prop :=
  ∃ node slot file, s.nodeAt h.node = some node ∧ node.ops = .fat32 slot ∧
    s.fatFiles[slot]? = some file ∧ (file.dirLba, file.dirOffset) = p

/-- Reads and writes through the descriptor fail without a sector access. -/
def Dead (s : System) (pid fd : ℕ) : Prop :=
  ∀ caller : Caller, caller.pid = pid →
    (∀ capacity, ∃ t, vfsReadFd g dev caller fd capacity s = (none, t) ∧ t.volume = s.volume) ∧
    ∀ data, ∃ t, vfsWriteFd g dev caller fd data s = (none, t) ∧ t.volume = s.volume

def NotReissued (pid fd : ℕ) : System → List (Caller × VfsOp) → Prop
  | _, [] => True
  | s, x :: ops => ¬ x.2.Issues g dev x.1 s pid fd ∧
      NotReissued pid fd (x.2.step g dev x.1 s) ops

end Definitions

variable {paths : List (List UInt8)}

section Unmounting
variable {s : System} {path : List UInt8} {j k : ℕ} {h : OpenFile}

def unmountAll (s : System) (paths : List (List UInt8)) : System :=
  paths.foldl (fun s path => (vfsUnmountStatic path s).2) s

/-- Unmounting a canonical path clears the node at it, if there is one, and drops its handles. -/
theorem vfsUnmountStatic_apply (hpath : Canonical path) : (vfsUnmountStatic path s).2 =
    match vfsFindCanonical s.nodes path with
    | none => s
    | some i =>
        { s with
          openFiles := s.openFiles.map fun o => o.filter fun h => h.node ≠ i
          nodes := s.nodes.set i none } := by
  rw [vfsUnmountStatic, normalizePath_of_canonical hpath]
  simp only [bind_of_some get_apply]
  split <;> simp_all

theorem vfsUnmountStatic_adapter : (vfsUnmountStatic path s).2.fatFiles = s.fatFiles ∧
    (vfsUnmountStatic path s).2.volume = s.volume := by
  rw [vfsUnmountStatic]
  cases vfsNormalizePath path with
  | none => exact ⟨rfl, rfl⟩
  | some canonical =>
    simp only [bind_of_some get_apply]
    cases vfsFindCanonical s.nodes canonical <;> exact ⟨rfl, rfl⟩

section
variable (hs : TablesSound s)
include hs

theorem vfsUnmountStatic_nodeAt (hpath : Canonical path) :
    (vfsUnmountStatic path s).2.nodeAt k = (s.nodeAt k).filter fun node => node.path ≠ path := by
  rw [vfsUnmountStatic_apply hpath]
  split
  next hnone =>
    cases hk : s.nodeAt k with
    | none => rfl
    | some node =>
      have hne := vfsFindCanonical_none.1 hnone k node hk
      simp [Option.filter, hne]
  next i hi =>
    obtain ⟨found, hfound, hfpath⟩ := vfsFindCanonical_some hi
    by_cases hki : i = k
    · subst hki
      rw [show s.nodeAt i = some found from hfound]
      simp only [System.nodeAt, getElem?_set, if_true]
      split <;> simp [Option.filter, hfpath]
    · rw [System.nodeAt, getElem?_set_ne hki, ← System.nodeAt]
      cases hk : s.nodeAt k with
      | none => rfl
      | some node =>
        have hne : node.path ≠ path := fun heq =>
          hki (hs.nodesDistinct i k found node hfound hk (hfpath.trans heq.symm))
        simp [Option.filter, hne]

theorem vfsUnmountStatic_openAt (hpath : Canonical path) :
    (vfsUnmountStatic path s).2.openAt j = some h ↔ s.openAt j = some h ∧
      ∃ node, s.nodeAt h.node = some node ∧ node.path ≠ path := by
  rw [vfsUnmountStatic_apply hpath]
  split
  next hnone =>
    refine ⟨fun hj => ⟨hj, ?_⟩, fun hj => hj.1⟩
    obtain ⟨node, hnode⟩ := Option.isSome_iff_exists.1 (hs.backed j h hj)
    exact ⟨node, hnode, vfsFindCanonical_none.1 hnone _ node hnode⟩
  next i hi =>
    obtain ⟨found, hfound, hfpath⟩ := vfsFindCanonical_some hi
    have hfilter : System.openAt { s with
        openFiles := s.openFiles.map fun o => o.filter fun h => h.node ≠ i
        nodes := s.nodes.set i none } j = (s.openAt j).filter fun h => h.node ≠ i := by
      rw [System.openAt, System.openAt, getElem?_map]
      cases s.openFiles[j]? <;> rfl
    rw [hfilter, Option.filter_eq_some_iff, decide_eq_true_eq]
    refine and_congr_right fun hj => ?_
    obtain ⟨node, hnode⟩ := Option.isSome_iff_exists.1 (hs.backed j h hj)
    constructor
    · intro hne
      exact ⟨node, hnode, fun heq =>
        hne (hs.nodesDistinct _ _ node found hnode hfound (heq.trans hfpath.symm))⟩
    · rintro ⟨node', hnode', hne⟩ rfl
      obtain rfl : found = node' := Option.some.inj (hfound.symm.trans hnode')
      exact hne hfpath

theorem unmountAll_openAt (hpaths : ∀ path ∈ paths, Canonical path) :
    (unmountAll s paths).openAt j = some h ↔ s.openAt j = some h ∧
      ∃ node, s.nodeAt h.node = some node ∧ node.path ∉ paths := by
  induction paths generalizing s with
  | nil =>
    refine ⟨fun hj => ⟨hj, ?_⟩, fun hj => hj.1⟩
    obtain ⟨node, hnode⟩ := Option.isSome_iff_exists.1 (hs.backed j h hj)
    exact ⟨node, hnode, not_mem_nil⟩
  | cons path paths ih =>
    have hpath := hpaths path (mem_cons_self ..)
    have hsound := hs.moves (vfsUnmountStatic_moves path s .refl).1
    rw [unmountAll, foldl_cons, ← unmountAll, ih hsound fun p hp => hpaths p (mem_cons_of_mem _ hp),
      vfsUnmountStatic_openAt hs hpath, vfsUnmountStatic_nodeAt hs hpath]
    constructor
    · rintro ⟨⟨hj, -⟩, node, hnode, hrest⟩
      obtain ⟨hnode, hne⟩ := Option.filter_eq_some_iff.1 hnode
      exact ⟨hj, node, hnode, by simp at hne; simp [hne, hrest]⟩
    · rintro ⟨hj, node, hnode, hnot⟩
      rw [mem_cons, not_or] at hnot
      exact ⟨⟨hj, node, hnode, hnot.1⟩, node, by simp [hnode, Option.filter, hnot.1], hnot.2⟩

theorem unmountAll_nodeAt (hpaths : ∀ path ∈ paths, Canonical path) :
    (unmountAll s paths).nodeAt k = (s.nodeAt k).filter fun node => node.path ∉ paths := by
  induction paths generalizing s with
  | nil => cases hk : s.nodeAt k <;> simp [unmountAll, hk, Option.filter]
  | cons path paths ih =>
    have hpath := hpaths path (mem_cons_self ..)
    rw [unmountAll, foldl_cons, ← unmountAll, ih (hs.moves (vfsUnmountStatic_moves path s .refl).1)
        (fun p hp => hpaths p (mem_cons_of_mem _ hp)),
      vfsUnmountStatic_nodeAt hs hpath, Option.filter_filter]
    congr 1
    simp [not_or]

end

theorem unmountAll_adapter : (unmountAll s paths).fatFiles = s.fatFiles := by
  induction paths generalizing s with
  | nil => rfl
  | cons path paths ih =>
    rw [unmountAll, foldl_cons, ← unmountAll, ih]
    exact (@vfsUnmountStatic_adapter s path).1

end Unmounting

section Calls
variable {g : Geometry} {dev : Device} {s : System} {caller : Caller} {i pid fd : ℕ} {h : OpenFile}

theorem Reached.sound (hs : Reached g dev s) : TablesSound s := by
  obtain ⟨v, boot, ops, rfl⟩ := hs
  exact (bootSystem_sound v boot).run ops

theorem vfsFdAt_none (hnone : NoHandle caller.pid fd s) :
    ∃ t, vfsFdAt caller fd s = (none, t) ∧ t.volume = s.volume := by
  rw [vfsFdAt, run_ite]
  split
  next => exact ⟨s, rfl, rfl⟩
  next =>
    have hreap : vfsReapDeadOwners caller s = (some (), (vfsReapDeadOwners caller s).2) := rfl
    have hnone' := hnone.moves (vfsReapDeadOwners_moves s caller)
    rw [bind_of_some hreap, bind_of_some get_apply]
    have hfind : findHandle (vfsReapDeadOwners caller s).2.openFiles caller.pid fd = none :=
      findHandle_none.2 fun j k hj hc => hnone' j k hj ⟨hc.1, by exact_mod_cast hc.2⟩
    rw [hfind]
    exact ⟨_, rfl, rfl⟩

theorem NoHandle.dead (hnone : NoHandle pid fd s) : Dead g dev s pid fd := by
  rintro caller rfl
  obtain ⟨t, ht, hvolume⟩ := vfsFdAt_none hnone
  exact ⟨fun capacity => ⟨t, bind_of_none ht, hvolume⟩, fun data => ⟨t, bind_of_none ht, hvolume⟩⟩

theorem NoHandle.run {ops : List (Caller × VfsOp)} (hnone : NoHandle pid fd s)
    (hrun : NotReissued g dev pid fd s ops) : NoHandle pid fd (runOps g dev s ops) := by
  induction ops generalizing s with
  | nil => exact hnone
  | cons x ops ih => exact ih (hnone.step x.1 x.2 hrun.1) hrun.2

theorem vfsFdAt_some (hs : TablesSound s) (halive : ∀ pid, caller.alive pid = true)
    (hi : s.openAt i = some h) (hown : h.ownerPid = caller.pid) :
    vfsFdAt caller h.localFd s = (some (i, h), s) := by
  have hreap : reaped caller s = s := by
    have hkeep : s.openFiles.map (fun o => o.filter fun h => vfsOwnerIsAlive caller h.ownerPid) =
        s.openFiles := by
      refine (map_congr_left fun o _ => ?_).trans (map_id _)
      cases o <;> simp [vfsOwnerIsAlive, halive, Option.filter]
    rw [reaped, vfsReapDeadOwners, modify_apply, hkeep]
  rw [vfsFdAt_owner hs hi hown (by simp [vfsOwnerIsAlive, halive]), hreap]

end Calls

variable {v w : Volume} {t : System}

section Removal
variable {g : Geometry} {dev : Device} {s : System} {caller : Caller} {op : VfsOp}
  {path : List UInt8}

theorem lba_lt_of_updateDirSector {lba : ℕ} {edit : Sector → Sector}
    (h : updateDirSector g dev lba edit v = (some (), w)) : lba < g.totalSectors := by
  obtain ⟨_, u, hread, -⟩ := bind_eq_some h
  rw [readSector] at hread
  by_contra hlba
  rw [if_pos (by omega)] at hread
  simp at hread

theorem fat32Delete_some {name : List UInt8} (h : fat32Delete g dev name v = (some (), w)) :
    dev.writable = true ∧
      ∀ f, (fat32OpenRoot g dev name v).1 = some f → f.dirLba < g.totalSectors := by
  rw [fat32Delete, run_ite] at h
  split at h
  next => simp at h
  next hc =>
    obtain ⟨file, v₁, hopen, h⟩ := bind_eq_some h
    obtain ⟨_, v₂, -, h⟩ := bind_eq_some h
    refine ⟨by simpa using fun hw => hc (Or.inl hw), fun f hf => ?_⟩
    rw [hopen] at hf
    obtain rfl := Option.some.inj hf
    exact lba_lt_of_updateDirSector h

theorem fat32Rename_some {oldName newName : List UInt8}
    (h : fat32Rename g dev oldName newName v = (some (), w)) : dev.writable = true ∧
      ∀ f, (fat32OpenRoot g dev oldName v).1 = some f → f.dirLba < g.totalSectors := by
  rw [fat32Rename, run_ite] at h
  split at h
  next => simp at h
  next hc =>
    cases hshort : makeShortName newName with
    | none => simp [hshort] at h
    | some newShort =>
      simp only [hshort] at h
      obtain ⟨file, v₁, hopen, h⟩ := bind_eq_some h
      obtain ⟨existing, v₂, -, h⟩ := bind_eq_some h
      refine ⟨by simpa using hc, fun f hf => ?_⟩
      rw [hopen] at hf
      obtain rfl := Option.some.inj hf
      cases existing with
      | some _ => simp at h
      | none => exact lba_lt_of_updateDirSector h

theorem onFat_some {α : Type} {m : FsM α} {a : α} (h : onFat m s = (some a, t)) :
    ∃ v, m s.volume = (some a, v) ∧ t = { s with volume := v } := by
  obtain ⟨ha, rfl⟩ := Prod.ext_iff.1 h
  exact ⟨(m s.volume).2, Prod.ext ha rfl, rfl⟩

theorem vfsUnlink_some {target : List UInt8} (h : vfsUnlink g dev target s = (some (), t)) :
    ∃ path name v, vfsNormalizePath target = some path ∧ fat32VfsRootName path = some name ∧
      fat32Delete g dev name s.volume = (some (), v) ∧
      t = unmountAll { s with volume := v } [path] := by
  rw [vfsUnlink] at h
  cases hpath : vfsNormalizePath target with
  | none => simp [hpath] at h
  | some path =>
    simp only [hpath, bind_of_some get_apply, run_ite] at h
    split at h
    next => simp at h
    next =>
      obtain ⟨_, u, hdelete, h⟩ := bind_eq_some h
      rw [fat32VfsUnlinkPath] at hdelete
      cases hname : fat32VfsRootName path with
      | none => simp [hname] at hdelete
      | some name =>
        simp only [hname] at hdelete
        obtain ⟨v, hv, rfl⟩ := onFat_some hdelete
        rw [bind_of_some attempt_apply, pure_apply, Prod.mk.injEq] at h
        exact ⟨path, name, v, rfl, hname, hv, h.2.symm⟩

theorem vfsRename_some {oldPath newPath : List UInt8}
    (h : vfsRename g dev oldPath newPath s = (some (), t)) :
    ∃ old new oldName newName v, vfsNormalizePath oldPath = some old ∧
      vfsNormalizePath newPath = some new ∧ fat32VfsRootName old = some oldName ∧
      fat32VfsRootName new = some newName ∧
      fat32Rename g dev oldName newName s.volume = (some (), v) ∧
      t = unmountAll { s with volume := v } [old, new] := by
  rw [vfsRename] at h
  cases hold : vfsNormalizePath oldPath with
  | none => simp [hold] at h
  | some old =>
    cases hnew : vfsNormalizePath newPath with
    | none => simp [hold, hnew] at h
    | some new =>
      simp only [hold, hnew, bind_of_some get_apply, run_ite] at h
      split at h
      next => simp at h
      next =>
        obtain ⟨_, u, hrename, h⟩ := bind_eq_some h
        rw [fat32VfsRenamePath] at hrename
        cases hname : fat32VfsRootName old with
        | none => simp [hname] at hrename
        | some oldName =>
          cases hname' : fat32VfsRootName new with
          | none => simp [hname, hname'] at hrename
          | some newName =>
            simp only [hname, hname'] at hrename
            obtain ⟨v, hv, rfl⟩ := onFat_some hrename
            rw [bind_of_some attempt_apply, bind_of_some attempt_apply, pure_apply,
              Prod.mk.injEq] at h
            exact ⟨old, new, oldName, newName, v, rfl, rfl, hname, hname', hv, h.2.symm⟩

theorem rootEntryOf_some {name : List UInt8} {p : ℕ × ℕ} (hname : fat32VfsRootName path = some name)
    (h : rootEntryOf g dev s path = some p) :
    ∃ f, (fat32OpenRoot g dev name s.volume).1 = some f ∧ p = (f.dirLba, f.dirOffset) := by
  rw [rootEntryOf, hname, Option.bind_some] at h
  obtain ⟨f, hf, rfl⟩ := Option.map_eq_some_iff.1 h
  exact ⟨f, hf, rfl⟩

theorem VfsOp.removed_step (h : op.removed g dev s = some path) :
    ∃ v, op.step g dev caller s = unmountAll { s with volume := v } op.named ∧
      dev.writable = true ∧ ∀ p, rootEntryOf g dev s path = some p → p.1 < g.totalSectors := by
  cases op with
  | unlink target =>
    obtain ⟨_, hok, hpath⟩ := Option.bind_eq_some_iff.1 h
    obtain ⟨path', name, v, hpath', hname, hdelete, ht⟩ := vfsUnlink_some (Prod.ext hok rfl)
    obtain rfl : path = path' := Option.some.inj (hpath.symm.trans hpath')
    obtain ⟨hw, hlba⟩ := fat32Delete_some hdelete
    refine ⟨v, ?_, hw, fun p hp => ?_⟩
    · have hnamed : (unlink target).named = [path] := by simp [named, hpath]
      rw [hnamed]
      exact ht
    · obtain ⟨f, hf, rfl⟩ := rootEntryOf_some hname hp
      exact hlba f hf
  | rename oldPath newPath =>
    obtain ⟨_, hok, hpath⟩ := Option.bind_eq_some_iff.1 h
    obtain ⟨old, new, oldName, newName, v, hold, hnew, hname, -, hrename, ht⟩ :=
      vfsRename_some (Prod.ext hok rfl)
    obtain rfl : path = old := Option.some.inj (hpath.symm.trans hold)
    obtain ⟨hw, hlba⟩ := fat32Rename_some hrename
    refine ⟨v, ?_, hw, fun p hp => ?_⟩
    · have hnamed : (rename oldPath newPath).named = [path, new] := by
        simp [named, hpath, hnew]
      rw [hnamed]
      exact ht
    · obtain ⟨f, hf, rfl⟩ := rootEntryOf_some hname hp
      exact hlba f hf
  | _ => simp [removed] at h

theorem VfsOp.named_canonical : ∀ path ∈ op.named, Canonical path := by
  have hlist : ∀ paths : List (List UInt8), ∀ path ∈ paths.filterMap vfsNormalizePath,
      Canonical path := by
    intro paths path hpath
    obtain ⟨_, -, h⟩ := mem_filterMap.1 hpath
    exact canonical_of_normalizePath h
  cases op with
  | unlink | rename => exact hlist _
  | _ => exact fun _ h => absurd h not_mem_nil

end Removal

section Survivors
variable {g : Geometry} {dev : Device} {s : System} {caller : Caller} {i slot : ℕ} {h : OpenFile}
  {node : Node} {file : FileHandle}

/-- What makes a descriptor usable: its handle, its node and its adapter slot are in place, and
no process is taken for dead. -/
structure Usable (s : System) (caller : Caller) (i : ℕ) (h : OpenFile) (node : Node) (slot : ℕ)
    (file : FileHandle) : Prop where
  sound : TablesSound s
  alive : ∀ pid, caller.alive pid = true
  owner : h.ownerPid = caller.pid
  handle : s.openAt i = some h
  onNode : s.nodeAt h.node = some node
  backend : node.ops = .fat32 slot
  cached : s.fatFiles[slot]? = some file

theorem Usable.handleNode (hu : Usable s caller i h node slot file) :
    handleNode h s = (some node, s) := by
  rw [Vfs.handleNode, bind_of_some get_apply, hu.onNode]
  rfl

theorem Usable.nodeSize (hu : Usable s caller i h node slot file) :
    vfsNodeSize node s = (some file.size, s) := by
  rw [vfsNodeSize, hu.backend]
  simp only
  rw [fat32VfsStat, bind_of_some get_apply, hu.cached]
  rfl

theorem Usable.seek (hu : Usable s caller i h node slot file) : vfsSeek caller h.localFd 0 s =
      (some (), { s with openFiles := s.openFiles.set i (some { h with offset := 0 }) }) := by
  rw [vfsSeek, bind_of_some (vfsFdAt_some hu.sound hu.alive hu.handle hu.owner),
    bind_of_some hu.handleNode, bind_of_some hu.nodeSize, if_neg (Nat.not_lt_zero _)]
  rfl

theorem Usable.read (hu : Usable s caller i h node slot file) (hoffset : h.offset = 0)
    (hmode : h.flags ≠ oWronly) : (vfsReadFd g dev caller h.localFd 0 s).1 = some [] := by
  have hread : nodeRead g dev node 0 0 s = (some [], s) := by
    rw [nodeRead, hu.backend]
    simp only
    rw [fat32VfsRead, bind_of_some get_apply, hu.cached]
    simp [onFat, fat32Read]
  have hnode : readNode g dev node h.offset 0 s = (some [], s) := by
    rw [readNode, hoffset, bind_of_some hu.nodeSize, if_neg (Nat.not_lt_zero _),
      bind_of_some hread, if_pos ⟨Nat.zero_le _, le_rfl, Nat.zero_le _⟩]
    rfl
  rw [vfsReadFd, bind_of_some (vfsFdAt_some hu.sound hu.alive hu.handle hu.owner),
    bind_of_some hu.handleNode, if_neg hmode, bind_of_some hnode]
  rfl

theorem updateDirSector_touches {lba : ℕ} (hlba : lba < g.totalSectors) (edit : Sector → Sector)
    (v : Volume) : v.trace.length < (updateDirSector g dev lba edit v).2.trace.length := by
  have hwrite : ∀ (w : Volume) (buffer : Sector),
      w.trace.length ≤ (writeSector g dev .dir lba buffer w).2.trace.length := by
    intro w buffer
    rw [writeSector]
    split_ifs <;> simp
  rw [updateDirSector]
  by_cases hok : dev.readOk v.reads
  · have hread : readSector g dev lba v =
        (some (), { v with sector := v.disk lba, trace := .read lba :: v.trace }) := by
      rw [readSector, if_neg (by omega), if_pos hok]
    rw [bind_of_some hread]
    exact Nat.lt_of_lt_of_le (Nat.lt_succ_self _) (hwrite
      { v with sector := edit (v.disk lba), trace := .read lba :: v.trace } (edit (v.disk lba)))
  · have hread : readSector g dev lba v = (none, { v with trace := .read lba :: v.trace }) := by
      rw [readSector, if_neg (by omega), if_neg hok]
    rw [bind_of_none hread]
    exact Nat.lt_succ_self _

theorem fat32Write_empty_touches (hw : dev.writable = true) (hlba : file.dirLba < g.totalSectors)
    (hslot : file.dirOffset ∈ slotOffsets) :
    v.trace.length < (fat32Write g dev 0 [] (v, file)).2.1.trace.length := by
  obtain ⟨k, hk, hoff⟩ := mem_slotOffsets.1 hslot
  have hsmall : u32 (file.dirOffset + 32) = file.dirOffset + 32 := Nat.mod_eq_of_lt (by omega)
  have hguard : ¬ (dev.writable = false ∨ file.size < 0 ∨ file.capacity < 0 ∨
      g.totalSectors ≤ file.dirLba ∨ sectorSize < u32 (file.dirOffset + 32)) := by
    rw [hsmall, sectorSize, hw]
    simp
    omega
  have hdir := @updateDirSector_touches g dev file.dirLba hlba
    (fun s => s.putLe32 (file.dirOffset + 28) (u32 0)) v
  have hstore : (storeSize g dev (u32 0) (v, file)).2.1 =
      (updateDirSector g dev file.dirLba (fun s => s.putLe32 (file.dirOffset + 28) (u32 0)) v).2 := by
    rw [storeSize, bind_of_some (show currentFile (v, file) = (some file, (v, file)) from rfl),
      bind_apply, onVolume, zoom_apply]
    rcases updateDirSector g dev file.dirLba _ v with ⟨_ | _, w⟩ <;> rfl
  rw [fat32Write, bind_of_some (show currentFile (v, file) = (some file, (v, file)) from rfl),
    if_neg hguard, if_pos rfl, bind_apply]
  rw [← hstore] at hdir
  rcases hrun : storeSize g dev (u32 0) (v, file) with ⟨_ | _, w⟩ <;> rwa [hrun] at hdir

theorem Usable.write (hu : Usable s caller i h node slot file) (hoffset : h.offset = 0)
    (hmode : h.flags ≠ oRdonly) (hw : dev.writable = true) (hlba : file.dirLba < g.totalSectors)
    (hslot : file.dirOffset ∈ slotOffsets) :
    s.volume.trace.length < (vfsWriteFd g dev caller h.localFd [] s).2.volume.trace.length := by
  have hwrite : s.volume.trace.length < (nodeWrite g dev node 0 [] s).2.volume.trace.length := by
    rw [nodeWrite, hu.backend]
    simp only
    rw [fat32VfsWrite, bind_of_some get_apply, hu.cached]
    exact fat32Write_empty_touches hw hlba hslot
  have hnode : (writeNode g dev node h.offset [] s).2 = (nodeWrite g dev node 0 [] s).2 := by
    rw [writeNode, hoffset, bind_of_some hu.nodeSize, if_neg (Nat.not_lt_zero _), bind_apply]
    rcases nodeWrite g dev node 0 [] s with ⟨_ | count, t⟩
    · rfl
    · simp only [run_ite]
      split <;> rfl
  have haccess : ¬ (node.ops.hasWrite = false ∨ h.flags = oRdonly) := by
    rw [hu.backend]
    simpa [NodeOps.hasWrite] using hmode
  rw [vfsWriteFd, bind_of_some (vfsFdAt_some hu.sound hu.alive hu.handle hu.owner),
    bind_of_some hu.handleNode, if_neg haccess, bind_apply]
  rw [← hnode] at hwrite
  rcases hrun : writeNode g dev node h.offset [] s with ⟨_ | count, t⟩ <;> rwa [hrun] at hwrite

theorem Usable.not_dead (hu : Usable s caller i h node slot file) (hw : dev.writable = true)
    (hlba : file.dirLba < g.totalSectors) (hslot : file.dirOffset ∈ slotOffsets) :
    ¬ Dead g dev (step g dev caller s (.seek h.localFd 0)) h.ownerPid h.localFd := by
  intro hdead
  have hstep : step g dev caller s (.seek h.localFd 0) =
      { s with openFiles := s.openFiles.set i (some { h with offset := 0 }) } := by
    rw [step, hu.seek]
  have hrewound : Usable (step g dev caller s (.seek h.localFd 0)) caller i
      { h with offset := 0 } node slot file := by
    refine ⟨hu.sound.step caller _, hu.alive, hu.owner, ?_, ?_, hu.backend, ?_⟩
    · rw [hstep, System.openAt, openAt_set_self (lt_of_openAt hu.handle)]
    · rw [hstep]
      exact hu.onNode
    · rw [hstep]
      exact hu.cached
  obtain ⟨hread, hwrite⟩ := hdead caller hu.owner.symm
  by_cases hmode : h.flags = oWronly
  · obtain ⟨t, ht, hsame⟩ := hwrite []
    have htouch := hrewound.write rfl (by rw [hmode]; decide) hw hlba hslot
    rw [ht, hsame] at htouch
    exact lt_irrefl _ htouch
  · obtain ⟨t, ht, -⟩ := hread 0
    have hsome := @Usable.read g dev _ _ _ _ _ _ _ hrewound rfl hmode
    rw [ht] at hsome
    simp at hsome

end Survivors

/-- Take a successful unlink or rename of a FAT file in any reached state, and a descriptor open
on that file. Whatever follows, reads and writes through the descriptor fail and access no sector,
until its number is handed out again, exactly if the node it was opened on has one of the canonical
paths the call names, byte for byte. -/
theorem removed_file_descriptor_dead_iff (g : Geometry) (dev : Device) (s : System)
    (hs : Reached g dev s) (caller : Caller) (op : VfsOp) (path : List UInt8)
    (hremoved : op.removed g dev s = some path) (p : ℕ × ℕ)
    (hentry : rootEntryOf g dev s path = some p) (i : ℕ) (h : OpenFile)
    (hopen : s.openAt i = some h) (hon : OnEntry s h p) :
    (∀ after, NotReissued g dev h.ownerPid h.localFd (op.step g dev caller s) after →
      Dead g dev (runOps g dev (op.step g dev caller s) after) h.ownerPid h.localFd) ↔
    ∃ node, s.nodeAt h.node = some node ∧ node.path ∈ op.named := by
  obtain ⟨v, hstep, hw, hlba⟩ := @removed_step g dev s caller op path hremoved
  have hsound := hs.sound
  have hvolume : TablesSound { s with volume := v } := hsound.move (.fat ⟨rfl, rfl, rfl⟩)
  obtain ⟨node, slot, file, hnode, hback, hcached, rfl⟩ := hon
  have hkept : ∀ j k, (op.step g dev caller s).openAt j = some k ↔ s.openAt j = some k ∧
      ∃ node, s.nodeAt k.node = some node ∧ node.path ∉ op.named := by
    intro j k
    rw [hstep]
    exact unmountAll_openAt hvolume named_canonical
  constructor
  · intro hdead
    refine ⟨node, hnode, ?_⟩
    by_contra hnot
    have hu : Usable (op.step g dev caller s) ⟨h.ownerPid, fun _ => true⟩ i h node slot file := by
      refine ⟨hsound.step caller op, fun _ => rfl, rfl, (hkept i h).2 ⟨hopen, node, hnode, hnot⟩,
        ?_, hback, ?_⟩
      · rw [hstep]
        rw [unmountAll_nodeAt hvolume named_canonical]
        exact Option.filter_eq_some_iff.2 ⟨hnode, by simpa using hnot⟩
      · rw [hstep, unmountAll_adapter]
        exact hcached
    have hslot : file.dirOffset ∈ slotOffsets := by
      obtain ⟨name, hname, hmap⟩ := Option.bind_eq_some_iff.1 hentry
      obtain ⟨f, hf, heq⟩ := Option.map_eq_some_iff.1 hmap
      have hplaced := (@fat32OpenRoot_keeps g dev (fun _ => True) _ name s.volume trivial).2 f hf
      rw [← (Prod.mk.inj heq).2]
      exact hplaced.1.2
    refine hu.not_dead hw (hlba _ hentry) hslot
      (hdead [(⟨h.ownerPid, fun _ => true⟩, .seek h.localFd 0)] ⟨?_, trivial⟩)
    rintro ⟨_, _, heq, -⟩
    cases heq
  · rintro ⟨node', hnode', hnamed⟩ after hafter
    refine NoHandle.dead (NoHandle.run (fun j k hj hc => ?_) hafter)
    obtain ⟨hk, found, hfound, hnot⟩ := (hkept j k).1 hj
    obtain rfl : i = j := hsound.handlesDistinct i j h k hopen hk hc.1.symm hc.2.symm
    obtain rfl : h = k := Option.some.inj (hopen.symm.trans hk)
    obtain rfl : node' = found := Option.some.inj (hnode'.symm.trans hfound)
    exact hnot hnamed

section Small
open SmallVolume

def user : Caller := ⟨1, fun _ => true⟩

def opened (path : String) : System :=
  runOps geometry .reliable (bootSystem twoFiles []) [(user, .openFlags (bytes path) oRdwr)]

/-- The same after `/fat/a.txt` was unlinked. -/
def unlinked (path : String) : System :=
  (unlink (bytes "/fat/a.txt")).step geometry .reliable user (opened path)

theorem opened_onEntry (path : String) (hnode : (opened path).nodeAt 0 =
    some ⟨bytes path, 5, .fat32 0⟩) (hfile : (opened path).fatFiles[0]? = some ⟨3, 2, 0, 512, 5⟩) :
    OnEntry (opened path) ⟨0, 0, oRdwr, 1, 0⟩ (2, 0) :=
  ⟨_, 0, _, hnode, rfl, hfile, rfl⟩

theorem unlink_ends_same_path_descriptor :
    (unlink (bytes "/fat/a.txt")).removed geometry .reliable (opened "/fat/a.txt") =
      some (bytes "/fat/a.txt") ∧
    ∀ after, NotReissued geometry .reliable 1 0 (unlinked "/fat/a.txt") after →
      Dead geometry .reliable (runOps geometry .reliable (unlinked "/fat/a.txt") after) 1 0 := by
  have hremoved : (unlink (bytes "/fat/a.txt")).removed geometry .reliable
      (opened "/fat/a.txt") = some (bytes "/fat/a.txt") := by decide +kernel
  have hnode : (opened "/fat/a.txt").nodeAt 0 = some ⟨bytes "/fat/a.txt", 5, .fat32 0⟩ := by
    decide +kernel
  have hopen : (opened "/fat/a.txt").openAt 0 = some ⟨0, 0, oRdwr, 1, 0⟩ := by decide +kernel
  have hentry : rootEntryOf geometry .reliable (opened "/fat/a.txt") (bytes "/fat/a.txt") =
      some (2, 0) := by decide +kernel
  have hnamed : bytes "/fat/a.txt" ∈ (unlink (bytes "/fat/a.txt")).named := by decide +kernel
  exact ⟨hremoved, (removed_file_descriptor_dead_iff geometry .reliable (opened "/fat/a.txt")
    ⟨twoFiles, [], _, rfl⟩ user _ _ hremoved (2, 0) hentry 0 ⟨0, 0, oRdwr, 1, 0⟩ hopen
    (opened_onEntry _ hnode (by decide +kernel))).2 ⟨_, hnode, hnamed⟩⟩

/-- A descriptor on `/fat/A.TXT` outlives the unlink of `/fat/a.txt`: it reads cluster 3, which is
free by then. -/
theorem unlink_leaves_other_spelling_readable :
    (unlink (bytes "/fat/a.txt")).removed geometry .reliable (opened "/fat/A.TXT") =
      some (bytes "/fat/a.txt") ∧
    rootEntryOf geometry .reliable (opened "/fat/A.TXT") (bytes "/fat/a.txt") = some (2, 0) ∧
    (opened "/fat/A.TXT").openAt 0 = some ⟨0, 0, oRdwr, 1, 0⟩ ∧
    OnEntry (opened "/fat/A.TXT") ⟨0, 0, oRdwr, 1, 0⟩ (2, 0) ∧
    fatValue geometry (unlinked "/fat/A.TXT").volume.disk 3 = 0 ∧
    (vfsReadFd geometry .reliable user 0 5 (unlinked "/fat/A.TXT")).1 = some (replicate 5 0) ∧
    (vfsReadFd geometry .reliable user 0 5 (unlinked "/fat/A.TXT")).2.volume.trace =
      .read 3 :: (unlinked "/fat/A.TXT").volume.trace :=
  ⟨by decide +kernel, by decide +kernel, by decide +kernel,
    opened_onEntry _ (by decide +kernel) (by decide +kernel), by decide +kernel⟩

end Small
end Vfs
