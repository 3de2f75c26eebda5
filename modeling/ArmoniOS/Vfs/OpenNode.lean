import ArmoniOS.Fat32.Lookup
import ArmoniOS.Vfs.Tables

/-! The first open of a FAT path: the adapter looks the file up, takes the next slot for its handle
and registers a node for the path. -/
namespace Vfs
open Exec Fat32 List

/-- The path has no node yet, and an adapter slot and a node slot are free. -/
def System.HasRoom (s : System) (path : List UInt8) : Prop :=
  vfsFindCanonical s.nodes path = none ∧ s.fatFiles.length < maxFatFiles ∧
    0 < vfsFreeNodeCount s.nodes
deriving Decidable

section Nodes
variable {s : System} {nodes : List (Option Node)} {node : Node}

theorem vfsFreeNodeCount_pos (hlen : nodes.length ≤ maxNodes) :
    0 < vfsFreeNodeCount nodes ↔ ∃ i, vfsFindFreeNode nodes = some i := by
  rw [vfsFreeNodeCount, vfsFindFreeNode]
  cases hfind : nodes.findIdx? (·.isNone) with
  | some i =>
    obtain ⟨hi, hnone, -⟩ := findIdx?_eq_some_iff_getElem.1 hfind
    refine iff_of_true ?_ ⟨i, rfl⟩
    have hlt : (nodes.filter (·.isSome)).length < nodes.length := by
      refine (length_filter_lt_length_iff_exists).2 ⟨nodes[i], getElem_mem hi, ?_⟩
      simpa using hnone
    omega
  | none =>
    have hall := filter_eq_self.2 fun o ho => by
      have := findIdx?_eq_none_iff.1 hfind o ho
      simpa using this
    rw [hall]
    simp only
    split
    next hlt => exact iff_of_true (by omega) ⟨_, rfl⟩
    next hge => exact iff_of_false (by omega) (by simp)

theorem vfsMountStatic_single (hlen : s.nodes.length ≤ maxNodes) (hpath : Canonical node.path)
    (hnew : vfsFindCanonical s.nodes node.path = none) :
    (vfsFreeNodeCount s.nodes = 0 ∧ vfsMountStatic [node] s = (none, s)) ∨
    ∃ i, vfsFindFreeNode s.nodes = some i ∧
      vfsMountStatic [node] s = (some (), { s with nodes := setNode s.nodes i node }) := by
  have hnormal := normalizePath_of_canonical hpath
  have hmount : vfsMountable s.nodes [] [node] = true := by
    rw [vfsMountable, hnormal, decide_eq_true_eq]
    exact ⟨hnew, not_mem_nil, rfl⟩
  rcases Nat.eq_zero_or_pos (vfsFreeNodeCount s.nodes) with hzero | hpos
  · refine .inl ⟨hzero, ?_⟩
    rw [vfsMountStatic, bind_of_some get_apply, if_pos (.inr (.inl (by simp [hzero])))]
    rfl
  · obtain ⟨i, hi⟩ := (vfsFreeNodeCount_pos hlen).1 hpos
    refine .inr ⟨i, hi, ?_⟩
    have hplace : vfsPlaceNode node s = (some (), { s with nodes := setNode s.nodes i node }) := by
      rw [vfsPlaceNode, bind_of_some get_apply, hi, hnormal]
      rfl
    have hguard : ¬ ([node] = [] ∨ vfsFreeNodeCount s.nodes < [node].length ∨
        vfsMountable s.nodes [] [node] = false) := by
      simp [hmount]
      omega
    rw [vfsMountStatic, bind_of_some get_apply, if_neg hguard, forEach_cons, bind_of_some hplace]
    rfl

theorem vfsFindCanonical_setNode {i : ℕ} (hfree : vfsFindFreeNode nodes = some i)
    (hnew : vfsFindCanonical nodes node.path = none) :
    vfsFindCanonical (setNode nodes i node) node.path = some i := by
  have hi : i ≤ nodes.length := by have := vfsFindFreeNode_some hfree; omega
  cases hfind : vfsFindCanonical (setNode nodes i node) node.path with
  | none =>
    exact absurd rfl (vfsFindCanonical_none.1 hfind i node (by rw [setNode_at hi, if_pos rfl]))
  | some j =>
    obtain ⟨found, hfound, hpath⟩ := vfsFindCanonical_some hfind
    rw [setNode_at hi] at hfound
    split at hfound
    next hji => rw [hji]
    next => exact absurd hpath (vfsFindCanonical_none.1 hnew j found hfound)

end Nodes

section Materialise
variable {g : Geometry} {dev : Device} {s : System} {path relative : List UInt8} {f : FileHandle}
  {flags : UInt32}

def System.withFile (s : System) (v : Volume) (i : ℕ) (path : List UInt8) (f : FileHandle) :
    System :=
  { s with
    volume := v
    fatFiles := s.fatFiles ++ [f]
    nodes := setNode s.nodes i ⟨path, f.size, .fat32 s.fatFiles.length⟩ }

theorem withFile_nodeAt {v : Volume} {i : ℕ} (hi : vfsFindFreeNode s.nodes = some i) :
    (s.withFile v i path f).nodeAt i = some ⟨path, f.size, .fat32 s.fatFiles.length⟩ := by
  have hle : i ≤ s.nodes.length := by have := vfsFindFreeNode_some hi; omega
  rw [System.nodeAt, System.withFile, setNode_at hle, if_pos rfl]

theorem onFat_reads {α : Type} {m : FsM α} {k : Disk → Option α} (hm : Reads m k) (s : System) :
    ∃ v, s.volume.Quiet v ∧ onFat m s = (k s.volume.disk, { s with volume := v }) := by
  obtain ⟨himage, hq⟩ := hm s.volume
  exact ⟨_, hq, Prod.ext himage rfl⟩

theorem fat32MountVfsFile_apply (hr : dev.ReadsOk) (hlen : s.nodes.length ≤ maxNodes)
    (hpath : Canonical path) (hnew : vfsFindCanonical s.nodes path = none) :
    ((∀ f, openPathImage g s.volume.disk relative = some f → ¬ s.HasRoom path) ∧
      ∃ v, s.volume.Quiet v ∧
        fat32MountVfsFile g dev path relative s = (none, { s with volume := v })) ∨
    ∃ f, openPathImage g s.volume.disk relative = some f ∧ s.HasRoom path ∧
      ∃ v i, s.volume.Quiet v ∧ vfsFindFreeNode s.nodes = some i ∧
        fat32MountVfsFile g dev path relative s = (some (), s.withFile v i path f) := by
  have hhead : path.head? = some charSlash := by
    obtain ⟨cs, -, rfl, -⟩ := hpath
    cases cs <;> rfl
  rw [fat32MountVfsFile, bind_of_some get_apply]
  by_cases hslots : maxFatFiles ≤ s.fatFiles.length
  · rw [if_pos (.inr hslots)]
    exact .inl ⟨fun _ _ hroom => absurd hroom.2.1 (by omega), s.volume, .refl _, rfl⟩
  · rw [if_neg (by simp [hhead]; omega)]
    obtain ⟨v, hq, hopen⟩ := onFat_reads (fat32OpenPath_reads g hr relative) s
    cases himage : openPathImage g s.volume.disk relative with
    | none =>
      rw [himage] at hopen
      exact .inl ⟨by simp, v, hq, bind_of_none hopen⟩
    | some f =>
      rw [himage] at hopen
      rw [bind_of_some hopen]
      have hmount := @vfsMountStatic_single { s with volume := v }
        ⟨path, f.size, .fat32 s.fatFiles.length⟩ hlen hpath hnew
      rcases hmount with ⟨hzero, hfail⟩ | ⟨i, hi, hplace⟩
      · refine .inl ⟨fun _ _ hroom => ?_, v, hq, bind_of_none hfail⟩
        have hpos := hroom.2.2
        have hzero : vfsFreeNodeCount s.nodes = 0 := hzero
        omega
      · have hpos := (vfsFreeNodeCount_pos hlen).2 ⟨i, hi⟩
        exact .inr ⟨f, rfl, ⟨hnew, by omega, hpos⟩, v, i, hq, hi, by rw [bind_of_some hplace]; rfl⟩

theorem vfsFindMountForPath_fat (hne : relative ≠ []) :
    vfsFindMountForPath [fatRootPath] (fatRootPath ++ charSlash :: relative) = some 0 := by
  simp [vfsFindMountForPath, vfsPathIsMountChild_fat hne]

theorem vfsOpenNode_cached {i : ℕ} (hfind : vfsFindCanonical s.nodes path = some i) :
    vfsOpenNode g dev path flags s = (some i, s) := by
  rw [vfsOpenNode, bind_of_some get_apply, hfind]
  rfl

/-- The path has no node, so the mount is asked to open `relative`. -/
def System.Asks (s : System) (path relative : List UInt8) : Prop :=
  vfsFindCanonical s.nodes path = none ∧ vfsFindMountForPath s.mounts path ≠ none ∧
    fat32VfsRelativePath path = some relative ∧ relative ≠ []

theorem vfsOpenNode_unasked (hnew : vfsFindCanonical s.nodes path = none)
    (h : ∀ relative, ¬ s.Asks path relative) : vfsOpenNode g dev path flags s = (none, s) := by
  rw [vfsOpenNode, bind_of_some get_apply, hnew]
  by_cases hmount : vfsFindMountForPath s.mounts path = none
  · simp only [if_pos hmount]
    rfl
  · simp only [if_neg hmount]
    apply bind_of_none
    rw [fat32VfsOpenPath]
    cases hrel : fat32VfsRelativePath path with
    | none => rfl
    | some relative =>
      have hempty : relative = [] := by
        by_contra hne
        exact h relative ⟨hnew, hmount, hrel, hne⟩
      simp only [if_pos hempty]
      rfl

theorem vfsOpenNode_refused {t : System} (h : s.Asks path relative)
    (hensure : fat32VfsEnsure g dev path relative flags s = (none, t)) :
    vfsOpenNode g dev path flags s = (none, t) := by
  obtain ⟨hnew, hmount, hrel, hne⟩ := h
  rw [vfsOpenNode, bind_of_some get_apply, hnew]
  simp only [if_neg hmount]
  apply bind_of_none
  rw [fat32VfsOpenPath, hrel]
  simp only [if_neg hne]
  exact bind_of_none hensure

section
variable (hr : dev.ReadsOk)
include hr

theorem vfsOpenNode_ensured (hlen : s.nodes.length ≤ maxNodes) (hpath : Canonical path)
    (h : s.Asks path relative) {u : Volume}
    (hensure : fat32VfsEnsure g dev path relative flags s = (some (), { s with volume := u })) :
    ((∀ f, openPathImage g u.disk relative = some f → ¬ s.HasRoom path) ∧ ∃ v, u.Quiet v ∧
      vfsOpenNode g dev path flags s = (none, { s with volume := v })) ∨
    ∃ f, openPathImage g u.disk relative = some f ∧ s.HasRoom path ∧
      ∃ v i, u.Quiet v ∧ vfsFindFreeNode s.nodes = some i ∧
        vfsOpenNode g dev path flags s = (some i, s.withFile v i path f) := by
  obtain ⟨hnew, hmount, hrel, hne⟩ := h
  have hcase := @fat32MountVfsFile_apply g dev { s with volume := u } path relative hr hlen hpath hnew
  have hopenPath : fat32VfsOpenPath g dev path flags s =
      fat32MountVfsFile g dev path relative { s with volume := u } := by
    rw [fat32VfsOpenPath, hrel]
    simp only [if_neg hne]
    rw [bind_of_some hensure]
  rw [vfsOpenNode, bind_of_some get_apply, hnew]
  simp only [if_neg hmount]
  rcases hcase with ⟨hfull, v, hv, hfail⟩ | ⟨f, himage, hroom, v, i, hv, hi, hdone⟩
  · exact .inl ⟨hfull, v, hv, bind_of_none (hopenPath.trans hfail)⟩
  · refine .inr ⟨f, himage, hroom, v, i, hv, hi, ?_⟩
    have hfind := @vfsFindCanonical_setNode s.nodes ⟨path, f.size, .fat32 s.fatFiles.length⟩ i hi hnew
    rw [bind_of_some (hopenPath.trans hdone), bind_of_some get_apply]
    simp only [System.withFile, hfind]
    rfl

theorem fat32VfsEnsure_found (himage : openPathImage g s.volume.disk relative = some f) :
    ∃ u, s.volume.Quiet u ∧
      fat32VfsEnsure g dev path relative flags s = (some (), { s with volume := u }) := by
  obtain ⟨u, hu, hopen⟩ := onFat_reads (fat32OpenPath_reads g hr relative) s
  refine ⟨u, hu, ?_⟩
  rw [fat32VfsEnsure, bind_of_some attempt_apply, hopen, himage]
  rfl

theorem fat32VfsEnsure_missing (himage : openPathImage g s.volume.disk relative = none) :
    ∃ u, s.volume.Quiet u ∧
      (fat32VfsEnsure g dev path relative flags s = (none, { s with volume := u }) ∨
        flags &&& oCreat ≠ 0 ∧ ∃ name, fat32VfsEnsure g dev path relative flags s =
          ((fat32Create g dev name u).1.map fun _ => (),
            { s with volume := (fat32Create g dev name u).2 })) := by
  obtain ⟨u, hu, hopen⟩ := onFat_reads (fat32OpenPath_reads g hr relative) s
  refine ⟨u, hu, ?_⟩
  rw [fat32VfsEnsure, bind_of_some attempt_apply, hopen, himage]
  by_cases hflags : flags &&& oCreat = 0
  · simp only [if_pos hflags]
    exact .inl rfl
  · simp only [if_neg hflags]
    cases fat32VfsRootName path with
    | none => exact .inl rfl
    | some name =>
      refine .inr ⟨hflags, name, ?_⟩
      have hrun : onFat (fat32Create g dev name) { s with volume := u } =
          ((fat32Create g dev name u).1, { s with volume := (fat32Create g dev name u).2 }) := rfl
      generalize fat32Create g dev name u = created at hrun
      obtain ⟨_ | f, w⟩ := created
      · exact bind_of_none hrun
      · exact bind_of_some hrun

theorem vfsOpenNode_new (hlen : s.nodes.length ≤ maxNodes) (hpath : Canonical path)
    (hmounts : s.mounts = [fatRootPath]) (hnew : vfsFindCanonical s.nodes path = none)
    (hrel : fat32VfsRelativePath path = some relative) (hne : relative ≠ [])
    (himage : openPathImage g s.volume.disk relative = some f) :
    (¬ s.HasRoom path ∧ ∃ v, s.volume.Quiet v ∧
      vfsOpenNode g dev path flags s = (none, { s with volume := v })) ∨
    (s.HasRoom path ∧ ∃ v i, s.volume.Quiet v ∧ vfsFindFreeNode s.nodes = some i ∧
      vfsOpenNode g dev path flags s = (some i, s.withFile v i path f)) := by
  have hmount : vfsFindMountForPath s.mounts path ≠ none := by
    rw [hmounts, fat32VfsRelativePath_some hrel hne, vfsFindMountForPath_fat hne]
    simp
  obtain ⟨u, hu, hensure⟩ := @fat32VfsEnsure_found g dev s path relative f flags hr himage
  rw [← hu.1] at himage
  rcases vfsOpenNode_ensured hr hlen hpath ⟨hnew, hmount, hrel, hne⟩ hensure with
    ⟨hfull, v, hv, hfail⟩ | ⟨f', himage', hroom, v, i, hv, hi, hdone⟩
  · exact .inl ⟨hfull f himage, v, hu.trans hv, hfail⟩
  · obtain rfl : f = f' := Option.some.inj (himage.symm.trans himage')
    exact .inr ⟨hroom, v, i, hu.trans hv, hi, hdone⟩

end

end Materialise

section Idle
variable {s : System} {i : ℕ} {node : Node}

/-- With no descriptor open the second half of `vfs_open_flags` only checks the access mode. -/
theorem vfsOpenDescriptor_idle (hpool : s.openFiles.length = maxGlobalOpenFiles)
    (hidle : ∀ j, s.openAt j = none) (hnode : s.nodeAt i = some node) (caller : Caller)
    (mode : UInt32) : (vfsOpenDescriptor caller i mode s).1.isSome ↔
      ((mode = oWronly ∨ mode = oRdwr) → node.ops.hasWrite = true) := by
  have hfiles : s.openFiles = replicate maxGlobalOpenFiles none := by
    refine eq_replicate_iff.2 ⟨hpool, fun o ho => ?_⟩
    obtain ⟨j, hj⟩ := mem_iff_getElem?.1 ho
    have hnone := hidle j
    rw [System.openAt, hj] at hnone
    simpa using hnone
  have hreap : vfsReapDeadOwners caller s = (some (), s) := by
    rw [vfsReapDeadOwners, modify_apply, hfiles, map_replicate, Option.filter_none]
    rw [← hfiles]
  have hfd : vfsFindFreeLocalFd s.openFiles caller.pid = some 0 := by
    have hunused : vfsLocalFdInUse s.openFiles caller.pid 0 = false :=
      vfsLocalFdInUse_false.2 fun j h hj => by
        rw [show (s.openFiles[j]?).join = none from hidle j] at hj
        simp at hj
    simp [vfsFindFreeLocalFd, maxOpenFiles, range_succ_eq_map, hunused]
  have hslot : vfsFindFreeGlobalHandle s.openFiles = some 0 := by
    rw [hfiles]
    rfl
  rw [vfsOpenDescriptor, bind_of_some get_apply, hnode]
  simp only [run_ite]
  split
  next hc => exact iff_of_false (by simp) fun h => by simp [h hc.1] at hc
  next hc =>
    rw [bind_of_some hreap, bind_of_some get_apply, hfd, hslot]
    refine iff_of_true rfl fun hmode => ?_
    simpa using fun hw => hc ⟨hmode, hw⟩

end Idle
end Vfs
