import ArmoniOS.Fat32.RootEntries
import ArmoniOS.Vfs.Exhaustion

/-! What a failed `vfs_open_flags` leaves behind. The file is created on the volume, then a node is
registered for it, then a descriptor is taken; no later failure undoes an earlier stage. -/
namespace Fat32
variable {g : Geometry} {dev : Device} {name : List UInt8} {v w : Volume} {f : FileHandle}

theorem fat32Create_changes (hr : dev.ReadsOk) (h : fat32Create g dev name v = (some f, w)) :
    w.disk ≠ v.disk := by
  obtain ⟨r, w', hrun, hcase⟩ := fat32Create_apply hr name v
  obtain ⟨rfl, rfl⟩ := Prod.mk.inj (hrun.symm.trans h)
  rcases hcase with ⟨hnone, -⟩ | ⟨short, p, y, -, hslot, hfree, ⟨hnone, -⟩ | hd⟩
  · simp at hnone
  · simp at hnone
  -- the cluster given to the new file was free and is now the end of a chain
  obtain ⟨hy, hzero⟩ := freeCluster_some g hfree
  have hframe : ∀ lba < g.dataStartLba,
      createdEntry g v.disk p short y lba = setFat g v.disk y clusterEoc lba := by
    obtain ⟨c, i, hc, hi, hp, -⟩ := mem_dirSlots g (freeSlot_mem hslot)
    have hge := g.sectorLba_ge hc hi
    exact fun lba hlba => Function.update_of_ne (by omega) _ _
  have hnew : fatValue g w'.disk y = clusterEoc := by
    rw [hd.fatValue_eq hy hy, fatValue_congr hy hframe, fatValue_setFat hy hy (by decide), if_pos rfl]
  intro heq
  rw [heq, hzero] at hnew
  exact absurd hnew (by decide)

end Fat32

namespace Vfs
open Exec Fat32 Option

/-- The same volume contents, nodes and descriptors. -/
def System.Unchanged (s t : System) : Prop :=
  t.volume.disk = s.volume.disk ∧ t.nodes = s.nodes ∧ t.openFiles = s.openFiles

/-- The node cannot be written, and the mode asks for that. -/
def Node.Refuses (node : Node) (mode : UInt32) : Prop :=
  (mode = oWronly ∨ mode = oRdwr) ∧ node.ops.hasWrite = false

/-- Once the handles of dead processes are dropped, the caller can take a descriptor. -/
def System.CanTake (s : System) (caller : Caller) : Prop :=
  (vfsFindFreeLocalFd (reaped caller s).openFiles caller.pid).isSome ∧
    (vfsFindFreeGlobalHandle (reaped caller s).openFiles).isSome

/-- No stage of the open succeeds before one that fails: a file that is there or gets created is given
a node and a descriptor, or no node and it was there before. -/
structure OpenStaged (g : Geometry) (dev : Device) (caller : Caller) (path : List UInt8)
    (flags : UInt32) (s : System) : Prop where
  cached : ∀ i node, vfsFindCanonical s.nodes path = some i → s.nodeAt i = some node →
    node.Refuses (flags &&& oAccmode) ∨ s.CanTake caller ∨
      (reaped caller s).openFiles = s.openFiles
  asked : ∀ relative t, s.Asks path relative →
    fat32VfsEnsure g dev path relative flags s = (some (), t) →
    if s.HasRoom path ∧ (openPathImage g t.volume.disk relative).isSome then s.CanTake caller
    else (openPathImage g s.volume.disk relative).isSome

section Stages
variable {s t : System} {caller : Caller} {mode : UInt32} {i : ℕ} {node : Node}

theorem vfsOpenDescriptor_refused (hnode : s.nodeAt i = some node) (hmode : node.Refuses mode) :
    vfsOpenDescriptor caller i mode s = (none, s) := by
  rw [vfsOpenDescriptor, bind_of_some get_apply, hnode]
  exact congrFun (if_pos hmode) s

theorem vfsOpenDescriptor_allowed (hnode : s.nodeAt i = some node) (hmode : ¬ node.Refuses mode) :
    (s.CanTake caller ∧ (vfsOpenDescriptor caller i mode s).1.isSome) ∨
      (¬ s.CanTake caller ∧ vfsOpenDescriptor caller i mode s = (none, reaped caller s)) := by
  have hreap : vfsReapDeadOwners caller s = (some (), reaped caller s) := rfl
  rw [vfsOpenDescriptor, bind_of_some get_apply, hnode]
  unfold Node.Refuses at hmode
  simp only [if_neg hmode]
  rw [bind_of_some hreap, bind_of_some get_apply, System.CanTake]
  cases vfsFindFreeLocalFd (reaped caller s).openFiles caller.pid with
  | none => exact .inr ⟨by simp, rfl⟩
  | some fd =>
    cases vfsFindFreeGlobalHandle (reaped caller s).openFiles with
    | none => exact .inr ⟨by simp, rfl⟩
    | some j => exact .inl ⟨by simp, rfl⟩

/-- A descriptor asked for behind a new node fails exactly if none is free, and then the node
stays. -/
theorem vfsOpenDescriptor_behind (hnode : t.nodeAt i = some node) (hops : node.ops.hasWrite = true)
    (hne : t.nodes ≠ s.nodes) (hfiles : t.openFiles = s.openFiles) :
    ((vfsOpenDescriptor caller i mode t).1 = none →
      s.Unchanged (vfsOpenDescriptor caller i mode t).2) ↔ s.CanTake caller := by
  have hsame : t.CanTake caller ↔ s.CanTake caller := by
    have hreaped : (reaped caller t).openFiles = (reaped caller s).openFiles :=
      congrArg (List.map _) hfiles
    rw [System.CanTake, System.CanTake, hreaped]
  rcases @vfsOpenDescriptor_allowed t caller mode i node hnode (by simp [Node.Refuses, hops]) with
    ⟨htake, hdone⟩ | ⟨htake, hfail⟩
  · refine iff_of_true (fun hnone => ?_) (hsame.1 htake)
    simp [hnone] at hdone
  · refine iff_of_false (fun h => hne ?_) (fun h => htake (hsame.2 h))
    have hkept := h (by rw [hfail])
    rw [hfail] at hkept
    exact hkept.2.1

end Stages

section Atomic
variable {g : Geometry} {dev : Device} {s : System} {caller : Caller} {path relative : List UInt8}
  {flags : UInt32}

/-- The whole open, with the path in normal form. -/
def openCanonical (g : Geometry) (dev : Device) (caller : Caller) (path : List UInt8)
    (flags : UInt32) : VfsM ℕ := do
  let node ← vfsOpenNode g dev path flags
  vfsOpenDescriptor caller node (flags &&& oAccmode)

theorem openCanonical_cached {i : ℕ} (hfind : vfsFindCanonical s.nodes path = some i) :
    ((openCanonical g dev caller path flags s).1 = none →
        s.Unchanged (openCanonical g dev caller path flags s).2) ↔
      OpenStaged g dev caller path flags s := by
  obtain ⟨node, hnode, -⟩ := vfsFindCanonical_some hfind
  have hstaged : OpenStaged g dev caller path flags s ↔ node.Refuses (flags &&& oAccmode) ∨
      s.CanTake caller ∨ (reaped caller s).openFiles = s.openFiles := by
    refine ⟨fun h => h.cached i node hfind hnode, fun h => ⟨fun j n hj hn => ?_, fun _ _ ha => ?_⟩⟩
    · obtain rfl : i = j := some.inj (hfind.symm.trans hj)
      obtain rfl : node = n := some.inj (hnode.symm.trans hn)
      exact h
    · simp [System.Asks, hfind] at ha
  rw [hstaged, openCanonical, bind_of_some (vfsOpenNode_cached hfind)]
  by_cases hmode : node.Refuses (flags &&& oAccmode)
  · rw [vfsOpenDescriptor_refused hnode hmode]
    exact iff_of_true (fun _ => ⟨rfl, rfl, rfl⟩) (.inl hmode)
  · rw [or_iff_right hmode]
    rcases @vfsOpenDescriptor_allowed s caller _ i node hnode hmode with ⟨htake, hdone⟩ | ⟨htake, hfail⟩
    · refine iff_of_true (fun hnone => ?_) (.inl htake)
      simp [hnone] at hdone
    · rw [hfail, or_iff_right htake]
      exact ⟨fun h => (h rfl).2.2, fun h _ => ⟨rfl, rfl, h⟩⟩

/-- The adapter has the file at its path, and had it before or created it; or it changed nothing. -/
theorem fat32VfsEnsure_cases (hr : dev.ReadsOk) (hok : dev.WritesOk) (s : System) :
    ∃ u, (fat32VfsEnsure g dev path relative flags s = (none, { s with volume := u }) ∧
        u.disk = s.volume.disk) ∨
      (fat32VfsEnsure g dev path relative flags s = (some (), { s with volume := u }) ∧
        (u.disk = s.volume.disk ↔ (openPathImage g s.volume.disk relative).isSome)) := by
  cases himage : openPathImage g s.volume.disk relative with
  | some f =>
    obtain ⟨u, hu, hensure⟩ := @fat32VfsEnsure_found g dev s path relative f flags hr himage
    exact ⟨u, .inr ⟨hensure, iff_of_true hu.1 rfl⟩⟩
  | none =>
    obtain ⟨u, hu, hensure | ⟨-, name, hensure⟩⟩ :=
      @fat32VfsEnsure_missing g dev s path relative flags hr himage
    · exact ⟨u, .inl ⟨hensure, hu.1⟩⟩
    rcases hcreate : fat32Create g dev name u with ⟨_ | f, w⟩
    · have hquiet := (fat32Create_atomic hr hok u (.refl u)).2 w hcreate
      rw [hcreate] at hensure
      exact ⟨w, .inl ⟨hensure, (hu.trans hquiet).1⟩⟩
    · have hchanged := fat32Create_changes hr hcreate
      rw [hcreate] at hensure
      rw [hu.1] at hchanged
      exact ⟨w, .inr ⟨hensure, iff_of_false hchanged (by simp)⟩⟩

theorem openCanonical_asked (hr : dev.ReadsOk) (hok : dev.WritesOk)
    (hlen : s.nodes.length ≤ maxNodes) (hpath : Canonical path) (hasks : s.Asks path relative) :
    ((openCanonical g dev caller path flags s).1 = none →
        s.Unchanged (openCanonical g dev caller path flags s).2) ↔
      OpenStaged g dev caller path flags s := by
  have hstaged : OpenStaged g dev caller path flags s ↔ ∀ t,
      fat32VfsEnsure g dev path relative flags s = (some (), t) →
      if s.HasRoom path ∧ (openPathImage g t.volume.disk relative).isSome then s.CanTake caller
      else (openPathImage g s.volume.disk relative).isSome := by
    refine ⟨fun h t => h.asked relative t hasks, fun h => ⟨by simp [hasks.1], fun relative' t ha => ?_⟩⟩
    obtain rfl := some.inj (hasks.2.2.1.symm.trans ha.2.2.1)
    exact h t
  rw [hstaged, openCanonical]
  obtain ⟨u, ⟨hensure, hsame⟩ | ⟨hensure, hsame⟩⟩ :=
    @fat32VfsEnsure_cases g dev path relative flags hr hok s
  · rw [bind_of_none (vfsOpenNode_refused hasks hensure), hensure]
    exact iff_of_true (fun _ => ⟨hsame, rfl, rfl⟩) (by simp)
  rw [hensure]
  simp only [Prod.mk.injEq, true_and, forall_eq']
  rcases vfsOpenNode_ensured hr hlen hpath hasks hensure with
    ⟨hfull, v, hv, hfail⟩ | ⟨f, himage, hroom, v, i, hv, hi, hdone⟩
  · have hnone : ¬ (s.HasRoom path ∧ (openPathImage g u.disk relative).isSome) := by
      rintro ⟨hroom, hsome⟩
      obtain ⟨f, hf⟩ := isSome_iff_exists.1 hsome
      exact hfull f hf hroom
    rw [bind_of_none hfail, if_neg hnone, ← hsame, ← hv.1]
    exact ⟨fun h => (h rfl).1, fun h _ => ⟨h, rfl, rfl⟩⟩
  · rw [bind_of_some hdone, if_pos ⟨hroom, by rw [himage]; rfl⟩]
    refine vfsOpenDescriptor_behind (withFile_nodeAt hi) rfl (fun heq => ?_) rfl
    have hfind := @vfsFindCanonical_setNode s.nodes ⟨path, f.size, .fat32 s.fatFiles.length⟩ i hi
      hasks.1
    rw [show setNode s.nodes i ⟨path, f.size, .fat32 s.fatFiles.length⟩ = s.nodes from heq] at hfind
    simp [hasks.1] at hfind

end Atomic

section Small
open SmallVolume

end Small
end Vfs
