import ArmoniOS.Fat32.PathFiles
import ArmoniOS.Fat32.RootRuns
import ArmoniOS.Vfs.Invalidation
import ArmoniOS.Vfs.OpenNode

/-! When `vfs_open_flags` can still open a FAT file. A first open of a path takes one of the eight
adapter slots and a node, and closing the descriptor gives neither back. -/
namespace Vfs
open Exec Fat32 List Option

def System.Serves (s : System) (path : List UInt8) (mode : UInt32) : Prop :=
  ∃ i node, vfsFindCanonical s.nodes path = some i ∧ s.nodeAt i = some node ∧
    ((mode = oWronly ∨ mode = oRdwr) → node.ops.hasWrite = true)

def VfsOp.Naming : VfsOp → Prop
  | .openFlags _ _ | .close _ | .unlink _ | .rename _ _ => True
  | _ => False

/-- The name resolves to a regular file of the root directory; its chain, when sound, fits the
32-bit byte counts of the driver. -/
structure RootFile (g : Geometry) (d : Disk) (name : List UInt8) (p : Slot) : Prop where
  found : ∃ wanted, makeShortName name = some wanted ∧ pathChoice g d g.rootCluster wanted = some p
  regular : ¬ (entryAt d p).isDirectory
  fits : ∀ cs, HasChain g d (some p) cs → cs.length * g.clusterSize ≤ uint32Max

section Sound
variable {g : Geometry} {dev : Device} {scope : Owner → Prop} {P : Disk → Prop} {s : System}

theorem onFat_kept {α : Type} {m : FsM α} (hm : ∀ v, P v.disk → P (m v).2.disk) :
    Kept (fun s => P s.volume.disk) (onFat m) := fun s hs => ⟨hm s.volume hs, fun _ _ => trivial⟩

theorem disk_handles (caller : Caller) : HandleClosed caller fun s => P s.volume.disk :=
  ⟨fun _ hs => hs, fun _ _ _ hs _ _ _ => hs, fun _ _ _ hs _ _ => hs⟩

theorem disk_place : PlaceClosed fun s => P s.volume.disk := fun _ _ _ hs _ _ _ => hs

variable (hr : dev.ReadsOk) (hok : dev.WritesOk) (hscope : scope none)
include hr hok hscope

theorem rootSound_opens : OpenClosed g dev fun s => RootSound g scope s.volume.disk where
  openPath path := onFat_kept fun v hv => by
    rw [(fat32OpenPath_reads g hr path v).2.1]
    exact hv
  create name := onFat_kept fun _ hv => Fat32.step_rootSound hr hok hscope hv (.create name)
  place := disk_place
  adopt _ _ hs := hs

theorem rootSound_removed : RemoveClosed g dev fun s => RootSound g scope s.volume.disk where
  delete name := onFat_kept fun _ hv => Fat32.step_rootSound hr hok hscope hv (.delete name)
  rename oldName newName :=
    onFat_kept fun _ hv => Fat32.step_rootSound hr hok hscope hv (.rename oldName newName)
  unmount path s hs := by
    have hvolume := (@vfsUnmountStatic_adapter s path).2
    exact ⟨by simpa only [hvolume] using hs, fun _ _ => trivial⟩

theorem naming_step_rootSound {op : VfsOp} (hop : op.Naming) (caller : Caller)
    (hs : RootSound g scope s.volume.disk) :
    RootSound g scope (op.step g dev caller s).volume.disk := by
  cases op with
  | openFlags path flags =>
    refine ((vfsOpenFlags_triple g dev (rootSound_opens hr hok hscope) (disk_handles caller) path
      flags).mono (fun _ h => h) ?_ fun _ h => h).state hs
    rintro fd t ⟨u, hu, htaken⟩
    obtain ⟨_, _, _, -, -, rfl⟩ := htaken.installed
    exact hu
  | close fd => exact (vfsClose_kept (disk_handles caller) fd s hs).1
  | unlink path => exact (vfsUnlink_kept (rootSound_removed hr hok hscope) path s hs).1
  | rename oldPath newPath =>
    exact (vfsRename_kept (rootSound_removed hr hok hscope) oldPath newPath s hs).1
  | _ => exact hop.elim

theorem naming_run_rootSound {ops : List (Caller × VfsOp)} (hops : ∀ x ∈ ops, x.2.Naming)
    (hs : RootSound g scope s.volume.disk) :
    RootSound g scope (runOps g dev s ops).volume.disk := by
  induction ops generalizing s with
  | nil => exact hs
  | cons x ops ih =>
    refine ih (fun y hy => hops y (mem_cons_of_mem _ hy)) ?_
    exact naming_step_rootSound hr hok hscope (hops x (mem_cons_self ..)) x.1 hs

end Sound

theorem RootFile.openPathImage {g : Geometry} {scope : Owner → Prop} {d : Disk}
    {name : List UInt8} {p : Slot} (hscope : scope none) (hd : Chained g scope d)
    (hslash : charSlash ∉ name) (h : RootFile g d name p) :
    ∃ cs, openPathImage g d name = some (handleAt g d p cs) := by
  obtain ⟨wanted, hname, hp⟩ := h.found
  obtain ⟨cs, hcs, hsize⟩ := hd.fileChain p (pathChoice_fileIn hscope .root rfl hp h.regular)
  refine ⟨cs, ?_⟩
  rw [openPathImage_of_noSlash g d hslash, hname, bind_some, hp, bind_some]
  exact (openFound_eq_some hcs hsize h.regular).2 ⟨h.fits cs hcs, rfl⟩

/-- After any history of opens, closes, unlinks and renames that leaves no descriptor open, a
regular root file can be opened exactly if its path still has a node, or an adapter slot and a
node slot are left. -/
theorem open_with_no_descriptors_iff (g : Geometry) (dev : Device) (hr : dev.ReadsOk)
    (hok : dev.WritesOk) (scope : Owner → Prop) (hscope : scope none) (v : Volume)
    (hv : RootSound g scope v.disk) (boot : List Node) (ops : List (Caller × VfsOp))
    (hops : ∀ x ∈ ops, x.2.Naming) (s : System) (hs : s = runOps g dev (bootSystem v boot) ops)
    (hidle : ∀ i, s.openAt i = none) (caller : Caller) (path canonical name : List UInt8)
    (hpath : vfsNormalizePath path = some canonical)
    (hroot : fat32VfsRootName canonical = some name) (p : Slot)
    (hfile : RootFile g s.volume.disk name p) (flags : UInt32) (hflags : vfsOpenFlagsValid flags) :
    (vfsOpenFlags g dev caller path flags s).1.isSome ↔
      s.Serves canonical (flags &&& oAccmode) ∨ s.HasRoom canonical := by
  have hsound : TablesSound s := hs ▸ (bootSystem_sound v boot).run ops
  have hmounts : s.mounts = [fatRootPath] := by
    rw [hs, runOps_mounts (bootSystem_sound v boot), bootSystem_mounts]
  have hdisk : RootSound g scope s.volume.disk := by
    rw [hs]
    refine naming_run_rootSound hr hok hscope hops ?_
    exact (vfsMountStatic_kept disk_place boot _ (show RootSound g scope v.disk from hv)).1
  obtain ⟨hrel, hne, hslash⟩ := fat32VfsRootName_some hroot
  obtain ⟨cs, himage⟩ := hfile.openPathImage hscope hdisk.toChained hslash
  rw [vfsOpenFlags, if_pos hflags, hpath]
  simp only
  cases hfind : vfsFindCanonical s.nodes canonical with
  | some i =>
    obtain ⟨node, hnode, -⟩ := vfsFindCanonical_some hfind
    rw [bind_of_some (vfsOpenNode_cached hfind), vfsOpenDescriptor_idle hsound.pool hidle hnode]
    constructor
    · exact fun hmode => Or.inl ⟨i, node, hfind, hnode, hmode⟩
    · rintro (⟨j, node', hj, hnode', hmode⟩ | hroom)
      · obtain rfl : i = j := some.inj (hfind.symm.trans hj)
        obtain rfl : node = node' := some.inj (hnode.symm.trans hnode')
        exact hmode
      · rw [System.HasRoom, hfind] at hroom
        simp at hroom
  | none =>
    have hserves : ¬ s.Serves canonical (flags &&& oAccmode) := by
      rintro ⟨i, node, hi, -⟩
      rw [hfind] at hi
      simp at hi
    rw [or_iff_right hserves]
    rcases @vfsOpenNode_new g dev s canonical name _ flags hr hsound.nodesBound
      (canonical_of_normalizePath hpath) hmounts hfind hrel hne himage with
      ⟨hfull, u, -, hopen⟩ | ⟨hroom, u, i, -, hi, hopen⟩
    · rw [bind_of_none hopen]
      exact iff_of_false (by simp) hfull
    · rw [bind_of_some hopen,
        @vfsOpenDescriptor_idle (s.withFile u i canonical (handleAt g s.volume.disk p cs)) i _
          hsound.pool hidle (withFile_nodeAt hi)]
      exact iff_of_true (fun _ => rfl) hroom

section Small
open SmallVolume

def nineFiles : Volume :=
  fresh (disk 1 16 (fatSector [clusterMask])
    [dirSector [("A          ", attrArchive, 0, 0), ("B          ", attrArchive, 0, 0),
      ("C          ", attrArchive, 0, 0), ("D          ", attrArchive, 0, 0),
      ("E          ", attrArchive, 0, 0), ("F          ", attrArchive, 0, 0),
      ("G          ", attrArchive, 0, 0), ("H          ", attrArchive, 0, 0),
      ("I          ", attrArchive, 0, 0)]])

theorem nineFiles_rootSound : RootSound geometry (fun o => o = none) nineFiles.disk := by
  have hflat : Flat geometry nineFiles.disk [2] fun _ => [] :=
    ⟨by decide +kernel, by decide +kernel, by decide +kernel⟩
  exact ⟨hflat.wellFormed (by decide +kernel), by unfold Sealed; decide +kernel⟩

def openClose (path : String) : List (Caller × VfsOp) :=
  [(user, .openFlags (bytes path) oRdonly), (user, .close 0)]

def afterPairs (paths : List String) : System :=
  runOps geometry .reliable (bootSystem nineFiles []) (paths.flatMap openClose)

theorem openClose_naming (paths : List String) : ∀ x ∈ paths.flatMap openClose, x.2.Naming := by
  intro x hx
  obtain ⟨path, -, hx⟩ := mem_flatMap.1 hx
  rcases mem_cons.1 hx with rfl | hx
  · trivial
  · obtain rfl := mem_singleton.1 hx
    trivial

theorem open_second_file : (afterPairs ["/fat/a"]).HasRoom (bytes "/fat/b") ∧
    (vfsOpenFlags geometry .reliable user (bytes "/fat/b") oRdonly (afterPairs ["/fat/a"])).1.isSome := by
  generalize hs : afterPairs ["/fat/a"] = s
  have hroom : s.HasRoom (bytes "/fat/b") := by
    rw [← hs]
    exact ⟨by decide +kernel, by decide +kernel, by decide +kernel⟩
  have hempty : s.openFiles = replicate maxGlobalOpenFiles none := by
    rw [← hs]
    decide +kernel
  have hidle : ∀ i, s.openAt i = none := by
    intro i
    rw [System.openAt, hempty, getElem?_replicate]
    split <;> rfl
  have hfacts : pathChoice geometry s.volume.disk geometry.rootCluster (bytes "B          ") =
      some (2, 32) ∧ ¬ (entryAt s.volume.disk (2, 32)).isDirectory ∧
      (entryAt s.volume.disk (2, 32)).firstCluster < 2 := by
    rw [← hs]
    decide +kernel
  obtain ⟨hchoice, hregular, hstart⟩ := hfacts
  have hfile : RootFile geometry s.volume.disk (bytes "b") (2, 32) := by
    refine ⟨⟨bytes "B          ", by decide +kernel, hchoice⟩, hregular, fun cs hcs => ?_⟩
    rw [hcs.unique (Or.inl ⟨hstart, rfl⟩)]
    exact Nat.zero_le _
  exact ⟨hroom, (open_with_no_descriptors_iff geometry .reliable Device.reliable_readsOk
    Device.reliable_writesOk (fun o => o = none) rfl nineFiles nineFiles_rootSound [] _
    (openClose_naming ["/fat/a"]) s hs.symm hidle user (bytes "/fat/b") (bytes "/fat/b")
    (bytes "b") (by decide +kernel) (by decide +kernel) (2, 32) hfile oRdonly
    (by decide +kernel)).2 (Or.inr hroom)⟩

/-- Eight files opened and closed one after the other use up the adapter slots: the ninth cannot be
opened although nothing is open. -/
theorem ninth_file_cannot_be_opened :
    (afterPairs ["/fat/a", "/fat/b", "/fat/c", "/fat/d", "/fat/e", "/fat/f", "/fat/g",
      "/fat/h"]).openFiles = replicate maxGlobalOpenFiles none ∧
    pathChoice geometry (afterPairs ["/fat/a", "/fat/b", "/fat/c", "/fat/d", "/fat/e", "/fat/f",
      "/fat/g", "/fat/h"]).volume.disk geometry.rootCluster (bytes "I          ") = some (2, 256) ∧
    (vfsOpenFlags geometry .reliable user (bytes "/fat/i") oRdonly (afterPairs ["/fat/a", "/fat/b",
      "/fat/c", "/fat/d", "/fat/e", "/fat/f", "/fat/g", "/fat/h"])).1 = none ∧
    (vfsOpenFlags geometry .reliable user (bytes "/fat/i") oRdonly (afterPairs [])).1 = some 0 :=
  ⟨by decide +kernel, by decide +kernel, by decide +kernel, by decide +kernel⟩

end Small
end Vfs
