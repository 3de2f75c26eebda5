import ArmoniOS.Vfs.Tables

/-! Every VFS call as a traversal of its effects: a predicate that survives the FAT calls and the
table changes a call is made of survives the call. In particular every call is a sequence of table
moves; `vfs_open_flags` may end by handing out one descriptor. -/
namespace Vfs
open Exec Fat32 List Option

/-- The call keeps `I`, also when it fails. -/
def Kept (I : System → Prop) {α : Type} (m : VfsM α) : Prop := Keeps I m fun _ => True

section Kept
variable {α β : Type} {m m' : VfsM α} {f : α → VfsM β} {I : System → Prop}

theorem Kept.pure (a : α) : Kept I (Pure.pure a : VfsM α) := Keeps.pure trivial

theorem Kept.fail : Kept I (Exec.fail : VfsM α) := Keeps.fail

theorem Kept.get : Kept I (Exec.get : VfsM System) := Keeps.get.mono fun _ _ => trivial

theorem Kept.bind (hm : Kept I m) (hf : ∀ a, Kept I (f a)) : Kept I (m >>= f) :=
  Keeps.bind hm fun a _ => hf a

theorem Kept.ite {c : Prop} [Decidable c] (h : Kept I m) (h' : Kept I m') :
    Kept I (if c then m else m') := Keeps.ite (fun _ => h) fun _ => h'

theorem Kept.attempt (hm : Kept I m) : Kept I (Exec.attempt m) :=
  (Keeps.attempt hm).mono fun _ _ => trivial

theorem Kept.modify {u : System → System} (h : ∀ s, I s → I (u s)) : Kept I (Exec.modify u) :=
  Keeps.modify h

theorem Kept.triple (hm : Kept I m) : Triple I m (fun _ => I) I := by
  intro s hs
  have hkept := (hm s hs).1
  exact ⟨fun _ t ht => by rwa [ht] at hkept, fun t ht => by rwa [ht] at hkept⟩

theorem Kept.of_triple (hm : Triple I m (fun _ => I) I) : Kept I m :=
  fun _ hs => ⟨hm.state hs, fun _ _ => trivial⟩

end Kept

section Closed
variable (g : Geometry) (dev : Device) (caller : Caller) (I : System → Prop)

/-- `I` survives the FAT calls behind reading, writing and `vfs_stat`. -/
structure DataClosed : Prop where
  lookup : ∀ path, Kept I (onFat (fat32LookupPath g dev path))
  openPath : ∀ path, Kept I (onFat (fat32OpenPath g dev path))
  read : ∀ f offset capacity, Kept I (onFat (fat32Read g dev f offset capacity))
  write : ∀ slot offset data, Kept I (fat32VfsWrite g dev slot offset data)

/-- `I` survives what calls of `caller` do to handles, short of handing one out. -/
structure HandleClosed : Prop where
  reap : ∀ s, I s → I (vfsReapDeadOwners caller s).2
  seek : ∀ s i h, I s → s.openAt i = some h → h.ownerPid = caller.pid → ∀ offset,
    I { s with openFiles := s.openFiles.set i (some { h with offset := offset }) }
  close : ∀ s i h, I s → s.openAt i = some h → h.ownerPid = caller.pid →
    I { s with openFiles := s.openFiles.set i none }

def PlaceClosed : Prop := ∀ s i node, I s → vfsFindFreeNode s.nodes = some i →
  vfsFindCanonical s.nodes node.path = none → Canonical node.path →
  I { s with nodes := setNode s.nodes i node }

/-- `I` survives the first open of a path. -/
structure OpenClosed : Prop where
  openPath : ∀ path, Kept I (onFat (fat32OpenPath g dev path))
  create : ∀ name, Kept I (onFat (fat32Create g dev name))
  place : PlaceClosed I
  adopt : ∀ s f, I s → I { s with fatFiles := s.fatFiles ++ [f] }

/-- `I` survives unlinks and renames. -/
structure RemoveClosed : Prop where
  delete : ∀ name, Kept I (onFat (fat32Delete g dev name))
  rename : ∀ oldName newName, Kept I (onFat (fat32Rename g dev oldName newName))
  unmount : ∀ path, Kept I (vfsUnmountStatic path)

def FatStable : Prop := ∀ s t, I s → FatOnly s t → I t

end Closed

def DataCall {α : Type} (g : Geometry) (dev : Device) (m : VfsM α) : Prop :=
  ∀ I, DataClosed g dev I → Kept I m

section Calls
variable {g : Geometry} {dev : Device} {I : System → Prop} {α : Type} {m : VfsM α}

theorem FatOnly.refl (s : System) : FatOnly s s := ⟨rfl, rfl, rfl⟩

theorem fatOnly_stable (s : System) : FatStable (FatOnly s) := fun _ _ h h' =>
  ⟨h'.nodes.trans h.nodes, h'.mounts.trans h.mounts, h'.openFiles.trans h.openFiles⟩

theorem FatStable.onFat (hI : FatStable I) (m : FsM α) : Kept I (onFat m) :=
  fun s hs => ⟨hI s _ hs ⟨rfl, rfl, rfl⟩, fun _ _ => trivial⟩

theorem FatStable.data (hI : FatStable I) : DataClosed g dev I where
  lookup _ := hI.onFat _
  openPath _ := hI.onFat _
  read _ _ _ := hI.onFat _
  write slot offset data := by
    refine .bind .get fun s => ?_
    split
    · exact .fail
    · exact fun s hs => ⟨hI s _ hs ⟨rfl, rfl, rfl⟩, fun _ _ => trivial⟩

theorem FatStable.opens (hI : FatStable I) (hplace : PlaceClosed I) : OpenClosed g dev I :=
  ⟨fun _ => hI.onFat _, fun _ => hI.onFat _, hplace, fun s _ hs => hI s _ hs ⟨rfl, rfl, rfl⟩⟩

theorem vfsNodeSize_kept (node : Node) : Kept I (vfsNodeSize node) := by
  rw [vfsNodeSize]
  split
  · exact .pure _
  · refine .bind .get fun s => ?_
    split
    · exact .fail
    · exact .pure _

theorem handleNode_kept (h : OpenFile) : Kept I (handleNode h) := by
  refine .bind .get fun s => ?_
  split
  · exact .fail
  · exact .pure _

variable (g dev)

theorem readNode_data (node : Node) (offset capacity : ℕ) :
    DataCall g dev (readNode g dev node offset capacity) := by
  intro I hI
  have hread : Kept I (nodeRead g dev node offset capacity) := by
    rw [nodeRead]
    split
    · exact .ite .fail (.pure _)
    · refine .bind .get fun s => ?_
      split
      · exact .fail
      · exact hI.read _ _ _
  exact .bind (vfsNodeSize_kept node) fun _ => .ite .fail <| .bind hread fun _ => .ite (.pure _) .fail

theorem writeNode_data (node : Node) (offset : ℕ) (data : List UInt8) :
    DataCall g dev (writeNode g dev node offset data) := by
  intro I hI
  have hwrite : Kept I (nodeWrite g dev node offset data) := by
    rw [nodeWrite]
    split
    · exact .fail
    · exact hI.write _ _ _
  exact .bind (vfsNodeSize_kept node) fun _ => .ite .fail <| .bind hwrite fun _ => .ite (.pure _) .fail

variable (path : List UInt8)

theorem vfsStat_data : DataCall g dev (vfsStat g dev path) := by
  intro I hI
  rw [vfsStat]
  split
  · exact .fail
  · refine .bind .get fun s => ?_
    split
    · exact vfsNodeSize_kept _
    · refine .ite .fail ?_
      rw [fat32VfsStatPath]
      split
      · exact .fail
      · exact .bind (hI.lookup _) fun _ => .pure _

theorem vfsMetadata_data : DataCall g dev (vfsMetadata g dev path) := by
  intro I hI
  rw [vfsMetadata]
  split
  · exact .fail
  · refine .bind .get fun s => ?_
    split
    · exact .bind (vfsNodeSize_kept _) fun _ => .pure _
    · refine .ite (.ite (.pure _) .fail) ?_
      rw [fat32VfsMetadataPath]
      split
      · exact .fail
      · exact .bind (hI.lookup _) fun _ => .pure _

theorem vfsRead_data (offset capacity : ℕ) :
    DataCall g dev (vfsRead g dev path offset capacity) := by
  intro I hI
  rw [vfsRead]
  split
  · exact .fail
  next canonical _ =>
    have hread : Kept I (fat32VfsReadPath g dev canonical offset capacity) := by
      rw [fat32VfsReadPath]
      split
      · exact .fail
      · exact .ite .fail <| .bind (hI.lookup _) fun _ => .ite .fail <|
          .bind (hI.openPath _) fun _ => hI.read _ _ _
    refine .bind .get fun s => ?_
    split
    · exact readNode_data g dev _ _ _ I hI
    · exact .ite .fail <| .bind (vfsMetadata_data g dev _ I hI) fun _ => .ite .fail <|
        .bind hread fun _ => .ite (.pure _) .fail

theorem vfsWrite_data (offset : ℕ) (data : List UInt8) :
    DataCall g dev (vfsWrite g dev path offset data) := by
  intro I hI
  rw [vfsWrite]
  split
  · exact .fail
  · refine .bind .get fun s => ?_
    split
    · exact .fail
    · exact .ite .fail (writeNode_data g dev _ _ _ I hI)

end Calls

section Moves
variable {α : Type} (s : System) (caller : Caller)

theorem moves_stable : FatStable (Moves s) := fun _ _ hs hfat => hs.tail (.fat hfat)

theorem moves_handles : HandleClosed caller (Moves s) where
  reap t hs := hs.tail (.drop t _)
  seek _ _ _ hs hi _ offset := hs.tail (.seek hi offset)
  close t i _ hs _ _ := hs.tail (.close t i)

theorem moves_place : PlaceClosed (Moves s) :=
  fun _ _ _ hs hfree hnew hpath => hs.tail (.place hfree hnew hpath)

theorem vfsReapDeadOwners_moves : Moves s (vfsReapDeadOwners caller s).2 := .single (.drop s _)

theorem vfsCloseAllForPid_moves (pid : ℕ) : Moves s (vfsCloseAllForPid pid s).2 :=
  .single (.drop s _)

end Moves

section Handles
variable {α : Type} {m : VfsM α} {s t : System} {caller : Caller} {I : System → Prop}

/-- The handle found is a handle of the caller. -/
def Found (caller : Caller) (I : System → Prop) (x : ℕ × OpenFile) (s : System) : Prop :=
  I s ∧ s.openAt x.1 = some x.2 ∧ x.2.ownerPid = caller.pid

theorem HandleClosed.reaps (hI : HandleClosed caller I) :
    Triple I (vfsReapDeadOwners caller) (fun _ => I) I := .modify hI.reap

theorem vfsFdAt_triple (hI : HandleClosed caller I) (fd : ℤ) :
    Triple I (vfsFdAt caller fd) (Found caller I) I := by
  refine .ite (fun _ => .fail fun _ h => h) fun _ =>
    .bind hI.reaps fun _ => .bind .get fun s => ?_
  split
  next x hx =>
    refine .pure ?_
    rintro t ⟨hs, rfl⟩
    obtain ⟨hat, hown, -⟩ := findHandle_some (show _ = some (x.1, x.2) from hx)
    exact ⟨hs, hat, hown⟩
  next => exact .fail fun t ht => ht.1

section Owner
variable {i : ℕ} {h : OpenFile}

def reaped (caller : Caller) (s : System) : System := (vfsReapDeadOwners caller s).2

theorem reaped_openAt (hi : s.openAt i = some h)
    (halive : vfsOwnerIsAlive caller h.ownerPid = true) :
    (reaped caller s).openAt i = some h := by
  have hget := join_eq_some_iff.1 hi
  show ((s.openFiles.map fun o => o.filter fun h => vfsOwnerIsAlive caller h.ownerPid)[i]?).join =
    some h
  rw [getElem?_map, hget]
  simp [halive]

theorem findHandle_owner (hs : TablesSound s) (hi : s.openAt i = some h) :
    findHandle s.openFiles h.ownerPid h.localFd = some (i, h) := by
  cases hf : findHandle s.openFiles h.ownerPid h.localFd with
  | none => exact absurd ⟨rfl, rfl⟩ (findHandle_none.1 hf i h hi)
  | some x =>
    obtain ⟨hx, hpid, hfd⟩ := findHandle_some (show _ = some (x.1, x.2) from hf)
    have hix : i = x.1 := hs.handlesDistinct i x.1 h x.2 hi hx hpid.symm (by exact_mod_cast hfd.symm)
    have hhx : h = x.2 := some.inj (hi.symm.trans (hix ▸ hx))
    rw [hix, hhx]

theorem vfsFdAt_owner (hs : TablesSound s) (hi : s.openAt i = some h)
    (hown : h.ownerPid = caller.pid) (halive : vfsOwnerIsAlive caller caller.pid = true) :
    vfsFdAt caller h.localFd s = (some (i, h), reaped caller s) := by
  have hbound := hs.fdBound i h hi
  have hreap : vfsReapDeadOwners caller s = (some (), reaped caller s) := rfl
  have hsound : TablesSound (reaped caller s) := hs.moves (vfsReapDeadOwners_moves s caller)
  have hfind := findHandle_owner hsound (reaped_openAt hi (hown ▸ halive))
  rw [hown] at hfind
  rw [vfsFdAt, if_neg (by omega), bind_of_some hreap, bind_of_some get_apply, hfind]
  rfl

end Owner

section Descriptor
variable {g : Geometry} {dev : Device} {x : ℕ × OpenFile}

theorem Kept.found (hm : Kept I m) (hfat : ∀ s, Kept (FatOnly s) m) :
    Triple (Found caller I x) m (fun _ => Found caller I x) I := by
  intro s hs
  have hkept := (hm s hs.1).1
  have hfat := (hfat s s (.refl s)).1
  refine ⟨fun a t ht => ?_, fun t ht => by rwa [ht] at hkept⟩
  rw [ht] at hkept hfat
  exact ⟨hkept, by rw [System.openAt, hfat.openFiles]; exact hs.2.1, hs.2.2⟩

theorem DataCall.found (hm : DataCall g dev m) (hI : DataClosed g dev I) :
    Triple (Found caller I x) m (fun _ => Found caller I x) I :=
  (hm I hI).found fun s => hm _ (fatOnly_stable s).data

theorem HandleClosed.setOffset (hH : HandleClosed caller I) (offset : ℕ) :
    Triple (Found caller I x) (setHandle x.1 (some { x.2 with offset := offset })) (fun _ => I) I :=
  .modify fun s hs => hH.seek s x.1 x.2 hs.1 hs.2.1 hs.2.2 offset

theorem vfsClose_kept (hH : HandleClosed caller I) (fd : ℤ) : Kept I (vfsClose caller fd) :=
  .of_triple <| .bind (vfsFdAt_triple hH fd) fun x =>
    .modify fun s hs => hH.close s x.1 x.2 hs.1 hs.2.1 hs.2.2

variable (hI : DataClosed g dev I) (hH : HandleClosed caller I) (fd : ℤ)
include hI hH

theorem vfsReadFd_kept (capacity : ℕ) : Kept I (vfsReadFd g dev caller fd capacity) :=
  .of_triple <| .bind (vfsFdAt_triple hH fd) fun x =>
    .bind ((handleNode_kept x.2).found fun _ => handleNode_kept x.2) fun node =>
    .ite (fun _ => .fail fun _ h => h.1) fun _ =>
    .bind ((readNode_data g dev node _ capacity).found hI) fun _ =>
    .bind (hH.setOffset _) fun _ => .pure fun _ h => h

theorem vfsWriteFd_kept (data : List UInt8) : Kept I (vfsWriteFd g dev caller fd data) :=
  .of_triple <| .bind (vfsFdAt_triple hH fd) fun x =>
    .bind ((handleNode_kept x.2).found fun _ => handleNode_kept x.2) fun node =>
    .ite (fun _ => .fail fun _ h => h.1) fun _ =>
    .bind ((writeNode_data g dev node _ data).found hI) fun _ =>
    .bind (hH.setOffset _) fun _ => .pure fun _ h => h

/-- Every other call hands out or takes away a node or a descriptor. -/
def VfsOp.Plain : VfsOp → Prop
  | .openFlags _ _ | .closeAllForPid _ | .unlink _ | .rename _ _ | .mountFatFile _ _ => False
  | _ => True

theorem VfsOp.plain_kept {op : VfsOp} (hop : op.Plain) (hs : I s) : I (op.step g dev caller s) := by
  cases op with
  | readFd fd capacity => exact (vfsReadFd_kept hI hH fd capacity s hs).1
  | writeFd fd data => exact (vfsWriteFd_kept hI hH fd data s hs).1
  | seek fd offset =>
    have hseek : Triple I (vfsSeek caller fd offset) (fun _ => I) I :=
      .bind (vfsFdAt_triple hH fd) fun x =>
        .bind ((handleNode_kept x.2).found fun _ => handleNode_kept x.2) fun node =>
        .bind ((vfsNodeSize_kept node).found fun _ => vfsNodeSize_kept node) fun _ =>
        .ite (fun _ => .fail fun _ h => h.1) fun _ => hH.setOffset offset
    exact hseek.state hs
  | close fd => exact (vfsClose_kept hH fd s hs).1
  | stat path => exact (vfsStat_data g dev path I hI s hs).1
  | metadata path => exact (vfsMetadata_data g dev path I hI s hs).1
  | read path offset capacity => exact (vfsRead_data g dev path offset capacity I hI s hs).1
  | write path offset data => exact (vfsWrite_data g dev path offset data I hI s hs).1
  | openFlags | closeAllForPid | unlink | rename | mountFatFile => exact hop.elim

end Descriptor

section Nodes
variable {nodes : List (Option Node)} {node : Node} {rest : List Node} {seen : List (List UInt8)}

theorem vfsMountable_setNode {i : ℕ} (hi : i ≤ nodes.length) (hseen : node.path ∈ seen)
    (h : vfsMountable nodes seen rest = true) :
    vfsMountable (setNode nodes i node) seen rest = true := by
  induction rest generalizing seen with
  | nil => rfl
  | cons next rest ih =>
    rw [vfsMountable] at h ⊢
    split at h
    next => simp at h
    next path hpath =>
      rw [decide_eq_true_eq] at h
      obtain ⟨hnone, hnew, hrest⟩ := h
      rw [decide_eq_true_eq]
      refine ⟨vfsFindCanonical_none.2 fun j n hj => ?_, hnew, ih (mem_cons_of_mem _ hseen) hrest⟩
      rw [setNode_at hi] at hj
      split at hj
      next =>
        obtain rfl : node = n := some.inj hj
        rintro rfl
        exact hnew hseen
      next => exact vfsFindCanonical_none.1 hnone j n hj

theorem vfsPlaceNode_triple (hI : PlaceClosed I) : Triple
    (fun s => I s ∧ vfsMountable s.nodes seen (node :: rest) = true) (vfsPlaceNode node)
    (fun _ s => I s ∧ ∃ seen', vfsMountable s.nodes seen' rest = true) I := by
  refine .bind .get fun s => ?_
  split
  next i path hfree hpath =>
    refine .modify ?_
    rintro t ⟨⟨hs, hmount⟩, rfl⟩
    rw [vfsMountable, hpath, decide_eq_true_eq] at hmount
    obtain ⟨hnew, -, hrest⟩ := hmount
    have hi : i ≤ s.nodes.length := by have := vfsFindFreeNode_some hfree; omega
    refine ⟨hI s i _ hs hfree hnew (canonical_of_normalizePath hpath), path :: seen,
      vfsMountable_setNode hi (mem_cons_self ..) hrest⟩
  next => exact .fail fun t ht => ht.1.1

theorem placeNodes_triple (hI : PlaceClosed I) (nodes : List Node) (seen : List (List UInt8)) :
    Triple (fun s => I s ∧ vfsMountable s.nodes seen nodes = true)
      (forEach vfsPlaceNode nodes) (fun _ => I) I := by
  induction nodes generalizing seen with
  | nil => exact .pure fun _ h => h.1
  | cons node rest ih =>
    refine .bind (vfsPlaceNode_triple hI) fun _ s hs => ?_
    obtain ⟨hs, seen', hrest⟩ := hs
    exact ih seen' s ⟨hs, hrest⟩

theorem vfsMountStatic_kept (hI : PlaceClosed I) (nodes : List Node) :
    Kept I (vfsMountStatic nodes) := by
  refine .of_triple <| .bind .get fun s =>
    .ite (fun _ => .fail fun _ h => h.1) fun hc => ?_
  simp only [not_or] at hc
  refine (placeNodes_triple hI nodes []).mono ?_ (fun _ _ h => h) fun _ h => h
  rintro t ⟨hs, rfl⟩
  exact ⟨hs, by simpa using hc.2.2⟩

theorem vfsMountStatic_moves (nodes : List Node) : Moves s (vfsMountStatic nodes s).2 :=
  (vfsMountStatic_kept (moves_place s) nodes s .refl).1

theorem vfsUnmountStatic_moves (path : List UInt8) : Kept (Moves s) (vfsUnmountStatic path) := by
  rw [vfsUnmountStatic]
  split
  · exact .fail
  · refine .bind .get fun t => ?_
    split
    · exact .fail
    next i _ =>
      refine .modify fun t ht => (ht.tail (.drop t fun h => decide (h.node ≠ i))).tail
        (.clear fun j h hj => ?_)
      rw [System.openAt, getElem?_map] at hj
      cases ho : t.openFiles[j]? with
      | none => simp [ho] at hj
      | some o =>
        rw [ho] at hj
        have hkept := filter_eq_some_iff.1 (show o.filter _ = some h from hj)
        simpa using hkept.2

theorem moves_removed (g : Geometry) (dev : Device) (s : System) : RemoveClosed g dev (Moves s) :=
  ⟨fun _ => (moves_stable s).onFat _, fun _ _ => (moves_stable s).onFat _, vfsUnmountStatic_moves⟩

end Nodes

section Files
variable (g : Geometry) (dev : Device)

theorem fat32MountVfsFile_kept (hI : OpenClosed g dev I) (path name : List UInt8) :
    Kept I (fat32MountVfsFile g dev path name) :=
  .bind .get fun _ => .ite .fail <| .bind (hI.openPath name) fun file =>
    .bind (vfsMountStatic_kept hI.place _) fun _ => .modify fun t ht => hI.adopt t file ht

theorem vfsOpenNode_kept (hI : OpenClosed g dev I) (canonical : List UInt8) (flags : UInt32) :
    Kept I (vfsOpenNode g dev canonical flags) := by
  have hensure (relative : List UInt8) : Kept I (fat32VfsEnsure g dev canonical relative flags) := by
    refine .bind (.attempt (hI.openPath relative)) fun r => ?_
    split
    · exact .pure _
    · refine .ite .fail ?_
      split
      · exact .fail
      · exact .bind (hI.create _) fun _ => .pure _
  refine .bind .get fun s => ?_
  split
  · exact .pure _
  · refine .ite .fail (.bind ?_ fun _ => .bind .get fun t => ?_)
    · rw [fat32VfsOpenPath]
      split
      · exact .fail
      · exact .ite .fail <| .bind (hensure _) fun _ => fat32MountVfsFile_kept g dev hI _ _
    · split
      · exact .pure _
      · exact .fail

theorem vfsOpenDescriptor_triple (hI : HandleClosed caller I) (node : ℕ) (mode : UInt32) :
    Triple I (vfsOpenDescriptor caller node mode)
      (fun fd t => ∃ u, I u ∧ Taken caller.pid fd u t) I := by
  refine .bind .get fun s => ?_
  split
  next => exact .fail fun _ h => h.1
  next n hn =>
    refine .ite (fun _ => .fail fun _ h => h.1) fun _ => ?_
    have hreap : Triple (fun t => I t ∧ s = t) (vfsReapDeadOwners caller)
        (fun _ t => I t ∧ (t.nodeAt node).isSome) I := by
      refine .modify ?_
      rintro t ⟨hs, rfl⟩
      exact ⟨hI.reap s hs, isSome_iff_exists.2 ⟨n, hn⟩⟩
    refine .bind hreap fun _ => .bind .get fun u => ?_
    split
    next fd i hfd hi =>
      have hset : Triple (fun t => (I t ∧ (t.nodeAt node).isSome) ∧ u = t)
          (setHandle i (some ⟨node, 0, mode, caller.pid, fd⟩))
          (fun _ t => ∃ u, I u ∧ Taken caller.pid fd u t) I := by
        refine .modify ?_
        rintro t ⟨⟨hs, hnode⟩, rfl⟩
        obtain ⟨hlt, hfree, -⟩ := findIdx?_eq_some_iff_getElem.1 hi
        have hbound := mem_range.1 (mem_of_find?_eq_some hfd)
        refine ⟨u, hs, by simpa using find?_some hfd, hbound, i, node, mode, ?_, hnode, rfl⟩
        rw [getElem?_eq_getElem hlt]
        simpa using hfree
      exact .bind hset fun _ => .pure fun _ h => h
    next => exact .fail fun _ h => h.1.1

theorem vfsOpenFlags_triple (hI : OpenClosed g dev I) (hH : HandleClosed caller I) (path : List UInt8)
    (flags : UInt32) : Triple I (vfsOpenFlags g dev caller path flags)
      (fun fd t => ∃ u, I u ∧ Taken caller.pid fd u t) I := by
  refine .ite (fun _ => ?_) fun _ => .fail fun _ h => h
  split
  next => exact .fail fun _ h => h
  next =>
    exact .bind (vfsOpenNode_kept g dev hI _ flags).triple fun node =>
      vfsOpenDescriptor_triple hH node _

variable {g dev}

theorem fat32VfsUnlinkPath_kept (h : ∀ name, Kept I (onFat (fat32Delete g dev name)))
    (path : List UInt8) : Kept I (fat32VfsUnlinkPath g dev path) := by
  rw [fat32VfsUnlinkPath]
  split
  · exact .fail
  · exact h _

theorem fat32VfsRenamePath_kept
    (h : ∀ oldName newName, Kept I (onFat (fat32Rename g dev oldName newName)))
    (oldPath newPath : List UInt8) : Kept I (fat32VfsRenamePath g dev oldPath newPath) := by
  rw [fat32VfsRenamePath]
  split
  · exact h _ _
  · exact .fail

theorem vfsUnlink_kept (hI : RemoveClosed g dev I) (path : List UInt8) :
    Kept I (vfsUnlink g dev path) := by
  rw [vfsUnlink]
  split
  · exact .fail
  · exact .bind .get fun _ => .ite .fail <| .bind (fat32VfsUnlinkPath_kept hI.delete _) fun _ =>
      .bind (.attempt (hI.unmount _)) fun _ => .pure _

theorem vfsRename_kept (hI : RemoveClosed g dev I) (oldPath newPath : List UInt8) :
    Kept I (vfsRename g dev oldPath newPath) := by
  rw [vfsRename]
  split
  · exact .bind .get fun _ => .ite .fail <| .bind (fat32VfsRenamePath_kept hI.rename _ _) fun _ =>
      .bind (.attempt (hI.unmount _)) fun _ => .bind (.attempt (hI.unmount _)) fun _ => .pure _
  · exact .fail

end Files
end Handles

/-- The call hands the descriptor `fd` of process `pid` out. -/
def VfsOp.Issues (g : Geometry) (dev : Device) (caller : Caller) (s : System) (op : VfsOp)
    (pid fd : ℕ) : Prop :=
  ∃ path flags, op = .openFlags path flags ∧ caller.pid = pid ∧
    (vfsOpenFlags g dev caller path flags s).1 = some fd

section Runs
variable {g : Geometry} {dev : Device} {s : System}

theorem VfsOp.step_cases (caller : Caller) (op : VfsOp) : Moves s (op.step g dev caller s) ∨
    ∃ fd u, op.Issues g dev caller s caller.pid fd ∧ Moves s u ∧
      Taken caller.pid fd u (op.step g dev caller s) := by
  have hopens : OpenClosed g dev (Moves s) := (moves_stable s).opens (moves_place s)
  cases op with
  | openFlags path flags =>
    have h := vfsOpenFlags_triple g dev hopens (moves_handles s caller) path flags s .refl
    rcases hrun : vfsOpenFlags g dev caller path flags s with ⟨_ | fd, t⟩
    · refine .inl ?_
      rw [VfsOp.step, hrun]
      exact h.2 t hrun
    · obtain ⟨u, hmoves, htaken⟩ := h.1 fd t hrun
      refine .inr ⟨fd, u, ⟨path, flags, rfl, rfl, by rw [hrun]⟩, hmoves, ?_⟩
      rw [VfsOp.step, hrun]
      exact htaken
  | closeAllForPid pid => exact .inl (vfsCloseAllForPid_moves s pid)
  | unlink path => exact .inl (vfsUnlink_kept (moves_removed g dev s) path s .refl).1
  | rename oldPath newPath =>
    exact .inl (vfsRename_kept (moves_removed g dev s) oldPath newPath s .refl).1
  | mountFatFile path name => exact .inl (fat32MountVfsFile_kept g dev hopens path name s .refl).1
  | _ => exact .inl (plain_kept (moves_stable s).data (moves_handles s caller) trivial .refl)

theorem TablesSound.step (hs : TablesSound s) (caller : Caller) (op : VfsOp) :
    TablesSound (op.step g dev caller s) := by
  rcases @VfsOp.step_cases g dev s caller op with h | ⟨fd, u, -, hmoves, ht⟩
  · exact hs.moves h
  · exact (hs.moves hmoves).taken ht

theorem TablesSound.run (hs : TablesSound s) (ops : List (Caller × VfsOp)) :
    TablesSound (runOps g dev s ops) := by
  induction ops generalizing s with
  | nil => exact hs
  | cons x ops ih => exact ih (hs.step x.1 x.2)

theorem VfsOp.step_mounts (hs : TablesSound s) (caller : Caller) (op : VfsOp) :
    (op.step g dev caller s).mounts = s.mounts := by
  rcases @VfsOp.step_cases g dev s caller op with h | ⟨fd, u, -, hmoves, ht⟩
  · exact h.mounts hs
  · obtain ⟨i, node, mode, -, -, heq⟩ := ht.installed
    have hu := hmoves.mounts hs
    rw [heq, hu]

theorem runOps_mounts (hs : TablesSound s) (ops : List (Caller × VfsOp)) :
    (runOps g dev s ops).mounts = s.mounts := by
  induction ops generalizing s with
  | nil => rfl
  | cons x ops ih => exact (ih (hs.step x.1 x.2)).trans (VfsOp.step_mounts hs x.1 x.2)

theorem NoHandle.step {pid fd : ℕ} (hs : NoHandle pid fd s) (caller : Caller) (op : VfsOp)
    (hnew : ¬ op.Issues g dev caller s pid fd) : NoHandle pid fd (op.step g dev caller s) := by
  rcases @VfsOp.step_cases g dev s caller op with
    h | ⟨fd', u, hissue, hmoves, ht⟩
  · exact hs.moves h
  · intro i h hi
    rcases ht.openAt hi with ⟨hpid, hfd, -⟩ | hold
    · rintro ⟨rfl, rfl⟩
      rw [hpid, hfd] at hnew
      exact hnew hissue
    · exact hs.moves hmoves i h hold

theorem emptySystem_sound (v : Volume) (mounts : List (List UInt8)) :
    TablesSound ⟨v, [], [], mounts, replicate maxGlobalOpenFiles none⟩ := by
  have hempty : ∀ i : ℕ, ((replicate maxGlobalOpenFiles (none : Option OpenFile))[i]?).join
      = none := fun i => by
    rw [getElem?_replicate]
    split <;> rfl
  refine ⟨fun i j n m h => ?_, fun i n h => ?_, fun i j h k hi => ?_, fun i h hi => ?_,
    fun i h hi => ?_, ?_, ?_⟩
  · simp [System.nodeAt] at h
  · simp [System.nodeAt] at h
  · rw [System.openAt, hempty] at hi
    simp at hi
  · rw [System.openAt, hempty] at hi
    simp at hi
  · rw [System.openAt, hempty] at hi
    simp at hi
  · exact Nat.zero_le _
  · exact length_replicate

theorem bootSystem_sound (v : Volume) (boot : List Node) : TablesSound (bootSystem v boot) :=
  (emptySystem_sound v _).moves (vfsMountStatic_moves boot)

theorem bootSystem_mounts (v : Volume) (boot : List Node) :
    (bootSystem v boot).mounts = [fatRootPath] :=
  (vfsMountStatic_moves boot).mounts (emptySystem_sound v _)

end Runs
end Vfs
