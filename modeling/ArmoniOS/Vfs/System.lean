import ArmoniOS.Fat32.Files
import ArmoniOS.Vfs.Normalize

/-! The kernel VFS of `kernel/vfs.c` with the FAT32 adapter of `kernel/fat32_vfs.c` behind it:
node table, descriptor table, adapter slots and the volume. The adapter is the only file system
that mounts; the boot file system registers static nodes. -/
namespace Vfs
open Exec Fat32

def maxNodes : ℕ := 24
def maxOpenFiles : ℕ := 8
def maxGlobalOpenFiles : ℕ := maxOpenFiles * 16

/-- `FAT32_MAX_VFS_FILES`. -/
def maxFatFiles : ℕ := 8

def oRdonly : UInt32 := 0
def oWronly : UInt32 := 1
def oRdwr : UInt32 := 2
def oAccmode : UInt32 := 3
def oCreat : UInt32 := 0x40
def oAllowed : UInt32 := oAccmode ||| oCreat

/-- The callbacks and the context of a node: a boot image, which can only be read and has no
`stat` callback, or a file slot of the FAT32 adapter. -/
inductive NodeOps where
  | bootfs (data : List UInt8)
  | fat32 (slot : ℕ)
  deriving DecidableEq

def NodeOps.hasWrite : NodeOps → Bool
  | .bootfs _ => false
  | .fat32 _ => true

structure Node where
  path : List UInt8
  size : ℕ
  ops : NodeOps
  deriving DecidableEq

/-- `vfs_open_file_t` of a used handle; `node` is an index into the node table. -/
structure OpenFile where
  node : ℕ
  offset : ℕ
  flags : UInt32
  ownerPid : ℕ
  localFd : ℕ
  deriving DecidableEq

/-- `nodes` holds the first `g_vfs_node_count` slots of the node table (the others are clear),
`fatFiles` the first `g_fat32_vfs_count` handles of the adapter, `mounts` the mount points in the
order they were made, `openFiles` the global handle pool. -/
structure System where
  volume : Volume
  fatFiles : List FileHandle
  nodes : List (Option Node)
  mounts : List (List UInt8)
  openFiles : List (Option OpenFile)

/-- The running process (pid 0 without one) and which processes are alive. -/
structure Caller where
  pid : ℕ
  alive : ℕ → Bool

abbrev VfsM (α : Type) : Type := Run System α

section Tables

def vfsOwnerIsAlive (caller : Caller) (pid : ℕ) : Bool := pid = 0 || caller.alive pid

def vfsReapDeadOwners (caller : Caller) : VfsM Unit := modify fun s =>
  { s with openFiles := s.openFiles.map fun o => o.filter fun h => vfsOwnerIsAlive caller h.ownerPid }

def vfsFreeNodeCount (nodes : List (Option Node)) : ℕ := maxNodes - (nodes.filter (·.isSome)).length

def vfsFindFreeNode (nodes : List (Option Node)) : Option ℕ :=
  match nodes.findIdx? (·.isNone) with
  | some i => some i
  | none => if nodes.length < maxNodes then some nodes.length else none

def vfsFindCanonical (nodes : List (Option Node)) (path : List UInt8) : Option ℕ :=
  nodes.findIdx? fun n => n.any fun node => node.path = path

def vfsLocalFdInUse (files : List (Option OpenFile)) (ownerPid localFd : ℕ) : Bool :=
  files.any fun o => o.any fun h => h.ownerPid = ownerPid ∧ h.localFd = localFd

def vfsFindFreeLocalFd (files : List (Option OpenFile)) (ownerPid : ℕ) : Option ℕ :=
  (List.range maxOpenFiles).find? fun fd => ¬ vfsLocalFdInUse files ownerPid fd

def vfsFindFreeGlobalHandle (files : List (Option OpenFile)) : Option ℕ :=
  files.findIdx? (·.isNone)

def setNode (nodes : List (Option Node)) (i : ℕ) (node : Node) : List (Option Node) :=
  if i < nodes.length then nodes.set i (some node) else nodes ++ [some node]

/-- The first loop of `vfs_mount_static`; `seen` are the paths before this one. -/
def vfsMountable (nodes : List (Option Node)) : (seen : List (List UInt8)) → List Node → Bool
  | _, [] => true
  | seen, node :: rest =>
      match vfsNormalizePath node.path with
      | none => false
      | some path =>
          vfsFindCanonical nodes path = none ∧ path ∉ seen ∧ vfsMountable nodes (path :: seen) rest

def vfsPlaceNode (node : Node) : VfsM Unit := do
  let s ← Exec.get
  match vfsFindFreeNode s.nodes, vfsNormalizePath node.path with
  | some i, some path => modify fun s => { s with nodes := setNode s.nodes i { node with path := path } }
  | _, _ => fail

def vfsMountStatic (nodes : List Node) : VfsM Unit := do
  let s ← Exec.get
  if nodes = [] ∨ vfsFreeNodeCount s.nodes < nodes.length ∨ vfsMountable s.nodes [] nodes = false then
    fail
  else forEach vfsPlaceNode nodes

def vfsUnmountStatic (path : List UInt8) : VfsM Unit :=
  match vfsNormalizePath path with
  | none => fail
  | some canonical => do
      let s ← Exec.get
      match vfsFindCanonical s.nodes canonical with
      | none => fail
      | some i => modify fun s =>
          { s with
            openFiles := s.openFiles.map fun o => o.filter fun h => h.node ≠ i
            nodes := s.nodes.set i none }

def vfsFindMountExact (mounts : List (List UInt8)) (path : List UInt8) : Option ℕ :=
  mounts.findIdx? (· = path)

def vfsFindMountForPath (mounts : List (List UInt8)) (path : List UInt8) : Option ℕ :=
  (mounts.zipIdx.foldl (fun best m =>
    if vfsPathIsMountChild path m.1 = true ∧ (best.all fun b => b.1.length < m.1.length) then some m
    else best) none).map (·.2)

def vfsMountOf (mounts : List (List UInt8)) (path : List UInt8) : Option ℕ :=
  (vfsFindMountExact mounts path).or (vfsFindMountForPath mounts path)

def findHandle (files : List (Option OpenFile)) (ownerPid : ℕ) (fd : ℤ) : Option (ℕ × OpenFile) :=
  files.zipIdx.findSome? fun x => x.1.bind fun h =>
    if h.ownerPid = ownerPid ∧ (h.localFd : ℤ) = fd then some (x.2, h) else none

def vfsFdAt (caller : Caller) (fd : ℤ) : VfsM (ℕ × OpenFile) :=
  if fd < 0 ∨ (maxOpenFiles : ℤ) ≤ fd then fail
  else do
    vfsReapDeadOwners caller
    let s ← Exec.get
    match findHandle s.openFiles caller.pid fd with
    | some x => pure x
    | none => fail

def setHandle (i : ℕ) (h : Option OpenFile) : VfsM Unit :=
  modify fun s => { s with openFiles := s.openFiles.set i h }

end Tables

section Adapter
variable (g : Geometry) (dev : Device)

def onFat {α : Type} (m : FsM α) : VfsM α := zoom System.volume (fun s v => { s with volume := v }) m

def fat32VfsRead (slot offset capacity : ℕ) : VfsM (List UInt8) := do
  let s ← Exec.get
  match s.fatFiles[slot]? with
  | none => fail
  | some file => onFat (fat32Read g dev file offset capacity)

def fat32VfsWrite (slot offset : ℕ) (data : List UInt8) : VfsM ℕ := do
  let s ← Exec.get
  match s.fatFiles[slot]? with
  | none => fail
  | some file =>
      zoom (fun s => (s.volume, file))
        (fun s r => { s with volume := r.1, fatFiles := s.fatFiles.set slot r.2 })
        (fat32Write g dev offset data)

def fat32VfsStat (slot : ℕ) : VfsM ℕ := do
  let s ← Exec.get
  match s.fatFiles[slot]? with
  | none => fail
  | some file => pure file.size

def fat32MountVfsFile (path name : List UInt8) : VfsM Unit := do
  let s ← Exec.get
  if path.head? ≠ some charSlash ∨ maxFatFiles ≤ s.fatFiles.length then fail
  else do
    let file ← onFat (fat32OpenPath g dev name)
    vfsMountStatic [⟨path, file.size, .fat32 s.fatFiles.length⟩]
    modify fun s => { s with fatFiles := s.fatFiles ++ [file] }

def fat32VfsEnsure (path relative : List UInt8) (flags : UInt32) : VfsM Unit := do
  match ← attempt (onFat (fat32OpenPath g dev relative)) with
  | some _ => pure ()
  | none =>
      if flags &&& oCreat = 0 then fail
      else
        match fat32VfsRootName path with
        | none => fail
        | some name => do
            let _ ← onFat (fat32Create g dev name)
            pure ()

def fat32VfsOpenPath (path : List UInt8) (flags : UInt32) : VfsM Unit :=
  match fat32VfsRelativePath path with
  | none => fail
  | some relative =>
      if relative = [] then fail
      else do
        fat32VfsEnsure g dev path relative flags
        fat32MountVfsFile g dev path relative

def fat32VfsStatPath (path : List UInt8) : VfsM ℕ :=
  match fat32VfsRelativePath path with
  | none => fail
  | some relative => do
      let info ← onFat (fat32LookupPath g dev relative)
      pure info.size

def fat32VfsReadPath (path : List UInt8) (offset capacity : ℕ) : VfsM (List UInt8) :=
  match fat32VfsRelativePath path with
  | none => fail
  | some relative =>
      if relative = [] then fail
      else do
        let info ← onFat (fat32LookupPath g dev relative)
        if info.attributes &&& attrDirectory ≠ 0 ∨ info.size < offset then fail
        else do
          let file ← onFat (fat32OpenPath g dev relative)
          onFat (fat32Read g dev file offset capacity)

def fat32VfsUnlinkPath (path : List UInt8) : VfsM Unit :=
  match fat32VfsRootName path with
  | none => fail
  | some name => onFat (fat32Delete g dev name)

def fat32VfsRenamePath (oldPath newPath : List UInt8) : VfsM Unit :=
  match fat32VfsRootName oldPath, fat32VfsRootName newPath with
  | some oldName, some newName => onFat (fat32Rename g dev oldName newName)
  | _, _ => fail

/-- File type, size and attribute bits of `vfs_metadata_t`. -/
inductive FileType where
  | unknown | regular | directory
  deriving DecidableEq

structure Metadata where
  size : ℕ
  type : FileType
  attributes : UInt32
  deriving DecidableEq

/-- Read-only, hidden and system keep their bits, archive moves to `0x08`. -/
def fat32VfsAttributes (attributes : UInt8) : UInt32 :=
  (if attributes &&& attrReadOnly ≠ 0 then 0x01 else 0) |||
  (if attributes &&& attrHidden ≠ 0 then 0x02 else 0) |||
  (if attributes &&& attrSystem ≠ 0 then 0x04 else 0) |||
  (if attributes &&& attrArchive ≠ 0 then 0x08 else 0)

def fat32VfsMetadataPath (path : List UInt8) : VfsM Metadata :=
  match fat32VfsRelativePath path with
  | none => fail
  | some relative => do
      let info ← onFat (fat32LookupPath g dev relative)
      pure ⟨info.size, if info.attributes &&& attrDirectory ≠ 0 then .directory else .regular,
        fat32VfsAttributes info.attributes⟩

end Adapter

section Operations
variable (g : Geometry) (dev : Device)

def System.nodeAt (s : System) (i : ℕ) : Option Node := (s.nodes[i]?).join

def vfsNodeSize (node : Node) : VfsM ℕ :=
  match node.ops with
  | .bootfs _ => pure node.size
  | .fat32 slot => fat32VfsStat slot

def nodeRead (node : Node) (offset capacity : ℕ) : VfsM (List UInt8) :=
  match node.ops with
  | .bootfs data => if data.length < offset then fail else pure ((data.drop offset).take capacity)
  | .fat32 slot => fat32VfsRead g dev slot offset capacity

def nodeWrite (node : Node) (offset : ℕ) (data : List UInt8) : VfsM ℕ :=
  match node.ops with
  | .bootfs _ => fail
  | .fat32 slot => fat32VfsWrite g dev slot offset data

def vfsReadResultValid (offset fileSize capacity count : ℕ) : Prop :=
  offset ≤ fileSize ∧ count ≤ capacity ∧ count ≤ fileSize - offset
deriving Decidable

def vfsWriteResultValid (offset requested count : ℕ) : Prop :=
  count ≤ requested ∧ offset + count < 2 ^ 64
deriving Decidable

/-- Size check, read callback and check of its count, shared by `vfs_read` and `vfs_read_fd`. -/
def readNode (node : Node) (offset capacity : ℕ) : VfsM (List UInt8) := do
  let size ← vfsNodeSize node
  if size < offset then fail
  else do
    let bytes ← nodeRead g dev node offset capacity
    if vfsReadResultValid offset size capacity bytes.length then pure bytes else fail

/-- The same for `vfs_write` and `vfs_write_fd`. -/
def writeNode (node : Node) (offset : ℕ) (data : List UInt8) : VfsM ℕ := do
  let size ← vfsNodeSize node
  if size < offset then fail
  else do
    let count ← nodeWrite g dev node offset data
    if vfsWriteResultValid offset data.length count then pure count else fail

def vfsOpenFlagsValid (flags : UInt32) : Prop :=
  flags &&& ~~~oAllowed = 0 ∧
    (flags &&& oAccmode = oRdonly ∨ flags &&& oAccmode = oWronly ∨ flags &&& oAccmode = oRdwr)
deriving Decidable

/-- The first half of `vfs_open_flags`: find the node, or have the mount register it. -/
def vfsOpenNode (canonical : List UInt8) (flags : UInt32) : VfsM ℕ := do
  let s ← Exec.get
  match vfsFindCanonical s.nodes canonical with
  | some i => pure i
  | none =>
      if vfsFindMountForPath s.mounts canonical = none then fail
      else do
        fat32VfsOpenPath g dev canonical flags
        let s ← Exec.get
        match vfsFindCanonical s.nodes canonical with
        | some i => pure i
        | none => fail

def vfsOpenDescriptor (caller : Caller) (node : ℕ) (mode : UInt32) : VfsM ℕ := do
  let s ← Exec.get
  match s.nodeAt node with
  | none => fail
  | some n =>
      if (mode = oWronly ∨ mode = oRdwr) ∧ n.ops.hasWrite = false then fail
      else do
        vfsReapDeadOwners caller
        let s ← Exec.get
        match vfsFindFreeLocalFd s.openFiles caller.pid, vfsFindFreeGlobalHandle s.openFiles with
        | some fd, some i => do
            setHandle i (some ⟨node, 0, mode, caller.pid, fd⟩)
            pure fd
        | _, _ => fail

def vfsOpenFlags (caller : Caller) (path : List UInt8) (flags : UInt32) : VfsM ℕ :=
  if vfsOpenFlagsValid flags then
    match vfsNormalizePath path with
    | none => fail
    | some canonical => do
        let node ← vfsOpenNode g dev canonical flags
        vfsOpenDescriptor caller node (flags &&& oAccmode)
  else fail

def handleNode (h : OpenFile) : VfsM Node := do
  let s ← Exec.get
  match s.nodeAt h.node with
  | none => fail
  | some node => pure node

def vfsReadFd (caller : Caller) (fd : ℤ) (capacity : ℕ) : VfsM (List UInt8) := do
  let x ← vfsFdAt caller fd
  let node ← handleNode x.2
  if x.2.flags = oWronly then fail
  else do
    let bytes ← readNode g dev node x.2.offset capacity
    setHandle x.1 (some { x.2 with offset := x.2.offset + bytes.length })
    pure bytes

def vfsWriteFd (caller : Caller) (fd : ℤ) (data : List UInt8) : VfsM ℕ := do
  let x ← vfsFdAt caller fd
  let node ← handleNode x.2
  if node.ops.hasWrite = false ∨ x.2.flags = oRdonly then fail
  else do
    let count ← writeNode g dev node x.2.offset data
    setHandle x.1 (some { x.2 with offset := x.2.offset + count })
    pure count

def vfsSeek (caller : Caller) (fd : ℤ) (offset : ℕ) : VfsM Unit := do
  let x ← vfsFdAt caller fd
  let node ← handleNode x.2
  let size ← vfsNodeSize node
  if size < offset then fail else setHandle x.1 (some { x.2 with offset := offset })

def vfsClose (caller : Caller) (fd : ℤ) : VfsM Unit := do
  let x ← vfsFdAt caller fd
  setHandle x.1 none

def vfsCloseAllForPid (pid : ℕ) : VfsM Unit := modify fun s =>
  { s with openFiles := s.openFiles.map fun o => o.filter fun h => h.ownerPid ≠ pid }

def vfsUnlink (path : List UInt8) : VfsM Unit :=
  match vfsNormalizePath path with
  | none => fail
  | some canonical => do
      let s ← Exec.get
      if vfsFindMountForPath s.mounts canonical = none then fail
      else do
        fat32VfsUnlinkPath g dev canonical
        let _ ← attempt (vfsUnmountStatic canonical)
        pure ()

def vfsRename (oldPath newPath : List UInt8) : VfsM Unit :=
  match vfsNormalizePath oldPath, vfsNormalizePath newPath with
  | some canonicalOld, some canonicalNew => do
      let s ← Exec.get
      if vfsFindMountForPath s.mounts canonicalOld = none ∨
          vfsFindMountForPath s.mounts canonicalOld ≠ vfsFindMountForPath s.mounts canonicalNew then fail
      else do
        fat32VfsRenamePath g dev canonicalOld canonicalNew
        let _ ← attempt (vfsUnmountStatic canonicalOld)
        let _ ← attempt (vfsUnmountStatic canonicalNew)
        pure ()
  | _, _ => fail

def vfsStat (path : List UInt8) : VfsM ℕ :=
  match vfsNormalizePath path with
  | none => fail
  | some canonical => do
      let s ← Exec.get
      match (vfsFindCanonical s.nodes canonical).bind s.nodeAt with
      | some node => vfsNodeSize node
      | none =>
          if vfsMountOf s.mounts canonical = none then fail
          else fat32VfsStatPath g dev canonical

/-- Without a node or a mount only `/` has metadata: it lists the nodes. -/
def vfsMetadata (path : List UInt8) : VfsM Metadata :=
  match vfsNormalizePath path with
  | none => fail
  | some canonical => do
      let s ← Exec.get
      match (vfsFindCanonical s.nodes canonical).bind s.nodeAt with
      | some node => do
          let size ← vfsNodeSize node
          pure ⟨size, .regular, 0⟩
      | none =>
          if vfsMountOf s.mounts canonical = none then
            if canonical = [charSlash] then pure ⟨0, .directory, 0⟩ else fail
          else fat32VfsMetadataPath g dev canonical

def vfsRead (path : List UInt8) (offset capacity : ℕ) : VfsM (List UInt8) :=
  match vfsNormalizePath path with
  | none => fail
  | some canonical => do
      let s ← Exec.get
      match (vfsFindCanonical s.nodes canonical).bind s.nodeAt with
      | some node => readNode g dev node offset capacity
      | none =>
          if vfsMountOf s.mounts canonical = none then fail
          else do
            let metadata ← vfsMetadata g dev canonical
            if metadata.type ≠ .regular ∨ metadata.size < offset then fail
            else do
              let bytes ← fat32VfsReadPath g dev canonical offset capacity
              if vfsReadResultValid offset metadata.size capacity bytes.length then pure bytes
              else fail

def vfsWrite (path : List UInt8) (offset : ℕ) (data : List UInt8) : VfsM ℕ :=
  match vfsNormalizePath path with
  | none => fail
  | some canonical => do
      let s ← Exec.get
      match (vfsFindCanonical s.nodes canonical).bind s.nodeAt with
      | none => fail
      | some node =>
          if node.ops.hasWrite = false then fail else writeNode g dev node offset data

end Operations

inductive VfsOp where
  | openFlags (path : List UInt8) (flags : UInt32)
  | readFd (fd : ℤ) (capacity : ℕ)
  | writeFd (fd : ℤ) (data : List UInt8)
  | seek (fd : ℤ) (offset : ℕ)
  | close (fd : ℤ)
  | closeAllForPid (pid : ℕ)
  | unlink (path : List UInt8)
  | rename (oldPath newPath : List UInt8)
  | stat (path : List UInt8)
  | metadata (path : List UInt8)
  | read (path : List UInt8) (offset capacity : ℕ)
  | write (path : List UInt8) (offset : ℕ) (data : List UInt8)
  | mountFatFile (path name : List UInt8)

section Runs
variable (g : Geometry) (dev : Device)

def VfsOp.step (caller : Caller) (s : System) : VfsOp → System
  | .openFlags path flags => (vfsOpenFlags g dev caller path flags s).2
  | .readFd fd capacity => (vfsReadFd g dev caller fd capacity s).2
  | .writeFd fd data => (vfsWriteFd g dev caller fd data s).2
  | .seek fd offset => (vfsSeek caller fd offset s).2
  | .close fd => (vfsClose caller fd s).2
  | .closeAllForPid pid => (vfsCloseAllForPid pid s).2
  | .unlink path => (vfsUnlink g dev path s).2
  | .rename oldPath newPath => (vfsRename g dev oldPath newPath s).2
  | .stat path => (vfsStat g dev path s).2
  | .metadata path => (vfsMetadata g dev path s).2
  | .read path offset capacity => (vfsRead g dev path offset capacity s).2
  | .write path offset data => (vfsWrite g dev path offset data s).2
  | .mountFatFile path name => (fat32MountVfsFile g dev path name s).2

def runOps (s : System) (ops : List (Caller × VfsOp)) : System :=
  ops.foldl (fun s x => x.2.step g dev x.1 s) s

/-- After `vfs_reset`, the boot nodes, `fat32_vfs_reset` and `fat32_mount_vfs_root`. -/
def bootSystem (v : Volume) (boot : List Node) : System :=
  (vfsMountStatic boot ⟨v, [], [], [fatRootPath], List.replicate maxGlobalOpenFiles none⟩).2

end Runs
end Vfs
