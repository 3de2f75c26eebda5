import ArmoniOS.Fat32.CachedHandle
import ArmoniOS.Vfs.Invalidation
import ArmoniOS.Vfs.OpenNode

/-! One file seen through several VFS paths. The adapter caches a handle for every path opened, so
all observers agree as long as no directory entry is opened under a second path: a write updates
the handle it goes through and the medium, and no other copy. -/
namespace Vfs
open Exec Fat32 List Option

section Definitions
variable (g : Geometry) (dev : Device)

structure Coherent (s : System) : Prop where
  volume : WellFormed g anywhere s.volume.disk
  current : ∀ (k : ℕ) (f : FileHandle), s.fatFiles[k]? = some f → Current g s.volume.disk f
  distinct : ∀ (j k : ℕ) (f f' : FileHandle), s.fatFiles[j]? = some f →
    s.fatFiles[k]? = some f' → f.slot = f'.slot → j = k

/-- The call removes and creates no file, and opens no entry that an adapter slot holds already
under another path. -/
def VfsOp.Respects (s : System) : VfsOp → Prop
  | .openFlags path flags => ∀ canonical relative, vfsNormalizePath path = some canonical →
      vfsFindCanonical s.nodes canonical = none → fat32VfsRelativePath canonical = some relative →
      (openPathImage g s.volume.disk relative = none → flags &&& oCreat = 0) ∧
      ∀ f, openPathImage g s.volume.disk relative = some f → ∀ f' ∈ s.fatFiles, f'.slot ≠ f.slot
  | .unlink _ | .rename _ _ | .mountFatFile _ _ => False
  | _ => True

def RunRespects : System → List (Caller × VfsOp) → Prop
  | _, [] => True
  | s, x :: ops => x.2.Respects g s ∧ RunRespects (x.2.step g dev x.1 s) ops

/-- The VFS takes the path to the directory entry at `p`: through its node, or by looking it up. -/
def System.Resolves (s : System) (path : List UInt8) (p : Slot) : Prop :=
  ∃ canonical, vfsNormalizePath path = some canonical ∧
    ((∃ (i : ℕ) (node : Node) (slot : ℕ) (f : FileHandle),
        vfsFindCanonical s.nodes canonical = some i ∧ s.nodeAt i = some node ∧
        node.ops = .fat32 slot ∧ s.fatFiles[slot]? = some f ∧ f.slot = p) ∨
      (vfsFindCanonical s.nodes canonical = none ∧ ∃ relative f,
        fat32VfsRelativePath canonical = some relative ∧
        openPathImage g s.volume.disk relative = some f ∧ f.slot = p))

/-- Whoever looks at the file at `p` sees the byte string `content`: the directory entry, the
cached handles, reads through descriptors, `vfs_stat` of any path, and fresh opens. -/
structure Shows (s : System) (p : Slot) (content : List UInt8) : Prop where
  entry : (entryAt s.volume.disk p).size = content.length
  cached : ∀ f ∈ s.fatFiles, f.slot = p → f.size = content.length ∧
    f.firstCluster = (entryAt s.volume.disk p).firstCluster
  read : ∀ (caller : Caller) (i : ℕ) (h : OpenFile), s.openAt i = some h →
    h.ownerPid = caller.pid → vfsOwnerIsAlive caller caller.pid = true → OnEntry s h p →
    h.flags ≠ oWronly → h.offset ≤ content.length → ∀ capacity,
    (vfsReadFd g dev caller h.localFd capacity s).1 =
      some ((content.drop h.offset).take capacity)
  stat : ∀ path, s.Resolves g path p → (vfsStat g dev path s).1 = some content.length
  fresh : ∀ relative f, (fat32OpenPath g dev relative s.volume).1 = some f → f.slot = p →
    f.size = content.length ∧ f.firstCluster = (entryAt s.volume.disk p).firstCluster ∧
    (fat32Read g dev f 0 content.length s.volume).1 = some content

end Definitions

section Keeping
variable {g : Geometry} {dev : Device} {s t : System}

theorem Coherent.congr (hs : Coherent g s) (hdisk : t.volume.disk = s.volume.disk)
    (hfiles : t.fatFiles = s.fatFiles) : Coherent g t := by
  refine ⟨hdisk ▸ hs.volume, fun k f hk => ?_, fun j k f f' hj hk => ?_⟩
  · rw [hdisk]
    exact hs.current k f (hfiles ▸ hk)
  · exact hs.distinct j k f f' (hfiles ▸ hj) (hfiles ▸ hk)

/-- A rewritten file keeps the system coherent: only the handle written through was on its entry. -/
theorem Coherent.rewritten (hs : Coherent g s) {slot offset : ℕ} {f f' : FileHandle}
    {data : List UInt8} {r : Option ℕ} {w : Volume} (hf : s.fatFiles[slot]? = some f)
    (h : Rewritten g s.volume.disk f offset data r w.disk f') :
    Coherent g { s with volume := w, fatFiles := s.fatFiles.set slot f' } := by
  have hlt := (List.getElem?_eq_some_iff.1 hf).1
  have hat : ∀ (k : ℕ) (x : FileHandle), (s.fatFiles.set slot f')[k]? = some x →
      ∃ y, s.fatFiles[k]? = some y ∧ x.slot = y.slot ∧ Current g w.disk x := by
    intro k x hk
    by_cases hks : k = slot
    · subst hks
      rw [getElem?_set_self hlt] at hk
      obtain rfl := some.inj hk
      exact ⟨f, hf, h.slot, h.current⟩
    · rw [getElem?_set_ne (Ne.symm hks)] at hk
      exact ⟨x, hk, rfl, h.others x (hs.current k x hk) fun heq =>
        hks (hs.distinct k slot x f hk hf heq)⟩
  refine ⟨h.volume, fun k x hk => ?_, fun j k x y hj hk hxy => ?_⟩
  · obtain ⟨-, -, -, hx⟩ := hat k x hk
    exact hx
  · obtain ⟨x', hx', hxs, -⟩ := hat j x hj
    obtain ⟨y', hy', hys, -⟩ := hat k y hk
    exact hs.distinct j k x' y' hx' hy' (by rw [← hxs, hxy, hys])

section Writing
variable (hr : dev.ReadsOk) (hok : dev.WritesOk)
include hr hok

theorem fat32VfsWrite_apply (hs : Coherent g s) {slot : ℕ} {f : FileHandle}
    (hf : s.fatFiles[slot]? = some f) (offset : ℕ) (data : List UInt8) :
    fat32VfsWrite g dev slot offset data s = (none, s) ∨
    ∃ r w f', fat32VfsWrite g dev slot offset data s =
        (r, { s with volume := w, fatFiles := s.fatFiles.set slot f' }) ∧
      Rewritten g s.volume.disk f offset data r w.disk f' := by
  rw [fat32VfsWrite, bind_of_some get_apply, hf]
  simp only [zoom_apply]
  by_cases hoff : f.size < offset
  · have hfail : fat32Write g dev offset data (s.volume, f) = (none, (s.volume, f)) := by
      rw [fat32Write, bind_of_some (show currentFile (s.volume, f) = (some f, (s.volume, f)) from rfl),
        if_pos (.inr (.inl hoff))]
      rfl
    have hset : s.fatFiles.set slot f = s.fatFiles := by
      obtain ⟨hlt, hget⟩ := List.getElem?_eq_some_iff.1 hf
      rw [← hget, set_getElem_self]
    refine .inl ?_
    rw [hfail, hset]
  · obtain ⟨r, w, f', hrun, hrew⟩ := (hs.current slot f hf).write hr hok hs.volume offset
      (by omega) data
    exact .inr ⟨r, w, f', by rw [hrun], hrew⟩

theorem coherent_data : DataClosed g dev (Coherent g) where
  lookup path s hs := ⟨hs.congr (fat32LookupPath_reads g hr path s.volume).2.1 rfl, fun _ _ => trivial⟩
  openPath path s hs := ⟨hs.congr (fat32OpenPath_reads g hr path s.volume).2.1 rfl, fun _ _ => trivial⟩
  read f offset capacity s hs := ⟨hs.congr (fat32Read_keeps (I := s.volume.Quiet) f offset capacity
    s.volume (.refl s.volume)).1.1 rfl, fun _ _ => trivial⟩
  write slot offset data s hs := by
    refine ⟨?_, fun _ _ => trivial⟩
    cases hf : s.fatFiles[slot]? with
    | none =>
      rw [fat32VfsWrite, bind_of_some get_apply, hf]
      exact hs
    | some f =>
      rcases fat32VfsWrite_apply hr hok hs hf offset data with hrun | ⟨r, w, f', hrun, hrew⟩
      · rw [hrun]
        exact hs
      · rw [hrun]
        exact hs.rewritten hf hrew

end Writing

theorem coherent_handles (caller : Caller) : HandleClosed caller (Coherent g) :=
  ⟨fun _ hs => hs.congr rfl rfl, fun _ _ _ hs _ _ _ => hs.congr rfl rfl,
    fun _ _ _ hs _ _ => hs.congr rfl rfl⟩

section Opening
variable {path canonical relative : List UInt8} {flags : UInt32} {f : FileHandle}

theorem Coherent.withFile (hs : Coherent g s) {v : Volume} (hq : s.volume.Quiet v)
    (hopen : openPathImage g s.volume.disk relative = some f)
    (hnew : ∀ f' ∈ s.fatFiles, f'.slot ≠ f.slot) (i : ℕ) : Coherent g (s.withFile v i path f) := by
  have hat : ∀ (k : ℕ) (x : FileHandle), (s.fatFiles ++ [f])[k]? = some x →
      s.fatFiles[k]? = some x ∨ (k = s.fatFiles.length ∧ x = f) := by
    intro k x hk
    rw [getElem?_append] at hk
    split at hk
    next => exact .inl hk
    next hlt =>
      obtain ⟨hzero, hx⟩ := List.getElem?_eq_some_iff.1 hk
      rw [length_singleton] at hzero
      refine .inr ⟨by omega, ?_⟩
      rw [← hx, getElem_singleton]
  refine ⟨hq.1 ▸ hs.volume, fun k x hk => ?_, fun j k x y hj hk hxy => ?_⟩
  · show Current g v.disk x
    rw [hq.1]
    rcases hat k x hk with hx | ⟨-, rfl⟩
    · exact hs.current k x hx
    · exact current_of_openPath hs.volume.toChained hopen
  · rcases hat j x hj with hx | ⟨hjlen, rfl⟩
    · rcases hat k y hk with hy | ⟨-, rfl⟩
      · exact hs.distinct j k x y hx hy hxy
      · exact absurd hxy (hnew x (mem_of_getElem? hx))
    · rcases hat k y hk with hy | ⟨hklen, -⟩
      · exact absurd hxy.symm (hnew y (mem_of_getElem? hy))
      · rw [hjlen, hklen]

theorem Coherent.openNode (hs : Coherent g s) (hr : dev.ReadsOk) (htables : TablesSound s)
    (hmounts : s.mounts = [fatRootPath]) (hpath : vfsNormalizePath path = some canonical)
    (hop : (VfsOp.openFlags path flags).Respects g s) :
    Coherent g (vfsOpenNode g dev canonical flags s).2 := by
  cases hfind : vfsFindCanonical s.nodes canonical with
  | some i =>
    rw [vfsOpenNode_cached hfind]
    exact hs
  | none =>
    by_cases hasks : ∃ relative, s.Asks canonical relative
    · obtain ⟨relative, hasks⟩ := hasks
      have hrel := hasks.2.2.1
      obtain ⟨hmissing, hfresh⟩ := hop canonical relative hpath hfind hrel
      cases hopen : openPathImage g s.volume.disk relative with
      | none =>
        obtain ⟨v, hq, hrun | ⟨hcreat, -⟩⟩ :=
          @fat32VfsEnsure_missing g dev s canonical relative flags hr hopen
        · rw [vfsOpenNode_refused hasks hrun]
          exact hs.congr hq.1 rfl
        · exact absurd (hmissing hopen) hcreat
      | some f =>
        rcases @vfsOpenNode_new g dev s canonical relative f flags hr htables.nodesBound
          (canonical_of_normalizePath hpath) hmounts hfind hrel hasks.2.2.2 hopen with
          ⟨-, v, hq, hrun⟩ | ⟨-, v, i, hq, -, hrun⟩
        · rw [hrun]
          exact hs.congr hq.1 rfl
        · rw [hrun]
          exact hs.withFile hq hopen (hfresh f hopen) i
    · rw [vfsOpenNode_unasked hfind fun relative h => hasks ⟨relative, h⟩]
      exact hs

theorem Coherent.openFlags (hs : Coherent g s) (hr : dev.ReadsOk) (htables : TablesSound s)
    (hmounts : s.mounts = [fatRootPath]) (caller : Caller)
    (hop : (VfsOp.openFlags path flags).Respects g s) :
    Coherent g (vfsOpenFlags g dev caller path flags s).2 := by
  rw [vfsOpenFlags, run_ite]
  split
  next =>
    cases hpath : vfsNormalizePath path with
    | none => exact hs
    | some canonical =>
      have hnode := hs.openNode hr htables hmounts hpath hop
      simp only
      rcases hrun : vfsOpenNode g dev canonical flags s with ⟨_ | i, t⟩
      · rw [bind_of_none hrun]
        rwa [hrun] at hnode
      · rw [bind_of_some hrun]
        rw [hrun] at hnode
        refine ((vfsOpenDescriptor_triple (coherent_handles caller) i _).mono (fun _ h => h) ?_
          fun _ h => h).state hnode
        rintro fd w ⟨u, hu, htaken⟩
        obtain ⟨_, _, _, -, -, rfl⟩ := htaken.installed
        exact hu.congr rfl rfl
  next => exact hs

end Opening

theorem Coherent.step (hs : Coherent g s) (hr : dev.ReadsOk) (hok : dev.WritesOk)
    (htables : TablesSound s) (hmounts : s.mounts = [fatRootPath]) (caller : Caller) {op : VfsOp}
    (hop : op.Respects g s) : Coherent g (op.step g dev caller s) := by
  cases op with
  | openFlags path flags => exact hs.openFlags hr htables hmounts caller hop
  | closeAllForPid pid => exact hs.congr rfl rfl
  | unlink | rename | mountFatFile => exact hop.elim
  | _ => exact VfsOp.plain_kept (coherent_data hr hok) (coherent_handles caller) trivial hs

theorem Coherent.run (hs : Coherent g s) (hr : dev.ReadsOk) (hok : dev.WritesOk)
    (htables : TablesSound s) (hmounts : s.mounts = [fatRootPath])
    {ops : List (Caller × VfsOp)} (hops : RunRespects g dev s ops) :
    Coherent g (runOps g dev s ops) := by
  induction ops generalizing s with
  | nil => exact hs
  | cons x ops ih =>
    exact ih (hs.step hr hok htables hmounts x.1 hops.1) (htables.step x.1 x.2)
      ((VfsOp.step_mounts htables x.1 x.2).trans hmounts) hops.2

end Keeping

section Observing
variable {g : Geometry} {dev : Device} {s : System} {p : Slot} {caller : Caller} {i slot : ℕ}
  {h : OpenFile} {node : Node} {f : FileHandle}

theorem bootSystem_adapter (v : Volume) (boot : List Node) :
    (bootSystem v boot).fatFiles = [] ∧ (bootSystem v boot).volume = v := by
  have hplace : PlaceClosed fun s => s.fatFiles = [] ∧ s.volume = v := fun _ _ _ hs _ _ _ => hs
  exact (vfsMountStatic_kept hplace boot _ ⟨rfl, rfl⟩).1

theorem bootSystem_coherent {v : Volume} (hv : WellFormed g anywhere v.disk) (boot : List Node) :
    Coherent g (bootSystem v boot) := by
  obtain ⟨hfiles, hvolume⟩ := bootSystem_adapter v boot
  refine ⟨by rw [hvolume]; exact hv, fun k f hk => ?_, fun j k f f' hj => ?_⟩
  · simp [hfiles] at hk
  · simp [hfiles] at hj

theorem nodeSize_fat (hback : node.ops = .fat32 slot) (hf : s.fatFiles[slot]? = some f) :
    vfsNodeSize node s = (some f.size, s) := by
  rw [vfsNodeSize, hback]
  simp only
  rw [fat32VfsStat, bind_of_some get_apply, hf]
  rfl

section
variable (hs : Coherent g s)
include hs

section
variable (hr : dev.ReadsOk)
include hr

theorem Coherent.readFd (htables : TablesSound s) (hopen : s.openAt i = some h)
    (hown : h.ownerPid = caller.pid) (halive : vfsOwnerIsAlive caller caller.pid = true)
    (hon : OnEntry s h p) (hmode : h.flags ≠ oWronly)
    (hoff : h.offset ≤ (fileContent g s.volume.disk p).length) (capacity : ℕ) :
    (vfsReadFd g dev caller h.localFd capacity s).1 =
      some (((fileContent g s.volume.disk p).drop h.offset).take capacity) := by
  obtain ⟨node, slot, f, hnode, hback, hf, rfl⟩ := hon
  have hcur := hs.current slot f hf
  have hlen : (fileContent g s.volume.disk (f.dirLba, f.dirOffset)).length = f.size :=
    hcur.content_length
  rw [hlen] at hoff
  obtain ⟨w, -, hread⟩ := @Current.read g dev f hr s.volume hcur h.offset hoff capacity
  generalize hbytes : ((fileContent g s.volume.disk f.slot).drop h.offset).take capacity = bytes
    at hread
  have hcount : bytes.length = min capacity (f.size - h.offset) := by
    rw [← hbytes, length_take, length_drop, hcur.content_length]
  have hhandle : handleNode h (reaped caller s) = (some node, reaped caller s) := by
    rw [handleNode, bind_of_some get_apply, show (reaped caller s).nodeAt h.node = some node from hnode]
    rfl
  have hsize := @nodeSize_fat (reaped caller s) slot node f hback hf
  have hnodeRead : nodeRead g dev node h.offset capacity (reaped caller s) =
      (some bytes, { reaped caller s with volume := w }) := by
    rw [nodeRead, hback]
    simp only
    rw [fat32VfsRead, bind_of_some get_apply, show (reaped caller s).fatFiles[slot]? = some f from hf]
    simp only [onFat, zoom_apply]
    rw [show (reaped caller s).volume = s.volume from rfl, hread]
  have hreadNode : readNode g dev node h.offset capacity (reaped caller s) =
      (some bytes, { reaped caller s with volume := w }) := by
    rw [readNode, bind_of_some hsize, if_neg (by omega), bind_of_some hnodeRead,
      if_pos ⟨hoff, by omega, by omega⟩]
    rfl
  rw [vfsReadFd, bind_of_some (vfsFdAt_owner htables hopen hown halive), bind_of_some hhandle,
    if_neg hmode, bind_of_some hreadNode]
  exact congrArg some hbytes.symm

theorem Coherent.statPath (hmounts : s.mounts = [fatRootPath]) {path : List UInt8}
    (hpath : s.Resolves g path p) :
    (vfsStat g dev path s).1 = some (entryAt s.volume.disk p).size := by
  obtain ⟨canonical, hnormal, ⟨i, node, slot, f, hfind, hnode, hback, hf, rfl⟩ |
    ⟨hfind, relative, f, hrel, hopen, rfl⟩⟩ := hpath
  · rw [vfsStat, hnormal]
    simp only [bind_of_some get_apply, hfind, bind_some, hnode]
    rw [nodeSize_fat hback hf, (hs.current slot f hf).size_eq]
  · have hmount : vfsMountOf s.mounts canonical ≠ none := by
      rw [hmounts, vfsMountOf]
      by_cases hne : relative = []
      · have hroot : canonical = fatRootPath := by
          by_contra hc
          rw [fat32VfsRelativePath, if_neg hc] at hrel
          obtain ⟨suffix, -, hsuffix⟩ := bind_eq_some_iff.1 hrel
          split at hsuffix
          next => simp at hsuffix
          next hlen =>
            split at hsuffix
            next => simp at hsuffix
            next =>
              have htail := congrArg length (some.inj hsuffix)
              rw [hne, length_tail] at htail
              simp only [length_nil] at htail
              omega
        simp [vfsFindMountExact, hroot]
      · rw [fat32VfsRelativePath_some hrel hne, vfsFindMountForPath_fat hne]
        simp
    have hsize := (current_of_openPath hs.volume.toChained hopen).size_eq
    obtain ⟨info, hinfo, hf⟩ := bind_eq_some_iff.1 hopen
    obtain ⟨v, -, hlookup⟩ := onFat_reads (fat32LookupPath_reads g hr relative) s
    rw [hinfo] at hlookup
    rw [vfsStat, hnormal]
    simp only [bind_of_some get_apply, hfind, bind_none, if_neg hmount]
    rw [fat32VfsStatPath, hrel]
    simp only
    rw [bind_of_some hlookup, ← hsize]
    split at hf
    next => simp at hf
    next =>
      rw [← some.inj hf]
      rfl

theorem Coherent.shows (htables : TablesSound s) (hmounts : s.mounts = [fatRootPath])
    (hp : FileIn g anywhere s.volume.disk p) : Shows g dev s p (fileContent g s.volume.disk p) := by
  obtain ⟨cs, hcs, hsize⟩ := hs.volume.fileChain p hp
  have hlen := fileContent_length hcs hsize
  refine ⟨hlen.symm, fun f hf hslot => ?_, fun caller i h hopen hown halive hon hmode hoff capacity =>
    hs.readFd hr htables hopen hown halive hon hmode hoff capacity, fun path hpath => ?_,
    fun relative f hopen hslot => ?_⟩
  · obtain ⟨k, hk⟩ := mem_iff_getElem?.1 hf
    have hcur := hs.current k f hk
    rw [← hslot] at hlen ⊢
    exact ⟨hcur.size_eq.trans hlen.symm, hcur.firstCluster_eq⟩
  · rw [hs.statPath hr hmounts hpath, hlen]
  · rw [(fat32OpenPath_reads g hr relative s.volume).1] at hopen
    have hcur := current_of_openPath hs.volume.toChained hopen
    subst hslot
    refine ⟨hcur.size_eq.trans hlen.symm, hcur.firstCluster_eq, ?_⟩
    obtain ⟨w, -, hread⟩ := @Current.read g dev f hr s.volume hcur 0 (Nat.zero_le _)
      (fileContent g s.volume.disk f.slot).length
    rw [hread, drop_zero, take_length]

theorem Coherent.wroteFd (hok : dev.WritesOk) (htables : TablesSound s)
    (hopen : s.openAt i = some h) (hown : h.ownerPid = caller.pid)
    (halive : vfsOwnerIsAlive caller caller.pid = true) (hon : OnEntry s h p) {data : List UInt8}
    {n : ℕ} {t : System} (hrun : vfsWriteFd g dev caller h.localFd data s = (some n, t)) :
    n = data.length ∧ FileIn g anywhere t.volume.disk p ∧
    fileContent g t.volume.disk p = (fileContent g s.volume.disk p).take h.offset ++ data ∧
    ∀ q, FileIn g anywhere s.volume.disk q → q ≠ p →
      fileContent g t.volume.disk q = fileContent g s.volume.disk q := by
  obtain ⟨node, slot, f, hnode, hback, hf, rfl⟩ := hon
  have hreaped : Coherent g (reaped caller s) := hs.congr rfl rfl
  rw [vfsWriteFd, bind_of_some (vfsFdAt_owner htables hopen hown halive)] at hrun
  have hhandle : handleNode h (reaped caller s) = (some node, reaped caller s) := by
    rw [handleNode, bind_of_some get_apply, show (reaped caller s).nodeAt h.node = some node from hnode]
    rfl
  rw [bind_of_some hhandle, run_ite] at hrun
  split at hrun
  next => simp at hrun
  next =>
    obtain ⟨count, u, hwrite, hset⟩ := bind_eq_some hrun
    obtain rfl : count = n := some.inj (congrArg Prod.fst hset)
    have hvolume := (congrArg (fun x => x.2.volume) hset).symm
    rw [hvolume]
    rw [writeNode, bind_of_some (@nodeSize_fat (reaped caller s) slot node f hback hf), run_ite] at hwrite
    split at hwrite
    next => simp at hwrite
    next =>
      obtain ⟨m, u', hnodeWrite, hvalid⟩ := bind_eq_some hwrite
      split at hvalid
      next =>
        obtain ⟨rfl, rfl⟩ : m = count ∧ u' = u := by simpa using hvalid
        rw [nodeWrite, hback] at hnodeWrite
        rcases fat32VfsWrite_apply hr hok hreaped hf h.offset data with hfail | ⟨r, w, f', hdone, hrew⟩
        · simp only [hfail] at hnodeWrite
          simp at hnodeWrite
        · simp only [hdone] at hnodeWrite
          obtain ⟨rfl, rfl⟩ : r = some m ∧ _ = u' := by simpa using hnodeWrite
          obtain ⟨hm, hcontent⟩ := hrew.written m rfl
          have hfile := hrew.slot ▸ hrew.current.file
          exact ⟨hm, hfile, hcontent, fun q hq hne => hrew.contents q hq hne⟩
      next => simp at hvalid

end

end

end Observing

/-- Take a run that removes and creates no file and opens no directory entry under a second path,
over a well-formed volume with working callbacks. In the state reached every file shows one content
to all its observers; and after a successful `vfs_write_fd` all of them see the bytes below the
offset followed by the data, with every other file unchanged. -/
theorem single_path_run_coherent (g : Geometry) (dev : Device) (hr : dev.ReadsOk)
    (hok : dev.WritesOk) (v : Volume) (hv : WellFormed g anywhere v.disk) (boot : List Node)
    (ops : List (Caller × VfsOp)) (hops : RunRespects g dev (bootSystem v boot) ops) (s : System)
    (hrun : s = runOps g dev (bootSystem v boot) ops) :
    (∀ p, FileIn g anywhere s.volume.disk p → Shows g dev s p (fileContent g s.volume.disk p)) ∧
    ∀ (caller : Caller) (i : ℕ) (h : OpenFile) (p : Slot) (data : List UInt8) (n : ℕ) (t : System),
      s.openAt i = some h → h.ownerPid = caller.pid → vfsOwnerIsAlive caller caller.pid = true →
      OnEntry s h p → vfsWriteFd g dev caller h.localFd data s = (some n, t) →
      n = data.length ∧
      Shows g dev t p ((fileContent g s.volume.disk p).take h.offset ++ data) ∧
      ∀ q, FileIn g anywhere s.volume.disk q → q ≠ p →
        fileContent g t.volume.disk q = fileContent g s.volume.disk q := by
  have hboot := bootSystem_sound v boot
  have hmounts : s.mounts = [fatRootPath] := by
    rw [hrun, runOps_mounts hboot, bootSystem_mounts]
  have htables : TablesSound s := hrun ▸ hboot.run ops
  have hs : Coherent g s := hrun ▸ (bootSystem_coherent hv boot).run hr hok hboot
    (bootSystem_mounts v boot) hops
  refine ⟨fun p hp => hs.shows hr htables hmounts hp, ?_⟩
  intro caller i h p data n t hopen hown halive hon hwrite
  obtain ⟨hn, hfile, hcontent, hothers⟩ := hs.wroteFd hr hok htables hopen hown halive hon hwrite
  have hstep : VfsOp.step g dev caller s (.writeFd h.localFd data) = t := by
    rw [VfsOp.step, hwrite]
  have ht : Coherent g t := hstep ▸ hs.step hr hok htables hmounts caller trivial
  have htables' : TablesSound t := hstep ▸ htables.step caller _
  have hmounts' : t.mounts = [fatRootPath] := by
    rw [← hstep, VfsOp.step_mounts htables, hmounts]
  exact ⟨hn, hcontent ▸ ht.shows hr htables' hmounts' hfile, hothers⟩

section Small
open SmallVolume

theorem single_path_write_shown : RunRespects geometry .reliable (bootSystem twoFiles [])
      [(user, .openFlags (bytes "/fat/a.txt") oRdwr)] ∧
    (vfsWriteFd geometry .reliable user 0 (bytes "new") (opened "/fat/a.txt")).1 = some 3 ∧
    Shows geometry .reliable
      (vfsWriteFd geometry .reliable user 0 (bytes "new") (opened "/fat/a.txt")).2 (2, 0)
      ((fileContent geometry (opened "/fat/a.txt").volume.disk (2, 0)).take 0 ++ bytes "new") := by
  have hops : RunRespects geometry .reliable (bootSystem twoFiles [])
      [(user, .openFlags (bytes "/fat/a.txt") oRdwr)] := by
    refine ⟨fun canonical relative hnormal _ hrel => ?_, trivial⟩
    obtain rfl : bytes "/fat/a.txt" = canonical :=
      some.inj ((show _ = some (bytes "/fat/a.txt") by decide +kernel).symm.trans hnormal)
    obtain rfl : bytes "a.txt" = relative :=
      some.inj ((show _ = some (bytes "a.txt") by decide +kernel).symm.trans hrel)
    refine ⟨fun _ => by decide, fun f _ f' hf' => ?_⟩
    rw [(bootSystem_adapter twoFiles []).1] at hf'
    exact absurd hf' not_mem_nil
  have hone : (vfsWriteFd geometry .reliable user 0 (bytes "new") (opened "/fat/a.txt")).1 =
      some 3 := by decide +kernel
  have hon : OnEntry (opened "/fat/a.txt") ⟨0, 0, oRdwr, 1, 0⟩ (2, 0) :=
    opened_onEntry _ (by decide +kernel) (by decide +kernel)
  have hmain := (single_path_run_coherent geometry .reliable Device.reliable_readsOk
    Device.reliable_writesOk twoFiles (twoFiles_wellFormed _) [] _ hops _ rfl).2 user 0
    ⟨0, 0, oRdwr, 1, 0⟩ (2, 0) (bytes "new") 3 _ (show (opened "/fat/a.txt").openAt 0 = _ by
      decide +kernel) rfl rfl hon (Prod.ext hone rfl)
  exact ⟨hops, hone, hmain.2.1⟩

/-- The two-file volume with `/fat/a.txt` and `/fat/A.TXT` open, after 600 bytes went through the
first. -/
def twoSpellings : System :=
  runOps geometry .reliable (bootSystem twoFiles [])
    [(user, .openFlags (bytes "/fat/a.txt") oRdwr), (user, .openFlags (bytes "/fat/A.TXT") oRdwr),
      (user, .writeFd 0 (replicate 600 65))]

/-- Both descriptors are on one directory entry, whose size is 600; the second path still has the
size 5, and its descriptor reads five bytes. -/
theorem second_spelling_keeps_old_size : OnEntry twoSpellings ⟨0, 600, oRdwr, 1, 0⟩ (2, 0) ∧
    OnEntry twoSpellings ⟨1, 0, oRdwr, 1, 1⟩ (2, 0) ∧
    twoSpellings.openAt 0 = some ⟨0, 600, oRdwr, 1, 0⟩ ∧
    twoSpellings.openAt 1 = some ⟨1, 0, oRdwr, 1, 1⟩ ∧
    (entryAt twoSpellings.volume.disk (2, 0)).size = 600 ∧
    (vfsStat geometry .reliable (bytes "/fat/a.txt") twoSpellings).1 = some 600 ∧
    (vfsStat geometry .reliable (bytes "/fat/A.TXT") twoSpellings).1 = some 5 ∧
    (vfsReadFd geometry .reliable user 1 600 twoSpellings).1 = some (replicate 5 65) :=
  ⟨⟨⟨bytes "/fat/a.txt", 5, .fat32 0⟩, 0, ⟨3, 2, 0, 1024, 600⟩, by decide +kernel, rfl,
      by decide +kernel, rfl⟩,
    ⟨⟨bytes "/fat/A.TXT", 5, .fat32 1⟩, 1, ⟨3, 2, 0, 512, 5⟩, by decide +kernel, rfl,
      by decide +kernel, rfl⟩, by decide +kernel⟩

end Small
end Vfs
