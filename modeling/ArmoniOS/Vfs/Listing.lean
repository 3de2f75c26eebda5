import ArmoniOS.Fat32.Readdir
import ArmoniOS.Vfs.System

/-! `sys_readdir`: the text of a directory, handed to the user in pieces. -/
namespace Vfs
open Exec Fat32 List SmallVolume

section Calls
variable (g : Geometry) (dev : Device)

def fat32VfsListPath (path : List UInt8) (offset capacity : ℕ) : VfsM (List UInt8) :=
  match fat32VfsRelativePath path with
  | none => fail
  | some relative => onFat (fat32ListPathAt g dev relative offset capacity)

/-- Without a mount only `/` can be listed: it shows the paths of the nodes. -/
def vfsListAt (path : List UInt8) (offset capacity : ℕ) : VfsM (List UInt8) :=
  match vfsNormalizePath path with
  | none => fail
  | some canonical => do
      let s ← Exec.get
      if vfsMountOf s.mounts canonical = none then
        if canonical = [charSlash] then
          pure (appendBytes ⟨capacity, offset, 0, []⟩
            (s.nodes.reduceOption.flatMap fun n => n.path ++ [charNewline])).1.buffer
        else fail
      else do
        let bytes ← fat32VfsListPath g dev canonical offset capacity
        if capacity < bytes.length then fail else pure bytes

/-- `SYSCALL_VFS_IO_CHUNK`. -/
def ioChunk : ℕ := 256

/-- The loop of `sys_readdir` with a user buffer that takes every copy; every round but the last
copies at least one byte. -/
def sysReaddirLoop (path : List UInt8) (len : ℕ) : (fuel : ℕ) → (copied : List UInt8) →
    VfsM (List UInt8)
  | 0, copied => pure copied
  | fuel + 1, copied =>
      if len ≤ copied.length then pure copied
      else do
        let requested := min (len - copied.length) ioChunk
        match ← attempt (vfsListAt g dev path copied.length requested) with
        | none => if copied = [] then fail else pure copied
        | some bytes =>
            if bytes = [] then pure copied
            else if bytes.length < requested then pure (copied ++ bytes)
            else sysReaddirLoop path len fuel (copied ++ bytes)

def sysReaddir (path : List UInt8) (len : ℕ) : VfsM (List UInt8) :=
  if len = 0 then vfsListAt g dev path 0 0 else sysReaddirLoop g dev path len len []

end Calls

variable {g : Geometry} {dev : Device} {path text : List UInt8}

theorem fat32ListPathAt_quiet (hr : dev.ReadsOk) (relative : List UInt8) (offset capacity : ℕ)
    (v : Volume) :
    v.Quiet (fat32ListPathAt g dev relative offset capacity v).2 := by
  have hreads {α : Type} {m : FsM α} {f : Disk → Option α} (h : Reads m f) :
      Keeps v.Quiet m fun _ => True := fun u hu => ⟨hu.trans (h u).2, fun _ _ => trivial⟩
  have hkeeps : Keeps v.Quiet (fat32ListPathAt g dev relative offset capacity) fun _ => True := by
    refine .bind (hreads (fat32LookupPath_reads g hr relative)) fun info _ =>
      .guard fun _ =>
        .bind (hreads (scanDirectory_reads g hr listVisit_visitsAs _ _)) fun r _ => ?_
    cases r with
    | done bytes => exact .pure trivial
    | next x => exact .ite (fun _ => .pure trivial) fun _ => .fail
  exact (hkeeps v (.refl v)).1

/-- Every listing call on a volume with the image of `s` returns its part of `text`. -/
def Lists (g : Geometry) (dev : Device) (s : System) (path text : List UInt8) : Prop :=
  ∀ t : System, t.mounts = s.mounts → t.volume.disk = s.volume.disk → ∀ offset capacity,
    ∃ u, vfsListAt g dev path offset capacity t = (some ((text.drop offset).take capacity), u) ∧
      u.mounts = s.mounts ∧ u.volume.disk = s.volume.disk

theorem Lists.loop {s t : System} (h : Lists g dev s path text) {len fuel n : ℕ}
    (hm : t.mounts = s.mounts) (hd : t.volume.disk = s.volume.disk) (hn : n ≤ text.length)
    (hlen : n ≤ len) (hfuel : len ≤ n + fuel) :
    (sysReaddirLoop g dev path len fuel (text.take n) t).1 = some (text.take len) := by
  induction fuel generalizing n t with
  | zero =>
    obtain rfl : n = len := by omega
    rfl
  | succ fuel ih =>
    have hlength : (text.take n).length = n := by simpa using hn
    unfold sysReaddirLoop
    rw [hlength]
    by_cases hdone : len ≤ n
    · rw [if_pos hdone, show n = len by omega]
      rfl
    · obtain ⟨u, hrun, hum, hud⟩ := h t hm hd n (min (len - n) ioChunk)
      generalize hk : min (len - n) ioChunk = k at hrun
      have hpos : 0 < k := by unfold ioChunk at hk; omega
      -- what the round adds continues the text already copied
      have hjoin : text.take n ++ (text.drop n).take k = text.take (n + k) := take_add.symm
      have hbytes : ((text.drop n).take k).length = min k (text.length - n) := by simp
      have hend (h : text.length ≤ n + k) : text.take (n + k) = text.take len := by
        rw [take_of_length_le h, take_of_length_le (by omega)]
      rw [if_neg hdone, bind_of_some attempt_apply, hrun]
      dsimp only
      split_ifs with hnil hshort
      · rw [hnil, append_nil] at hjoin
        rw [hnil, length_nil] at hbytes
        rw [← hend (by omega), ← hjoin]
        rfl
      · rw [hjoin, hend (by omega)]
        rfl
      · rw [hjoin]
        exact ih hum hud (by omega) (by omega) (by omega)

/-- One text answers every listing call on a directory with a sound chain, and `sys_readdir` gives
the user its beginning. -/
theorem readdir_joins_listing (hr : dev.ReadsOk) (v : Volume) (relative : List UInt8)
    (info : PathInfo) (cs : List ℕ)
    (hinfo : (fat32LookupPath g dev relative v).1 = some info)
    (hdir : info.attributes &&& attrDirectory ≠ 0) (hcs : ChainFrom g v.disk info.firstCluster cs) :
    ∃ text : List UInt8, (∀ offset capacity,
      (fat32ListPathAt g dev relative offset capacity v).1 = some ((text.drop offset).take capacity)) ∧
      ∀ (s : System) (path canonical : List UInt8) (len : ℕ), s.volume = v →
        vfsNormalizePath path = some canonical → vfsMountOf s.mounts canonical ≠ none →
        fat32VfsRelativePath canonical = some relative →
        (sysReaddir g dev path len s).1 = some (text.take len) := by
  rw [(fat32LookupPath_reads g hr relative v).1] at hinfo
  refine ⟨_, fat32ListPathAt_text hr hinfo hdir hcs, ?_⟩
  rintro s path canonical len rfl hpath hmount hrel
  generalize htext : (listing g s.volume.disk info.firstCluster).flatMap Dirent.line = text
  have hlists : Lists g dev s path text := by
    intro t hm hd offset capacity
    rw [← hd] at hinfo hcs htext
    have hbytes := fat32ListPathAt_text hr hinfo hdir hcs offset capacity
    have hq := fat32ListPathAt_quiet (g := g) hr relative offset capacity t.volume
    rw [htext] at hbytes
    refine ⟨{ t with volume := (fat32ListPathAt g dev relative offset capacity t.volume).2 }, ?_, hm,
      hq.1.trans hd⟩
    have hrun : fat32VfsListPath g dev canonical offset capacity t =
        (some ((text.drop offset).take capacity),
          { t with volume := (fat32ListPathAt g dev relative offset capacity t.volume).2 }) := by
      unfold fat32VfsListPath
      rw [hrel]
      exact Prod.ext hbytes rfl
    unfold vfsListAt
    rw [hpath]
    dsimp only
    rw [bind_of_some get_apply, if_neg (hm ▸ hmount), bind_of_some hrun, if_neg (by simp)]
    rfl
  unfold sysReaddir
  split_ifs with hzero
  · obtain ⟨u, hrun, -⟩ := hlists s rfl rfl 0 0
    rw [hrun, hzero]
    simp
  · exact hlists.loop rfl rfl (Nat.zero_le _) (Nat.zero_le _) (by omega)

theorem readdir_joins_listing_twoFiles :
    let s : System := ⟨twoFiles, [], [], [fatRootPath], []⟩
    (sysReaddir geometry .reliable (bytes "/fat") 9 s).1 = some (bytes "A.TXT\nB.T") := by
  intro s
  obtain ⟨text, hlist, hread⟩ := readdir_joins_listing (g := geometry)
    Device.reliable_readsOk twoFiles [] ⟨2, 0, 0, 0, 0, attrDirectory⟩ [2]
    (by decide +kernel) (by decide) (twoFiles_chain (by simp))
  have hbytes := hlist 0 9
  rw [drop_zero] at hbytes
  rw [hread s (bytes "/fat") (bytes "/fat") 9 rfl (by decide +kernel)
    (by decide +kernel) (by decide +kernel), ← hbytes]
  decide +kernel

end Vfs
