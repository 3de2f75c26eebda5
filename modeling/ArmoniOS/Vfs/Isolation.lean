import ArmoniOS.Vfs.Invalidation

/-! The descriptor table under any interleaving of processes. Every call works on the handles of
the calling process, apart from handles of dead processes and of nodes it unmounts. -/
namespace Vfs
open Exec Fat32 List Option

structure World where
  sys : System
  live : ℕ → Bool

/-- A step of a process. `exit` is `process_mark_exited`, of the caller itself or through
`process_kill`; `spawn` makes a pid alive. -/
inductive ProcOp where
  | call (op : VfsOp)
  | mountStatic (nodes : List Node)
  | unmount (path : List UInt8)
  | exit (pid : ℕ)
  | spawn (pid : ℕ)

def World.owns (w : World) (pid : ℕ) : Bool := pid = 0 || w.live pid

def World.exit (w : World) (pid : ℕ) : World :=
  if pid = 0 ∨ w.live pid = false then w
  else ⟨(vfsCloseAllForPid pid w.sys).2, Function.update w.live pid false⟩

section Runs
variable (g : Geometry) (dev : Device)

/-- Nothing but `process_mark_exited` calls `vfs_close_all_for_pid`. -/
def World.step (pid : ℕ) (w : World) : ProcOp → World
  | .call (.closeAllForPid owner) => w.exit owner
  | .call op => { w with sys := op.step g dev ⟨pid, w.live⟩ w.sys }
  | .mountStatic nodes => { w with sys := (vfsMountStatic nodes w.sys).2 }
  | .unmount path => { w with sys := (vfsUnmountStatic path w.sys).2 }
  | .exit owner => w.exit owner
  | .spawn owner => { w with live := Function.update w.live owner true }

def World.run (w : World) (steps : List (ℕ × ProcOp)) : World :=
  steps.foldl (fun w x => w.step g dev x.1 x.2) w

/-- The canonical paths a step hands to `vfs_unmount_static`. -/
def ProcOp.unmounts (s : System) : ProcOp → List (List UInt8)
  | .call op => if (op.removed g dev s).isSome then op.named else []
  | .unmount path => [path].filterMap vfsNormalizePath
  | _ => []

end Runs

/-- After `vfs_reset` and some `vfs_mount` calls, with no process alive. -/
def World.reset (v : Volume) (mounts : List (List UInt8)) : World :=
  ⟨⟨v, [], [], mounts, replicate maxGlobalOpenFiles none⟩, fun _ => false⟩

/-- The handles of everyone but the caller: the live ones are still there, none is new. -/
structure OthersKept (caller : Caller) (s t : System) : Prop where
  kept : ∀ i h, s.openAt i = some h → h.ownerPid ≠ caller.pid →
    vfsOwnerIsAlive caller h.ownerPid = true → t.openAt i = some h
  old : ∀ i h, t.openAt i = some h → h.ownerPid ≠ caller.pid → s.openAt i = some h

section Others
variable {caller : Caller} {s t u : System} {α : Type}

theorem OthersKept.refl (s : System) : OthersKept caller s s :=
  ⟨fun _ _ h _ _ => h, fun _ _ h _ => h⟩

section
variable (h : OthersKept caller s t)
include h

theorem OthersKept.congr (hfiles : u.openFiles = t.openFiles) : OthersKept caller s u := by
  have hat (i : ℕ) : u.openAt i = t.openAt i := by simp only [System.openAt, hfiles]
  constructor
  · intro i k hk hother halive
    rw [hat]
    exact h.kept i k hk hother halive
  · intro i k hk hother
    rw [hat] at hk
    exact h.old i k hk hother

theorem OthersKept.set {i : ℕ} {o : Option OpenFile}
    (hold : ∀ k, t.openAt i = some k → k.ownerPid = caller.pid)
    (hnew : ∀ k, o = some k → k.ownerPid = caller.pid) :
    OthersKept caller s { t with openFiles := t.openFiles.set i o } := by
  have hself (k : OpenFile) (hk : ((t.openFiles.set i o)[i]?).join = some k) : o = some k := by
    rw [getElem?_set] at hk
    simp only [↓reduceIte] at hk
    split_ifs at hk with hlt
    · exact hk
    · simp at hk
  constructor
  · intro j k hk hother halive
    have hkept := h.kept j k hk hother halive
    by_cases hj : j = i
    · subst hj
      exact absurd (hold k hkept) hother
    · rw [System.openAt, openAt_set hj]
      exact hkept
  · intro j k hk hother
    by_cases hj : j = i
    · subst hj
      exact absurd (hnew k (hself k hk)) hother
    · rw [System.openAt, openAt_set hj] at hk
      exact h.old j k hk hother

theorem OthersKept.drop {keep : OpenFile → Bool}
    (hkeep : ∀ k : OpenFile, k.ownerPid ≠ caller.pid → vfsOwnerIsAlive caller k.ownerPid = true → keep k = true) :
    OthersKept caller s { t with openFiles := t.openFiles.map fun o => o.filter keep } := by
  have hat (j : ℕ) : ((t.openFiles.map fun o => o.filter keep)[j]?).join =
      (t.openAt j).filter keep := by
    rw [getElem?_map, System.openAt]
    cases t.openFiles[j]? <;> rfl
  constructor
  · intro j k hk hother halive
    rw [System.openAt, hat, h.kept j k hk hother halive]
    simp [hkeep k hother halive]
  · intro j k hk hother
    rw [System.openAt, hat, filter_eq_some_iff] at hk
    exact h.old j k hk.1 hother

end

theorem OthersKept.stable (s : System) : FatStable (OthersKept caller s) :=
  fun _ _ h hfat => h.congr hfat.openFiles

theorem OthersKept.place (s : System) : PlaceClosed (OthersKept caller s) :=
  fun _ _ _ h _ _ _ => h.congr rfl

theorem OthersKept.handles (s : System) : HandleClosed caller (OthersKept caller s) where
  reap _ h := h.drop fun _ _ halive => halive
  seek t i k h hi hown offset := by
    refine h.set (fun k' hk' => ?_) fun k' hk' => ?_
    · obtain rfl := some.inj (hi.symm.trans hk')
      exact hown
    · obtain rfl := some.inj hk'
      exact hown
  close t i k h hi hown := by
    refine h.set (fun k' hk' => ?_) fun k' hk' => by cases hk'
    obtain rfl := some.inj (hi.symm.trans hk')
    exact hown

theorem OthersKept.taken {fd : ℕ} (h : OthersKept caller s u) (ht : Taken caller.pid fd u t) :
    OthersKept caller s t := by
  obtain ⟨i, node, mode, hfree, -, rfl⟩ := ht.installed
  refine h.set (fun k hk => ?_) fun k hk => by rw [← some.inj hk]
  rw [System.openAt, hfree] at hk
  cases hk

section Removing
variable {g : Geometry} {dev : Device}

theorem attempt_succeeds {m : VfsM α} {pre err : System → Prop} :
    Triple pre (Exec.attempt m) (fun _ _ => True) err :=
  fun _ _ => ⟨fun _ _ _ => trivial, fun _ h => by simp at h⟩

theorem vfsUnlink_failed (path : List UInt8) :
    Triple (FatOnly s) (vfsUnlink g dev path) (fun _ _ => True) (FatOnly s) := by
  rw [vfsUnlink]
  split
  next => exact .fail fun _ h => h
  next =>
    exact .bind Kept.get.triple fun _ => .ite (fun _ => .fail fun _ h => h)
      fun _ => .bind (fat32VfsUnlinkPath_kept (fun _ => (fatOnly_stable s).onFat _) _).triple
        fun _ => .bind attempt_succeeds fun _ => .pure fun _ _ => trivial

theorem vfsRename_failed (oldPath newPath : List UInt8) :
    Triple (FatOnly s) (vfsRename g dev oldPath newPath) (fun _ _ => True) (FatOnly s) := by
  rw [vfsRename]
  split
  next =>
    exact .bind Kept.get.triple fun _ => .ite (fun _ => .fail fun _ h => h) fun _ => .bind
        (fat32VfsRenamePath_kept (fun _ _ => (fatOnly_stable s).onFat _) _ _).triple fun _ =>
        .bind attempt_succeeds fun _ => .bind attempt_succeeds fun _ =>
          .pure fun _ _ => trivial
  next => exact .fail fun _ h => h

/-- An unlink or rename that succeeds unmounts what it names; one that fails changes no table. -/
theorem VfsOp.removing_cases {op : VfsOp}
    (hop : (∃ path, op = .unlink path) ∨ ∃ oldPath newPath, op = .rename oldPath newPath) :
    (op.removed g dev s = none ∧ FatOnly s (op.step g dev caller s)) ∨
    ∃ path, op.removed g dev s = some path := by
  cases hremoved : op.removed g dev s with
  | some path => exact Or.inr ⟨path, rfl⟩
  | none =>
    refine Or.inl ⟨rfl, ?_⟩
    rcases hop with ⟨path, rfl⟩ | ⟨oldPath, newPath, rfl⟩
    · rcases hrun : vfsUnlink g dev path s with ⟨_ | _, t⟩
      · rw [VfsOp.step, hrun]
        exact (vfsUnlink_failed path s (.refl s)).2 t hrun
      · obtain ⟨canonical, -, -, hpath, -⟩ := vfsUnlink_some hrun
        simp [VfsOp.removed, hrun, hpath] at hremoved
    · rcases hrun : vfsRename g dev oldPath newPath s with ⟨_ | _, t⟩
      · rw [VfsOp.step, hrun]
        exact (vfsRename_failed oldPath newPath s (.refl s)).2 t hrun
      · obtain ⟨old, -, -, -, -, hold, -⟩ := vfsRename_some hrun
        simp [VfsOp.removed, hrun, hold] at hremoved

end Removing

theorem VfsOp.step_others (g : Geometry) (dev : Device) {op : VfsOp}
    (hclose : ∀ owner, op ≠ .closeAllForPid owner) (hunlink : ∀ path, op ≠ .unlink path)
    (hrename : ∀ oldPath newPath, op ≠ .rename oldPath newPath) :
    OthersKept caller s (op.step g dev caller s) := by
  have hopens : OpenClosed g dev (OthersKept caller s) :=
    (OthersKept.stable s).opens (OthersKept.place s)
  cases op with
  | openFlags path flags =>
    refine ((vfsOpenFlags_triple g dev hopens (OthersKept.handles s) path flags).mono (fun _ h => h)
      ?_ fun _ h => h).state (.refl s)
    rintro fd t ⟨u, hu, ht⟩
    exact hu.taken ht
  | closeAllForPid owner => exact absurd rfl (hclose owner)
  | unlink path => exact absurd rfl (hunlink path)
  | rename oldPath newPath => exact absurd rfl (hrename oldPath newPath)
  | mountFatFile path name =>
    exact (fat32MountVfsFile_kept g dev hopens path name s (.refl s)).1
  | _ =>
    exact plain_kept (OthersKept.stable s).data (OthersKept.handles s) trivial (OthersKept.refl s)

end Others

section Frame
variable {g : Geometry} {dev : Device} {w : World} {pid : ℕ}

/-- The step leaves every handle of another process that stays alive, except on nodes it unmounts,
and makes none. -/
def StepFrame (g : Geometry) (dev : Device) (w : World) (pid : ℕ) (op : ProcOp) : Prop :=
  (∀ i h, w.sys.openAt i = some h → h.ownerPid ≠ pid → w.owns h.ownerPid = true →
    (w.step g dev pid op).owns h.ownerPid = true →
    (w.step g dev pid op).sys.openAt i = some h ∨
      ∃ node, w.sys.nodeAt h.node = some node ∧ node.path ∈ op.unmounts g dev w.sys ∧
        (w.step g dev pid op).sys.nodeAt h.node = none) ∧
  ∀ i h, (w.step g dev pid op).sys.openAt i = some h → h.ownerPid ≠ pid →
    w.sys.openAt i = some h

theorem StepFrame.of_kept {op : ProcOp}
    (h : OthersKept ⟨pid, w.live⟩ w.sys (w.step g dev pid op).sys) : StepFrame g dev w pid op :=
  ⟨fun i k hk hother halive _ => Or.inl (h.kept i k hk hother halive), h.old⟩

theorem StepFrame.of_unmount {op : ProcOp} (hs : TablesSound w.sys) (v : Volume)
    (hcanonical : ∀ path ∈ op.unmounts g dev w.sys, Canonical path)
    (hstep : (w.step g dev pid op).sys =
      unmountAll { w.sys with volume := v } (op.unmounts g dev w.sys)) :
    StepFrame g dev w pid op := by
  have hvolume : TablesSound { w.sys with volume := v } := hs.move (.fat ⟨rfl, rfl, rfl⟩)
  unfold StepFrame
  rw [hstep]
  constructor
  · intro i h hi _ _ _
    obtain ⟨node, hnode⟩ := isSome_iff_exists.1 (hs.backed i h hi)
    by_cases hmem : node.path ∈ op.unmounts g dev w.sys
    · right
      refine ⟨node, hnode, hmem, ?_⟩
      rw [unmountAll_nodeAt hvolume hcanonical,
        show System.nodeAt { w.sys with volume := v } h.node = some node from hnode]
      simp [hmem]
    · left
      exact (unmountAll_openAt hvolume hcanonical).2 ⟨hi, node, hnode, hmem⟩
  · intro i h hi _
    exact ((unmountAll_openAt hvolume hcanonical).1 hi).1

theorem World.exit_frame (owner : ℕ) :
    (∀ i h, w.sys.openAt i = some h → (w.exit owner).owns h.ownerPid = true →
      w.owns h.ownerPid = true → (w.exit owner).sys.openAt i = some h) ∧
    ∀ i h, (w.exit owner).sys.openAt i = some h → w.sys.openAt i = some h := by
  have hat (i : ℕ) : System.openAt (vfsCloseAllForPid owner w.sys).2 i =
      (w.sys.openAt i).filter fun h => h.ownerPid ≠ owner := by
    change ((w.sys.openFiles.map _)[i]?).join = _
    rw [getElem?_map, System.openAt]
    cases w.sys.openFiles[i]? <;> rfl
  unfold World.exit
  split_ifs with hguard
  · exact ⟨fun i h hi _ _ => hi, fun i h hi => hi⟩
  · simp only [not_or] at hguard
    constructor
    · intro i h hi hafter _
      have hne : h.ownerPid ≠ owner := by
        rintro rfl
        simp [World.owns, hguard.1] at hafter
      rw [hat, hi]
      simp [hne]
    · intro i h hi
      rw [hat, filter_eq_some_iff] at hi
      exact hi.1

theorem World.step_call {op : VfsOp} (hop : ∀ owner, op ≠ .closeAllForPid owner) :
    w.step g dev pid (.call op) = { w with sys := op.step g dev ⟨pid, w.live⟩ w.sys } := by
  cases op with
  | closeAllForPid owner => exact absurd rfl (hop owner)
  | _ => rfl

section
variable (hs : TablesSound w.sys)
include hs

theorem removing_frame {op : VfsOp}
    (hop : (∃ path, op = .unlink path) ∨ ∃ oldPath newPath, op = .rename oldPath newPath) :
    StepFrame g dev w pid (.call op) := by
  have hstep : w.step g dev pid (.call op) = { w with sys := op.step g dev ⟨pid, w.live⟩ w.sys } := by
    apply World.step_call
    rintro owner rfl
    rcases hop with ⟨_, h⟩ | ⟨_, _, h⟩ <;> cases h
  rcases @VfsOp.removing_cases ⟨pid, w.live⟩ w.sys g dev op hop with ⟨-, hfat⟩ | ⟨path, hpath⟩
  · apply StepFrame.of_kept
    rw [hstep]
    exact (OthersKept.refl w.sys).congr hfat.openFiles
  · obtain ⟨v, hv, -⟩ := @VfsOp.removed_step g dev w.sys ⟨pid, w.live⟩ op path hpath
    have hunmounts : (ProcOp.call op).unmounts g dev w.sys = op.named := by
      simp [ProcOp.unmounts, hpath]
    apply StepFrame.of_unmount hs v
    · rw [hunmounts]
      exact VfsOp.named_canonical
    · rw [hstep, hunmounts]
      exact hv

theorem World.step_frame (op : ProcOp) : StepFrame g dev w pid op := by
  have hexit (owner : ℕ) (hstep : w.step g dev pid op = w.exit owner) :
      StepFrame g dev w pid op := by
    obtain ⟨hkept, hold⟩ := @World.exit_frame w owner
    unfold StepFrame
    rw [hstep]
    exact ⟨fun i h hi _ hbefore hafter => Or.inl (hkept i h hi hafter hbefore),
      fun i h hi _ => hold i h hi⟩
  cases op with
  | call op =>
    by_cases hclose : ∃ owner, op = .closeAllForPid owner
    · obtain ⟨owner, rfl⟩ := hclose
      exact hexit owner rfl
    by_cases hremove : (∃ path, op = .unlink path) ∨ ∃ oldPath newPath, op = .rename oldPath newPath
    · exact removing_frame hs hremove
    simp only [not_or, not_exists] at hclose hremove
    apply StepFrame.of_kept
    rw [World.step_call hclose]
    exact VfsOp.step_others g dev hclose hremove.1 hremove.2
  | mountStatic nodes =>
    exact .of_kept (vfsMountStatic_kept (.place w.sys) nodes w.sys (.refl w.sys)).1
  | unmount path =>
    apply StepFrame.of_unmount hs w.sys.volume
    · intro p hp
      obtain ⟨_, -, h⟩ := mem_filterMap.1 hp
      exact canonical_of_normalizePath h
    · change (vfsUnmountStatic path w.sys).2 = unmountAll w.sys ([path].filterMap vfsNormalizePath)
      cases hpath : vfsNormalizePath path with
      | none => simp [unmountAll, vfsUnmountStatic, hpath]
      | some canonical =>
        have hcanonical := normalizePath_of_canonical (canonical_of_normalizePath hpath)
        simp [unmountAll, vfsUnmountStatic, hpath, hcanonical]
  | exit owner => exact hexit owner rfl
  | spawn owner => exact .of_kept (.refl w.sys)

theorem World.step_sound (op : ProcOp) : TablesSound (w.step g dev pid op).sys := by
  have hexit (owner : ℕ) : TablesSound (w.exit owner).sys := by
    unfold World.exit
    split_ifs
    · exact hs
    · exact hs.moves (vfsCloseAllForPid_moves w.sys owner)
  cases op with
  | call op =>
    by_cases hclose : ∃ owner, op = .closeAllForPid owner
    · obtain ⟨owner, rfl⟩ := hclose
      exact hexit owner
    · rw [World.step_call (not_exists.1 hclose)]
      exact hs.step ⟨pid, w.live⟩ op
  | mountStatic nodes => exact hs.moves (vfsMountStatic_moves nodes)
  | unmount path => exact hs.moves (vfsUnmountStatic_moves path w.sys .refl).1
  | exit owner => exact hexit owner
  | spawn owner => exact hs

theorem World.run_sound (steps : List (ℕ × ProcOp)) : TablesSound (w.run g dev steps).sys := by
  induction steps generalizing w with
  | nil => exact hs
  | cons x steps ih => exact ih (w.step_sound hs x.2)

end

end Frame

section Counting
variable {s : System}

def System.fdsOf (s : System) (pid : ℕ) : List ℕ :=
  s.openFiles.filterMap fun o => o.bind fun h => if h.ownerPid = pid then some h.localFd else none

theorem TablesSound.fdsOf_length (hs : TablesSound s) (pid : ℕ) :
    (s.fdsOf pid).length ≤ maxOpenFiles := by
  have hnodup : (s.fdsOf pid).Nodup := by
    unfold System.fdsOf
    rw [List.Nodup, pairwise_filterMap, pairwise_iff_getElem]
    intro i j hi hj hij fd hfd fd' hfd' heq
    obtain ⟨h, hh, hif⟩ := bind_eq_some_iff.1 hfd
    obtain ⟨k, hk, hkif⟩ := bind_eq_some_iff.1 hfd'
    split_ifs at hif hkif with hown hkown
    have hiat : s.openAt i = some h := by rw [System.openAt, getElem?_eq_getElem hi, hh]; rfl
    have hjat : s.openAt j = some k := by rw [System.openAt, getElem?_eq_getElem hj, hk]; rfl
    have := hs.handlesDistinct i j h k hiat hjat (hown.trans hkown.symm)
      (by rw [some.inj hif, some.inj hkif, heq])
    omega
  have hsub : s.fdsOf pid ⊆ range maxOpenFiles := by
    intro fd hfd
    obtain ⟨o, ho, hof⟩ := mem_filterMap.1 hfd
    obtain ⟨h, rfl, hif⟩ := bind_eq_some_iff.1 hof
    split_ifs at hif with hown
    obtain ⟨i, hi⟩ := mem_iff_getElem?.1 ho
    rw [mem_range, ← some.inj hif]
    exact hs.fdBound i h (by rw [System.openAt, hi]; rfl)
  have hle := (subperm_of_subset hnodup hsub).length_le
  rwa [length_range] at hle

end Counting

/-- In every state the steps of any processes reach from `vfs_reset`: no two handles share owner
and number, an owner has at most eight, numbered below eight, each on a mounted node; and the next
step of a process leaves the handles of every other process that stays alive as they are, except
those on nodes it unmounts, and makes no handle for another process. -/
theorem descriptor_tables_isolated (g : Geometry) (dev : Device) (v : Volume)
    (mounts : List (List UInt8)) (steps : List (ℕ × ProcOp)) (w : World)
    (hw : w = (World.reset v mounts).run g dev steps) :
    (∀ i j h k, w.sys.openAt i = some h → w.sys.openAt j = some k → h.ownerPid = k.ownerPid →
      h.localFd = k.localFd → i = j) ∧
    (∀ pid, (w.sys.fdsOf pid).length ≤ maxOpenFiles) ∧
    (∀ i h, w.sys.openAt i = some h → h.localFd < maxOpenFiles ∧ (w.sys.nodeAt h.node).isSome) ∧
    ∀ pid op, StepFrame g dev w pid op := by
  have hs := hw ▸ World.run_sound (emptySystem_sound v mounts) steps
  exact ⟨hs.handlesDistinct, hs.fdsOf_length, fun i h hi => ⟨hs.fdBound i h hi, hs.backed i h hi⟩,
    fun pid op => World.step_frame hs op⟩

section Small
open SmallVolume

def sharedFile : List (ℕ × ProcOp) :=
  [(0, .mountStatic [⟨bytes "/boot", 3, .bootfs [1, 2, 3]⟩]), (0, .spawn 1), (0, .spawn 2),
    (1, .call (.openFlags (bytes "/boot") oRdonly)), (2, .call (.openFlags (bytes "/boot") oRdonly))]

def sharing : World := (World.reset twoFiles [fatRootPath]).run geometry .reliable sharedFile

/-- A read of process 1 moves its own offset; the handle of process 2 stays. -/
theorem read_leaves_other_handle : sharing.sys.openAt 0 = some ⟨0, 0, oRdonly, 1, 0⟩ ∧
    sharing.sys.openAt 1 = some ⟨0, 0, oRdonly, 2, 0⟩ ∧
    (sharing.step geometry .reliable 1 (.call (.readFd 0 2))).sys.openAt 0 =
      some ⟨0, 2, oRdonly, 1, 0⟩ ∧
    (sharing.step geometry .reliable 1 (.call (.readFd 0 2))).sys.openAt 1 =
      some ⟨0, 0, oRdonly, 2, 0⟩ := by
  have hother : sharing.sys.openAt 1 = some ⟨0, 0, oRdonly, 2, 0⟩ := by decide +kernel
  have hmain := (descriptor_tables_isolated geometry .reliable twoFiles [fatRootPath] sharedFile
    sharing rfl).2.2.2 1 (.call (.readFd 0 2))
  refine ⟨by decide +kernel, hother, by decide +kernel, ?_⟩
  rcases hmain.1 1 _ hother (by decide) (by decide +kernel) (by decide +kernel) with h | ⟨_, -, h, -⟩
  · exact h
  · exact absurd h (by simp [ProcOp.unmounts, VfsOp.removed])

end Small
end Vfs
