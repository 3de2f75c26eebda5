import ArmoniOS.Fat32.SmallVolume
import ArmoniOS.Vfs.System

/-! The mount table. `vfs_mount` keeps the mount points canonical and distinct, and the byte-wise
search of `vfs_find_mount_for_path` finds the mount point with the longest component prefix. -/
namespace Vfs
open Exec Fat32 List Option

def maxMounts : ℕ := 4

/-- Which callbacks of `vfs_mount_ops_t` are set. -/
structure MountOps where
  openPath : Bool
  readPath : Bool
  list : Bool
  statPath : Bool
  listPath : Bool
  metadataPath : Bool
  readdirPath : Bool
  fsinfo : Bool
  unlink : Bool
  rename : Bool
  deriving DecidableEq

def MountOps.anySet (ops : MountOps) : Bool :=
  ops.openPath || ops.readPath || ops.list || ops.statPath || ops.listPath || ops.metadataPath ||
    ops.readdirPath || ops.fsinfo || ops.unlink || ops.rename

structure Mount where
  path : List UInt8
  ops : MountOps
  context : ℕ
  deriving DecidableEq

/-- `g_mounts`; an unused slot is `none`. -/
abbrev MountTable : Type := List (Option Mount)

/-- The table after `vfs_reset`. -/
def resetMounts : MountTable := replicate maxMounts none

def MountTable.paths (t : MountTable) : List (List UInt8) := t.filterMap fun m => m.map Mount.path

def MountTable.slot (t : MountTable) (i : ℕ) : Option Mount := (t[i]?).join

/-- `ops` is `none` for a null pointer. -/
def vfsMount (path : List UInt8) (ops : Option MountOps) (context : ℕ) : Run MountTable Unit :=
  match vfsNormalizePath path, ops with
  | some canonical, some ops => do
      let t ← Exec.get
      if ops.anySet = false ∨ vfsFindMountExact (MountTable.paths t) canonical ≠ none then fail
      else
        match t.findIdx? (·.isNone), vfsNormalizePath canonical with
        | some i, some copy => modify fun t => t.set i (some ⟨copy, ops, context⟩)
        | _, _ => fail
  | _, _ => fail

/-- A `vfs_mount` call: path, callbacks and context. -/
abbrev MountCall : Type := List UInt8 × Option MountOps × ℕ

def mounted (calls : List MountCall) : MountTable :=
  calls.foldl (fun t c => (vfsMount c.1 c.2.1 c.2.2 t).2) resetMounts

/-- The components of a mount point are a proper prefix of `cs`. -/
def MountsAbove (mountPath : List UInt8) (cs : List (List UInt8)) : Prop :=
  ∃ ms, resolve mountPath = some ms ∧ ms <+: cs ∧ ms ≠ cs

/-- A mount point above `cs` with at least as many components as every other one. -/
def LongestAbove (paths : List (List UInt8)) (cs : List (List UInt8)) (mountPath : List UInt8) :
    Prop :=
  mountPath ∈ paths ∧ ∃ ms, resolve mountPath = some ms ∧ ms <+: cs ∧ ms ≠ cs ∧
    ∀ other ∈ paths, ∀ ms', resolve other = some ms' → ms' <+: cs → ms' ≠ cs →
      ms'.length ≤ ms.length

section Search
variable {α : Type} {p : α → Prop} [DecidablePred p] {key : α → ℕ}

/-- The loop that keeps the best candidate so far, replaced by longer ones only. -/
def longest (p : α → Prop) [DecidablePred p] (key : α → ℕ) (best : Option α) (xs : List α) :
    Option α :=
  xs.foldl (fun best x => if p x ∧ (best.all fun b => key b < key x) then some x else best) best

theorem longest_cons (best : Option α) (x : α) (xs : List α) : longest p key best (x :: xs) =
    longest p key (if p x ∧ (best.all fun b => key b < key x) then some x else best) xs := rfl

theorem longest_some (b : α) (xs : List α) : ∃ r, longest p key (some b) xs = some r ∧
    (r = b ∨ r ∈ xs ∧ p r) ∧ key b ≤ key r ∧ ∀ x ∈ xs, p x → key x ≤ key r := by
  induction xs generalizing b with
  | nil => exact ⟨b, rfl, .inl rfl, le_rfl, by simp⟩
  | cons x xs ih =>
    rw [longest_cons]
    by_cases hx : p x ∧ key b < key x
    · rw [if_pos (by simpa using hx)]
      obtain ⟨r, hr, hmem, hle, hall⟩ := ih x
      refine ⟨r, hr, .inr ?_, by omega, ?_⟩
      · rcases hmem with rfl | ⟨hmem, hp⟩
        · exact ⟨mem_cons_self, hx.1⟩
        · exact ⟨mem_cons_of_mem _ hmem, hp⟩
      · intro y hy hpy
        rcases mem_cons.1 hy with rfl | hy
        · exact hle
        · exact hall y hy hpy
    · rw [if_neg (by simpa using hx)]
      obtain ⟨r, hr, hmem, hle, hall⟩ := ih b
      refine ⟨r, hr, hmem.imp_right fun h => ⟨mem_cons_of_mem _ h.1, h.2⟩, hle, ?_⟩
      intro y hy hpy
      rcases mem_cons.1 hy with rfl | hy
      · have : ¬ key b < key y := fun hlt => hx ⟨hpy, hlt⟩
        omega
      · exact hall y hy hpy

theorem longest_none (xs : List α) : (longest p key none xs = none ∧ ∀ x ∈ xs, ¬ p x) ∨
    ∃ r ∈ xs, longest p key none xs = some r ∧ p r ∧ ∀ x ∈ xs, p x → key x ≤ key r := by
  induction xs with
  | nil => exact .inl ⟨rfl, by simp⟩
  | cons x xs ih =>
    rw [longest_cons]
    by_cases hx : p x
    · rw [if_pos ⟨hx, rfl⟩]
      obtain ⟨r, hr, hmem, hle, hall⟩ := @longest_some α p _ key x xs
      refine .inr ⟨r, ?_, hr, ?_, ?_⟩
      · rcases hmem with rfl | h
        · exact mem_cons_self
        · exact mem_cons_of_mem _ h.1
      · rcases hmem with rfl | h
        · exact hx
        · exact h.2
      · intro y hy hpy
        rcases mem_cons.1 hy with rfl | hy
        · exact hle
        · exact hall y hy hpy
    · rw [if_neg fun h => hx h.1]
      rcases ih with ⟨hnone, hall⟩ | ⟨r, hmem, hr, hp, hall⟩
      · exact .inl ⟨hnone, by simpa [hx] using hall⟩
      · refine .inr ⟨r, mem_cons_of_mem _ hmem, hr, hp, ?_⟩
        intro y hy hpy
        rcases mem_cons.1 hy with rfl | hy
        · exact absurd hpy hx
        · exact hall y hy hpy

end Search

section Prefixes
variable {ms cs : List (List UInt8)}

theorem splitOn_render (hne : ms ≠ []) (hms : ∀ c ∈ ms, IsComponent c) :
    (render ms).splitOn charSlash = [] :: ms := by
  have hsplit := splitOn_append_cons_self_of_not_mem
    (show charSlash ∉ ([] : List UInt8) from not_mem_nil) ([charSlash].intercalate ms)
  rw [nil_append] at hsplit
  rw [render_eq_intercalate, hsplit,
    splitOn_intercalate charSlash (fun c hc => (hms c hc).noSlash) hne]

theorem vfsPathIsMountChild_iff (hms : ∀ c ∈ ms, IsComponent c) (hcs : ∀ c ∈ cs, IsComponent c) :
    vfsPathIsMountChild (render cs) (render ms) = true ↔ ms <+: cs ∧ ms ≠ cs := by
  have hhead (l : List (List UInt8)) : (render l).head? = some charSlash := by
    cases l <;> simp [render]
  unfold vfsPathIsMountChild
  rw [if_neg (by simp [hhead])]
  cases ms with
  | nil =>
    rw [if_pos (show render [] = [charSlash] from rfl), decide_eq_true_eq]
    cases cs with
    | nil => simp [render]
    | cons c cs => simpa using one_lt_render (hcs c mem_cons_self).nonempty
  | cons m ms =>
    have hroot : render (m :: ms) ≠ [charSlash] := by
      intro heq
      have := @one_lt_render m ms (hms m mem_cons_self).nonempty
      simp [heq] at this
    rw [if_neg hroot, decide_eq_true_eq]
    constructor
    · rintro ⟨⟨rest, hrest⟩, hslash, -⟩
      rw [← hrest, drop_left] at hslash
      obtain ⟨text, rfl⟩ : ∃ text, rest = charSlash :: text := by
        cases rest with
        | nil => simp at hslash
        | cons b text => exact ⟨text, by simpa using hslash⟩
      have hne : cs ≠ [] := by
        rintro rfl
        have := congrArg length hrest
        simp [render] at this
      -- split both texts at the separators
      have hsplit : [] :: cs = ([] :: m :: ms) ++ text.splitOn charSlash := by
        rw [← splitOn_render hne hcs, ← splitOn_render (by simp) hms, ← hrest,
          splitOn_append_cons_self]
      have hcs' : cs = (m :: ms) ++ text.splitOn charSlash := by simpa using hsplit
      refine ⟨⟨_, hcs'.symm⟩, fun heq => ?_⟩
      have hlength := congrArg length hcs'
      rw [length_append, ← heq] at hlength
      have hzero : (text.splitOn charSlash).length = 0 := by omega
      exact splitOn_ne_nil _ _ (length_eq_zero_iff.1 hzero)
    · rintro ⟨⟨rest, rfl⟩, hne⟩
      cases rest with
      | nil => simp at hne
      | cons d rest =>
        have hd := length_pos_of_ne_nil (hcs d (by simp)).nonempty
        rw [render_append (by simp), drop_left]
        refine ⟨prefix_append _ _, by simp, ?_⟩
        simp
        omega

theorem render_length_lt (hcs : ∀ c ∈ cs, IsComponent c) (hpre : ms <+: cs) (hne : ms ≠ cs) :
    (render ms).length < (render cs).length := by
  obtain ⟨rest, rfl⟩ := hpre
  cases rest with
  | nil => simp at hne
  | cons d rest =>
    cases ms with
    | nil => simpa [render] using @one_lt_render d rest (hcs d (by simp)).nonempty
    | cons m ms =>
      rw [render_append (by simp)]
      simp

end Prefixes

section Choice
variable {paths : List (List UInt8)} {cs : List (List UInt8)} {mountPath : List UInt8} {i : ℕ}

theorem Canonical.eq_render {path : List UInt8} (h : Canonical path) :
    ∃ ms, resolve path = some ms ∧ path = render ms ∧ ∀ c ∈ ms, IsComponent c := by
  obtain ⟨ms, hms, rfl, -⟩ := h
  exact ⟨ms, resolve_render hms, rfl, hms⟩

theorem child_iff_above (hpath : Canonical mountPath) (hcs : ∀ c ∈ cs, IsComponent c) :
    vfsPathIsMountChild (render cs) mountPath = true ↔ MountsAbove mountPath cs := by
  obtain ⟨ms, hresolve, rfl, hms⟩ := hpath.eq_render
  rw [vfsPathIsMountChild_iff hms hcs]
  constructor
  · intro h
    exact ⟨ms, hresolve, h⟩
  · rintro ⟨ms', hresolve', h⟩
    obtain rfl := some.inj (hresolve.symm.trans hresolve')
    exact h

section
variable (hcanonical : ∀ p ∈ paths, Canonical p)
include hcanonical

theorem LongestAbove.unique {other : List UInt8} (h : LongestAbove paths cs mountPath)
    (h' : LongestAbove paths cs other) : mountPath = other := by
  obtain ⟨hmem, ms, hms, hpre, hne, hmax⟩ := h
  obtain ⟨hmem', ms', hms', hpre', hne', hmax'⟩ := h'
  have hle := hmax other hmem' ms' hms' hpre' hne'
  have hge := hmax' mountPath hmem ms hms hpre hne
  have heq : ms = ms' := (prefix_of_prefix_length_le hpre hpre' hge).eq_of_length (by omega)
  obtain ⟨ls, hls, rfl, -⟩ := (hcanonical _ hmem).eq_render
  obtain ⟨ls', hls', rfl, -⟩ := (hcanonical _ hmem').eq_render
  obtain rfl := some.inj (hls.symm.trans hms)
  obtain rfl := some.inj (hls'.symm.trans hms')
  rw [heq]

theorem findMountForPath_cases (hcs : ∀ c ∈ cs, IsComponent c) :
    (vfsFindMountForPath paths (render cs) = none ∧ ∀ p ∈ paths, ¬ MountsAbove p cs) ∨
    ∃ i p, vfsFindMountForPath paths (render cs) = some i ∧ paths[i]? = some p ∧
      LongestAbove paths cs p := by
  have hfind : vfsFindMountForPath paths (render cs) = (longest
      (fun m : List UInt8 × ℕ => vfsPathIsMountChild (render cs) m.1 = true) (fun m => m.1.length)
      none paths.zipIdx).map (·.2) := rfl
  have hat {p : List UInt8} (hp : p ∈ paths) : ∃ j, (p, j) ∈ paths.zipIdx := by
    obtain ⟨j, hj⟩ := mem_iff_getElem?.1 hp
    exact ⟨j, mem_zipIdx_iff_getElem?.2 hj⟩
  rw [hfind]
  rcases @longest_none _ (fun m : List UInt8 × ℕ => vfsPathIsMountChild (render cs) m.1 = true) _
    (fun m => m.1.length) paths.zipIdx with ⟨hnone, hall⟩ | ⟨⟨p, i⟩, hmem, hsome, hchild, hmax⟩
  · left
    refine ⟨by rw [hnone]; rfl, ?_⟩
    intro p hp habove
    obtain ⟨j, hj⟩ := hat hp
    exact hall (p, j) hj ((child_iff_above (hcanonical p hp) hcs).2 habove)
  · right
    have hget := mem_zipIdx_iff_getElem?.1 hmem
    have hp := mem_of_getElem? hget
    obtain ⟨ms, hms, hpre, hne⟩ := (child_iff_above (hcanonical p hp) hcs).1 hchild
    refine ⟨i, p, by rw [hsome]; rfl, hget, hp, ms, hms, hpre, hne, ?_⟩
    intro other hother ms' hms' hpre' hne'
    obtain ⟨j, hj⟩ := hat hother
    have hle := hmax (other, j) hj
      ((child_iff_above (hcanonical other hother) hcs).2 ⟨ms', hms', hpre', hne'⟩)
    -- of two mount points above one path the one with the longer text has more components
    obtain ⟨ls, hresolve, rfl, -⟩ := (hcanonical p hp).eq_render
    obtain ⟨ls', hresolve', rfl, hls'⟩ := (hcanonical other hother).eq_render
    obtain rfl := some.inj (hresolve.symm.trans hms)
    obtain rfl := some.inj (hresolve'.symm.trans hms')
    dsimp only at hle
    by_contra hlt
    have hshort := prefix_of_prefix_length_le hpre hpre' (by omega)
    have := render_length_lt hls' hshort (by rintro rfl; exact hlt le_rfl)
    omega

/-- The search finds a slot exactly when it holds the longest mount point above the path. -/
theorem findMountForPath_some (hnodup : paths.Nodup) (hcs : ∀ c ∈ cs, IsComponent c) :
    vfsFindMountForPath paths (render cs) = some i ↔
      ∃ p, paths[i]? = some p ∧ LongestAbove paths cs p := by
  constructor
  · intro h
    rcases findMountForPath_cases hcanonical hcs with ⟨hnone, -⟩ | ⟨j, p, hj, hget, hlong⟩
    · simp [hnone] at h
    · obtain rfl := some.inj (hj.symm.trans h)
      exact ⟨p, hget, hlong⟩
  · rintro ⟨p, hget, hlong⟩
    rcases findMountForPath_cases hcanonical hcs with ⟨-, hall⟩ | ⟨j, q, hj, hget', hlong'⟩
    · obtain ⟨hmem, ms, hms, hpre, hne, -⟩ := hlong
      exact absurd ⟨ms, hms, hpre, hne⟩ (hall p hmem)
    · obtain rfl := hlong.unique hcanonical hlong'
      obtain ⟨hi, hp⟩ := List.getElem?_eq_some_iff.1 hget
      obtain ⟨hj', hq⟩ := List.getElem?_eq_some_iff.1 hget'
      rw [hj, (hnodup.getElem_inj_iff).1 (hp.trans hq.symm)]

theorem findMountForPath_none (hcs : ∀ c ∈ cs, IsComponent c) :
    vfsFindMountForPath paths (render cs) = none ↔ ∀ p ∈ paths, ¬ MountsAbove p cs := by
  rcases findMountForPath_cases hcanonical hcs with ⟨hnone, hall⟩ | ⟨j, p, hj, hget, hlong⟩
  · exact ⟨fun _ => hall, fun _ => hnone⟩
  · obtain ⟨hmem, ms, hms, hpre, hne, -⟩ := hlong
    refine ⟨fun h => ?_, fun h => absurd ⟨ms, hms, hpre, hne⟩ (h p hmem)⟩
    simp [hj] at h

end

end Choice

section Table
variable {t : MountTable}

structure MountsSound (t : MountTable) (used : List Mount) : Prop where
  slots : t = used.map some ++ replicate (maxMounts - used.length) none
  bound : used.length ≤ maxMounts
  canonical : ∀ m ∈ used, Canonical m.path
  distinct : (used.map Mount.path).Nodup

variable {used : List Mount}

theorem MountsSound.paths_eq (h : MountsSound t used) : t.paths = used.map Mount.path := by
  rw [h.slots, MountTable.paths, filterMap_append, filterMap_map, filterMap_replicate]
  induction used <;> simp_all

theorem MountsSound.slot_eq (h : MountsSound t used) (i : ℕ) : t.slot i = used[i]? := by
  rw [h.slots, MountTable.slot, getElem?_append, length_map, getElem?_map, getElem?_replicate]
  split_ifs with hi hj
  · simp [getElem?_eq_getElem hi]
  · simp [getElem?_eq_none (Nat.le_of_not_lt hi)]
  · simp [getElem?_eq_none (Nat.le_of_not_lt hi)]

theorem MountsSound.mount (h : MountsSound t used) (path : List UInt8) (ops : Option MountOps)
    (context : ℕ) : ∃ used', MountsSound (vfsMount path ops context t).2 used' := by
  unfold vfsMount
  cases hpath : vfsNormalizePath path with
  | none => exact ⟨used, h⟩
  | some canonical =>
    cases ops with
    | none => exact ⟨used, h⟩
    | some ops =>
      simp only [bind_of_some get_apply, run_ite]
      split_ifs with hguard
      · exact ⟨used, h⟩
      have hcanonical := canonical_of_normalizePath hpath
      rw [normalizePath_of_canonical hcanonical]
      by_cases hfull : used.length = maxMounts
      · have hnone : t.findIdx? (·.isNone) = none := by
          rw [h.slots, hfull]
          simp [findIdx?_eq_none_iff]
        rw [hnone]
        exact ⟨used, h⟩
      obtain ⟨k, hk⟩ : ∃ k, maxMounts - used.length = k + 1 :=
        ⟨maxMounts - used.length - 1, by have := h.bound; omega⟩
      have hfree : t.findIdx? (·.isNone) = some used.length := by
        rw [h.slots, hk, replicate_succ, findIdx?_append, findIdx?_eq_none_iff.2 (by simp)]
        simp [findIdx?_cons]
      rw [hfree]
      refine ⟨used ++ [⟨canonical, ops, context⟩], ?_, ?_, ?_, ?_⟩
      · change t.set used.length _ = _
        rw [h.slots, hk, set_append_right _ _ (by simp)]
        have hlast : maxMounts - (used ++ [(⟨canonical, ops, context⟩ : Mount)]).length = k := by
          simp
          omega
        rw [hlast]
        simp [replicate_succ]
      · simp
        omega
      · intro m hm
        rcases mem_append.1 hm with hm | hm
        · exact h.canonical m hm
        · obtain rfl := mem_singleton.1 hm
          exact hcanonical
      · have hnew : canonical ∉ used.map Mount.path := by
          intro hmem
          have hexact : vfsFindMountExact t.paths canonical = none := by
            by_contra hne
            exact hguard (.inr hne)
          rw [h.paths_eq, vfsFindMountExact, findIdx?_eq_none_iff] at hexact
          simpa using hexact canonical hmem
        rw [map_append, nodup_append]
        refine ⟨h.distinct, by simp, ?_⟩
        intro a ha b hb
        obtain rfl : b = canonical := by simpa using hb
        rintro rfl
        exact hnew ha

theorem mounted_sound (calls : List MountCall) : ∃ used, MountsSound (mounted calls) used := by
  have hrun : ∀ t used, MountsSound t used →
      ∃ used', MountsSound (calls.foldl (fun t c => (vfsMount c.1 c.2.1 c.2.2 t).2) t) used' := by
    induction calls with
    | nil => exact fun t used h => ⟨used, h⟩
    | cons c calls ih =>
      intro t used h
      obtain ⟨used', h'⟩ := h.mount c.1 c.2.1 c.2.2
      exact ih _ _ h'
  exact hrun resetMounts [] ⟨rfl, by simp, by simp, by simp⟩

end Table

/-- After any `vfs_mount` calls from `vfs_reset`, used slots hold distinct canonical mount points;
for a canonical path the search returns the one slot whose mount point has the longest proper
component prefix, and none exactly when no mount point is such a prefix; and the mount point found
depends only on which mount points there are. -/
theorem find_mount_longest_component_prefix (calls : List MountCall) (cs : List (List UInt8))
    (hcs : ∀ c ∈ cs, IsComponent c) :
    (∀ p ∈ (mounted calls).paths, Canonical p) ∧ (mounted calls).paths.Nodup ∧
    (∀ i, ((mounted calls).slot i).map Mount.path = (mounted calls).paths[i]?) ∧
    (∀ i, vfsFindMountForPath (mounted calls).paths (render cs) = some i ↔
      ∃ m, (mounted calls).slot i = some m ∧ LongestAbove (mounted calls).paths cs m.path) ∧
    (∀ p q, LongestAbove (mounted calls).paths cs p → LongestAbove (mounted calls).paths cs q →
      p = q) ∧
    (vfsFindMountForPath (mounted calls).paths (render cs) = none ↔
      ∀ p ∈ (mounted calls).paths, ¬ MountsAbove p cs) ∧
    ∀ calls', (∀ p, p ∈ (mounted calls').paths ↔ p ∈ (mounted calls).paths) →
      ((vfsFindMountForPath (mounted calls').paths (render cs)).bind fun i =>
          (mounted calls').paths[i]?) =
        (vfsFindMountForPath (mounted calls).paths (render cs)).bind fun i =>
          (mounted calls).paths[i]? := by
  have hsound (calls : List MountCall) : (∀ p ∈ (mounted calls).paths, Canonical p) ∧
      (mounted calls).paths.Nodup ∧
      ∀ i, ((mounted calls).slot i).map Mount.path = (mounted calls).paths[i]? := by
    obtain ⟨used, h⟩ := mounted_sound calls
    refine ⟨?_, h.paths_eq ▸ h.distinct, fun i => by rw [h.slot_eq, h.paths_eq, getElem?_map]⟩
    rw [h.paths_eq]
    exact forall_mem_map.2 h.canonical
  obtain ⟨hcanonical, hnodup, hslot⟩ := hsound calls
  refine ⟨hcanonical, hnodup, hslot, fun i => ?_, fun p q hp hq => hp.unique hcanonical hq,
    findMountForPath_none hcanonical hcs, fun calls' hsame => ?_⟩
  · rw [findMountForPath_some hcanonical hnodup hcs]
    constructor
    · rintro ⟨p, hp, hlong⟩
      rw [← hslot i] at hp
      obtain ⟨m, hm, rfl⟩ := map_eq_some_iff.1 hp
      exact ⟨m, hm, hlong⟩
    · rintro ⟨m, hm, hlong⟩
      exact ⟨m.path, by rw [← hslot i, hm]; rfl, hlong⟩
  · obtain ⟨hcanonical', -, -⟩ := hsound calls'
    -- both searches end with a longest one of the same set
    have hlong {p : List UInt8} (h : LongestAbove (mounted calls').paths cs p) :
        LongestAbove (mounted calls).paths cs p := by
      obtain ⟨hmem, ms, hms, hpre, hne, hmax⟩ := h
      exact ⟨(hsame p).1 hmem, ms, hms, hpre, hne, fun q hq => hmax q ((hsame q).2 hq)⟩
    rcases findMountForPath_cases hcanonical hcs with ⟨hnone, hall⟩ | ⟨i, p, hi, hp, hlongp⟩
    · have hnone' := (findMountForPath_none hcanonical' hcs).2 fun p hp => hall p ((hsame p).1 hp)
      rw [hnone, hnone']
      rfl
    · rcases findMountForPath_cases hcanonical' hcs with ⟨-, hall'⟩ | ⟨j, q, hj, hq, hlongq⟩
      · obtain ⟨hmem, ms, hms, hpre, hne, -⟩ := hlongp
        exact absurd ⟨ms, hms, hpre, hne⟩ (hall' p ((hsame p).2 hmem))
      · rw [hi, hj, bind_some, bind_some, hp, hq, (hlong hlongq).unique hcanonical hlongp]

section Small
open SmallVolume

/-- Mounts at `/disk/`, `//disk/sub/./` and `/fat`, and a refused one at `/disk//sub`. -/
def threeMounts : List MountCall :=
  ["/disk/", "//disk/sub/./", "/disk//sub", "/fat"].map fun path =>
    (bytes path, some ⟨true, false, false, false, false, false, false, false, false, false⟩, 0)

/-- `/disk/sub/item` belongs to the nested mount, `/fatty` to none. -/
theorem find_mount_nested : vfsFindMountForPath (mounted threeMounts).paths
      (render [bytes "disk", bytes "sub", bytes "item"]) = some 1 ∧
    (∃ m, (mounted threeMounts).slot 1 = some m ∧ LongestAbove (mounted threeMounts).paths
      [bytes "disk", bytes "sub", bytes "item"] m.path) ∧
    vfsFindMountForPath (mounted threeMounts).paths (render [bytes "fatty"]) = none := by
  have hcomponents : ∀ c ∈ [bytes "disk", bytes "sub", bytes "item", bytes "fatty"],
      IsComponent c := by
    intro c hc
    constructor <;> (revert c; decide +kernel)
  have hpaths : (mounted threeMounts).paths = [bytes "/disk", bytes "/disk/sub", bytes "/fat"] := by
    decide +kernel
  have hone : vfsFindMountForPath (mounted threeMounts).paths
      (render [bytes "disk", bytes "sub", bytes "item"]) = some 1 := by
    rw [hpaths]
    decide +kernel
  refine ⟨hone, ?_, ?_⟩
  · have hmain := find_mount_longest_component_prefix threeMounts
      [bytes "disk", bytes "sub", bytes "item"] fun c hc => hcomponents c (by simp at hc ⊢; tauto)
    exact (hmain.2.2.2.1 1).1 hone
  · have hmain := find_mount_longest_component_prefix threeMounts [bytes "fatty"]
      fun c hc => hcomponents c (by simp at hc ⊢; tauto)
    apply hmain.2.2.2.2.2.1.2
    rw [hpaths]
    rintro p hp ⟨ms, hms, hpre, hne⟩
    have hnil : ms = [] := by
      rcases prefix_cons_iff.1 hpre with h | ⟨rest, rfl, hrest⟩
      · exact h
      · simp [prefix_nil.1 hrest] at hne
    subst hnil
    revert p
    decide +kernel

end Small
end Vfs
