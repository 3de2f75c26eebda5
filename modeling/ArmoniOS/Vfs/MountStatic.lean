import ArmoniOS.Vfs.Isolation
import ArmoniOS.Vfs.OpenNode

/-! `vfs_mount_static` on arrays of any length. Its second loop takes a slot for each node, wherever
the free ones are; the checks before it make sure that it never has to stop half-way. -/
namespace Vfs
open Exec List Fat32

/-- `vfs_mount_static` on an array in which `none` is a node without `read` and `write`. -/
def vfsMountArray (entries : List (Option Node)) : VfsM Unit :=
  if none ∈ entries then fail else vfsMountStatic entries.reduceOption

def vfsFind (s : System) (path : List UInt8) : Option ℕ :=
  (vfsNormalizePath path).bind (vfsFindCanonical s.nodes)

section Place
variable {s : System} {nodes : List Node} {seen : List (List UInt8)}

theorem vfsFreeNodeCount_setNode {slots : List (Option Node)} {i : ℕ} (node : Node)
    (hfree : vfsFindFreeNode slots = some i) (hlen : slots.length ≤ maxNodes) :
    vfsFreeNodeCount slots = vfsFreeNodeCount (setNode slots i node) + 1 := by
  have hused : ((setNode slots i node).filter (·.isSome)).length =
      (slots.filter (·.isSome)).length + 1 := by
    rw [← countP_eq_length_filter, ← countP_eq_length_filter, setNode]
    rcases vfsFindFreeNode_some hfree with ⟨hi, hnone⟩ | ⟨rfl, -⟩
    · rw [getElem?_eq_getElem hi] at hnone
      rw [if_pos hi, countP_set hi, show slots[i] = none from hnone]
      simp
    · rw [if_neg (lt_irrefl _), countP_append]
      rfl
  have hle := (length_filter_le (·.isSome) (setNode slots i node)).trans (setNode_length_le hfree hlen)
  unfold vfsFreeNodeCount
  omega

/-- With a slot for each node and no path taken, the loop places them all and moves nothing. -/
theorem placeNodes_all (hlen : s.nodes.length ≤ maxNodes)
    (hroom : nodes.length ≤ vfsFreeNodeCount s.nodes) (hmount : vfsMountable s.nodes seen nodes = true) :
    ∃ t, forEach vfsPlaceNode nodes s = (some (), t) ∧
      (∀ i n, s.nodeAt i = some n → t.nodeAt i = some n) ∧
      ∀ node ∈ nodes, ∃ path i, vfsNormalizePath node.path = some path ∧
        t.nodeAt i = some { node with path := path } := by
  induction nodes generalizing s seen with
  | nil => exact ⟨s, rfl, fun _ _ h => h, by simp⟩
  | cons node rest ih =>
    rw [vfsMountable] at hmount
    split at hmount
    next => simp at hmount
    next path hpath =>
      obtain ⟨-, -, hrest⟩ := of_decide_eq_true hmount
      rw [length_cons] at hroom
      obtain ⟨i, hi⟩ := (vfsFreeNodeCount_pos hlen).1 (by omega)
      have hle : i ≤ s.nodes.length := by have := vfsFindFreeNode_some hi; omega
      have hplace : vfsPlaceNode node s =
          (some (), { s with nodes := setNode s.nodes i { node with path := path } }) := by
        rw [vfsPlaceNode, bind_of_some get_apply, hi, hpath]
        rfl
      have hcount := vfsFreeNodeCount_setNode { node with path := path } hi hlen
      obtain ⟨t, hrun, hold, hnew⟩ :=
        @ih { s with nodes := setNode s.nodes i { node with path := path } } (path :: seen)
          (setNode_length_le hi hlen) (by dsimp only; omega)
          (vfsMountable_setNode hle mem_cons_self hrest)
      rw [forEach_cons, bind_of_some hplace]
      refine ⟨t, hrun, fun j n hj => hold j n ?_, forall_mem_cons.2 ⟨⟨path, i, hpath, ?_⟩, hnew⟩⟩
      · rw [System.nodeAt, setNode_at hle, if_neg]
        · exact hj
        · rintro rfl
          rcases vfsFindFreeNode_some hi with ⟨-, hnone⟩ | ⟨rfl, -⟩
          · cases hnone.symm.trans hj
          · simp [System.nodeAt] at hj
      · apply hold
        rw [System.nodeAt, setNode_at hle, if_pos rfl]

end Place

theorem TablesSound.vfsFind_iff {s : System} (hs : TablesSound s) (path : List UInt8) (i : ℕ) :
    vfsFind s path = some i ↔ (vfsNormalizePath path).isSome = true ∧
      ∃ n, s.nodeAt i = some n ∧ resolve n.path = resolve path := by
  cases hpath : vfsNormalizePath path with
  | none => simp [vfsFind, hpath]
  | some canonical =>
    obtain ⟨kept, hkept, rfl⟩ := vfsNormalizePath_some hpath
    have hread := resolve_render (resolve_components hkept)
    rw [vfsFind, hpath, Option.bind_some, hkept, ← hread]
    simp only [Option.isSome_some, true_and]
    constructor
    · intro hfind
      obtain ⟨n, hn, hnpath⟩ := vfsFindCanonical_some hfind
      exact ⟨n, hn, by rw [hnpath]⟩
    · rintro ⟨n, hn, hsame⟩
      obtain ⟨cs, hcs, hrender, -⟩ := hs.canonical i n hn
      rw [hrender, resolve_render hcs, hread] at hsame
      rw [← Option.some.inj hsame, ← hrender]
      cases hfind : vfsFindCanonical s.nodes n.path with
      | none => exact absurd rfl (vfsFindCanonical_none.1 hfind i n hn)
      | some j =>
        obtain ⟨m, hm, hmpath⟩ := vfsFindCanonical_some hfind
        rw [hs.nodesDistinct j i m n hm hn hmpath]

/-- In every state that is reached: `vfs_mount_static` fails and changes nothing, or puts every node of
the array at its canonical path and leaves the others in place; the paths of the nodes are canonical and
distinct; and `vfs_find` returns the node, the only one, whose path resolves as its argument does. -/
theorem mountStatic_all_or_nothing (g : Geometry) (dev : Device) (v : Volume)
    (mounts : List (List UInt8)) (steps : List (ℕ × ProcOp)) :
    let s := ((World.reset v mounts).run g dev steps).sys
    (∀ entries, vfsMountArray entries s = (none, s) ∨ ∃ t, vfsMountArray entries s = (some (), t) ∧
        (∀ i n, s.nodeAt i = some n → t.nodeAt i = some n) ∧
        ∀ e ∈ entries, ∃ node path i, e = some node ∧ vfsNormalizePath node.path = some path ∧
          t.nodeAt i = some { node with path := path }) ∧
    (∀ i n, s.nodeAt i = some n → Canonical n.path) ∧
    (∀ i j n m, s.nodeAt i = some n → s.nodeAt j = some m → n.path = m.path → i = j) ∧
    ∀ path i, vfsFind s path = some i ↔ (vfsNormalizePath path).isSome = true ∧
      ∃ n, s.nodeAt i = some n ∧ resolve n.path = resolve path := by
  intro s
  have hs : TablesSound s := World.run_sound (emptySystem_sound v mounts) steps
  refine ⟨fun entries => ?_, hs.canonical, hs.nodesDistinct, hs.vfsFind_iff⟩
  rw [vfsMountArray, vfsMountStatic]
  split_ifs with hnone
  · exact .inl rfl
  rw [bind_of_some get_apply]
  split_ifs with hbad
  · exact .inl rfl
  simp only [not_or, not_lt, Bool.not_eq_false] at hbad
  obtain ⟨t, hrun, hold, hnew⟩ := placeNodes_all hs.nodesBound hbad.2.1 hbad.2.2
  refine .inr ⟨t, hrun, hold, fun e he => ?_⟩
  obtain ⟨node, rfl⟩ := Option.ne_none_iff_exists'.1 (ne_of_mem_of_not_mem he hnone)
  obtain ⟨path, i, hpath, hi⟩ := hnew node (reduceOption_mem_iff.2 he)
  exact ⟨node, path, i, rfl, hpath, hi⟩

end Vfs
