import ArmoniOS.Vfs.System

/-! The node and descriptor tables of the VFS. Every call changes them through a few elementary
moves, so the invariants of the tables are proved once for the moves. -/
namespace Vfs
open Exec Fat32 List

def System.openAt (s : System) (i : ℕ) : Option OpenFile := (s.openFiles[i]?).join

section Lookup
variable {files : List (Option OpenFile)} {nodes : List (Option Node)} {path : List UInt8}
  {pid i j : ℕ}

theorem findHandle_some {fd : ℤ} {h : OpenFile} (hfind : findHandle files pid fd = some (i, h)) :
    (files[i]?).join = some h ∧ h.ownerPid = pid ∧ (h.localFd : ℤ) = fd := by
  obtain ⟨⟨o, k⟩, hmem, ho⟩ := exists_of_findSome?_eq_some hfind
  obtain ⟨h', rfl, hif⟩ := Option.bind_eq_some_iff.1 ho
  split at hif
  next hc =>
    obtain ⟨rfl, rfl⟩ : k = i ∧ h' = h := by simpa using hif
    exact ⟨by rw [mem_zipIdx_iff_getElem?.1 hmem]; rfl, hc⟩
  next => simp at hif

theorem findHandle_none {fd : ℤ} : findHandle files pid fd = none ↔
    ∀ (i : ℕ) (h : OpenFile), (files[i]?).join = some h →
      ¬ (h.ownerPid = pid ∧ (h.localFd : ℤ) = fd) := by
  rw [findHandle, findSome?_eq_none_iff]
  constructor
  · intro hnone i h hi hc
    have hget := Option.join_eq_some_iff.1 hi
    have hx := hnone (some h, i) (mem_zipIdx_iff_getElem?.2 hget)
    rw [Option.bind_some, if_pos hc] at hx
    simp at hx
  · rintro hnone ⟨_ | h, i⟩ hmem
    · rfl
    · have hget := mem_zipIdx_iff_getElem?.1 hmem
      rw [Option.bind_some, if_neg (hnone i h (by rw [hget]; rfl))]

theorem vfsLocalFdInUse_false {fd : ℕ} : vfsLocalFdInUse files pid fd = false ↔
    ∀ (i : ℕ) (h : OpenFile), (files[i]?).join = some h → ¬ (h.ownerPid = pid ∧ h.localFd = fd) := by
  rw [vfsLocalFdInUse, any_eq_false]
  constructor
  · intro hnone i h hi hc
    have hget := Option.join_eq_some_iff.1 hi
    exact hnone (some h) (mem_of_getElem? hget) (by simpa using hc)
  · rintro hnone (_ | h) hmem
    · simp
    · obtain ⟨i, hget⟩ := mem_iff_getElem?.1 hmem
      simpa using hnone i h (by rw [hget]; rfl)

theorem vfsFindCanonical_some (h : vfsFindCanonical nodes path = some i) :
    ∃ node, (nodes[i]?).join = some node ∧ node.path = path := by
  obtain ⟨hi, hp, -⟩ := findIdx?_eq_some_iff_getElem.1 h
  rw [getElem?_eq_getElem hi]
  cases hnode : nodes[i] with
  | none => simp [hnode] at hp
  | some node => exact ⟨node, rfl, by simpa [hnode] using hp⟩

theorem vfsFindCanonical_none : vfsFindCanonical nodes path = none ↔
    ∀ (i : ℕ) (node : Node), (nodes[i]?).join = some node → node.path ≠ path := by
  rw [vfsFindCanonical, findIdx?_eq_none_iff]
  constructor
  · intro hnone i node hi hpath
    have hget := Option.join_eq_some_iff.1 hi
    have hx := hnone (some node) (mem_of_getElem? hget)
    simp [hpath] at hx
  · rintro hnone (_ | node) hmem
    · rfl
    · obtain ⟨i, hget⟩ := mem_iff_getElem?.1 hmem
      simpa using hnone i node (by rw [hget]; rfl)

theorem vfsFindFreeNode_some (h : vfsFindFreeNode nodes = some i) :
    (i < nodes.length ∧ (nodes[i]?).join = none) ∨ (i = nodes.length ∧ nodes.length < maxNodes) := by
  rw [vfsFindFreeNode] at h
  split at h
  next k hk =>
    obtain rfl : k = i := by simpa using h
    obtain ⟨hi, hp, -⟩ := findIdx?_eq_some_iff_getElem.1 hk
    refine .inl ⟨hi, ?_⟩
    rw [getElem?_eq_getElem hi]
    simpa using hp
  next =>
    split at h
    next hlen =>
      obtain rfl : nodes.length = i := by simpa using h
      exact .inr ⟨rfl, hlen⟩
    next => simp at h

theorem setNode_at {node : Node} (hi : i ≤ nodes.length) :
    ((setNode nodes i node)[j]?).join = if j = i then some node else (nodes[j]?).join := by
  rw [setNode]
  rcases hi.lt_or_eq with hlt | rfl
  · rw [if_pos hlt, getElem?_set]
    by_cases hj : i = j
    · rw [if_pos hj, if_pos (by omega), if_pos hj.symm]
      rfl
    · rw [if_neg hj, if_neg (Ne.symm hj)]
  · rw [if_neg (lt_irrefl _), getElem?_append]
    by_cases hj : j < nodes.length
    · rw [if_pos hj, if_neg (by omega)]
    · rw [if_neg hj]
      by_cases hj' : j = nodes.length
      · rw [if_pos hj', hj']
        simp
      · rw [if_neg hj', getElem?_eq_none (by simp; omega), getElem?_eq_none (by omega)]

theorem setNode_length_le {node : Node} (hfree : vfsFindFreeNode nodes = some i)
    (hlen : nodes.length ≤ maxNodes) : (setNode nodes i node).length ≤ maxNodes := by
  rw [setNode]
  rcases vfsFindFreeNode_some hfree with ⟨hi, -⟩ | ⟨rfl, hi⟩
  · rw [if_pos hi, length_set]
    exact hlen
  · rw [if_neg (lt_irrefl _), length_append]
    exact hi

end Lookup

structure FatOnly (s t : System) : Prop where
  nodes : t.nodes = s.nodes
  mounts : t.mounts = s.mounts
  openFiles : t.openFiles = s.openFiles

/-- The elementary changes of the tables. Handing out a descriptor is not among them. -/
inductive Move : System → System → Prop
  | fat {s t : System} (h : FatOnly s t) : Move s t
  | drop (s : System) (keep : OpenFile → Bool) :
      Move s { s with openFiles := s.openFiles.map fun o => o.filter keep }
  | seek {s : System} {i : ℕ} {h : OpenFile} (hi : s.openAt i = some h) (offset : ℕ) :
      Move s { s with openFiles := s.openFiles.set i (some { h with offset := offset }) }
  | close (s : System) (i : ℕ) : Move s { s with openFiles := s.openFiles.set i none }
  | place {s : System} {i : ℕ} {node : Node} (hfree : vfsFindFreeNode s.nodes = some i)
      (hnew : vfsFindCanonical s.nodes node.path = none) (hpath : Canonical node.path) :
      Move s { s with nodes := setNode s.nodes i node }
  | clear {s : System} {i : ℕ} (hidle : ∀ j h, s.openAt j = some h → h.node ≠ i) :
      Move s { s with nodes := s.nodes.set i none }

abbrev Moves : System → System → Prop := Relation.ReflTransGen Move

/-- A descriptor handed out: a free slot of the pool takes a number its owner does not use. -/
structure Taken (pid fd : ℕ) (s t : System) : Prop where
  unused : vfsLocalFdInUse s.openFiles pid fd = false
  bound : fd < maxOpenFiles
  installed : ∃ i node mode, s.openFiles[i]? = some none ∧ (s.nodeAt node).isSome ∧
    t = { s with openFiles := s.openFiles.set i (some ⟨node, 0, mode, pid, fd⟩) }

def NoHandle (pid fd : ℕ) (s : System) : Prop :=
  ∀ i h, s.openAt i = some h → ¬ (h.ownerPid = pid ∧ h.localFd = fd)

/-- Distinct nodes have distinct canonical paths, distinct handles distinct owners or numbers, and
every handle stands on a node and has a number in range. -/
structure TablesSound (s : System) : Prop where
  nodesDistinct : ∀ i j n m, s.nodeAt i = some n → s.nodeAt j = some m → n.path = m.path → i = j
  canonical : ∀ i n, s.nodeAt i = some n → Canonical n.path
  handlesDistinct : ∀ i j h k, s.openAt i = some h → s.openAt j = some k →
    h.ownerPid = k.ownerPid → h.localFd = k.localFd → i = j
  backed : ∀ i h, s.openAt i = some h → (s.nodeAt h.node).isSome
  fdBound : ∀ i h, s.openAt i = some h → h.localFd < maxOpenFiles
  nodesBound : s.nodes.length ≤ maxNodes
  pool : s.openFiles.length = maxGlobalOpenFiles

section Moves
variable {s t : System} {i j pid fd : ℕ} {h : OpenFile} {n : Node} {o : Option OpenFile}

theorem openAt_set (hj : j ≠ i) : ((s.openFiles.set i o)[j]?).join = s.openAt j := by
  rw [getElem?_set_ne (Ne.symm hj), System.openAt]

theorem openAt_set_self (hi : i < s.openFiles.length) : ((s.openFiles.set i o)[i]?).join = o := by
  rw [getElem?_set_self hi]
  rfl

theorem lt_of_openAt (hi : s.openAt i = some h) : i < s.openFiles.length := by
  rw [System.openAt] at hi
  by_contra hle
  rw [getElem?_eq_none (by omega)] at hi
  simp at hi

theorem Move.openAt (hm : Move s t) (ht : t.openAt j = some h) :
    ∃ k, s.openAt j = some k ∧ h = { k with offset := h.offset } := by
  cases hm with
  | fat hfat =>
    rw [System.openAt, hfat.openFiles] at ht
    exact ⟨h, ht, rfl⟩
  | drop keep =>
    rw [System.openAt, getElem?_map] at ht
    cases hj : s.openFiles[j]? with
    | none => simp [hj] at ht
    | some o =>
      rw [hj] at ht
      obtain ⟨rfl, -⟩ := Option.filter_eq_some_iff.1 (show o.filter keep = some h from ht)
      exact ⟨h, by rw [System.openAt, hj]; rfl, rfl⟩
  | @seek i k hi offset =>
    by_cases hji : j = i
    · subst hji
      have hset := ht
      rw [System.openAt, openAt_set_self (lt_of_openAt hi)] at hset
      obtain rfl := Option.some.inj hset
      exact ⟨k, hi, rfl⟩
    · rw [System.openAt, openAt_set hji] at ht
      exact ⟨h, ht, rfl⟩
  | close i =>
    by_cases hji : j = i
    · subst hji
      have hnone : ((s.openFiles.set j none)[j]?).join = none := by
        rw [getElem?_set]
        simp only [if_true]
        split <;> rfl
      rw [System.openAt, hnone] at ht
      simp at ht
    · rw [System.openAt, openAt_set hji] at ht
      exact ⟨h, ht, rfl⟩
  | place => exact ⟨h, ht, rfl⟩
  | clear => exact ⟨h, ht, rfl⟩

theorem Move.nodeAt (hm : Move s t) (ht : t.nodeAt i = some n) : s.nodeAt i = some n ∨
    (s.nodeAt i = none ∧ vfsFindCanonical s.nodes n.path = none ∧ Canonical n.path) ∧
      ∀ j, j ≠ i → t.nodeAt j = s.nodeAt j := by
  cases hm with
  | fat hfat =>
    rw [System.nodeAt, hfat.nodes] at ht
    exact .inl ht
  | drop | seek | close => exact .inl ht
  | @place k node hfree hnew hpath =>
    have hat := vfsFindFreeNode_some hfree
    have hk : k ≤ s.nodes.length := by omega
    by_cases hik : i = k
    · subst hik
      rw [System.nodeAt, setNode_at hk, if_pos rfl] at ht
      obtain rfl : node = n := Option.some.inj ht
      refine .inr ⟨⟨?_, hnew, hpath⟩, fun j hj => ?_⟩
      · rcases hat with ⟨-, hnone⟩ | ⟨rfl, -⟩
        · exact hnone
        · simp [System.nodeAt]
      · rw [System.nodeAt, setNode_at hk, if_neg hj]
        rfl
    · rw [System.nodeAt, setNode_at hk, if_neg hik] at ht
      exact .inl ht
  | @clear k hidle =>
    by_cases hik : k = i
    · subst hik
      rw [System.nodeAt, getElem?_set] at ht
      simp only [if_true] at ht
      split at ht <;> simp at ht
    · rw [System.nodeAt, getElem?_set_ne hik] at ht
      exact .inl ht

theorem Move.node_of_open (hm : Move s t) (hs : TablesSound s) (ht : t.openAt j = some h) :
    t.nodeAt h.node = s.nodeAt h.node := by
  obtain ⟨k, hk, heq⟩ := hm.openAt ht
  have hnode : h.node = k.node := by rw [heq]
  obtain ⟨n, hn⟩ := Option.isSome_iff_exists.1 (hs.backed j k hk)
  rw [hnode]
  cases hm with
  | fat hfat => rw [System.nodeAt, hfat.nodes, System.nodeAt]
  | drop | seek | close => rfl
  | @place i node hfree hnew hpath =>
    have hat := vfsFindFreeNode_some hfree
    have hne : k.node ≠ i := by
      rintro rfl
      rcases hat with ⟨-, hnone⟩ | ⟨hlen, -⟩
      · rw [System.nodeAt, hnone] at hn
        simp at hn
      · rw [System.nodeAt, getElem?_eq_none (by omega)] at hn
        simp at hn
    rw [System.nodeAt, setNode_at (by omega), if_neg hne, System.nodeAt]
  | @clear i hidle =>
    have hne := hidle j k hk
    rw [System.nodeAt, getElem?_set_ne (Ne.symm hne), System.nodeAt]

theorem Move.sizes (hm : Move s t) (hs : TablesSound s) :
    t.nodes.length ≤ maxNodes ∧ t.openFiles.length = maxGlobalOpenFiles ∧ t.mounts = s.mounts := by
  have hn := hs.nodesBound
  have ho := hs.pool
  cases hm with
  | fat hfat => exact ⟨hfat.nodes ▸ hn, hfat.openFiles ▸ ho, hfat.mounts⟩
  | drop | seek | close | clear => simp [hn, ho]
  | place hfree => exact ⟨setNode_length_le hfree hn, ho, rfl⟩

theorem TablesSound.move (hs : TablesSound s) (hm : Move s t) : TablesSound t where
  nodesDistinct i j n m hi hj hpath := by
    rcases hm.nodeAt hi with hn | ⟨⟨hfree, hnew, -⟩, hother⟩
    · rcases hm.nodeAt hj with hm' | ⟨⟨-, hnew, -⟩, -⟩
      · exact hs.nodesDistinct i j n m hn hm' hpath
      · exact absurd hpath (vfsFindCanonical_none.1 hnew i n hn)
    · by_contra hij
      rw [hother j (Ne.symm hij)] at hj
      exact vfsFindCanonical_none.1 hnew j m hj hpath.symm
  canonical i n hi := by
    rcases hm.nodeAt hi with hn | ⟨⟨-, -, hpath⟩, -⟩
    · exact hs.canonical i n hn
    · exact hpath
  handlesDistinct i j h k hi hj hown hfd := by
    obtain ⟨h', hh', heq⟩ := hm.openAt hi
    obtain ⟨k', hk', keq⟩ := hm.openAt hj
    rw [heq, keq] at hown hfd
    exact hs.handlesDistinct i j h' k' hh' hk' hown hfd
  backed i h hi := by
    obtain ⟨k, hk, heq⟩ := hm.openAt hi
    rw [hm.node_of_open hs hi, heq]
    exact hs.backed i k hk
  fdBound i h hi := by
    obtain ⟨k, hk, heq⟩ := hm.openAt hi
    rw [heq]
    exact hs.fdBound i k hk
  nodesBound := (hm.sizes hs).1
  pool := (hm.sizes hs).2.1

theorem TablesSound.moves (hs : TablesSound s) (hm : Moves s t) : TablesSound t := by
  induction hm with
  | refl => exact hs
  | tail _ hmove ih => exact ih.move hmove

theorem NoHandle.moves (hs : NoHandle pid fd s) (hm : Moves s t) : NoHandle pid fd t := by
  induction hm with
  | refl => exact hs
  | tail _ hmove ih =>
    intro i h hi hc
    obtain ⟨k, hk, heq⟩ := hmove.openAt hi
    rw [heq] at hc
    exact ih i k hk hc

theorem Moves.mounts (hs : TablesSound s) (hm : Moves s t) : t.mounts = s.mounts := by
  induction hm with
  | refl => rfl
  | tail hrun hmove ih => rw [(hmove.sizes (hs.moves hrun)).2.2, ih]

theorem Taken.openAt (ht : Taken pid fd s t) (hj : t.openAt j = some h) :
    (h.ownerPid = pid ∧ h.localFd = fd ∧ (s.nodeAt h.node).isSome ∧
      ∀ k, k ≠ j → t.openAt k = s.openAt k) ∨ s.openAt j = some h := by
  obtain ⟨i, node, mode, hfree, hnode, rfl⟩ := ht.installed
  have hlt := (List.getElem?_eq_some_iff.1 hfree).1
  by_cases hji : j = i
  · subst hji
    rw [System.openAt, openAt_set_self hlt] at hj
    obtain rfl := Option.some.inj hj
    exact .inl ⟨rfl, rfl, hnode, fun k hk => openAt_set hk⟩
  · rw [System.openAt, openAt_set hji] at hj
    exact .inr hj

theorem TablesSound.taken (hs : TablesSound s) (ht : Taken pid fd s t) : TablesSound t := by
  have hnodes : t.nodes = s.nodes ∧ t.openFiles.length = s.openFiles.length := by
    obtain ⟨i, node, mode, -, -, rfl⟩ := ht.installed
    simp
  have hat : ∀ i, t.nodeAt i = s.nodeAt i := fun i => by
    rw [System.nodeAt, hnodes.1, System.nodeAt]
  have hnew := vfsLocalFdInUse_false.1 ht.unused
  refine ⟨fun i j n m => by rw [hat, hat]; exact hs.nodesDistinct i j n m,
    fun i n => by rw [hat]; exact hs.canonical i n, fun i j h k hi hj hown hfd => ?_,
    fun i h hi => ?_, fun i h hi => ?_, hnodes.1 ▸ hs.nodesBound, hnodes.2 ▸ hs.pool⟩
  · by_contra hij
    rcases ht.openAt hi with ⟨ho, hf, -, hother⟩ | hi'
    · rw [hother j (Ne.symm hij)] at hj
      exact hnew j k hj ⟨hown ▸ ho, hfd ▸ hf⟩
    · rcases ht.openAt hj with ⟨ho, hf, -, -⟩ | hj'
      · exact hnew i h hi' ⟨hown.trans ho, hfd.trans hf⟩
      · exact hij (hs.handlesDistinct i j h k hi' hj' hown hfd)
  · rw [hat]
    rcases ht.openAt hi with ⟨-, -, hnode, -⟩ | hi'
    · exact hnode
    · exact hs.backed i h hi'
  · rcases ht.openAt hi with ⟨-, hfd, -⟩ | hi'
    · exact hfd ▸ ht.bound
    · exact hs.fdBound i h hi'

end Moves
end Vfs
