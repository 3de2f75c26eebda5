import ArmoniOS.Fat32.Slots

/-! Cluster chains: lists of data clusters linked through the first FAT copy up to an
end-of-chain value. Every bounded walk of the source follows such a list exactly. -/
namespace Fat32
open Exec LinkedChain List

variable (g : Geometry)

/-- `cs` is the whole chain that starts at `c`. -/
structure ChainFrom (d : Disk) (c : ℕ) (cs : List ℕ) : Prop where
  head : cs.head? = some c
  linked : Linked (fatValue g d) clusterIsEoc cs
  data : ∀ x ∈ cs, g.clusterIsData x

variable {g} {d d' : Disk} {c x : ℕ} {cs cs' : List ℕ}

theorem nextCluster_eq_some : nextCluster g d c = some x ↔
      g.clusterIsData c ∧ fatValue g d c = x ∧ x ≠ clusterBad ∧
        (clusterIsEoc x ∨ g.clusterIsData x) := by
  unfold nextCluster decodeFat
  constructor
  · intro h
    split_ifs at h with h1 h2
    obtain rfl := Option.some.inj h
    push Not at h2
    refine ⟨h1, rfl, h2.1, ?_⟩
    by_cases he : clusterIsEoc (fatValue g d c)
    · exact Or.inl he
    · exact Or.inr (h2.2 rfl he)
  · rintro ⟨h1, rfl, h2, h3⟩
    rw [if_pos h1, if_neg]
    tauto

theorem data_not_end (h : g.clusterIsData x) : ¬ (clusterIsEoc x ∨ x < 2) := by
  rintro (he | hlt)
  · exact h.not_eoc he
  · exact absurd h.1 (by omega)

theorem eoc_ne_bad (h : clusterIsEoc x) : x ≠ clusterBad := by
  unfold clusterIsEoc clusterEoc at h
  unfold clusterBad
  omega

namespace ChainFrom

section
variable (h : ChainFrom g d c cs)
include h

theorem ne_nil : cs ≠ [] := by
  rintro rfl
  simpa using h.head

theorem exists_cons : ∃ rest, cs = c :: rest := by
  cases cs with
  | nil => exact absurd rfl h.ne_nil
  | cons a rest =>
    obtain rfl : a = c := by simpa using h.head
    exact ⟨rest, rfl⟩

theorem length_pos : 0 < cs.length := length_pos_of_ne_nil h.ne_nil

theorem head_mem : c ∈ cs := mem_of_mem_head? (by simp [h.head])

theorem head_data : g.clusterIsData c := h.data c h.head_mem

theorem not_eoc : ∀ x ∈ cs, ¬ clusterIsEoc x := fun x hx => (h.data x hx).not_eoc

theorem nodup : cs.Nodup := h.linked.nodup h.not_eoc

end

theorem notMem_init {l : List ℕ} (h : ChainFrom g d x (l ++ c :: cs)) : c ∉ l :=
  fun hc => (nodup_append.mp h.nodup).2.2 c hc c mem_cons_self rfl

theorem unique (h : ChainFrom g d c cs) (h' : ChainFrom g d c cs') : cs = cs' := by
  obtain ⟨rest, rfl⟩ := h.exists_cons
  obtain ⟨rest', rfl⟩ := h'.exists_cons
  rw [h.linked.unique h'.linked (fun b hb => h.not_eoc b (by simp [hb]))
    fun b hb => h'.not_eoc b (by simp [hb])]

theorem length_le (h : ChainFrom g d c cs) : cs.length ≤ g.clusterCount := by
  have hsub : cs.toFinset ⊆ Finset.Ico 2 (2 + g.clusterCount) := by
    intro x hx
    obtain ⟨h1, h2⟩ := h.data x (mem_toFinset.mp hx)
    exact Finset.mem_Ico.mpr ⟨h1, by omega⟩
  have hcard := Finset.card_le_card hsub
  rwa [toFinset_card_of_nodup h.nodup, Nat.card_Ico, Nat.add_sub_cancel_left] at hcard

theorem congr (h : ChainFrom g d c cs) (hv : ∀ x ∈ cs, fatValue g d' x = fatValue g d x) :
    ChainFrom g d' c cs :=
  ⟨h.head, (linked_congr hv).mpr h.linked, h.data⟩

variable {a b : ℕ}

theorem tail (h : ChainFrom g d a (a :: b :: cs)) : ChainFrom g d b (b :: cs) :=
  ⟨rfl, h.linked.2, fun x hx => h.data x (by simp [hx])⟩

variable {l : List ℕ}

theorem suffix (h : ChainFrom g d a (l ++ c :: cs)) : ChainFrom g d c (c :: cs) :=
  ⟨rfl, h.linked.suffix, fun x hx => h.data x (mem_append_right _ hx)⟩

theorem snoc (h : ChainFrom g d a (l ++ [c])) (hx : g.clusterIsData x)
    (hc : fatValue g d' c = x) (he : clusterIsEoc (fatValue g d' x))
    (hsame : ∀ y ∈ l, fatValue g d' y = fatValue g d y) : ChainFrom g d' a (l ++ [c] ++ [x]) := by
  rw [append_assoc]
  refine ⟨?_, h.linked.snoc hc he hsame, fun y hy => ?_⟩
  · rw [← h.head]
    cases l <;> rfl
  · rcases mem_append.mp (by simpa using hy : y ∈ l ++ [c] ++ [x]) with hy | hy
    · exact h.data y hy
    · rwa [mem_singleton.mp hy]

theorem singleton (hc : g.clusterIsData c) (he : clusterIsEoc (fatValue g d c)) :
    ChainFrom g d c [c] :=
  ⟨rfl, he, by simpa using hc⟩

theorem cons (hc : g.clusterIsData c) (hx : fatValue g d c = x) (h : ChainFrom g d x cs) :
    ChainFrom g d c (c :: cs) := by
  obtain ⟨rest, rfl⟩ := h.exists_cons
  refine ⟨rfl, ⟨hx, h.linked⟩, fun y hy => ?_⟩
  rcases mem_cons.mp hy with rfl | hy
  · exact hc
  · exact h.data y hy

theorem nextCluster_cons (h : ChainFrom g d a (a :: b :: cs)) : nextCluster g d a = some b :=
  nextCluster_eq_some.mpr ⟨h.head_data, h.linked.1, h.tail.head_data.lt_bad.ne,
    Or.inr h.tail.head_data⟩

theorem nextCluster_singleton (h : ChainFrom g d c [c]) :
    nextCluster g d c = some (fatValue g d c) ∧ clusterIsEoc (fatValue g d c) :=
  have he : clusterIsEoc (fatValue g d c) := h.linked
  ⟨nextCluster_eq_some.mpr ⟨h.head_data, rfl, eoc_ne_bad he, Or.inl he⟩, he⟩

variable {n : ℕ}

theorem walk_eq (h : ChainFrom g d c cs) (hn : cs.length ≤ n) :
    ∃ e, clusterIsEoc e ∧ walk g d n c = (cs, some e) := by
  induction cs generalizing c n with
  | nil => exact absurd rfl h.ne_nil
  | cons a rest ih =>
    obtain rfl : a = c := by simpa using h.head
    obtain ⟨m, rfl⟩ : ∃ m, n = m + 1 := ⟨n - 1, by simp at hn; omega⟩
    cases rest with
    | nil =>
      obtain ⟨h1, h2⟩ := h.nextCluster_singleton
      refine ⟨_, h2, ?_⟩
      have hstop : ¬ g.clusterIsData (fatValue g d a) := fun hd => hd.not_eoc h2
      cases m <;> simp [walk, h.head_data, h1, hstop]
    | cons b rest =>
      obtain ⟨e, he, hw⟩ := ih h.tail (by simpa using hn)
      exact ⟨e, he, by simp [walk, h.head_data, h.nextCluster_cons, hw]⟩

theorem dirClusters_eq (h : ChainFrom g d c cs) : dirClusters g d c = cs := by
  obtain ⟨e, -, hw⟩ := h.walk_eq h.length_le
  rw [dirClusters, hw]

theorem dirSlots_eq (h : ChainFrom g d c cs) : dirSlots g d c = cs.flatMap (clusterSlots g) := by
  rw [dirSlots, h.dirClusters_eq]

end ChainFrom

theorem capacityFrom_eq_some {total k : ℕ} : capacityFrom g d n total c = some k ↔
      ∃ cs, ChainFrom g d c cs ∧ cs.length ≤ n ∧ k = total + cs.length * g.clusterSize ∧
        k ≤ uint32Max := by
  induction n generalizing total c with
  | zero =>
    simp only [capacityFrom, reduceCtorEq, false_iff, not_exists, not_and]
    intro cs h hn
    have := h.length_pos
    omega
  | succ n ih =>
    simp only [capacityFrom]
    constructor
    · intro h
      split_ifs at h with h1
      cases hnext : nextCluster g d c with
      | none => simp [hnext] at h
      | some x =>
        simp only [hnext] at h
        obtain ⟨hc, hx, hbad, hkind⟩ := nextCluster_eq_some.mp hnext
        split_ifs at h with h2
        · obtain rfl := Option.some.inj h
          exact ⟨[c], .singleton hc (hx ▸ h2), by simp, by simp, by omega⟩
        · obtain ⟨cs, hcs, hlen, hk, hle⟩ := ih.mp h
          refine ⟨c :: cs, .cons hc hx hcs, by simp [hlen], ?_, hle⟩
          rw [hk, length_cons]
          ring
    · rintro ⟨cs, hcs, hlen, rfl, hle⟩
      obtain ⟨rest, rfl⟩ := hcs.exists_cons
      rw [if_neg]
      · cases rest with
        | nil =>
          obtain ⟨h1, h2⟩ := hcs.nextCluster_singleton
          simp [h1, h2]
        | cons b rest =>
          rw [hcs.nextCluster_cons]
          simp only [if_neg hcs.tail.head_data.not_eoc]
          refine ih.mpr ⟨_, hcs.tail, by simpa using hlen, ?_, hle⟩
          simp only [length_cons]
          ring
      · simp only [length_cons] at hle
        nlinarith

/-- `file_chain_capacity` succeeds exactly on a chain whose bytes are counted by 32 bits. -/
theorem capacity_eq_some {k : ℕ} : capacity g d c = some k ↔
      ∃ cs, ChainFrom g d c cs ∧ k = cs.length * g.clusterSize ∧ k ≤ uint32Max := by
  unfold capacity
  split_ifs with hc
  · rw [capacityFrom_eq_some]
    constructor
    · rintro ⟨cs, h, -, hk, hle⟩
      exact ⟨cs, h, by omega, hle⟩
    · rintro ⟨cs, h, hk, hle⟩
      exact ⟨cs, h, h.length_le, by omega, hle⟩
  · simp only [false_iff, not_exists, not_and]
    intro cs h
    exact absurd h.head_data hc

theorem ChainFrom.capacity_eq (h : ChainFrom g d c cs)
    (hle : cs.length * g.clusterSize ≤ uint32Max) :
    capacity g d c = some (cs.length * g.clusterSize) :=
  capacity_eq_some.mpr ⟨cs, h, rfl, hle⟩

section Reads
variable {dev : Device} (hr : dev.ReadsOk) {v : Volume}
include hr

theorem readFatEntry_chain (hc : g.clusterIsData c) :
    readFatEntry g dev c true v = (nextCluster g v.disk c, v.load (g.fatEntryLba 0 c)) := by
  rw [readFatEntry_apply g hr, if_pos hc, nextCluster, if_pos hc]

theorem ChainFrom.readFatEntry_cons (h : ChainFrom g v.disk a (a :: b :: cs)) :
    readFatEntry g dev a true v = (some b, v.load (g.fatEntryLba 0 a)) := by
  rw [readFatEntry_chain hr h.head_data, h.nextCluster_cons]

theorem ChainFrom.readFatEntry_singleton (h : ChainFrom g v.disk c [c]) :
    readFatEntry g dev c true v = (some (fatValue g v.disk c), v.load (g.fatEntryLba 0 c)) := by
  rw [readFatEntry_chain hr h.head_data, h.nextCluster_singleton.1]

/-- The capacity walk leaves the FAT sector of the chain's last cluster in the buffer. -/
theorem chainCapacityFrom_sector (total : ℕ) (h : ChainFrom g v.disk c cs)
    (hn : cs.length ≤ n) (hfit : total + cs.length * g.clusterSize ≤ uint32Max) :
    (chainCapacityFrom g dev n total c v).2.sector =
      v.disk (g.fatEntryLba 0 (cs.getLast h.ne_nil)) := by
  induction cs generalizing c n total v with
  | nil => exact absurd rfl h.ne_nil
  | cons a rest ih =>
    obtain rfl : a = c := by simpa using h.head
    obtain ⟨m, rfl⟩ : ∃ m, n = m + 1 := ⟨n - 1, by simp at hn; omega⟩
    have hle : ¬ uint32Max < total + g.clusterSize := by
      simp only [length_cons] at hfit
      nlinarith
    rw [chainCapacityFrom, if_neg hle]
    cases rest with
    | nil =>
      rw [bind_of_some (h.readFatEntry_singleton hr), if_pos h.nextCluster_singleton.2]
      rfl
    | cons b rest =>
      rw [bind_of_some (h.readFatEntry_cons hr), if_neg h.tail.head_data.not_eoc]
      exact ih _ (v := v.load (g.fatEntryLba 0 a)) h.tail (by simpa using hn)
        (by simp only [length_cons] at hfit ⊢; linarith)

end Reads
end Fat32
