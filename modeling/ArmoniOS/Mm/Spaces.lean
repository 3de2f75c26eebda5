import ArmoniOS.Mm.VmmOps

/-! Several page-table hierarchies over one page allocator, next to frames that are in use for
something else. A call on one hierarchy leaves the others and the frames alone. -/
namespace Vmm
open Exec Pmm PathTree Function List Finset

/-- The hierarchies below the roots use separate tables, and no frame is one of them. A root `0`
stands for a missing hierarchy. -/
structure Spaces {ι : Type} (s : Memory) (root : ι → ℕ) (T : ι → Finset ℕ) (frames : Set ℕ) :
    Prop where
  valid : Valid s.pmm
  low : ∀ a, s.pmm.Manages a → a < 2 ^ 48
  absent : ∀ i, root i = 0 → T i = ∅
  owns : ∀ i, root i ≠ 0 → Owns s (root i) (T i)
  separate : ∀ i j, i ≠ j → Disjoint (T i) (T j)
  used : ∀ a ∈ frames, s.pmm.Manages a ∧ a ≠ 0 ∧ a ∉ s.pmm.freeAddrs ∧ ∀ i, a ∉ T i

section Frame
variable {s s' : Memory} {pgd : ℕ} {T : Finset ℕ}

theorem Owns.follow_frame (h : Owns s pgd T) (hmem : ∀ a ∈ T, s'.mem a = s.mem a)
    {q : List (Fin 512)} (hq : q.length ≤ 3) :
    follow (child s'.mem) pgd q = follow (child s.mem) pgd q := by
  apply follow_congr
  rintro r j rest rfl u hu
  have hr : r.length ≤ 3 := by
    simp only [length_append] at hq
    omega
  exact child_congr (congrFun (hmem u (h.mem_of_follow hr hu)) j)

theorem Owns.frame (h : Owns s pgd T) (hmem : ∀ a ∈ T, s'.mem a = s.mem a)
    (hvalid : Valid s'.pmm) (hsame : s.pmm.SameMemory s'.pmm)
    (hused : ∀ a ∈ T, a ∉ s'.pmm.freeAddrs) : Owns s' pgd T := by
  refine h.congr hvalid (fun a ha => h.low a (hsame.manages.1 ha)) (fun _ => h.follow_frame hmem) ?_ ?_
  · intro t ht i
    rw [hmem t ht]
    exact h.entries t ht i
  · intro t ht
    obtain ⟨hmanages, hne, -⟩ := h.pages t ht
    exact ⟨hsame.manages.2 hmanages, hne, hused t ht⟩

theorem Owns.leafEntry_frame (h : Owns s pgd T) (hmem : ∀ a ∈ T, s'.mem a = s.mem a) (v : ℕ) :
    vmmLeafEntry s' pgd v = vmmLeafEntry s pgd v := by
  simp only [vmmLeafEntry, leafTable, if_neg (h.pages pgd h.root_mem).2.1, walk_eq]
  rw [h.follow_frame hmem (by simp)]
  cases ht : follow (child s.mem) pgd ([0, 1, 2].map (tableIndex v)) with
  | none => rfl
  | some t => rw [Option.getD_some, hmem t (h.mem_of_follow (by simp) ht)]

end Frame

section Spaces
variable {ι : Type} {s : Memory} {root : ι → ℕ} {T : ι → Finset ℕ} {F F' : Set ℕ}

section
variable (h : Spaces s root T F)
include h

theorem Spaces.table_used {i : ι} {a : ℕ} (ha : a ∈ T i) : a ∉ s.pmm.freeAddrs := by
  by_cases hroot : root i = 0
  · simp [h.absent i hroot] at ha
  · exact ((h.owns i hroot).pages a ha).2.2

theorem Spaces.mono (hsub : F' ⊆ F) : Spaces s root T F' :=
  { h with used := fun a ha => h.used a (hsub ha) }

theorem Spaces.take {s' : Memory} {pages : List ℕ} (hpages : ∀ a ∈ pages, a ∈ s.pmm.freeAddrs)
    (hvalid : Valid s'.pmm) (hsame : s.pmm.SameMemory s'.pmm)
    (hfree : s'.pmm.freeAddrs = s.pmm.freeAddrs \ pages.toFinset)
    (hmem : ∀ a ∉ pages, s'.mem a = s.mem a) : Spaces s' root T (F ∪ {a | a ∈ pages}) := by
  have hused {a : ℕ} (ha : a ∉ s.pmm.freeAddrs) : a ∉ s'.pmm.freeAddrs := by
    rw [hfree]
    exact fun hcon => ha (mem_sdiff.1 hcon).1
  refine ⟨hvalid, fun a ha => h.low a (hsame.manages.1 ha), h.absent, ?_, h.separate, ?_⟩
  · intro i hroot
    apply (h.owns i hroot).frame _ hvalid hsame fun a ha => hused (h.table_used ha)
    intro a ha
    exact hmem a fun hcon => h.table_used ha (hpages a hcon)
  · rintro a (ha | ha)
    · obtain ⟨hmanages, hne, hnot, htables⟩ := h.used a ha
      exact ⟨hsame.manages.2 hmanages, hne, hused hnot, htables⟩
    · have hfreed := hpages a ha
      refine ⟨hsame.manages.2 (State.manages_of_mem hfreed), h.valid.ne_zero_of_mem hfreed, ?_,
        fun i hi => h.table_used hi hfreed⟩
      rw [hfree]
      exact fun hcon => (mem_sdiff.1 hcon).2 (mem_toFinset.2 ha)

theorem Spaces.give {pages : List ℕ} (hpages : ∀ a ∈ pages, a ∈ F) :
    Spaces (s.freeAll pages) root T (F \ {a | a ∈ pages}) := by
  obtain ⟨hvalid, hsame, hfree⟩ := h.valid.foldl_pmmFreePage pages fun a ha =>
    ⟨(h.used a (hpages a ha)).1, (h.used a (hpages a ha)).2.1⟩
  have hused {a : ℕ} (ha : a ∉ s.pmm.freeAddrs) (hnot : a ∉ pages) :
      a ∉ (s.freeAll pages).pmm.freeAddrs := by
    rw [freeAll_pmm, hfree, mem_union, mem_toFinset]
    tauto
  refine ⟨hvalid, fun a ha => h.low a (hsame.manages.1 ha), h.absent, ?_, h.separate, ?_⟩
  · intro i hroot
    have hmem : ∀ a ∈ T i, (s.freeAll pages).mem a = s.mem a := by simp [freeAll_mem]
    apply (h.owns i hroot).frame hmem hvalid hsame
    intro a ha
    exact hused (h.table_used ha) fun hcon => (h.used a (hpages a hcon)).2.2.2 i ha
  · rintro a ⟨ha, hnot⟩
    obtain ⟨hmanages, hne, hin, htables⟩ := h.used a ha
    exact ⟨hsame.manages.2 hmanages, hne, hused hin hnot, htables⟩

end

variable [DecidableEq ι]

section
variable (h : Spaces s root T F)
include h

/-- One hierarchy changes to tables `T'` below `pgd`, without touching a page that is in use for
anything else. -/
theorem Spaces.replace {s' : Memory} {i : ι} {pgd : ℕ} {T' : Finset ℕ} (hvalid : Valid s'.pmm)
    (hsame : s.pmm.SameMemory s'.pmm) (habsent : pgd = 0 → T' = ∅)
    (howns : pgd ≠ 0 → Owns s' pgd T')
    (hother : ∀ a, a ∉ s.pmm.freeAddrs → a ∉ T i → a ∉ T' ∧ a ∉ s'.pmm.freeAddrs ∧ s'.mem a = s.mem a) :
    Spaces s' (update root i pgd) (update T i T') F := by
  have htable {j : ι} (hj : j ≠ i) {a : ℕ} (ha : a ∈ T j) :=
    hother a (h.table_used ha) (disjoint_left.1 (h.separate j i hj) ha)
  refine ⟨hvalid, fun a ha => h.low a (hsame.manages.1 ha), fun j hj => ?_, fun j hj => ?_,
    fun j l hjl => ?_, fun a ha => ?_⟩
  · by_cases hji : j = i
    · subst hji
      rw [update_self] at hj ⊢
      exact habsent hj
    · rw [update_of_ne hji] at hj ⊢
      exact h.absent j hj
  · by_cases hji : j = i
    · subst hji
      rw [update_self] at hj ⊢
      rw [update_self]
      exact howns hj
    · rw [update_of_ne hji] at hj ⊢
      rw [update_of_ne hji]
      apply (h.owns j hj).frame (fun a ha => (htable hji ha).2.2) hvalid hsame
      exact fun a ha => (htable hji ha).2.1
  · rw [Finset.disjoint_left]
    intro a haj hal
    by_cases hj : j = i
    · subst hj
      rw [update_self] at haj
      rw [update_of_ne (Ne.symm hjl)] at hal
      exact (htable (Ne.symm hjl) hal).1 haj
    · rw [update_of_ne hj] at haj
      by_cases hl : l = i
      · subst hl
        rw [update_self] at hal
        exact (htable hj haj).1 hal
      · rw [update_of_ne hl] at hal
        exact disjoint_left.1 (h.separate j l hjl) haj hal
  · obtain ⟨hmanages, hne, hnot, htables⟩ := h.used a ha
    obtain ⟨hout, hused, -⟩ := hother a hnot (htables i)
    refine ⟨hsame.manages.2 hmanages, hne, hused, fun j hj => ?_⟩
    by_cases hji : j = i
    · subst hji
      rw [update_self] at hj
      exact hout hj
    · rw [update_of_ne hji] at hj
      exact htables j hj

theorem Spaces.confined {α : Type} {m : Run Memory α} {i : ι} (hroot : root i ≠ 0)
    (hm : Confined (root i) m) : ∃ T', Spaces (m s).2 root T' F := by
  obtain ⟨T', hext⟩ := hm s (T i) (h.owns i hroot)
  have hnext : Spaces (m s).2 (update root i (root i)) (update T i T') F := by
    apply h.replace hext.owns.valid hext.same (fun hzero => absurd hzero hroot) fun _ => hext.owns
    intro a hused hnot
    have hout : a ∉ T' := fun hcon => hused (hext.fresh a hcon hnot)
    refine ⟨hout, ?_, hext.frame a hout⟩
    rw [hext.free]
    exact fun hcon => hused (mem_sdiff.1 hcon).1
  rw [update_eq_self] at hnext
  exact ⟨_, hnext⟩

theorem Spaces.newTable {i : ι} {pgd : ℕ} (hnew : (vmmNewTable s).1 = some pgd) :
    Spaces (vmmNewTable s).2 (update root i pgd) (update T i {pgd}) F := by
  obtain ⟨hpgd, howns, hmem, -, hsame, hfree⟩ := vmmNewTable_owns h.valid h.low hnew
  apply h.replace howns.valid hsame (fun hzero => absurd hzero (h.valid.ne_zero_of_mem hpgd))
    fun _ => howns
  intro a hused _
  have hne : a ≠ pgd := fun heq => hused (heq ▸ hpgd)
  refine ⟨by simpa using hne, ?_, hmem a hne⟩
  rw [hfree]
  exact fun hcon => hused (Finset.mem_of_mem_erase hcon)

theorem Spaces.freeTable {i : ι} (hroot : root i ≠ 0) :
    Spaces (vmmFreeTable (root i) s) (update root i 0) (update T i ∅) F := by
  obtain ⟨heq, -, hmem⟩ := (h.owns i hroot).vmmFreeTable_eq
  have hpages (a : ℕ) (ha : a ∈ freeOrder s.mem 3 (root i)) : s.pmm.Manages a ∧ a ≠ 0 := by
    obtain ⟨hmanages, hne, -⟩ := (h.owns i hroot).pages a ((hmem a).1 ha)
    exact ⟨hmanages, hne⟩
  obtain ⟨hvalid, hsame, hfree⟩ := h.valid.foldl_pmmFreePage _ hpages
  rw [heq]
  generalize freeOrder s.mem 3 (root i) = pages at *
  apply h.replace
  · exact hvalid
  · exact hsame
  · simp
  · simp
  · intro a hused hnot
    rw [freeAll_pmm, hfree, mem_union, mem_toFinset, hmem, freeAll_mem]
    exact ⟨by simp, by tauto, rfl⟩

end

end Spaces

end Vmm
