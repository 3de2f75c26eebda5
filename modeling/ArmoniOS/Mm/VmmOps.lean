import ArmoniOS.Mm.VmmTables

/-! What each call of the page-table manager does to the tables of a root: the specification of
`next_table`, of mapping and unmapping a page or a range, and of building and freeing the tables. -/
namespace Vmm
open Exec Pmm PathTree Function List

/-- The call adds tables at most and leaves every leaf descriptor alone. -/
structure Grows (s s' : Memory) (pgd : ℕ) (T T' : Finset ℕ) : Prop extends
    Extends s s' pgd T T' where
  view : ∀ v, entryAt s'.mem pgd v = entryAt s.mem pgd v

section Pages
variable {s s' s'' : Memory} {pgd t vaddr paddr : ℕ} {flags : BitVec 64} {T T' T'' : Finset ℕ}
  {p : List (Fin 512)} {i : Fin 512}

theorem Grows.refl (h : Owns s pgd T) : Grows s s pgd T T := ⟨Extends.refl h, fun _ => rfl⟩

theorem Grows.trans (h : Grows s s' pgd T T') (h' : Grows s' s'' pgd T' T'') :
    Grows s s'' pgd T T'' :=
  ⟨h.toExtends.trans h'.toExtends, fun v => (h'.view v).trans (h.view v)⟩

theorem nextTable_of_valid (hvalid : s.mem t i &&& descValid ≠ 0)
    (htable : s.mem t i &&& descTable ≠ 0) (haddr : addrOf (s.mem t i) ≠ 0) :
    nextTable t i s = (some (addrOf (s.mem t i)), s) := by
  have hok : ¬ (s.mem t i &&& descTable = 0 ∨ addrOf (s.mem t i) = 0) := by tauto
  unfold nextTable
  rw [bind_of_some get_apply]
  simp only [run_ite, if_pos hvalid, if_neg hok]
  rfl

theorem vmmNewTable_of_full (hfull : pmmAllocPage s.pmm = (0, s.pmm)) :
    vmmNewTable s = (none, s) := by
  unfold vmmNewTable
  simp [bind_apply, hfull]

theorem vmmNewTable_of_page (hne : (pmmAllocPage s.pmm).1 ≠ 0) :
    vmmNewTable s = (some (pmmAllocPage s.pmm).1,
      ⟨update s.mem (pmmAllocPage s.pmm).1 fun _ => 0, (pmmAllocPage s.pmm).2⟩) := by
  unfold vmmNewTable
  simp [bind_apply, hne]

theorem nextTable_of_full (habsent : s.mem t i &&& descValid = 0)
    (hfull : pmmAllocPage s.pmm = (0, s.pmm)) : nextTable t i s = (none, s) := by
  have hnot : ¬ s.mem t i &&& descValid ≠ 0 := fun hne => hne habsent
  unfold nextTable
  rw [bind_of_some get_apply]
  simp only [run_ite, if_neg hnot]
  exact bind_of_none (vmmNewTable_of_full hfull)

theorem nextTable_of_new (habsent : s.mem t i &&& descValid = 0)
    (hne : (pmmAllocPage s.pmm).1 ≠ 0) :
    nextTable t i s = (some (pmmAllocPage s.pmm).1,
      s.attach (pmmAllocPage s.pmm).2 t i (pmmAllocPage s.pmm).1) := by
  have hnot : ¬ s.mem t i &&& descValid ≠ 0 := fun hne => hne habsent
  unfold nextTable
  rw [bind_of_some get_apply]
  simp only [run_ite, if_neg hnot]
  rw [bind_of_some (vmmNewTable_of_page hne)]
  rfl

theorem nextTable_spec (h : Owns s pgd T) (hp : follow (child s.mem) pgd p = some t)
    (hlen : p.length < 3) (i : Fin 512) :
    ∃ T', Grows s (nextTable t i s).2 pgd T T' ∧ ((∃ c, (nextTable t i s).1 = some c ∧
        follow (child (nextTable t i s).2.mem) pgd (p ++ [i]) = some c) ∨
      ((nextTable t i s).1 = none ∧ (nextTable t i s).2.pmm.freeAddrs = ∅)) := by
  have ht : t ∈ T := h.mem_of_follow hlen.le hp
  by_cases hvalid : s.mem t i &&& descValid = 0
  · rcases h.valid.pmmAllocPage_spec with ⟨hc, hv, hsame, hfree⟩ | ⟨hempty, hfull⟩
    · obtain ⟨hext, hfollow, hview⟩ := h.attach hp hlen hvalid hc hv hsame hfree
      rw [nextTable_of_new hvalid (h.valid.ne_zero_of_mem hc)]
      exact ⟨_, ⟨hext, hview⟩, .inl ⟨_, rfl, hfollow⟩⟩
    · rw [nextTable_of_full hvalid hfull]
      exact ⟨T, .refl h, .inr ⟨rfl, hempty⟩⟩
  · have htable := h.entries t ht i hvalid
    have hchild : child s.mem t i = some (addrOf (s.mem t i)) := if_pos ⟨hvalid, htable⟩
    have hfollow : follow (child s.mem) pgd (p ++ [i]) = some (addrOf (s.mem t i)) := by
      rw [follow_concat hp, hchild]
    have hmem : addrOf (s.mem t i) ∈ T := by
      apply h.mem_of_follow _ hfollow
      simp only [length_append, length_singleton]
      omega
    rw [nextTable_of_valid hvalid htable (h.pages _ hmem).2.1]
    exact ⟨T, .refl h, .inl ⟨_, rfl, hfollow⟩⟩

/-- All three `next_table` calls reach the leaf table, or the allocator is exhausted. -/
theorem levelThree_spec (h : Owns s pgd T) (vaddr : ℕ) :
    ∃ T', Grows s (levelThree pgd vaddr s).2 pgd T T' ∧ ((∃ t, (levelThree pgd vaddr s).1 = some t ∧
        follow (child (levelThree pgd vaddr s).2.mem) pgd (tablePath vaddr) = some t) ∨
      ((levelThree pgd vaddr s).1 = none ∧ (levelThree pgd vaddr s).2.pmm.freeAddrs = ∅)) := by
  unfold levelThree
  obtain ⟨T₁, hg₁, hres₁⟩ := nextTable_spec h (p := []) rfl (by simp) (tableIndex vaddr 0)
  rcases hres₁ with ⟨t₁, hsome₁, hf₁⟩ | ⟨hnone, hempty⟩
  · rw [bind_of_some (Prod.ext hsome₁ rfl)]
    obtain ⟨T₂, hg₂, hres₂⟩ := nextTable_spec hg₁.owns hf₁ (by simp) (tableIndex vaddr 1)
    rcases hres₂ with ⟨t₂, hsome₂, hf₂⟩ | ⟨hnone, hempty⟩
    · rw [bind_of_some (Prod.ext hsome₂ rfl)]
      obtain ⟨T₃, hg₃, hres₃⟩ := nextTable_spec hg₂.owns hf₂ (by simp) (tableIndex vaddr 2)
      exact ⟨T₃, hg₁.trans (hg₂.trans hg₃), hres₃⟩
    · rw [bind_of_none (Prod.ext hnone rfl)]
      exact ⟨T₂, hg₁.trans hg₂, .inr ⟨rfl, hempty⟩⟩
  · rw [bind_of_none (Prod.ext hnone rfl)]
    exact ⟨T₁, hg₁, .inr ⟨rfl, hempty⟩⟩

/-- The outcome of `vmm_map_page`: a new leaf descriptor for an unmapped page, or no change. -/
theorem vmmMapPage_spec (h : Owns s pgd T) (vaddr paddr : ℕ) (flags : BitVec 64) :
    ∃ T', Extends s (vmmMapPage pgd vaddr paddr flags s).2 pgd T T' ∧
      (((vmmMapPage pgd vaddr paddr flags s).1 = some () ∧ vaddr % pageSize = 0 ∧
        paddr % pageSize = 0 ∧ entryAt s.mem pgd vaddr &&& descValid = 0 ∧
        ∀ v, entryAt (vmmMapPage pgd vaddr paddr flags s).2.mem pgd v =
          if pageOf v = pageOf vaddr then pageDescriptor paddr flags else entryAt s.mem pgd v) ∨
      ((vmmMapPage pgd vaddr paddr flags s).1 = none ∧
        (∀ v, entryAt (vmmMapPage pgd vaddr paddr flags s).2.mem pgd v = entryAt s.mem pgd v) ∧
        (vaddr % pageSize ≠ 0 ∨ paddr % pageSize ≠ 0 ∨ entryAt s.mem pgd vaddr &&& descValid ≠ 0 ∨
          (vmmMapPage pgd vaddr paddr flags s).2.pmm.freeAddrs = ∅))) := by
  have hpgd : pgd ≠ 0 := (h.pages pgd h.root_mem).2.1
  unfold vmmMapPage
  split_ifs with hbad
  · exact ⟨T, .refl h, .inr ⟨rfl, fun _ => rfl, by tauto⟩⟩
  · obtain ⟨T', hg, hres⟩ := levelThree_spec h vaddr
    rcases hres with ⟨t, hsome, hfollow⟩ | ⟨hnone, hempty⟩
    · have hentry : entryAt (levelThree pgd vaddr s).2.mem pgd vaddr =
          (levelThree pgd vaddr s).2.mem t (tableIndex vaddr 3) := by
        rw [entryAt, hfollow]
      rw [hg.view] at hentry
      rw [bind_of_some (Prod.ext hsome rfl), bind_of_some get_apply]
      by_cases hmapped : (levelThree pgd vaddr s).2.mem t (tableIndex vaddr 3) &&& descValid ≠ 0
      · rw [if_pos hmapped]
        refine ⟨T', hg.toExtends, .inr ⟨rfl, hg.view, ?_⟩⟩
        rw [hentry]
        exact .inr (.inr (.inl hmapped))
      · rw [if_neg hmapped, modify_apply]
        have hleaf := hg.owns.write_leaf (i := tableIndex vaddr 3)
          (e := pageDescriptor paddr flags) hfollow rfl fun _ => (pageDescriptor_spec _ _).2.1
        refine ⟨T', hg.toExtends.trans hleaf, .inl ⟨rfl, by tauto, by tauto, ?_, fun v => ?_⟩⟩
        · rw [hentry]
          exact not_not.1 hmapped
        · rw [hg.owns.entryAt_write hfollow, hg.view]
    · rw [bind_of_none (Prod.ext hnone rfl)]
      exact ⟨T', hg.toExtends, .inr ⟨rfl, hg.view, .inr (.inr (.inr hempty))⟩⟩

theorem vmmUnmapPage_spec (h : Owns s pgd T) (vaddr : ℕ) :
    Extends s (vmmUnmapPage pgd vaddr s).2 pgd T T ∧ ((vmmUnmapPage pgd vaddr s).1 = some () ↔
        vaddr % pageSize = 0 ∧ entryAt s.mem pgd vaddr &&& descValid ≠ 0) ∧
      ∀ v, entryAt (vmmUnmapPage pgd vaddr s).2.mem pgd v =
        if (vmmUnmapPage pgd vaddr s).1 = some () ∧ pageOf v = pageOf vaddr then 0
        else entryAt s.mem pgd v := by
  have hpgd : pgd ≠ 0 := (h.pages pgd h.root_mem).2.1
  have hleaf : leafTable s.mem pgd vaddr = _ := h.leafTable_eq
  unfold vmmUnmapPage
  rw [bind_of_some get_apply]
  split_ifs with hbad
  · exact ⟨.refl h, by simp; tauto, by simp⟩
  · cases hfollow : follow (child s.mem) pgd (tablePath vaddr) with
    | none =>
      rw [hfollow] at hleaf
      simp only [hleaf, Option.getD_none, if_true]
      exact ⟨.refl h, by simp [entryAt, hfollow], by simp⟩
    | some t =>
      have hne : t ≠ 0 := (h.pages t (h.mem_of_follow (by simp [tablePath]) hfollow)).2.1
      have hentry : entryAt s.mem pgd vaddr = s.mem t (tableIndex vaddr 3) := by
        rw [entryAt, hfollow]
      rw [hfollow] at hleaf
      simp only [hleaf, Option.getD_some, if_neg hne]
      by_cases hvalid : s.mem t (tableIndex vaddr 3) &&& descValid = 0
      · rw [if_pos hvalid]
        exact ⟨.refl h, by simp [hentry, hvalid], by simp⟩
      · rw [if_neg hvalid, modify_apply]
        refine ⟨h.write_leaf hfollow rfl (by simp), ?_, fun v => ?_⟩
        · rw [hentry]
          tauto
        · simpa using h.entryAt_write hfollow v

end Pages

/-- The computation works on the tables of `pgd` only. -/
def Confined {α : Type} (pgd : ℕ) (m : Run Memory α) : Prop :=
  ∀ s T, Owns s pgd T → ∃ T', Extends s (m s).2 pgd T T'

section Ranges
variable {α β : Type} {pgd : ℕ} {m : Run Memory α} {f : α → Run Memory β}

theorem confined_pure (a : α) : Confined pgd (pure a : Run Memory α) := fun _ T h => ⟨T, .refl h⟩

theorem confined_fail : Confined pgd (fail : Run Memory α) := fun _ T h => ⟨T, Extends.refl h⟩

theorem confined_attempt (hm : Confined pgd m) : Confined pgd (attempt m) := hm

theorem confined_bind (hm : Confined pgd m) (hf : ∀ a, Confined pgd (f a)) :
    Confined pgd (m >>= f) := by
  intro s T h
  obtain ⟨T', hext⟩ := hm s T h
  rw [bind_apply]
  split
  next a t heq =>
    rw [heq] at hext
    obtain ⟨T'', hext'⟩ := hf a t T' hext.owns
    exact ⟨T'', hext.trans hext'⟩
  next t heq =>
    rw [heq] at hext
    exact ⟨T', hext⟩

theorem confined_forEach {body : β → Run Memory Unit} (hbody : ∀ x, Confined pgd (body x))
    (xs : List β) : Confined pgd (forEach body xs) := by
  induction xs with
  | nil => exact confined_pure ()
  | cons x xs ih => exact confined_bind (hbody x) fun _ => ih

theorem confined_mapPage (vaddr paddr : ℕ) (flags : BitVec 64) :
    Confined pgd (vmmMapPage pgd vaddr paddr flags) := by
  intro s T h
  obtain ⟨T', hext, -⟩ := vmmMapPage_spec h vaddr paddr flags
  exact ⟨T', hext⟩

theorem confined_unmapPage (vaddr : ℕ) : Confined pgd (vmmUnmapPage pgd vaddr) :=
  fun _ T h => ⟨T, (vmmUnmapPage_spec h vaddr).1⟩

theorem confined_mapPages (vaddr paddr : ℕ) (flags : BitVec 64) (left mapped : ℕ) :
    Confined pgd (mapPages pgd vaddr paddr flags left mapped) := by
  induction left generalizing mapped with
  | zero => exact confined_pure ()
  | succ left ih =>
    apply confined_bind (confined_attempt (confined_mapPage _ _ _))
    intro result
    cases result with
    | some _ => exact ih _
    | none =>
      apply confined_bind (confined_forEach (fun page => ?_) _) fun _ => confined_fail
      exact confined_bind (confined_attempt (confined_unmapPage _)) fun _ => confined_pure ()

theorem confined_mapRange (vaddr paddr size : ℕ) (flags : BitVec 64) :
    Confined pgd (vmmMapRange pgd vaddr paddr size flags) := by
  unfold vmmMapRange
  dsimp only
  split_ifs
  · exact confined_fail
  · exact confined_pure ()
  · split
    · exact confined_fail
    · split_ifs
      · exact confined_fail
      · exact confined_mapPages _ _ _ _ _

theorem confined_unmapRange (vaddr size : ℕ) : Confined pgd (vmmUnmapRange pgd vaddr size) := by
  unfold vmmUnmapRange
  dsimp only
  split_ifs
  · exact confined_fail
  · exact confined_pure ()
  · split
    · exact confined_fail
    · split_ifs
      · exact confined_fail
      · exact confined_forEach (fun page => confined_unmapPage _) _

end Ranges

section Roots
variable {s : Memory} {pgd : ℕ} {T : Finset ℕ}

theorem vmmNewTable_owns (hvalid : Valid s.pmm) (hlow : ∀ a, s.pmm.Manages a → a < 2 ^ 48)
    (hnew : (vmmNewTable s).1 = some pgd) :
    pgd ∈ s.pmm.freeAddrs ∧ Owns (vmmNewTable s).2 pgd {pgd} ∧
      (∀ a, a ≠ pgd → (vmmNewTable s).2.mem a = s.mem a) ∧
      (∀ i, (vmmNewTable s).2.mem pgd i = 0) ∧
      s.pmm.SameMemory (vmmNewTable s).2.pmm ∧
      (vmmNewTable s).2.pmm.freeAddrs = s.pmm.freeAddrs.erase pgd := by
  rcases hvalid.pmmAllocPage_spec with ⟨hc, hv, hsame, hfree⟩ | ⟨-, hfull⟩
  · have hne := hvalid.ne_zero_of_mem hc
    rw [vmmNewTable_of_page hne] at hnew ⊢
    obtain rfl := Option.some.inj hnew
    have hzero (i : Fin 512) : update s.mem (pmmAllocPage s.pmm).1 (fun _ => 0)
        (pmmAllocPage s.pmm).1 i = 0 := by simp
    have hother (a : ℕ) (ha : a ≠ (pmmAllocPage s.pmm).1) :
        update s.mem (pmmAllocPage s.pmm).1 (fun _ => 0) a = s.mem a :=
      update_of_ne ha _ _
    have hmanages := hsame.manages.2 (State.manages_of_mem hc)
    generalize hpage : (pmmAllocPage s.pmm).1 = pgd at *
    have hfollow {p : List (Fin 512)} {t : ℕ}
        (ht : follow (child (update s.mem pgd fun _ => 0)) pgd p = some t) : p = [] ∧ t = pgd := by
      cases p with
      | nil => exact ⟨rfl, (Option.some.inj ht).symm⟩
      | cons i p => simp [child] at ht
    refine ⟨hc, ⟨hv, fun a ha => hlow a (hsame.manages.1 ha), fun t => ?_, fun p q t _ _ hp hq => ?_,
      fun t ht i => ?_, fun t ht => ?_⟩, hother, hzero, hsame, hfree⟩
    · rw [Finset.mem_singleton]
      constructor
      · rintro rfl
        exact ⟨[], by simp, rfl⟩
      · rintro ⟨p, -, hp⟩
        exact (hfollow hp).2
    · rw [(hfollow hp).1, (hfollow hq).1]
    · rw [Finset.mem_singleton.1 ht]
      simp
    · rw [Finset.mem_singleton.1 ht]
      exact ⟨hmanages, hne, by simp [hfree]⟩
  · simp [vmmNewTable_of_full hfull] at hnew

def freeOrder (mem : ℕ → Fin 512 → BitVec 64) (left t : ℕ) : List ℕ :=
  postorder (child mem) (finRange 512) left t

def Memory.freeAll (s : Memory) (pages : List ℕ) : Memory :=
  { s with pmm := pages.foldl pmmFreePage s.pmm }

theorem freeAll_pmm (pages : List ℕ) : (s.freeAll pages).pmm = pages.foldl pmmFreePage s.pmm := rfl

theorem freeAll_mem (pages : List ℕ) : (s.freeAll pages).mem = s.mem := rfl

theorem freeAll_append (pages pages' : List ℕ) :
    s.freeAll (pages ++ pages') = (s.freeAll pages).freeAll pages' := by
  simp [Memory.freeAll]

theorem freeAll_singleton (t : ℕ) : s.freeAll [t] = { s with pmm := pmmFreePage s.pmm t } := rfl

/-- The loop over the entries of one table, for a level below that is known to free its tables. -/
theorem foldl_freeTableLevel {left t : ℕ} {mem : ℕ → Fin 512 → BitVec 64}
    (hlevel : ∀ s : Memory, s.mem = mem → ∀ c, (∃ i, child mem t i = some c) →
      freeTableLevel left c s = s.freeAll (freeOrder mem left c))
    (labels : List (Fin 512)) (s : Memory) (hs : s.mem = mem) :
    labels.foldl (fun s i =>
        if s.mem t i &&& descValid ≠ 0 ∧ s.mem t i &&& descTable ≠ 0 then
          freeTableLevel left (addrOf (s.mem t i)) s
        else s) s =
      s.freeAll (labels.flatMap fun i => ((child mem t i).map (freeOrder mem left)).getD []) := by
  induction labels generalizing s with
  | nil => rfl
  | cons i labels ih =>
    rw [foldl_cons, flatMap_cons, freeAll_append, hs]
    by_cases hentry : mem t i &&& descValid ≠ 0 ∧ mem t i &&& descTable ≠ 0
    · have hchild : child mem t i = some (addrOf (mem t i)) := if_pos hentry
      rw [if_pos hentry, hlevel s hs _ ⟨i, hchild⟩, hchild]
      exact ih _ hs
    · have hchild : child mem t i = none := if_neg hentry
      rw [if_neg hentry, hchild]
      exact ih _ hs

theorem freeTableLevel_eq (left t : ℕ) (s : Memory) (hne : ∀ u ∈ freeOrder s.mem left t, u ≠ 0) :
    freeTableLevel left t s = s.freeAll (freeOrder s.mem left t) := by
  induction left generalizing t s with
  | zero =>
    have ht : t ≠ 0 := hne t (by simp [freeOrder, postorder])
    rw [freeTableLevel, if_neg ht]
    rfl
  | succ left ih =>
    have ht : t ≠ 0 := hne t (by simp [freeOrder, postorder])
    have hlevel (s' : Memory) (hs : s'.mem = s.mem) (c : ℕ) (hc : ∃ i, child s.mem t i = some c) :
        freeTableLevel left c s' = s'.freeAll (freeOrder s.mem left c) := by
      obtain ⟨i, hi⟩ := hc
      rw [← hs]
      refine ih c s' fun u hu => hne u ?_
      rw [hs] at hu
      rw [freeOrder, postorder, mem_append, mem_flatMap]
      refine .inl ⟨i, mem_finRange i, ?_⟩
      rw [hi]
      exact hu
    rw [freeTableLevel, if_neg ht]
    rw [foldl_freeTableLevel hlevel _ s rfl, freeOrder, postorder, freeAll_append,
      freeAll_singleton]
    rfl

theorem Owns.vmmFreeTable_eq (h : Owns s pgd T) :
    vmmFreeTable pgd s = s.freeAll (freeOrder s.mem 3 pgd) ∧
      (freeOrder s.mem 3 pgd).Nodup ∧ ∀ a, a ∈ freeOrder s.mem 3 pgd ↔ a ∈ T := by
  have hmem (a : ℕ) : a ∈ freeOrder s.mem 3 pgd ↔ a ∈ T := by
    rw [h.mem_iff]
    exact mem_postorder mem_finRange
  refine ⟨freeTableLevel_eq 3 pgd s fun u hu => (h.pages u ((hmem u).1 hu)).2.1, ?_, hmem⟩
  exact h.unshared.nodup_postorder mem_finRange (nodup_finRange 512)

end Roots

end Vmm
