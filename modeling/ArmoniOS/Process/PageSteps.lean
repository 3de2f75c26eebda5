import ArmoniOS.Process.Pages

/-! The effect of attaching a page table, of `mmap`, `munmap` and `process_release` on the pages. -/
namespace Process
open Exec Pmm Vmm Function List

variable {addr size pgd paddr : ℕ}

section Steps
variable {k : Kernel} {i : Fin 16} {p : Pcb} {held : List ℕ}

theorem PagesOk.exchange (h : PagesOk k held) {mm : Memory}
    (hpages : p.ownedPages = (k.procs i).ownedPages)
    (hspaces : ∃ T, Spaces mm (update k.roots i p.pageTable) T (k.inUse held)) :
    PagesOk ({ k with mm := mm }.put i p) held := by
  have howners : ({ k with mm := mm }.put i p).owners = k.owners := by
    apply owners_congr
    intro j
    by_cases hj : j = i
    · subst hj
      rw [put_procs_self, hpages]
    · rw [put_procs_of_ne hj]
  refine ⟨?_, fun a => ?_, fun a => ?_⟩
  · obtain ⟨T, hnew⟩ := hspaces
    rw [roots_put]
    refine ⟨T, hnew.mono fun a ha => ?_⟩
    rwa [mem_inUse, howners] at ha
  · rw [howners]
    exact h.single a
  · rw [howners]
    exact h.balance a

theorem PagesOk.newTable (h : PagesOk k held) (hnew : (vmmNewTable k.mm).1 = some pgd) :
    PagesOk ({ k with mm := (vmmNewTable k.mm).2 }.put i { k.procs i with pageTable := pgd })
      held := by
  obtain ⟨T, hspaces⟩ := h.spaces
  apply h.exchange
  · rfl
  · exact ⟨_, hspaces.newTable hnew⟩

theorem PagesOk.freeTable (h : PagesOk k held) (hpgd : pgd ≠ 0)
    (htable : (k.procs i).pageTable = pgd) (hpages : p.ownedPages = (k.procs i).ownedPages)
    (hp : p.pageTable = 0) : PagesOk ({ k with mm := vmmFreeTable pgd k.mm }.put i p) held := by
  obtain ⟨T, hspaces⟩ := h.spaces
  subst htable
  apply h.exchange hpages
  rw [hp]
  exact ⟨_, hspaces.freeTable hpgd⟩

theorem disown_ownedPages (p : Pcb) : p.disown.ownedPages = [] := flatMap_disown _

theorem PagesOk.freeResources (h : PagesOk k []) : PagesOk (processFreeResources k i) [] ∧
      ((processFreeResources k i).procs i).pageTable = 0 ∧
      ((processFreeResources k i).procs i).ownedPages = [] := by
  have hheld : PagesOk (k.put i (k.procs i).disown) (k.procs i).ownedPages := by
    apply h.put
    · rfl
    · simp [disown_ownedPages]
  have hfreed : PagesOk ((k.freePages (k.procs i).ownedPages).put i (k.procs i).disown) [] :=
    hheld.freePages
  have hself : ((k.freePages (k.procs i).ownedPages).put i (k.procs i).disown).procs i =
      (k.procs i).disown := put_procs_self
  unfold processFreeResources
  by_cases htable : (k.procs i).pageTable = 0
  · rw [if_neg (not_not.2 htable), hself]
    exact ⟨hfreed, htable, disown_ownedPages _⟩
  · rw [if_pos htable, put_procs_self]
    refine ⟨?_, rfl, disown_ownedPages _⟩
    apply hfreed.freeTable htable
    · rw [hself]
      rfl
    · rw [hself]
      rfl
    · rfl

theorem PagesOk.release (h : PagesOk k []) : PagesOk (processRelease k i) [] := by
  unfold processRelease
  dsimp only
  split
  · exact h
  · have hcurrent : PagesOk (k.clearCurrent i) [] := by
      unfold Kernel.clearCurrent
      split
      · exact ⟨h.spaces, h.single, h.balance⟩
      · exact h
    obtain ⟨hfreed, htable, hpages⟩ := hcurrent.freeResources
    have hput : PagesOk ((processFreeResources (k.clearCurrent i) i).put i unusedSlot) [] :=
      hfreed.put_same htable.symm hpages.symm
    split
    · exact ⟨hput.spaces, hput.single, hput.balance⟩
    · exact hput

/-- Everything a failed `mmap` did is undone, up to page tables and the next address. -/
theorem PagesOk.undoMap (h : PagesOk k (pagesFrom paddr size)) (htable : (k.procs i).pageTable ≠ 0)
    (hremove : processRemoveUserRegion (k.procs i) addr size = some p)
    (hp : p.pageTable = (k.procs i).pageTable) (hpages : p.ownedPages = (k.procs i).ownedPages) :
    PagesOk (undoMap k i addr size paddr) [] := by
  have hunmapped := h.confined htable (confined_unmapRange addr size)
  unfold Process.undoMap removeRegion
  apply PagesOk.freePages
  rw [hremove, Option.getD_some]
  exact hunmapped.put_same hp hpages

theorem PagesOk.mapNewRegion (h : PagesOk k []) (haligned : pageSize ∣ size)
    (htable : (k.procs i).pageTable ≠ 0) (hreserved : Reserved p (k.procs i) addr size)
    (vmmFlags : BitVec 64) : PagesOk (mapNewRegion k i addr size vmmFlags).2 [] := by
  have hslot := hreserved.slot
  have hold : (k.procs i).ownedPages = p.ownedPages := by
    rw [hslot]
    exact flatMap_append_new _ _ _
  obtain ⟨T, hspaces⟩ := h.spaces
  unfold Process.mapNewRegion
  rcases spaces_alloc hspaces haligned with ⟨hne, hfresh, hnew⟩ | hfull
  · simp only [Kernel.allocPages, if_neg hne]
    generalize hresult : pmmAllocPages k.mm.pmm (size / pageSize) = result at *
    have hheld : PagesOk { k with
        mm := zeroPages { k.mm with pmm := result.2 } (pagesFrom result.1 size)
        taken := k.taken ++ pagesFrom result.1 size } (pagesFrom result.1 size) := by
      apply h.take
      · rfl
      · rfl
      · rfl
      · exact nodup_pagesFrom _ _
      · exact hfresh
      · exact ⟨T, hnew⟩
    have hmapped := hheld.confined htable (confined_mapRange addr result.1 size vmmFlags)
    split
    · apply hmapped.undoMap htable hreserved.remove
      · rw [hslot]
      · rw [hold]
        rfl
    · rw [hreserved.set]
      apply hmapped.put
      · rw [hslot]
      · intro a
        have howned : (Region.mk addr (addr + size) result.1 ownedFlag).Owned :=
          ⟨(by decide : ownedFlag &&& ownedFlag ≠ 0), hne⟩
        have hpages := ownedPages_of_owned howned (Nat.lt_add_of_pos_right hreserved.pos)
        rw [hold, Pcb.ownedPages, flatMap_append, flatMap_singleton, hpages, Nat.add_sub_cancel_left,
          count_append, count_nil, Nat.add_zero]
        rfl
  · simp only [Kernel.allocPages, hfull, if_true]
    rw [removeRegion, hreserved.remove, Option.getD_some]
    apply h.put_same
    · rw [hslot]
    · rw [hold]
      rfl

theorem PagesOk.mapAnonymous (h : PagesOk k []) (hint size : ℕ) (flags : BitVec 64) :
    PagesOk (userVmMapAnonymous k i hint size flags).2 [] := by
  obtain ⟨haligned, hlt⟩ := pageAlignUp_spec size
  unfold userVmMapAnonymous
  dsimp only
  split
  · exact h
  next hok =>
    have htable : (k.procs i).pageTable ≠ 0 := by tauto
    split
    next vmmFlags addr p hflags halloc =>
      have hreserved := processAllocUserRegion_spec haligned hlt halloc
      have hadded : PagesOk (k.put i p) [] := by
        apply h.put_same
        · rw [hreserved.slot]
        · rw [hreserved.slot]
          exact flatMap_append_new _ _ _
      apply hadded.mapNewRegion haligned
      · rw [put_procs_self, hreserved.slot]
        exact htable
      · rw [put_procs_self]
        exact hreserved
    · exact h

theorem PagesOk.unmapAnonymous (h : PagesOk k []) (addr size : ℕ) :
    PagesOk (userVmUnmapAnonymous k i addr size).2 [] := by
  unfold userVmUnmapAnonymous
  dsimp only
  split
  · exact h
  next hok =>
    have htable : (k.procs i).pageTable ≠ 0 := by tauto
    split
    · exact h
    next region hfind =>
      split
      · exact h
      next howned =>
        have hunmapped := h.confined htable (confined_unmapRange addr (pageAlignUp size))
        split
        · exact hunmapped
        · obtain ⟨before, after, hregions, hstart, hstop, hpos, hremove⟩ :=
            processFindUserRegion_eq_some hfind
          rw [hremove]
          apply PagesOk.freePages
          apply hunmapped.put
          · rfl
          · have hpages : region.ownedPages = pagesFrom region.paddr (pageAlignUp size) := by
              rw [ownedPages_of_owned (not_not.1 howned) (by omega), hstart, hstop,
                Nat.add_sub_cancel_left]
            simp only [Pcb.ownedPages, hregions, flatMap_append, flatMap_cons,
              count_append, hpages, count_nil]
            omega

end Steps

/-- The call works on the regions of one process and on nothing else in the process table. -/
structure OnlyRegions (k k' : Kernel) (i : Fin 16) : Prop where
  current : k'.current = k.current
  count : k'.count = k.count
  procs : ∃ regions next, k'.procs = update k.procs i
      { k.procs i with userRegions := regions, nextUserVaddr := next } ∧
    (RegionsOk (k.procs i).userRegions → RegionsOk regions)

section Shape
variable {k : Kernel} {i : Fin 16} {p : Pcb}

theorem OnlyRegions.refl (k : Kernel) (i : Fin 16) : OnlyRegions k k i where
  current := rfl
  count := rfl
  procs := ⟨_, _, (update_eq_self i k.procs).symm, id⟩

theorem mapNewRegion_shape (hreserved : Reserved p (k.procs i) addr size) (vmmFlags : BitVec 64) :
    (mapNewRegion k i addr size vmmFlags).2.current = k.current ∧
      (mapNewRegion k i addr size vmmFlags).2.count = k.count ∧
      ∃ regions, (mapNewRegion k i addr size vmmFlags).2.procs = update k.procs i
          { p with userRegions := regions, nextUserVaddr := addr + size } ∧
        (regions = p.userRegions ∨ ∃ paddr flags,
          regions = p.userRegions ++ [⟨addr, addr + size, paddr, flags⟩]) := by
  have hremove := hreserved.remove
  have hset := hreserved.set
  have hprocs : (k.allocPages size).2.procs = k.procs ∧
      (k.allocPages size).2.current = k.current ∧ (k.allocPages size).2.count = k.count := by
    unfold Kernel.allocPages
    dsimp only
    split <;> exact ⟨rfl, rfl, rfl⟩
  unfold mapNewRegion
  generalize k.allocPages size = result at *
  obtain ⟨paddr, k'⟩ := result
  obtain ⟨hprocs, hcurrent, hcount⟩ := hprocs
  dsimp only at *
  rw [← hprocs] at hremove hset
  split
  · rw [removeRegion, hremove, Option.getD_some]
    refine ⟨hcurrent, hcount, _, ?_, Or.inl rfl⟩
    rw [← hprocs]
    rfl
  · split
    · unfold undoMap removeRegion
      dsimp only
      rw [hremove]
      refine ⟨hcurrent, hcount, _, ?_, Or.inl rfl⟩
      rw [← hprocs]
      rfl
    · rw [hset]
      refine ⟨hcurrent, hcount, _, ?_, Or.inr ⟨paddr, ownedFlag, rfl⟩⟩
      rw [← hprocs]
      rfl

theorem userVmMapAnonymous_shape (k : Kernel) (i : Fin 16) (hint size : ℕ) (flags : BitVec 64) :
    OnlyRegions k (userVmMapAnonymous k i hint size flags).2 i := by
  obtain ⟨haligned, hlt⟩ := pageAlignUp_spec size
  unfold userVmMapAnonymous
  dsimp only
  split
  · exact .refl k i
  · split
    next vmmFlags addr p hflags halloc =>
      have hreserved := processAllocUserRegion_spec haligned hlt halloc
      have hself : (k.put i p).procs i = p := put_procs_self
      obtain ⟨hcurrent, hcount, regions, hprocs, hregions⟩ :=
        mapNewRegion_shape (hself.symm ▸ hreserved) vmmFlags
      refine ⟨hcurrent, hcount, regions, addr + pageAlignUp size, ?_, fun hold => ?_⟩
      · rw [hprocs]
        simp [Kernel.put]
      · rcases hregions with rfl | ⟨paddr, flags, rfl⟩
        · exact hold
        · exact hold.append hreserved.room ⟨Nat.lt_add_of_pos_right hreserved.pos, hreserved.lt⟩
            hreserved.clear
    · exact .refl k i

theorem userVmUnmapAnonymous_shape (k : Kernel) (i : Fin 16) (addr size : ℕ) :
    OnlyRegions k (userVmUnmapAnonymous k i addr size).2 i := by
  have hmm (mm : Memory) : OnlyRegions k { k with mm := mm } i :=
    ⟨rfl, rfl, (OnlyRegions.refl k i).procs⟩
  unfold userVmUnmapAnonymous
  dsimp only
  split
  · exact .refl k i
  · split
    · exact .refl k i
    next region hfind =>
      split
      · exact .refl k i
      · split
        · exact hmm _
        · obtain ⟨before, after, hregions, -, -, -, hremove⟩ := processFindUserRegion_eq_some hfind
          rw [hremove]
          refine ⟨rfl, rfl, before ++ after, (k.procs i).nextUserVaddr, rfl, fun hold => ?_⟩
          apply hold.sublist
          rw [hregions]
          exact (sublist_cons_self region after).append_left before

end Shape

end Process
