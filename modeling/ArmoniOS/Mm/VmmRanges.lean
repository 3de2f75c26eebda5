import ArmoniOS.Mm.VmmRuns

/-! Mapping a range is all or nothing: a failure at any page takes back the pages mapped by the same
call, and no other translation changes. -/
namespace Vmm
open Exec Pmm

/-- A leaf descriptor, if it is valid. -/
def present (entry : BitVec 64) : Option (BitVec 64) :=
  if entry &&& descValid = 0 then none else some entry

/-- What an address is translated with. -/
def Memory.leaf (s : Memory) (pgd vaddr : ℕ) : Option (BitVec 64) :=
  present (vmmLeafEntry s pgd vaddr)

@[simp] theorem present_zero : present 0 = none := by simp [present]

@[simp] theorem present_eq_none {entry : BitVec 64} :
    present entry = none ↔ entry &&& descValid = 0 := by simp [present]

@[simp] theorem present_descriptor (paddr : ℕ) (flags : BitVec 64) :
    present (pageDescriptor paddr flags) = some (pageDescriptor paddr flags) :=
  if_neg (pageDescriptor_spec paddr flags).1

variable {s : Memory} {pgd vaddr paddr v w n : ℕ} {flags : BitVec 64} {T : Finset ℕ}

section Pages
variable (h : Owns s pgd T)
include h

theorem Owns.leaf_eq : s.leaf pgd v = present (entryAt s.mem pgd v) := by
  rw [Memory.leaf, h.vmmLeafEntry_eq]

theorem Owns.leaf_congr (hpage : pageOf v = pageOf w) : s.leaf pgd v = s.leaf pgd w := by
  obtain ⟨hpath, hindex⟩ := pageOf_eq_iff.1 hpage
  simp only [h.leaf_eq, entryAt, hpath, hindex]

theorem leaf_mapPage (vaddr paddr : ℕ) (flags : BitVec 64) :
    let r := vmmMapPage pgd vaddr paddr flags s
    ∃ T', Owns r.2 pgd T' ∧ (r.1 = some () ∧ s.leaf pgd vaddr = none ∧ (∀ v, r.2.leaf pgd v =
        if pageOf v = pageOf vaddr then some (pageDescriptor paddr flags) else s.leaf pgd v) ∨
      r.1 = none ∧ ∀ v, r.2.leaf pgd v = s.leaf pgd v) := by
  obtain ⟨T', hext, hcase⟩ := vmmMapPage_spec h vaddr paddr flags
  refine ⟨T', hext.owns, hcase.imp ?_ ?_⟩
  · rintro ⟨hsome, -, -, habsent, hview⟩
    refine ⟨hsome, by rw [h.leaf_eq, present_eq_none, habsent], fun v => ?_⟩
    rw [hext.owns.leaf_eq, hview, apply_ite present, present_descriptor, h.leaf_eq]
  · rintro ⟨hnone, hview, -⟩
    refine ⟨hnone, fun v => ?_⟩
    rw [hext.owns.leaf_eq, hview, h.leaf_eq]

theorem leaf_unmapPage (haligned : vaddr % pageSize = 0) :
    let r := vmmUnmapPage pgd vaddr s
    Owns r.2 pgd T ∧ ∀ v, r.2.leaf pgd v = if pageOf v = pageOf vaddr then none else s.leaf pgd v := by
  intro r
  obtain ⟨hext, hok, hview⟩ := vmmUnmapPage_spec h vaddr
  have hmapped : r.1 = some () ↔ s.leaf pgd vaddr ≠ none := by
    rw [hok, h.leaf_eq, present_eq_none.ne]
    exact and_iff_right haligned
  refine ⟨hext.owns, fun v => ?_⟩
  rw [hext.owns.leaf_eq, hview, apply_ite present, present_zero, ← h.leaf_eq]
  by_cases hpage : pageOf v = pageOf vaddr
  · by_cases hsome : r.1 = some ()
    · rw [if_pos ⟨hsome, hpage⟩, if_pos hpage]
    · rw [if_neg fun hboth => hsome hboth.1, if_pos hpage, h.leaf_congr hpage]
      exact not_not.1 (mt hmapped.2 hsome)
  · rw [if_neg fun hboth => hpage hboth.2, if_neg hpage]

end Pages

section Loops
variable (haligned : vaddr % pageSize = 0)
include haligned

theorem page_aligned (n : ℕ) : (vaddr + n * pageSize) % pageSize = 0 := by
  rw [Nat.add_mul_mod_self_right, haligned]

theorem leaf_rollback (pages : List ℕ) (h : Owns s pgd T) (v : ℕ) :
    (forEach (fun page => do let _ ← attempt (vmmUnmapPage pgd (vaddr + page * pageSize)))
        pages s).2.leaf pgd v =
      if ∃ page ∈ pages, pageOf v = pageOf (vaddr + page * pageSize) then none
      else s.leaf pgd v := by
  induction pages generalizing s with
  | nil => simp
  | cons page pages ih =>
    obtain ⟨howns, hleaf⟩ := leaf_unmapPage h (page_aligned haligned page)
    have hstep : (do let _ ← attempt (vmmUnmapPage pgd (vaddr + page * pageSize)) : Run Memory Unit) s =
        (some (), (vmmUnmapPage pgd (vaddr + page * pageSize) s).2) := rfl
    rw [forEach_cons, bind_of_some hstep, ih howns, hleaf]
    by_cases hpage : pageOf v = pageOf (vaddr + page * pageSize) <;> simp [hpage]

/-- A mapping loop that fails also takes back the `n` pages done before. -/
theorem leaf_mapPages (left n : ℕ) (h : Owns s pgd T) :
    let r := mapPages pgd vaddr paddr flags left (n * pageSize) s
    (r.1 = some () ∧ (∀ j, n ≤ j → j < n + left → s.leaf pgd (vaddr + j * pageSize) = none ∧
        ∀ v, pageOf v = pageOf (vaddr + j * pageSize) →
          r.2.leaf pgd v = some (pageDescriptor (paddr + j * pageSize) flags)) ∧
      ∀ v, (∀ j, n ≤ j → j < n + left → pageOf v ≠ pageOf (vaddr + j * pageSize)) →
        r.2.leaf pgd v = s.leaf pgd v) ∨
    r.1 = none ∧ ∀ v, r.2.leaf pgd v =
      if ∃ j ∈ List.range n, pageOf v = pageOf (vaddr + j * pageSize) then none
      else s.leaf pgd v := by
  induction left generalizing n s T with
  | zero => exact .inl ⟨rfl, fun j _ _ => by omega, fun v _ => rfl⟩
  | succ left ih =>
    intro r
    obtain ⟨T', howns, hcase⟩ := leaf_mapPage h (vaddr + n * pageSize) (paddr + n * pageSize) flags
    have hr : r = (attempt (vmmMapPage pgd (vaddr + n * pageSize) (paddr + n * pageSize) flags) >>=
      _) s := rfl
    rw [bind_of_some attempt_apply] at hr
    generalize vmmMapPage pgd (vaddr + n * pageSize) (paddr + n * pageSize) flags s = mapped at *
    obtain ⟨status, u⟩ := mapped
    rcases hcase with ⟨hsome, habsent, hview⟩ | ⟨hnone, hview⟩
    · obtain rfl := hsome
      have hnext := ih (n + 1) howns
      rw [show (n + 1) * pageSize = n * pageSize + pageSize by rw [Nat.succ_mul]] at hnext
      rw [hr]
      refine hnext.imp ?_ ?_
      · rintro ⟨hdone, hnew, hold⟩
        -- no later page is the one just mapped, since it could not be mapped again
        have hother (j) (hj : n + 1 ≤ j) (hlt : j < n + 1 + left) :
            pageOf (vaddr + j * pageSize) ≠ pageOf (vaddr + n * pageSize) := by
          intro heq
          have hfree := (hnew j hj hlt).1
          rw [hview, if_pos heq] at hfree
          cases hfree
        refine ⟨hdone, fun j hj hlt => ?_, fun v hv => ?_⟩
        · by_cases hjn : j = n
          · subst hjn
            refine ⟨habsent, fun v hv => ?_⟩
            rw [hold v fun i hi hi' heq => hother i hi hi' (heq.symm.trans hv), hview, if_pos hv]
          · obtain ⟨hfree, hset⟩ := hnew j (by omega) (by omega)
            rw [hview, if_neg (hother j (by omega) (by omega))] at hfree
            exact ⟨hfree, hset⟩
        · rw [hold v fun j hj hlt => hv j (by omega) (by omega), hview,
            if_neg (hv n le_rfl (by omega))]
      · rintro ⟨hfail, hback⟩
        refine ⟨hfail, fun v => ?_⟩
        rw [hback, hview]
        simp only [List.mem_range, Nat.lt_succ_iff_lt_or_eq, or_and_right, exists_or, exists_eq_left]
        by_cases hv : pageOf v = pageOf (vaddr + n * pageSize)
        · simp [hv, h.leaf_congr hv, habsent]
        · simp [hv]
    · obtain rfl : status = none := hnone
      have hcount : n * pageSize / pageSize = n := Nat.mul_div_cancel n (by decide)
      dsimp only at hr hview
      rw [hcount, bind_fail] at hr
      rw [hr]
      refine .inr ⟨rfl, fun v => ?_⟩
      rw [← hview]
      exact leaf_rollback haligned (List.range n) howns v

end Loops

section Ranges
variable {size : ℕ}

theorem vmmMapRange_eq (hpgd : pgd ≠ 0) (hoffset : vaddr % pageSize = paddr % pageSize)
    (hsize : size ≠ 0) (hv : vaddr + size ≤ 2 ^ 48) (hp : paddr + size ≤ 2 ^ 48) :
    vmmMapRange pgd vaddr paddr size flags = mapPages pgd (alignDown vaddr) (alignDown paddr) flags
      ((vaddr % pageSize + size + 4095) / pageSize) (0 * pageSize) := by
  have hspan : pageSpan (vaddr - alignDown vaddr) size =
      some ((vaddr % pageSize + size + 4095) / pageSize * pageSize) := by
    have hps : pageSize = 4096 := rfl
    have hlt : vaddr % pageSize < pageSize := Nat.mod_lt _ (by decide)
    have hdown : vaddr - alignDown vaddr = vaddr % pageSize := by
      simp only [alignDown, pageSize]
      omega
    unfold pageSpan u64Max
    rw [hdown, if_neg (by omega), if_neg (by omega), if_neg (by omega)]
    rfl
  unfold vmmMapRange
  dsimp only
  rw [if_neg (by tauto), if_neg hsize, hspan]
  dsimp only
  rw [if_neg, Nat.mul_div_cancel _ (by decide), Nat.zero_mul]
  simp only [u64Max, alignDown, pageSize] at hoffset ⊢
  omega

theorem vmmVirtToPhys_of_leaf (haligned : pageSize ∣ paddr) (hlt : paddr < 2 ^ 48)
    (h : s.leaf pgd v = some (pageDescriptor paddr flags)) :
    vmmVirtToPhys s pgd v = paddr + v % pageSize := by
  obtain ⟨hvalid, hpage, hmask⟩ := pageDescriptor_spec paddr flags
  unfold Memory.leaf present at h
  split_ifs at h
  simp only [vmmVirtToPhys, Option.some.inj h, hvalid, hpage, or_self, if_false, hmask]
  exact frame_or_offset haligned hlt (Nat.mod_lt _ (by decide))

end Ranges

/-- A range below `2 ^ 48` on tables with any mappings, in any state of the allocator: either every
page it touches is mapped to the matching frame with these flags and all other translations stay, or
the call fails and all of them stay. -/
theorem map_range_all_or_nothing (s : Memory) (hvalid : Valid s.pmm)
    (hlow : ∀ a, s.pmm.Manages a → a < 2 ^ 48) (pgd : ℕ) (hnew : (vmmNewTable s).1 = some pgd)
    (ops : List TableOp) (vaddr paddr size : ℕ) (flags : BitVec 64)
    (hoffset : vaddr % pageSize = paddr % pageSize) (hv : vaddr + size ≤ 2 ^ 48)
    (hp : paddr + size ≤ 2 ^ 48) :
    let t := runOps pgd ops (vmmNewTable s).2
    let r := vmmMapRange pgd vaddr paddr size flags t
    (r.1 = some () ∧
      (∀ b ∈ Set.Ico vaddr (vaddr + size), vmmVirtToPhys r.2 pgd b = paddr + (b - vaddr) ∧
        ∀ v, pageOf v = pageOf b →
          r.2.leaf pgd v = some (pageDescriptor (alignDown (paddr + (b - vaddr))) flags)) ∧
      ∀ v, (∀ b ∈ Set.Ico vaddr (vaddr + size), pageOf v ≠ pageOf b) →
        r.2.leaf pgd v = t.leaf pgd v) ∨
    r.1 = none ∧ ∀ v, r.2.leaf pgd v = t.leaf pgd v := by
  intro t r
  obtain ⟨-, hfirst, -⟩ := vmmNewTable_owns hvalid hlow hnew
  obtain ⟨T, hext⟩ := runOps_extends hfirst ops
  have hpgd : pgd ≠ 0 := (hfirst.pages pgd hfirst.root_mem).2.1
  have hps : pageSize = 4096 := rfl
  by_cases hsize : size = 0
  · have hr : r = (some (), t) := by
      have hnot : ¬ (pgd = 0 ∨ vaddr % pageSize ≠ paddr % pageSize) := by tauto
      simp only [r, vmmMapRange, if_neg hnot, if_pos hsize, pure_apply]
    rw [hr]
    exact .inl ⟨rfl, fun b hb => by simp [hsize] at hb, fun v _ => rfl⟩
  have hbase : alignDown vaddr % pageSize = 0 := Nat.mul_mod_left _ _
  have hcase := @leaf_mapPages _ pgd _ (alignDown paddr) flags _ hbase
    ((vaddr % pageSize + size + 4095) / pageSize) 0 hext.owns
  rw [← vmmMapRange_eq hpgd hoffset hsize hv hp] at hcase
  refine hcase.imp ?_ fun hfail => ⟨hfail.1, fun v => by simpa using hfail.2 v⟩
  rintro ⟨hdone, hnew, hold⟩
  have hpage (b : ℕ) (hb : b ∈ Set.Ico vaddr (vaddr + size)) : ∃ j,
      j < 0 + (vaddr % pageSize + size + 4095) / pageSize ∧
      pageOf b = pageOf (alignDown vaddr + j * pageSize) ∧
      alignDown paddr + j * pageSize = alignDown (paddr + (b - vaddr)) := by
    obtain ⟨hlo, hhi⟩ := hb
    refine ⟨b / pageSize - vaddr / pageSize, ?_⟩
    simp only [alignDown, pageOf, hps] at hoffset ⊢
    omega
  refine ⟨hdone, fun b hb => ?_, fun v hv => hold v fun j _ hj heq => ?_⟩
  · obtain ⟨j, hj, hbj, hframe⟩ := hpage b hb
    have hleaf (v) (hvb : pageOf v = pageOf b) := (hnew j (Nat.zero_le j) hj).2 v (hvb.trans hbj)
    rw [hframe] at hleaf
    refine ⟨?_, hleaf⟩
    obtain ⟨hlo, hhi⟩ := hb
    rw [vmmVirtToPhys_of_leaf (Nat.dvd_mul_left _ _) _ (hleaf b rfl)]
    all_goals
      rw [hps] at hoffset ⊢
      omega
  · refine hv (max vaddr (alignDown vaddr + j * pageSize)) ⟨le_max_left _ _, ?_⟩ (heq.trans ?_)
    all_goals
      simp only [alignDown, pageOf, hps] at hj ⊢
      omega

/-- Tables from eight pages at `0x2000`, with the page at `0x401000` mapped. -/
def oneMapped : Memory :=
  runOps 0x2000 [.mapPage 0x401000 0x9000 0] (vmmNewTable ⟨fun _ _ => 0, pmmInit 0x2000 0x8000⟩).2

/-- The second of two pages is mapped already, and the call takes the first one back. -/
theorem map_range_taken_back : (vmmMapRange 0x2000 0x400010 0xa010 0x1000 0 oneMapped).1 = none ∧
      ∀ v, (vmmMapRange 0x2000 0x400010 0xa010 0x1000 0 oneMapped).2.leaf 0x2000 v =
        oneMapped.leaf 0x2000 v := by
  have hnew : (vmmNewTable ⟨fun _ _ => 0, pmmInit 0x2000 0x8000⟩).1 = some 0x2000 := by
    decide +kernel
  have hfail : (vmmMapRange 0x2000 0x400010 0xa010 0x1000 0 oneMapped).1 = none := by
    decide +kernel
  have hvalid : Valid (pmmInit 0x2000 0x8000) := pmmInit_valid (by decide) (by decide)
  rcases map_range_all_or_nothing _ hvalid (pmmInit_low (by decide)) _ hnew
    [.mapPage 0x401000 0x9000 0] 0x400010 0xa010 0x1000 0 (by decide) (by decide) (by decide) with h | h
  · cases hfail.symm.trans h.1
  · exact h

end Vmm
