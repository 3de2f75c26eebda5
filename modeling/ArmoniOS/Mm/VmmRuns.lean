import ArmoniOS.Mm.VmmOps

/-! Runs on the tables of one root. Mapping and unmapping pages refines a partial map from pages to
mappings, and freeing the tables gives back exactly the pages that were taken for them. -/
namespace Vmm
open Exec Pmm PathTree Function Finset

structure Mapping where
  frame : ℕ
  flags : BitVec 64

abbrev PageMap := ℕ → Option Mapping

inductive PageOp where
  | map (vaddr paddr : ℕ) (flags : BitVec 64)
  | unmap (vaddr : ℕ)

def PageOp.InRange : PageOp → Prop
  | .map vaddr paddr _ => vaddr % pageSize = 0 ∧ vaddr < 2 ^ 48 ∧ paddr < 2 ^ 48
  | .unmap vaddr => vaddr % pageSize = 0 ∧ vaddr < 2 ^ 48

def PageOp.exec (pgd : ℕ) : PageOp → Run Memory Unit
  | .map vaddr paddr flags => vmmMapPage pgd vaddr paddr flags
  | .unmap vaddr => vmmUnmapPage pgd vaddr

def PageMap.step (m : PageMap) (ok : Bool) : PageOp → PageMap
  | .map vaddr paddr flags =>
      if ok then update m (vaddr / pageSize) (some ⟨paddr, flags⟩) else m
  | .unmap vaddr => if ok then update m (vaddr / pageSize) none else m

/-- The outcomes the abstract address space allows: a page is mapped only when it was not, and
fails to be only when it was, for an unaligned frame or without memory for tables; it is unmapped
exactly when it was mapped. -/
def PageMap.Allows (m : PageMap) (ok full : Bool) : PageOp → Prop
  | .map vaddr paddr _ =>
      if ok then m (vaddr / pageSize) = none
      else m (vaddr / pageSize) ≠ none ∨ paddr % pageSize ≠ 0 ∨ full
  | .unmap vaddr => ok ↔ m (vaddr / pageSize) ≠ none

def PageMap.translate (m : PageMap) (vaddr : ℕ) : ℕ :=
  match m (vaddr / pageSize) with
  | none => 0
  | some x => x.frame + vaddr % pageSize

/-- The tables translate every address of the 48-bit space as the map does, and hold its
descriptors. -/
def Agrees (s : Memory) (pgd : ℕ) (m : PageMap) : Prop :=
  ∀ v < 2 ^ 48, vmmVirtToPhys s pgd v = m.translate v ∧
    ∀ x, m (v / pageSize) = some x → vmmLeafEntry s pgd v = pageDescriptor x.frame x.flags

def Refines (pgd : ℕ) : Memory → PageMap → List PageOp → Prop
  | s, m, [] => Agrees s pgd m
  | s, m, op :: ops =>
      let result := op.exec pgd s
      let ok := result.1.isSome
      Agrees s pgd m ∧ m.Allows ok (result.2.pmm.freeAddrs = ∅) op ∧
        Refines pgd result.2 (m.step ok op) ops

variable {a off v vaddr paddr : ℕ} {s' : Memory} {e flags : BitVec 64}

section Refinement
variable {s : Memory} {pgd : ℕ} {m : PageMap}

/-- The simulation relation: the leaf descriptors are those of the map. -/
structure Sim (s : Memory) (pgd : ℕ) (m : PageMap) : Prop where
  owns : ∃ T, Owns s pgd T
  absent : ∀ v < 2 ^ 48, m (v / pageSize) = none → entryAt s.mem pgd v &&& descValid = 0
  present : ∀ v < 2 ^ 48, ∀ x, m (v / pageSize) = some x →
    entryAt s.mem pgd v = pageDescriptor x.frame x.flags ∧ pageSize ∣ x.frame ∧ x.frame < 2 ^ 48

theorem frame_or_offset (haligned : pageSize ∣ a) (hlt : a < 2 ^ 48) (hoff : off < pageSize) :
    ((BitVec.ofNat 64 a &&& descAddrMask) ||| BitVec.ofNat 64 off).toNat = a + off := by
  obtain ⟨k, hk⟩ := haligned
  have hshift : a = k <<< 12 := by
    rw [Nat.shiftLeft_eq, hk, pageSize, Nat.mul_comm]
  have hoff : off < 2 ^ 12 := hoff
  rw [BitVec.toNat_or, and_addrMask ⟨k, hk⟩ hlt, BitVec.toNat_ofNat, Nat.mod_eq_of_lt (by omega),
    hshift, Nat.shiftLeft_add_eq_or_of_lt hoff]

theorem Sim.agrees (h : Sim s pgd m) : Agrees s pgd m := by
  obtain ⟨T, howns⟩ := h.owns
  intro v hv
  have hentry : vmmLeafEntry s pgd v = entryAt s.mem pgd v := howns.vmmLeafEntry_eq
  unfold vmmVirtToPhys PageMap.translate
  rw [hentry]
  cases hm : m (v / pageSize) with
  | none =>
    refine ⟨?_, by simp⟩
    simp only [h.absent v hv hm, true_or, if_true]
  | some x =>
    obtain ⟨hx, haligned, hlt⟩ := h.present v hv x hm
    obtain ⟨hvalid, hpage, hmask⟩ := pageDescriptor_spec x.frame x.flags
    refine ⟨?_, fun y hy => ?_⟩
    · simp only [hx, hvalid, hpage, or_self, if_false, hmask]
      exact frame_or_offset haligned hlt (Nat.mod_lt _ (by decide))
    · rw [hx, Option.some.inj hy]

theorem pageOf_of_lt (hv : v < 2 ^ 48) : pageOf v = v / pageSize := by
  simp only [pageOf, pageSize]
  omega

theorem Sim.valid_iff (h : Sim s pgd m) (hv : v < 2 ^ 48) :
    entryAt s.mem pgd v &&& descValid ≠ 0 ↔ m (v / pageSize) ≠ none := by
  cases hm : m (v / pageSize) with
  | none => simp [h.absent v hv hm]
  | some x =>
    rw [(h.present v hv x hm).1]
    exact iff_of_true (pageDescriptor_spec x.frame x.flags).1 (by simp)

theorem Sim.unchanged (h : Sim s pgd m) (howns : ∃ T, Owns s' pgd T)
    (hview : ∀ v, entryAt s'.mem pgd v = entryAt s.mem pgd v) : Sim s' pgd m where
  owns := howns
  absent v hv hm := by rw [hview v]; exact h.absent v hv hm
  present v hv x hm := by rw [hview v]; exact h.present v hv x hm

theorem Sim.update (h : Sim s pgd m) {y : Option Mapping}
    (hv : vaddr < 2 ^ 48) (howns : ∃ T, Owns s' pgd T)
    (hview : ∀ v, entryAt s'.mem pgd v =
      if pageOf v = pageOf vaddr then e else entryAt s.mem pgd v)
    (habsent : y = none → e &&& descValid = 0)
    (hpresent : ∀ x, y = some x → e = pageDescriptor x.frame x.flags ∧ pageSize ∣ x.frame ∧
      x.frame < 2 ^ 48) : Sim s' pgd (update m (vaddr / pageSize) y) := by
  refine ⟨howns, fun w hw hm => ?_, fun w hw x hm => ?_⟩
  all_goals
    rw [hview w, pageOf_of_lt hw, pageOf_of_lt hv]
    by_cases hpage : w / pageSize = vaddr / pageSize
  · rw [hpage, update_self] at hm
    rw [if_pos hpage]
    exact habsent hm
  · rw [update_of_ne hpage] at hm
    rw [if_neg hpage]
    exact h.absent w hw hm
  · rw [hpage, update_self] at hm
    rw [if_pos hpage]
    exact hpresent x hm
  · rw [update_of_ne hpage] at hm
    rw [if_neg hpage]
    exact h.present w hw x hm

theorem Sim.map_step (h : Sim s pgd m) (hop : (PageOp.map vaddr paddr flags).InRange) :
    let result := (PageOp.map vaddr paddr flags).exec pgd s
    m.Allows result.1.isSome (result.2.pmm.freeAddrs = ∅) (.map vaddr paddr flags) ∧
      Sim result.2 pgd (m.step result.1.isSome (.map vaddr paddr flags)) := by
  obtain ⟨T, howns⟩ := h.owns
  obtain ⟨haligned, hv, hp⟩ := hop
  obtain ⟨T', hext, hres⟩ := vmmMapPage_spec howns vaddr paddr flags
  dsimp only [PageOp.exec]
  generalize vmmMapPage pgd vaddr paddr flags s = result at *
  rcases hres with ⟨hsome, -, hframe, habsent, hview⟩ | ⟨hnone, hview, hwhy⟩
  · have hm : m (vaddr / pageSize) = none := by
      by_contra hne
      exact (h.valid_iff hv).2 hne habsent
    simp only [PageMap.Allows, PageMap.step, hsome, Option.isSome_some, if_true]
    refine ⟨hm, h.update hv ⟨T', hext.owns⟩ hview (by simp) fun x hx => ?_⟩
    rw [← Option.some.inj hx]
    exact ⟨rfl, Nat.dvd_of_mod_eq_zero hframe, hp⟩
  · simp only [PageMap.Allows, PageMap.step, hnone, Option.isSome_none, Bool.false_eq_true, if_false]
    refine ⟨?_, h.unchanged ⟨T', hext.owns⟩ hview⟩
    rw [h.valid_iff hv] at hwhy
    simp only [decide_eq_true_eq]
    tauto

theorem Sim.unmap_step (h : Sim s pgd m) (hop : (PageOp.unmap vaddr).InRange) :
    let result := (PageOp.unmap vaddr).exec pgd s
    m.Allows result.1.isSome (result.2.pmm.freeAddrs = ∅) (.unmap vaddr) ∧
      Sim result.2 pgd (m.step result.1.isSome (.unmap vaddr)) := by
  obtain ⟨T, howns⟩ := h.owns
  obtain ⟨haligned, hv⟩ := hop
  obtain ⟨hext, hok, hview⟩ := vmmUnmapPage_spec howns vaddr
  dsimp only [PageOp.exec]
  generalize vmmUnmapPage pgd vaddr s = result at *
  rw [h.valid_iff hv] at hok
  cases hres : result.1 with
  | some _ =>
    have hm := (hok.1 hres).2
    simp only [hres, true_and] at hview
    simp only [PageMap.Allows, PageMap.step, Option.isSome_some, if_true]
    exact ⟨iff_of_true trivial hm, h.update hv ⟨T, hext.owns⟩ hview (by simp) (by simp)⟩
  | none =>
    have hm : ¬ m (vaddr / pageSize) ≠ none := by
      intro hne
      simp [hok.2 ⟨haligned, hne⟩] at hres
    simp only [hres, reduceCtorEq, false_and, if_false] at hview
    simp only [PageMap.Allows, PageMap.step, Option.isSome_none, Bool.false_eq_true, if_false]
    exact ⟨iff_of_false id hm, h.unchanged ⟨T, hext.owns⟩ hview⟩

theorem Sim.refines (h : Sim s pgd m) {ops : List PageOp} (hops : ∀ op ∈ ops, op.InRange) :
    Refines pgd s m ops := by
  induction ops generalizing s m with
  | nil => exact h.agrees
  | cons op ops ih =>
    have hop := hops op (by simp)
    have hstep : m.Allows (op.exec pgd s).1.isSome ((op.exec pgd s).2.pmm.freeAddrs = ∅) op ∧
        Sim (op.exec pgd s).2 pgd (m.step (op.exec pgd s).1.isSome op) := by
      cases op with
      | map vaddr paddr flags => exact h.map_step hop
      | unmap vaddr => exact h.unmap_step hop
    exact ⟨h.agrees, hstep.1, ih hstep.2 fun op' hop' => hops op' (by simp [hop'])⟩

end Refinement

/-- A table from `vmm_new_table` under any sequence of page mappings and unmappings refines a
partial map from pages. -/
theorem vmm_refines_page_map (s : Memory) (hvalid : Valid s.pmm)
    (hlow : ∀ a, s.pmm.Manages a → a < 2 ^ 48) (pgd : ℕ) (hnew : (vmmNewTable s).1 = some pgd)
    (ops : List PageOp) (hops : ∀ op ∈ ops, op.InRange) :
    Refines pgd (vmmNewTable s).2 (fun _ => none) ops := by
  obtain ⟨-, howns, -, hzero, -⟩ := vmmNewTable_owns hvalid hlow hnew
  apply Sim.refines _ hops
  refine ⟨⟨_, howns⟩, fun v _ _ => ?_, by simp⟩
  have hchild (i : Fin 512) : child (vmmNewTable s).2.mem pgd i = none := by simp [child, hzero]
  simp [entryAt, tablePath, hchild]

theorem pmmInit_low {memBase memSize : ℕ} (hlow : memBase + managedPages memSize * pageSize ≤ 2 ^ 48) :
    ∀ a, (pmmInit memBase memSize).Manages a → a < 2 ^ 48 := by
  rintro a ⟨page, hpage, rfl⟩
  obtain ⟨hbase, htotal⟩ := pmmInit_fields memBase memSize
  have hmul : (page + 1) * pageSize ≤ managedPages memSize * pageSize :=
    Nat.mul_le_mul_right _ (htotal ▸ hpage)
  simp only [State.addr, hbase, pageSize] at hmul hlow ⊢
  omega

/-- Eight pages from `0x2000`: two pages are mapped, one of them twice, and one is unmapped. -/
theorem vmm_refines_three_calls :
    let s : Memory := ⟨fun _ _ => 0, pmmInit 0x2000 0x8000⟩
    let ops := [.map 0x400000 0x9000 0, .map 0x400000 0xa000 0, .unmap 0x400000]
    (vmmNewTable s).1 = some 0x2000 ∧ Refines 0x2000 (vmmNewTable s).2 (fun _ => none) ops := by
  intro s ops
  have hnew : (vmmNewTable s).1 = some 0x2000 := by decide +kernel
  have hlow : ∀ a, (pmmInit 0x2000 0x8000).Manages a → a < 2 ^ 48 := pmmInit_low (by decide)
  have hvalid : Valid (pmmInit 0x2000 0x8000) := pmmInit_valid (by decide) (by decide)
  refine ⟨hnew, vmm_refines_page_map s hvalid hlow _ hnew ops ?_⟩
  intro op hop
  simp only [ops, List.mem_cons, List.not_mem_nil, or_false] at hop
  rcases hop with rfl | rfl | rfl <;> simp [PageOp.InRange, pageSize]

inductive TableOp where
  | mapPage (vaddr paddr : ℕ) (flags : BitVec 64)
  | mapRange (vaddr paddr size : ℕ) (flags : BitVec 64)
  | unmapPage (vaddr : ℕ)
  | unmapRange (vaddr size : ℕ)

def TableOp.exec (pgd : ℕ) : TableOp → Run Memory Unit
  | .mapPage vaddr paddr flags => vmmMapPage pgd vaddr paddr flags
  | .mapRange vaddr paddr size flags => vmmMapRange pgd vaddr paddr size flags
  | .unmapPage vaddr => vmmUnmapPage pgd vaddr
  | .unmapRange vaddr size => vmmUnmapRange pgd vaddr size

def runOps (pgd : ℕ) (ops : List TableOp) (s : Memory) : Memory :=
  ops.foldl (fun s op => (op.exec pgd s).2) s

theorem confined_exec (pgd : ℕ) (op : TableOp) : Confined pgd (op.exec pgd) := by
  cases op with
  | mapPage vaddr paddr flags => exact confined_mapPage vaddr paddr flags
  | mapRange vaddr paddr size flags => exact confined_mapRange vaddr paddr size flags
  | unmapPage vaddr => exact confined_unmapPage vaddr
  | unmapRange vaddr size => exact confined_unmapRange vaddr size

theorem runOps_extends {s : Memory} {pgd : ℕ} {T : Finset ℕ} (h : Owns s pgd T)
    (ops : List TableOp) : ∃ T', Extends s (runOps pgd ops s) pgd T T' := by
  induction ops generalizing s T with
  | nil => exact ⟨T, .refl h⟩
  | cons op ops ih =>
    obtain ⟨T', hext⟩ := confined_exec pgd op s T h
    obtain ⟨T'', hext'⟩ := ih hext.owns
    exact ⟨T'', hext.trans hext'⟩

/-- With the managed memory below `2 ^ 48`, freeing the tables of a root gives back, each once,
exactly the pages taken since before `vmm_new_table`, whatever calls succeeded or failed; a mapped
frame that its owner holds is not among them. -/
theorem vmm_free_table_returns_tables (s : Memory) (hvalid : Valid s.pmm)
    (hlow : ∀ a, s.pmm.Manages a → a < 2 ^ 48) (pgd : ℕ) (hnew : (vmmNewTable s).1 = some pgd)
    (ops : List TableOp) :
    let t := runOps pgd ops (vmmNewTable s).2
    let freed := freeOrder t.mem 3 pgd
    vmmFreeTable pgd t = t.freeAll freed ∧ freed.Nodup ∧
      (∀ a, a ∈ freed ↔ a ∈ s.pmm.freeAddrs ∧ a ∉ t.pmm.freeAddrs) ∧
      (∀ v, addrOf (vmmLeafEntry t pgd v) ∉ s.pmm.freeAddrs →
        addrOf (vmmLeafEntry t pgd v) ∉ freed) ∧
      (vmmFreeTable pgd t).pmm.freeAddrs = s.pmm.freeAddrs := by
  intro t freed
  obtain ⟨hpgd, howns, -, -, hsame, hfree⟩ := vmmNewTable_owns hvalid hlow hnew
  obtain ⟨T, hext⟩ := runOps_extends howns ops
  obtain ⟨heq, hnodup, hmem⟩ := hext.owns.vmmFreeTable_eq
  -- the tables are the pages that were free and no longer are
  have hT (a : ℕ) : a ∈ T ↔ a ∈ s.pmm.freeAddrs ∧ a ∉ t.pmm.freeAddrs := by
    rw [show t.pmm.freeAddrs = _ from hext.free, hfree]
    constructor
    · intro ha
      refine ⟨?_, fun hcon => (mem_sdiff.1 hcon).2 ha⟩
      by_cases hroot : a = pgd
      · exact hroot ▸ hpgd
      · have hfresh := hext.fresh a ha (by simpa using hroot)
        rw [hfree] at hfresh
        exact mem_of_mem_erase hfresh
    · rintro ⟨ha, hnot⟩
      by_cases hroot : a = pgd
      · exact hext.subset (by simp [hroot])
      · by_contra hcon
        exact hnot (mem_sdiff.2 ⟨mem_erase.2 ⟨hroot, ha⟩, hcon⟩)
  have hfreed (a : ℕ) : a ∈ freed ↔ a ∈ s.pmm.freeAddrs ∧ a ∉ t.pmm.freeAddrs := by
    rw [hmem a, hT a]
  refine ⟨heq, hnodup, hfreed, fun v hv hcon => hv ((hfreed _).1 hcon).1, ?_⟩
  have hpages : ∀ a ∈ freed, t.pmm.Manages a ∧ a ≠ 0 := by
    intro a ha
    obtain ⟨hm, hne, -⟩ := hext.owns.pages a ((hmem a).1 ha)
    exact ⟨hm, hne⟩
  obtain ⟨-, -, hfinal⟩ := hext.owns.valid.foldl_pmmFreePage freed hpages
  rw [show vmmFreeTable pgd t = _ from heq, freeAll_pmm, hfinal]
  ext a
  rw [mem_union, List.mem_toFinset, hfreed]
  constructor
  · rintro (ha | ha)
    · rw [show t.pmm.freeAddrs = _ from hext.free, hfree] at ha
      exact mem_of_mem_erase (mem_sdiff.1 ha).1
    · exact ha.1
  · intro ha
    by_cases hcon : a ∈ t.pmm.freeAddrs
    · exact .inl hcon
    · exact .inr ⟨ha, hcon⟩

/-- Three pages are too few for a root and three levels: the mapping fails part-way and its two
tables are freed with the root. -/
theorem vmm_free_table_after_failure :
    let s : Memory := ⟨fun _ _ => 0, pmmInit 0x2000 0x3000⟩
    let t := runOps 0x2000 [.mapPage 0x400000 0x9000 0] (vmmNewTable s).2
    t.pmm.freeAddrs = ∅ ∧ (vmmFreeTable 0x2000 t).pmm.freeAddrs = s.pmm.freeAddrs := by
  intro s t
  have hnew : (vmmNewTable s).1 = some 0x2000 := by decide +kernel
  have hvalid : Valid (pmmInit 0x2000 0x3000) := pmmInit_valid (by decide) (by decide)
  have hlow : ∀ a, (pmmInit 0x2000 0x3000).Manages a → a < 2 ^ 48 := pmmInit_low (by decide)
  have h := vmm_free_table_returns_tables s hvalid hlow _ hnew [.mapPage 0x400000 0x9000 0]
  exact ⟨by decide +kernel, h.2.2.2.2⟩

/-- The memory with a root at `2 ^ 48` and one page mapped below it. -/
def highMemory : Memory :=
  runOps (2 ^ 48) [.mapPage 0 0 0] (vmmNewTable ⟨fun _ _ => 0, pmmInit (2 ^ 48) 0x4000⟩).2

set_option maxRecDepth 4000

/-- A table at `2 ^ 48` or above does not fit a descriptor: the truncated address is followed
instead, and the first child of the root is not given back. -/
theorem high_table_is_lost :
    let s : Memory := ⟨fun _ _ => 0, pmmInit (2 ^ 48) 0x4000⟩
    (vmmNewTable s).1 = some (2 ^ 48) ∧ 2 ^ 48 + 0x1000 ∈ s.pmm.freeAddrs ∧
      2 ^ 48 + 0x1000 ∉ (vmmFreeTable (2 ^ 48) highMemory).pmm.freeAddrs := by
  intro s
  exact ⟨by decide +kernel, by decide +kernel, by decide +kernel⟩

end Vmm
