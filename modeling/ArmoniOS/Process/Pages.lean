import ArmoniOS.Mm.Spaces
import ArmoniOS.Process.Regions

/-! Who holds which physical page. Every page taken for a user region is recorded in exactly one
region, or held by the call in progress, or has been given back; `mmap`, `munmap` and
`process_release` move pages between the three. -/
namespace Process
open Exec Pmm Vmm Function List

def Kernel.roots (k : Kernel) : Fin 16 → ℕ := fun i => (k.procs i).pageTable

/-- How often the page is recorded as owned, over all regions of all processes. -/
def Kernel.owners (k : Kernel) (a : ℕ) : ℕ := ∑ i, (k.procs i).ownedPages.count a

/-- The pages that are recorded in a region or held by the call in progress. -/
def Kernel.inUse (k : Kernel) (held : List ℕ) : Set ℕ := {a | k.owners a ≠ 0 ∨ a ∈ held}

/-- The pages `held` are taken and neither recorded nor given back yet. -/
structure PagesOk (k : Kernel) (held : List ℕ) : Prop where
  spaces : ∃ T, Spaces k.mm k.roots T (k.inUse held)
  single : ∀ a, k.owners a + held.count a ≤ 1
  balance : ∀ a, k.taken.count a = k.returned.count a + (k.owners a + held.count a)

section Updates
variable {k : Kernel} {i : Fin 16} {p : Pcb} {held : List ℕ} {a : ℕ}

@[simp] theorem put_procs_self : (k.put i p).procs i = p := by simp [Kernel.put]

theorem put_field {α : Type} (f : Pcb → α) (h : f p = f (k.procs i)) (j : Fin 16) :
    f ((k.put i p).procs j) = f (k.procs j) := by
  unfold Kernel.put
  rw [apply_update (fun _ => f), h, update_eq_self]

theorem put_procs_of_ne {j : Fin 16} (h : j ≠ i) : (k.put i p).procs j = k.procs j := by
  simp [Kernel.put, h]

theorem mem_inUse : a ∈ k.inUse held ↔ k.owners a ≠ 0 ∨ a ∈ held := Iff.rfl

theorem mem_inUse_iff_count : a ∈ k.inUse held ↔ k.owners a + held.count a ≠ 0 := by
  rw [mem_inUse, ← count_pos_iff]
  omega

theorem roots_put : (k.put i p).roots = update k.roots i p.pageTable := by
  funext j
  exact apply_update (fun _ => Pcb.pageTable) k.procs i p j

theorem owners_put : (k.put i p).owners a + (k.procs i).ownedPages.count a =
    k.owners a + p.ownedPages.count a := by
  have hrest : ∑ j ∈ Finset.univ.erase i, ((k.put i p).procs j).ownedPages.count a =
      ∑ j ∈ Finset.univ.erase i, (k.procs j).ownedPages.count a := by
    apply Finset.sum_congr rfl
    intro j hj
    rw [put_procs_of_ne (Finset.ne_of_mem_erase hj)]
  have hnew := Finset.add_sum_erase Finset.univ
    (fun j => ((k.put i p).procs j).ownedPages.count a) (Finset.mem_univ i)
  have hold := Finset.add_sum_erase Finset.univ
    (fun j => (k.procs j).ownedPages.count a) (Finset.mem_univ i)
  simp only [put_procs_self, hrest] at hnew hold
  unfold Kernel.owners
  omega

theorem owners_congr {k' : Kernel} (h : ∀ j, (k'.procs j).ownedPages = (k.procs j).ownedPages) :
    k'.owners = k.owners := by
  funext a
  simp only [Kernel.owners, h]

end Updates

section Rules
variable {k k' : Kernel} {i : Fin 16} {p : Pcb} {held held' pages : List ℕ}

theorem PagesOk.transfer (h : PagesOk k held) (hroots : k'.roots = k.roots) (hmm : k'.mm = k.mm)
    (htaken : k'.taken = k.taken) (hreturned : k'.returned = k.returned)
    (hholders : ∀ a, k'.owners a + held'.count a = k.owners a + held.count a) :
    PagesOk k' held' where
  spaces := by
    obtain ⟨T, hspaces⟩ := h.spaces
    rw [hroots, hmm]
    refine ⟨T, hspaces.mono fun a ha => ?_⟩
    rw [mem_inUse_iff_count, hholders] at ha
    exact mem_inUse_iff_count.2 ha
  single a := by
    rw [hholders]
    exact h.single a
  balance a := by
    rw [hholders, htaken, hreturned]
    exact h.balance a

theorem PagesOk.put (h : PagesOk k held) (htable : p.pageTable = (k.procs i).pageTable)
    (hpages : ∀ a, p.ownedPages.count a + held'.count a =
      (k.procs i).ownedPages.count a + held.count a) : PagesOk (k.put i p) held' := by
  have hroots : (k.put i p).roots = k.roots := by
    rw [roots_put, htable]
    exact update_eq_self i k.roots
  apply h.transfer hroots rfl rfl rfl
  intro a
  have howners := owners_put (k := k) (i := i) (p := p) (a := a)
  have hmoved := hpages a
  omega

theorem PagesOk.put_same (h : PagesOk k held) (htable : p.pageTable = (k.procs i).pageTable)
    (hpages : p.ownedPages = (k.procs i).ownedPages) : PagesOk (k.put i p) held :=
  h.put htable fun a => by rw [hpages]

theorem PagesOk.freePages (h : PagesOk k pages) : PagesOk (k.freePages pages) [] := by
  obtain ⟨T, hspaces⟩ := h.spaces
  have howners : (k.freePages pages).owners = k.owners := owners_congr fun _ => rfl
  have hmem : ∀ a ∈ pages, a ∈ k.inUse pages := fun a ha => .inr ha
  refine ⟨⟨T, (hspaces.give hmem).mono fun a ha => ?_⟩, fun a => ?_, fun a => ?_⟩
  · have hpos : k.owners a ≠ 0 := ha.resolve_right (by simp)
    refine ⟨.inl hpos, fun hcon => ?_⟩
    have hheld := count_pos_iff.2 hcon
    have hsingle := h.single a
    omega
  · have hsingle := h.single a
    rw [howners, count_nil]
    omega
  · have hbalance := h.balance a
    rw [howners, count_nil]
    simp only [Kernel.freePages, count_append]
    omega

theorem PagesOk.confined (h : PagesOk k held) {α : Type} {m : Run Memory α}
    (htable : (k.procs i).pageTable ≠ 0) (hm : Confined (k.procs i).pageTable m) :
    PagesOk { k with mm := (m k.mm).2 } held where
  spaces := by
    obtain ⟨T, hspaces⟩ := h.spaces
    exact hspaces.confined htable hm
  single := h.single
  balance := h.balance

theorem zeroPages_mem {mm : Memory} {a : ℕ} (ha : a ∉ pages) :
    (zeroPages mm pages).mem a = mm.mem a := by
  suffices hfold : ∀ mem : ℕ → Fin 512 → BitVec 64,
      pages.foldl (fun mem page => update mem page fun _ => 0) mem a = mem a from
    hfold mm.mem
  induction pages with
  | nil => exact fun _ => rfl
  | cons page pages ih =>
    intro mem
    simp only [mem_cons, not_or] at ha
    rw [foldl_cons, ih ha.2, update_of_ne ha.1]

theorem spaces_alloc {ι : Type} {s : Memory} {root : ι → ℕ} {T : ι → Finset ℕ} {F : Set ℕ}
    (h : Spaces s root T F) {size : ℕ} (haligned : pageSize ∣ size) :
    let result := pmmAllocPages s.pmm (size / pageSize)
    let pages := pagesFrom result.1 size
    (result.1 ≠ 0 ∧ (∀ a ∈ pages, a ∈ s.pmm.freeAddrs) ∧
      Spaces (zeroPages { s with pmm := result.2 } pages) root T (F ∪ {a | a ∈ pages})) ∨
    result = (0, s.pmm) := by
  rcases h.valid.pmmAllocPages_spec (size / pageSize) with
    ⟨hne, hvalid, hsame, hfresh, hfree⟩ | hfull
  · rw [← pagesFrom_of_aligned haligned] at hfresh hfree
    left
    refine ⟨hne, hfresh, ?_⟩
    apply h.take hfresh
    · exact hvalid
    · exact hsame
    · exact hfree
    · exact fun a ha => zeroPages_mem ha
  · exact .inr hfull

theorem PagesOk.take (h : PagesOk k []) (hprocs : k'.procs = k.procs)
    (htaken : k'.taken = k.taken ++ pages) (hreturned : k'.returned = k.returned)
    (hnodup : pages.Nodup) (hfresh : ∀ a ∈ pages, a ∈ k.mm.pmm.freeAddrs)
    (hspaces : ∃ T, Spaces k'.mm k.roots T (k.inUse [] ∪ {a | a ∈ pages})) :
    PagesOk k' pages := by
  have hroots : k'.roots = k.roots := by
    unfold Kernel.roots
    rw [hprocs]
  have howners : k'.owners = k.owners := owners_congr fun j => by rw [hprocs]
  obtain ⟨T, hold⟩ := h.spaces
  -- the new pages were free, so no region records them
  have hnot (a : ℕ) (ha : a ∈ pages) : k.owners a = 0 := by
    by_contra hpos
    exact (hold.used a (.inl hpos)).2.2.1 (hfresh a ha)
  refine ⟨?_, fun a => ?_, fun a => ?_⟩
  · obtain ⟨T', hnew⟩ := hspaces
    rw [hroots]
    refine ⟨T', hnew.mono fun a ha => ?_⟩
    rw [mem_inUse, howners] at ha
    exact ha.imp_left .inl
  · rw [howners]
    by_cases ha : a ∈ pages
    · rw [hnot a ha, count_eq_one_of_mem hnodup ha]
    · rw [count_eq_zero.2 ha]
      simpa using h.single a
  · have hbalance := h.balance a
    rw [count_nil] at hbalance
    rw [howners, htaken, hreturned, count_append]
    omega

end Rules

end Process
