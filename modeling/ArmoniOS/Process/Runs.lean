import ArmoniOS.Mm.VmmRuns
import ArmoniOS.Process.Slots

/-! Runs of the process table: whatever processes are created, map and unmap memory, exit, are
killed, waited for, reclaimed or released, slots and regions stay well formed and every page taken
for a region is given back exactly once. -/
namespace Process
open Exec Pmm Vmm Function List

/-- `vmm_new_table` and `process_set_page_table`, as the loader calls them. -/
def attachTable (k : Kernel) (i : Fin 16) : Kernel :=
  match vmmNewTable k.mm with
  | (some pgd, mm) => { k with mm := mm }.put i { k.procs i with pageTable := pgd }
  | (none, mm) => { k with mm := mm }

/-- The steps of a run. The first six are what the loader does to a process it has allocated:
links, states, the page table and calls on it. -/
inductive Op where
  | setParent (i : Fin 16) (pid : ℕ)
  | setEntry (i : Fin 16) (context : Frame)
  | setState (i : Fin 16) (state : ProcessState)
  | setCurrent (i : Fin 16)
  | attachTable (i : Fin 16)
  | tableCall (i : Fin 16) (call : TableOp)
  | alloc (pid : ℕ)
  | addRegion (i : Fin 16) (start size : BitVec 64)
  | mmap (i : Fin 16) (hint size : BitVec 64) (flags : BitVec 64)
  | munmap (i : Fin 16) (addr size : BitVec 64)
  | dispatch (policy : DispatchPolicy)
  | exit (code : BitVec 64)
  | kill (pid : ℕ) (code : BitVec 64)
  | wait (pid : ℕ)
  | reclaim
  | release (i : Fin 16)

def Kernel.step (k : Kernel) : Op → Kernel
  | .setParent i pid => k.put i { k.procs i with parentPid := pid }
  | .setEntry i context => k.put i (processSaveContext (k.procs i) context)
  | .setState i state => k.put i { k.procs i with state := state }
  | .setCurrent i => { k with current := some i }
  | .attachTable i => Process.attachTable k i
  | .tableCall i call => { k with mm := (call.exec (k.procs i).pageTable k.mm).2 }
  | .alloc pid => (processAlloc k pid).2
  | .addRegion i start size =>
      k.put i ((processAddUserRegion (k.procs i) start.toNat size.toNat).getD (k.procs i))
  | .mmap i hint size flags => (userVmMapAnonymous k i hint.toNat size.toNat flags).2
  | .munmap i addr size => (userVmUnmapAnonymous k i addr.toNat size.toNat).2
  | .dispatch policy => ((processDispatchNext k k.current policy).map Prod.snd).getD k
  | .exit code =>
      match k.current with
      | some i => processMarkExited k i code
      | none => k
  | .kill pid code => (processKill k pid code).2
  | .wait pid => (processWaitZombie k pid).2
  | .reclaim => processReclaimZombies k
  | .release i => processRelease k i

/-- The loader works on processes it has allocated, and gives each one page table. -/
def Kernel.Allows (k : Kernel) : Op → Prop
  | .setState i state => i ∈ k.live ∧ state ≠ .unused
  | .setCurrent i => i ∈ k.live
  | .attachTable i => i ∈ k.live ∧ (k.procs i).pageTable = 0
  | _ => True

def Kernel.Legal : Kernel → List Op → Prop
  | _, [] => True
  | k, op :: ops => k.Allows op ∧ (k.step op).Legal ops

def Kernel.run (k : Kernel) (ops : List Op) : Kernel := ops.foldl Kernel.step k

structure Inv (k : Kernel) : Prop where
  slots : SlotsOk k
  regions : ∀ i, RegionsOk (k.procs i).userRegions
  pages : PagesOk k []

section Steps
variable {k k' : Kernel} {i : Fin 16}

theorem regionsOk_nil : RegionsOk [] := ⟨by simp, by simp, List.Pairwise.nil⟩

section
variable (h : Inv k)
include h

theorem Inv.same (hsame : SameResources k k') (hcurrent : ∀ i, k'.current = some i → i ∈ k.live) :
    Inv k' where
  slots := h.slots.same hsame hcurrent
  regions i := by
    rw [hsame.regions]
    exact h.regions i
  pages := h.pages.same hsame

theorem Inv.markExited (hi : i ∈ k.live) (code : BitVec 64) : Inv (processMarkExited k i code) := by
  unfold processMarkExited
  split
  · exact h
  · exact h.same (sameResources_put rfl (by simpa using hi) rfl rfl) h.slots.current

theorem Inv.alloc (pid : ℕ) : Inv (processAlloc k pid).2 where
  slots := h.slots.alloc pid
  regions := by
    rcases processAlloc_cases k pid with heq | ⟨i, -, -, -, heq⟩
    · rw [heq]
      exact h.regions
    · rw [heq]
      refine (forall_update_iff k.procs fun _ p => RegionsOk p.userRegions).2 ⟨regionsOk_nil, ?_⟩
      exact fun j _ => h.regions j
  pages := h.pages.alloc h.slots pid

theorem Inv.release (i : Fin 16) : Inv (processRelease k i) where
  slots := h.slots.release i
  regions := by
    rcases processRelease_cases k i with ⟨-, heq⟩ | ⟨hprocs, -, -⟩
    · rw [heq]
      exact h.regions
    · rw [hprocs, forall_update_iff k.procs fun _ p => RegionsOk p.userRegions]
      exact ⟨regionsOk_nil, fun j _ => h.regions j⟩
  pages := h.pages.release

theorem Inv.onlyRegions (hshape : OnlyRegions k k' i) (hpages : PagesOk k' [])
    (hidle : i ∈ k.live ∨ (k'.procs i).ownedPages = (k.procs i).ownedPages) : Inv k' := by
  obtain ⟨regions, next, hprocs, hregions⟩ := hshape.procs
  have hslot {α : Type} (f : Pcb → α)
      (hf : f { k.procs i with userRegions := regions, nextUserVaddr := next } = f (k.procs i))
      (j : Fin 16) : f (k'.procs j) = f (k.procs j) := by
    rw [hprocs]
    exact put_field f hf j
  refine ⟨?_, ?_, hpages⟩
  · apply h.slots.congr (hslot Pcb.pid rfl) (live_congr (hslot Pcb.state rfl)) hshape.count
    · rw [hshape.current]
      exact h.slots.current
    · intro j hj
      refine ⟨hslot Pcb.pageTable rfl j, ?_⟩
      by_cases hji : j = i
      · rw [hji] at hj ⊢
        exact hidle.resolve_left hj
      · rw [hprocs, update_of_ne hji]
  · rw [hprocs, forall_update_iff k.procs fun _ p => RegionsOk p.userRegions]
    exact ⟨hregions (h.regions i), fun j _ => h.regions j⟩

theorem Inv.live_of_table (htable : (k.procs i).pageTable ≠ 0) : i ∈ k.live := by
  by_contra hi
  exact htable (h.slots.idle i hi).1

theorem Inv.mapAnonymous (i : Fin 16) (hint size : ℕ) (flags : BitVec 64) :
    Inv (userVmMapAnonymous k i hint size flags).2 := by
  by_cases htable : (k.procs i).pageTable = 0
  · unfold userVmMapAnonymous
    rw [if_pos (.inl htable)]
    exact h
  · apply h.onlyRegions (userVmMapAnonymous_shape k i hint size flags)
    · exact h.pages.mapAnonymous hint size flags
    · exact .inl (h.live_of_table htable)

theorem Inv.unmapAnonymous (i : Fin 16) (addr size : ℕ) :
    Inv (userVmUnmapAnonymous k i addr size).2 := by
  by_cases htable : (k.procs i).pageTable = 0
  · unfold userVmUnmapAnonymous
    rw [if_pos (.inl htable)]
    exact h
  · apply h.onlyRegions (userVmUnmapAnonymous_shape k i addr size)
    · exact h.pages.unmapAnonymous addr size
    · exact .inl (h.live_of_table htable)

theorem Inv.addRegion (i : Fin 16) {start size : ℕ} (hsize : size < 2 ^ 64) :
    Inv (k.put i ((processAddUserRegion (k.procs i) start size).getD (k.procs i))) := by
  cases hadd : processAddUserRegion (k.procs i) start size with
  | none =>
    rw [Option.getD_none]
    have hself : k.put i (k.procs i) = k := by simp [Kernel.put]
    rw [hself]
    exact h
  | some p =>
    obtain ⟨rfl, hroom, hpos, hwrap, hclear⟩ := processAddUserRegion_eq_some hadd
    have hpages : Pcb.ownedPages { k.procs i with
        userRegions := (k.procs i).userRegions ++ [⟨start, start + size, 0, 0⟩] } =
        (k.procs i).ownedPages := flatMap_append_new _ _ _
    apply h.onlyRegions
    · refine ⟨rfl, rfl, _, (k.procs i).nextUserVaddr, rfl, fun hold => ?_⟩
      exact hold.append hroom ⟨Nat.lt_add_of_pos_right hpos, hwrap hsize⟩ hclear
    · apply h.pages.put_same
      · rfl
      · exact hpages
    · right
      rw [put_procs_self]
      exact hpages

theorem Inv.attachTable (hi : i ∈ k.live) : Inv (Process.attachTable k i) := by
  obtain ⟨T, hspaces⟩ := h.pages.spaces
  unfold Process.attachTable
  split
  next pgd mm hnew =>
    have hpages := h.pages.newTable (i := i) (congrArg Prod.fst hnew)
    rw [show (vmmNewTable k.mm).2 = mm from congrArg Prod.snd hnew] at hpages
    refine ⟨h.slots.congr (put_field Pcb.pid rfl) (live_congr (put_field Pcb.state rfl)) rfl
      h.slots.current fun j hj => ?_, ?_, hpages⟩
    · have hne : j ≠ i := fun heq => hj (heq ▸ hi)
      rw [put_procs_of_ne hne]
      exact ⟨rfl, rfl⟩
    · refine (forall_update_iff k.procs fun _ p => RegionsOk p.userRegions).2 ⟨h.regions i, ?_⟩
      exact fun j _ => h.regions j
  next mm hfull =>
    have hmm : mm = k.mm := by
      rcases hspaces.valid.pmmAllocPage_spec with ⟨hc, -⟩ | ⟨-, hempty⟩
      · rw [vmmNewTable_of_page (hspaces.valid.ne_zero_of_mem hc)] at hfull
        simp at hfull
      · rw [vmmNewTable_of_full hempty] at hfull
        exact (congrArg Prod.snd hfull).symm
    rw [hmm]
    exact h

end

theorem exec_null (call : TableOp) (mm : Memory) : (call.exec 0 mm).2 = mm := by
  cases call <;>
    simp [TableOp.exec, vmmMapPage, vmmMapRange, vmmUnmapPage, vmmUnmapRange, bind_apply]

theorem Inv.tableCall (h : Inv k) (i : Fin 16) (call : TableOp) :
    Inv { k with mm := (call.exec (k.procs i).pageTable k.mm).2 } := by
  by_cases htable : (k.procs i).pageTable = 0
  · rw [htable, exec_null]
    exact h
  · exact ⟨⟨h.slots.pid_ne, h.slots.pid_inj, h.slots.count, h.slots.current, h.slots.idle⟩,
      h.regions, h.pages.confined htable (confined_exec _ call)⟩

theorem Inv.reclaim (h : Inv k) : Inv (processReclaimZombies k) := by
  unfold processReclaimZombies
  generalize finRange 16 = slots
  induction slots generalizing k with
  | nil => exact h
  | cons i slots ih =>
    apply ih
    unfold reclaimSlot
    split
    · exact h
    · exact h.release i

theorem Inv.step (h : Inv k) {op : Op} (hop : k.Allows op) : Inv (k.step op) := by
  cases op with
  | setParent i pid => exact h.same (sameResources_put rfl Iff.rfl rfl rfl) h.slots.current
  | setEntry i context => exact h.same (sameResources_put rfl Iff.rfl rfl rfl) h.slots.current
  | setState i state =>
    have hlive := iff_of_false hop.2 (mem_live.1 hop.1)
    exact h.same (sameResources_put rfl hlive rfl rfl) h.slots.current
  | setCurrent i =>
    have hsame : SameResources k { k with current := some i } :=
      ⟨fun _ => rfl, rfl, fun _ => rfl, fun _ => rfl, rfl, rfl, rfl, rfl⟩
    apply h.same hsame
    intro j hj
    rw [← Option.some.inj hj]
    exact hop
  | attachTable i => exact h.attachTable hop.1
  | tableCall i call => exact h.tableCall i call
  | alloc pid => exact h.alloc pid
  | addRegion i start size => exact h.addRegion i size.isLt
  | mmap i hint size flags => exact h.mapAnonymous i _ _ flags
  | munmap i addr size => exact h.unmapAnonymous i _ _
  | dispatch policy =>
    unfold Kernel.step
    dsimp only
    cases hnext : processDispatchNext k k.current policy with
    | none => exact h
    | some result =>
      obtain ⟨hsame, hcurrent⟩ := sameResources_dispatch hnext
      exact h.same hsame hcurrent
  | exit code =>
    unfold Kernel.step
    dsimp only
    split
    next i hi => exact h.markExited (h.slots.current i hi) code
    · exact h
  | kill pid code =>
    unfold Kernel.step processKill
    dsimp only
    split
    · exact h
    next i hfind =>
      split
      · exact h
      · exact h.markExited (processFind_eq_some hfind).1 code
  | wait pid =>
    unfold Kernel.step processWaitZombie
    dsimp only
    split
    · exact h
    · split
      · exact h
      · exact h.release _
  | reclaim => exact h.reclaim
  | release i => exact h.release i

theorem Inv.run (h : Inv k) {ops : List Op} (hlegal : k.Legal ops) : Inv (k.run ops) := by
  induction ops generalizing k with
  | nil => exact h
  | cons op ops ih => exact ih (h.step hlegal.1) hlegal.2

end Steps

section Boot
variable {k : Kernel}

theorem owners_init (mm : Memory) (a : ℕ) : (processTableInit mm).owners a = 0 := by
  simp [Kernel.owners, processTableInit, unusedSlot, processInit, Pcb.ownedPages]

theorem inv_init {mm : Memory} (hvalid : Valid mm.pmm) (hlow : ∀ a, mm.pmm.Manages a → a < 2 ^ 48) :
    Inv (processTableInit mm) := by
  have hlive : (processTableInit mm).live = ∅ := by
    ext i
    simp [processTableInit, unusedSlot]
  have hspaces : Spaces mm (processTableInit mm).roots (fun _ => ∅)
      ((processTableInit mm).inUse []) := by
    refine ⟨hvalid, hlow, fun _ _ => rfl, fun i hi => absurd rfl hi, by simp, fun a ha => ?_⟩
    simp [mem_inUse, owners_init] at ha
  refine ⟨⟨?_, ?_, ?_, ?_, fun i _ => ⟨rfl, rfl⟩⟩, fun i => regionsOk_nil, ⟨_, hspaces⟩, ?_, ?_⟩
  · simp [hlive]
  · simp [hlive]
  · rfl
  · simp [processTableInit]
  · simp [owners_init]
  · intro a
    rw [owners_init]
    rfl

theorem count_le_owners (k : Kernel) (i : Fin 16) (a : ℕ) :
    (k.procs i).ownedPages.count a ≤ k.owners a :=
  Finset.single_le_sum (f := fun j => (k.procs j).ownedPages.count a) (fun _ _ => Nat.zero_le _)
    (Finset.mem_univ i)

theorem PagesOk.unique_owner (h : PagesOk k []) {a : ℕ} {i j : Fin 16} {r r' : Region}
    (hr : r ∈ (k.procs i).userRegions) (hr' : r' ∈ (k.procs j).userRegions)
    (ha : a ∈ r.ownedPages) (ha' : a ∈ r'.ownedPages) : i = j ∧ r = r' := by
  have hsingle (b : ℕ) : k.owners b ≤ 1 := by simpa using h.single b
  have hi : 0 < (k.procs i).ownedPages.count a := count_pos_iff.2 (mem_flatMap.2 ⟨r, hr, ha⟩)
  have hj : 0 < (k.procs j).ownedPages.count a := count_pos_iff.2 (mem_flatMap.2 ⟨r', hr', ha'⟩)
  have hij : i = j := by
    by_contra hne
    have hpair := Finset.add_le_sum (f := fun l => (k.procs l).ownedPages.count a)
      (fun _ _ => Nat.zero_le _) (Finset.mem_univ i) (Finset.mem_univ j) hne
    have hle := hsingle a
    unfold Kernel.owners at hle
    omega
  subst hij
  refine ⟨rfl, ?_⟩
  by_contra hne
  have hnodup : (k.procs i).ownedPages.Nodup := by
    rw [nodup_iff_count_le_one]
    exact fun b => (count_le_owners k i b).trans (hsingle b)
  have hsymm : Std.Symm (onFun List.Disjoint Region.ownedPages) := ⟨fun _ _ hdisj => hdisj.symm⟩
  have hdisj := (nodup_flatMap.1 hnodup).2.forall hr hr' hne
  exact hdisj ha ha'

end Boot

/-- Over every run from `process_table_init`: live pids are non-zero and distinct, the counter
counts the used slots, regions are at most eight, non-empty, disjoint and below `2 ^ 64`, an owned
page is in use and recorded in one region of one process only, and every page has been given back
as often as it was taken, once less while a region records it. -/
theorem process_runs_sound (mm : Memory) (hvalid : Valid mm.pmm)
    (hlow : ∀ a, mm.pmm.Manages a → a < 2 ^ 48) (ops : List Op)
    (hlegal : (processTableInit mm).Legal ops) :
    let k := (processTableInit mm).run ops
    (∀ i ∈ k.live, (k.procs i).pid ≠ 0) ∧
    (∀ i ∈ k.live, ∀ j ∈ k.live, (k.procs i).pid = (k.procs j).pid → i = j) ∧
    k.count = k.live.card ∧
    (∀ i, RegionsOk (k.procs i).userRegions) ∧
    (∀ a i j, ∀ r ∈ (k.procs i).userRegions, ∀ r' ∈ (k.procs j).userRegions,
      a ∈ r.ownedPages → a ∈ r'.ownedPages → i = j ∧ r = r') ∧
    (∀ a i, a ∈ (k.procs i).ownedPages → a ∉ k.mm.pmm.freeAddrs) ∧
    ∀ a, k.taken.count a = k.returned.count a + k.owners a ∧ k.owners a ≤ 1 := by
  intro k
  have h : Inv k := (inv_init hvalid hlow).run hlegal
  clear_value k
  refine ⟨h.slots.pid_ne, h.slots.pid_inj, h.slots.count, h.regions, ?_, ?_, fun a => ?_⟩
  · intro a i j r hr r' hr'
    exact h.pages.unique_owner hr hr'
  · intro a i ha
    obtain ⟨T, hspaces⟩ := h.pages.spaces
    have hpos := count_pos_iff.2 ha
    have hle := count_le_owners k i a
    exact (hspaces.used a (.inl (by omega))).2.2.1
  · have hbalance := h.pages.balance a
    have hsingle := h.pages.single a
    simp only [count_nil, Nat.add_zero] at hbalance hsingle
    exact ⟨hbalance, hsingle⟩

/-- Zeroed memory under `pmm_init`. -/
def bootMemory (memBase memSize : ℕ) : Memory := ⟨fun _ _ => 0, pmmInit memBase memSize⟩

theorem bootMemory_ok {memBase memSize : ℕ} (haligned : pageSize ∣ memBase)
    (hlow : memBase + memSize ≤ 2 ^ 48) : Valid (bootMemory memBase memSize).pmm ∧
      ∀ a, (bootMemory memBase memSize).pmm.Manages a → a < 2 ^ 48 := by
  refine ⟨pmmInit_valid haligned (by omega), pmmInit_low ?_⟩
  have hpages : managedPages memSize * pageSize ≤ memSize := by
    unfold managedPages pageSize
    dsimp only
    split <;> omega
  omega

/-- A process maps two pages, is killed by another one and reclaimed. -/
theorem process_runs_killed_process :
    let start := processTableInit (bootMemory 0x2000 0x8000)
    let ops := [.alloc 7, .attachTable 0, .mmap 0 0 8192 0, .alloc 8, .kill 7 0x80, .reclaim]
    start.Legal ops ∧ (start.run ops).count = 1 ∧ (start.run ops).taken = [0x3000, 0x4000] ∧
      ∀ a ∈ (start.run ops).taken, (start.run ops).returned.count a = 1 := by
  intro start ops
  have hboot := @bootMemory_ok 0x2000 0x8000 (by decide) (by omega)
  have hlegal : start.Legal ops := by
    refine ⟨trivial, ⟨?_, ?_⟩, trivial, trivial, trivial, trivial, trivial⟩ <;> decide +kernel
  have h := process_runs_sound (bootMemory 0x2000 0x8000) hboot.1 hboot.2 ops hlegal
  have hbalance (a : ℕ) : (start.run ops).taken.count a =
      (start.run ops).returned.count a + (start.run ops).owners a := (h.2.2.2.2.2.2 a).1
  have hcount : (start.run ops).count = 1 := by decide +kernel
  have htaken : (start.run ops).taken = [0x3000, 0x4000] := by decide +kernel
  have howners : ∀ a ∈ [0x3000, 0x4000], (start.run ops).owners a = 0 := by decide +kernel
  refine ⟨hlegal, hcount, htaken, ?_⟩
  clear h hcount
  generalize start.run ops = k at *
  intro a ha
  have hreturned := hbalance a
  rw [htaken] at ha hreturned
  rw [howners a ha, Nat.add_zero] at hreturned
  rw [← hreturned]
  exact count_eq_one_of_mem (by decide) ha

/-- Calls on the page table of one process change no translation of another process. -/
theorem address_spaces_isolated (mm : Memory) (hvalid : Valid mm.pmm)
    (hlow : ∀ a, mm.pmm.Manages a → a < 2 ^ 48) (ops : List Op)
    (hlegal : (processTableInit mm).Legal ops) (i j : Fin 16) (hne : j ≠ i) (calls : List TableOp)
    (v : ℕ) :
    let k := (processTableInit mm).run ops
    vmmVirtToPhys (runOps (k.procs i).pageTable calls k.mm) (k.procs j).pageTable v =
      vmmVirtToPhys k.mm (k.procs j).pageTable v := by
  intro k
  obtain ⟨T, hspaces⟩ := ((inv_init hvalid hlow).run hlegal).pages.spaces
  by_cases hi : (k.procs i).pageTable = 0
  · simp [runOps, hi, exec_null]
  by_cases hj : (k.procs j).pageTable = 0
  · simp [vmmVirtToPhys, vmmLeafEntry, leafTable, hj]
  obtain ⟨T', hext⟩ := runOps_extends (hspaces.owns i hi) calls
  have howns : Owns k.mm (k.procs j).pageTable (T j) := hspaces.owns j hj
  unfold vmmVirtToPhys
  rw [howns.leafEntry_frame]
  intro a ha
  have hnot := Finset.disjoint_left.1 (hspaces.separate j i hne) ha
  exact hext.frame a fun hin => hspaces.table_used ha (hext.fresh a hin hnot)

theorem address_spaces_isolated_two :
    let k := (processTableInit (bootMemory 0x2000 0x8000)).run
      [.alloc 7, .attachTable 0, .alloc 8, .attachTable 1, .tableCall 1 (.mapPage 0 0x8000 0)]
    vmmVirtToPhys (runOps (k.procs 0).pageTable [.mapPage 0 0x9000 0] k.mm) (k.procs 1).pageTable 5 =
      0x8005 := by
  have hboot := @bootMemory_ok 0x2000 0x8000 (by decide) (by omega)
  refine (address_spaces_isolated _ hboot.1 hboot.2 _ ?_ 0 1 (by decide) _ 5).trans (by decide +kernel)
  refine ⟨trivial, ⟨?_, ?_⟩, trivial, ⟨?_, ?_⟩, trivial, trivial⟩ <;> decide +kernel

end Process
