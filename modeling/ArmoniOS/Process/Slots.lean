import ArmoniOS.Process.PageSteps

/-! The life of the slots: identities, the process counter and the current process along
`process_alloc`, `process_release`, exits and dispatches. -/
namespace Process
open Exec Pmm Vmm Function List Finset

def Kernel.live (k : Kernel) : Finset (Fin 16) :=
  univ.filter fun i => (k.procs i).state ≠ .unused

/-- Live processes have their own non-zero pids and are counted; the current process is live; an
unused slot has no page table and no pages. -/
structure SlotsOk (k : Kernel) : Prop where
  pid_ne : ∀ i ∈ k.live, (k.procs i).pid ≠ 0
  pid_inj : ∀ i ∈ k.live, ∀ j ∈ k.live, (k.procs i).pid = (k.procs j).pid → i = j
  count : k.count = k.live.card
  current : ∀ i, k.current = some i → i ∈ k.live
  idle : ∀ i, i ∉ k.live → (k.procs i).pageTable = 0 ∧ (k.procs i).ownedPages = []

/-- The step leaves identities and resources alone: states change among those of a live process,
contexts, exit codes and parents freely. -/
structure SameResources (k k' : Kernel) : Prop where
  pid : ∀ i, (k'.procs i).pid = (k.procs i).pid
  live : k'.live = k.live
  table : ∀ i, (k'.procs i).pageTable = (k.procs i).pageTable
  regions : ∀ i, (k'.procs i).userRegions = (k.procs i).userRegions
  count : k'.count = k.count
  mm : k'.mm = k.mm
  taken : k'.taken = k.taken
  returned : k'.returned = k.returned

variable {pid : ℕ} {after current : Option (Fin 16)} {policy : DispatchPolicy} {frame : Frame}

section Slots
variable {k k' k'' : Kernel} {i j : Fin 16} {p : Pcb}

@[simp] theorem mem_live : i ∈ k.live ↔ (k.procs i).state ≠ .unused := by simp [Kernel.live]

theorem live_congr (h : ∀ j, (k'.procs j).state = (k.procs j).state) : k'.live = k.live := by
  ext j
  rw [mem_live, mem_live, h]

theorem live_put : (k.put i p).live =
    if p.state = .unused then k.live.erase i else insert i k.live := by
  ext j
  by_cases hj : j = i
  · subst hj
    by_cases hp : p.state = .unused <;> simp [hp]
  · by_cases hp : p.state = .unused <;> simp [hp, put_procs_of_ne hj, hj]

theorem SameResources.refl (k : Kernel) : SameResources k k :=
  ⟨fun _ => rfl, rfl, fun _ => rfl, fun _ => rfl, rfl, rfl, rfl, rfl⟩

theorem SameResources.trans (h : SameResources k k') (h' : SameResources k' k'') :
    SameResources k k'' where
  pid j := (h'.pid j).trans (h.pid j)
  live := h'.live.trans h.live
  table j := (h'.table j).trans (h.table j)
  regions j := (h'.regions j).trans (h.regions j)
  count := h'.count.trans h.count
  mm := h'.mm.trans h.mm
  taken := h'.taken.trans h.taken
  returned := h'.returned.trans h.returned

theorem sameResources_put (hpid : p.pid = (k.procs i).pid)
    (hlive : p.state = .unused ↔ (k.procs i).state = .unused)
    (htable : p.pageTable = (k.procs i).pageTable)
    (hregions : p.userRegions = (k.procs i).userRegions) : SameResources k (k.put i p) := by
  refine ⟨put_field _ hpid, ?_, put_field _ htable, put_field _ hregions, rfl, rfl, rfl, rfl⟩
  ext j
  rw [mem_live, mem_live]
  exact not_congr (iff_of_eq (put_field (fun q => q.state = .unused) (propext hlive) j))

theorem SlotsOk.congr (h : SlotsOk k) (hpid : ∀ i, (k'.procs i).pid = (k.procs i).pid)
    (hlive : k'.live = k.live) (hcount : k'.count = k.count)
    (hcurrent : ∀ i, k'.current = some i → i ∈ k.live)
    (hidle : ∀ i, i ∉ k.live → (k'.procs i).pageTable = (k.procs i).pageTable ∧
      (k'.procs i).ownedPages = (k.procs i).ownedPages) : SlotsOk k' where
  pid_ne i hi := by
    rw [hlive] at hi
    rw [hpid]
    exact h.pid_ne i hi
  pid_inj i hi j hj heq := by
    rw [hlive] at hi hj
    rw [hpid, hpid] at heq
    exact h.pid_inj i hi j hj heq
  count := by
    rw [hcount, hlive]
    exact h.count
  current i hi := by
    rw [hlive]
    exact hcurrent i hi
  idle i hi := by
    rw [hlive] at hi
    rw [(hidle i hi).1, (hidle i hi).2]
    exact h.idle i hi

theorem SlotsOk.same (h : SlotsOk k) (hsame : SameResources k k')
    (hcurrent : ∀ i, k'.current = some i → i ∈ k.live) : SlotsOk k' := by
  apply h.congr hsame.pid hsame.live hsame.count hcurrent
  intro i _
  rw [hsame.table, Pcb.ownedPages, hsame.regions]
  exact ⟨rfl, rfl⟩

theorem PagesOk.same (h : PagesOk k []) (hsame : SameResources k k') : PagesOk k' [] := by
  apply h.transfer (funext hsame.table) hsame.mm hsame.taken hsame.returned
  intro a
  have howners : k'.owners = k.owners := owners_congr fun j => by
    rw [Pcb.ownedPages, hsame.regions, Pcb.ownedPages]
  rw [howners]

theorem processFind_eq_some (h : processFind k pid = some i) :
    i ∈ k.live ∧ (k.procs i).pid = pid := by
  unfold processFind at h
  split at h
  · simp at h
  · simpa using find?_some h

theorem processFind_eq_none (hpid : pid ≠ 0) (h : processFind k pid = none) :
    ∀ i ∈ k.live, (k.procs i).pid ≠ pid := by
  intro i hi
  rw [processFind, if_neg hpid] at h
  have hnot := find?_eq_none.1 h i (mem_finRange i)
  simp only [decide_eq_true_eq, not_and] at hnot
  exact hnot (mem_live.1 hi)

theorem processAlloc_cases (k : Kernel) (pid : ℕ) : processAlloc k pid = (none, k) ∨
    ∃ i, i ∉ k.live ∧ pid ≠ 0 ∧ (∀ j ∈ k.live, (k.procs j).pid ≠ pid) ∧
      processAlloc k pid = (some i, { k.put i (processInit pid) with count := k.count + 1 }) := by
  unfold processAlloc
  split
  · exact .inl rfl
  next hok =>
    simp only [not_or, Option.not_isSome_iff_eq_none] at hok
    split
    next i hfind =>
      have hunused : (k.procs i).state = .unused := by simpa using find?_some hfind
      exact .inr ⟨i, by simp [hunused], hok.1, processFind_eq_none hok.1 hok.2, rfl⟩
    · exact .inl rfl

theorem SlotsOk.alloc (h : SlotsOk k) (pid : ℕ) : SlotsOk (processAlloc k pid).2 := by
  rcases processAlloc_cases k pid with heq | ⟨i, hi, hpid, hfresh, heq⟩
  · rw [heq]
    exact h
  · rw [heq]
    have hlive : Kernel.live { k.put i (processInit pid) with count := k.count + 1 } =
        insert i k.live := live_put
    have hother {j : Fin 16} (hj : j ≠ i) :
        (k.put i (processInit pid)).procs j = k.procs j := put_procs_of_ne hj
    refine ⟨fun j hj => ?_, fun j hj l hl heq => ?_, ?_, fun j hj => ?_, fun j hj => ?_⟩
    · rw [hlive, mem_insert] at hj
      rcases hj with rfl | hj
      · rw [put_procs_self]
        exact hpid
      · have hne : j ≠ i := fun heq => hi (heq ▸ hj)
        rw [hother hne]
        exact h.pid_ne j hj
    · rw [hlive, mem_insert] at hj hl
      rcases hj with rfl | hj
      · rcases hl with rfl | hl
        · rfl
        · have hne : l ≠ j := fun heq => hi (heq ▸ hl)
          rw [put_procs_self, hother hne] at heq
          exact absurd heq.symm (hfresh l hl)
      · have hne : j ≠ i := fun heq => hi (heq ▸ hj)
        rcases hl with rfl | hl
        · rw [put_procs_self, hother hne] at heq
          exact absurd heq (hfresh j hj)
        · have hne' : l ≠ i := fun heq => hi (heq ▸ hl)
          rw [hother hne, hother hne'] at heq
          exact h.pid_inj j hj l hl heq
    · rw [hlive, card_insert_of_notMem hi, ← h.count]
    · rw [hlive]
      exact Finset.mem_insert_of_mem (h.current j hj)
    · rw [hlive, mem_insert, not_or] at hj
      rw [hother hj.1]
      exact h.idle j hj.2

theorem PagesOk.alloc (h : PagesOk k []) (hslots : SlotsOk k) (pid : ℕ) :
    PagesOk (processAlloc k pid).2 [] := by
  rcases processAlloc_cases k pid with heq | ⟨i, hi, -, -, heq⟩
  · rw [heq]
    exact h
  · obtain ⟨htable, hpages⟩ := hslots.idle i hi
    have hput : PagesOk (k.put i (processInit pid)) [] := h.put_same htable.symm hpages.symm
    rw [heq]
    exact ⟨hput.spaces, hput.single, hput.balance⟩

theorem processFreeResources_fields (k : Kernel) (i : Fin 16) :
    (processFreeResources k i).current = k.current ∧ (processFreeResources k i).count = k.count ∧
      ((processFreeResources k i).put i unusedSlot).procs = update k.procs i unusedSlot := by
  unfold processFreeResources
  dsimp only
  split <;> simp [Kernel.put, Kernel.freePages]

theorem clearCurrent_fields (k : Kernel) (i : Fin 16) :
    (k.clearCurrent i).procs = k.procs ∧ (k.clearCurrent i).count = k.count ∧
      (k.clearCurrent i).current = if k.current = some i then none else k.current := by
  unfold Kernel.clearCurrent
  split <;> exact ⟨rfl, rfl, rfl⟩

theorem processRelease_cases (k : Kernel) (i : Fin 16) : (i ∉ k.live ∧ processRelease k i = k) ∨
    (processRelease k i).procs = update k.procs i unusedSlot ∧
      (processRelease k i).current = (if k.current = some i then none else k.current) ∧
      (processRelease k i).count = if i ∈ k.live ∧ 0 < k.count then k.count - 1 else k.count := by
  unfold processRelease
  dsimp only
  split
  next hidle =>
    left
    exact ⟨by simp [hidle.1], rfl⟩
  · right
    obtain ⟨hprocs, hcount, hcurrent⟩ := clearCurrent_fields k i
    obtain ⟨hcurrent', hcount', hprocs'⟩ := processFreeResources_fields (k.clearCurrent i) i
    rw [hprocs] at hprocs'
    rw [hcurrent] at hcurrent'
    have hputCount : ((processFreeResources (k.clearCurrent i) i).put i unusedSlot).count =
        k.count := hcount'.trans hcount
    simp only [mem_live, hputCount]
    split
    · exact ⟨hprocs', hcurrent', rfl⟩
    · exact ⟨hprocs', hcurrent', hputCount⟩

theorem processRelease_live (k : Kernel) (i : Fin 16) :
    (processRelease k i).live = k.live.erase i := by
  rcases processRelease_cases k i with ⟨hi, heq⟩ | ⟨hprocs, -, -⟩
  · rw [heq, erase_eq_of_notMem hi]
  · have hput : (k.put i unusedSlot).live = k.live.erase i := live_put
    rw [← hput]
    ext j
    rw [mem_live, mem_live, hprocs]
    rfl

theorem SlotsOk.release (h : SlotsOk k) (i : Fin 16) : SlotsOk (processRelease k i) := by
  have hlive := processRelease_live k i
  rcases processRelease_cases k i with ⟨-, heq⟩ | ⟨hprocs, hcurrent, hcount⟩
  · rw [heq]
    exact h
  · have hother {j : Fin 16} (hj : j ≠ i) : (processRelease k i).procs j = k.procs j := by
      rw [hprocs, update_of_ne hj]
    refine ⟨fun j hj => ?_, fun j hj l hl heq => ?_, ?_, fun j hj => ?_, fun j hj => ?_⟩
    · rw [hlive, mem_erase] at hj
      rw [hother hj.1]
      exact h.pid_ne j hj.2
    · rw [hlive, mem_erase] at hj hl
      rw [hother hj.1, hother hl.1] at heq
      exact h.pid_inj j hj.2 l hl.2 heq
    · rw [hcount, hlive, h.count]
      by_cases hi : i ∈ k.live
      · have hpos := card_pos.2 ⟨i, hi⟩
        rw [if_pos ⟨hi, hpos⟩, card_erase_of_mem hi]
      · rw [if_neg fun hcon => hi hcon.1, erase_eq_of_notMem hi]
    · rw [hcurrent] at hj
      split at hj
      · simp at hj
      next hne =>
        rw [hlive, mem_erase]
        exact ⟨fun heq => hne (heq ▸ hj), h.current j hj⟩
    · by_cases hji : j = i
      · rw [hprocs, hji, update_self]
        exact ⟨rfl, rfl⟩
      · rw [hlive, mem_erase, not_and] at hj
        rw [hother hji]
        exact h.idle j (hj hji)

theorem requeue_procs (k : Kernel) (current : Option (Fin 16)) (policy : DispatchPolicy)
    (j : Fin 16) : (requeue k current policy).procs j = k.procs j ∨
      (current = some j ∧ policy = .preempt ∧ (k.procs j).state = .running ∧
        (requeue k current policy).procs j = { k.procs j with state := .ready }) := by
  unfold requeue
  cases current with
  | none => exact .inl rfl
  | some i =>
    dsimp only
    split
    next hcond =>
      by_cases hj : j = i
      · subst hj
        exact .inr ⟨rfl, hcond.1, hcond.2, put_procs_self⟩
      · exact .inl (put_procs_of_ne hj)
    · exact .inl rfl

theorem sameResources_requeue (k : Kernel) (current : Option (Fin 16)) (policy : DispatchPolicy) :
    SameResources k (requeue k current policy) := by
  unfold requeue
  cases current with
  | none => exact .refl k
  | some i =>
    dsimp only
    split
    next hcond => exact sameResources_put rfl (by simp [hcond.2]) rfl rfl
    · exact .refl k

theorem processNextRunnable_ready
    (h : processNextRunnable k after = some i) : (k.procs i).state = .ready := by
  simpa using find?_some h

section
variable (h : processDispatchNext k current policy = some (frame, k'))
include h

theorem processDispatchNext_eq_some : ∃ next, processNextRunnable k current = some next ∧
      frame = processLoadContext (k.procs next) ∧
      k' = { (requeue k current policy).put next
        { (requeue k current policy).procs next with state := .running } with
        current := some next } := by
  unfold processDispatchNext at h
  split at h
  · simp at h
  · split at h
    · simp at h
    next next hnext =>
      obtain ⟨hframe, hk⟩ := Prod.mk.inj (Option.some.inj h)
      refine ⟨next, hnext, ?_, hk.symm⟩
      rw [← hframe, put_procs_self]
      rcases requeue_procs k current policy next with hsame | ⟨-, -, -, hsame⟩ <;> rw [hsame] <;> rfl

theorem sameResources_dispatch : SameResources k k' ∧ ∀ i, k'.current = some i → i ∈ k.live := by
  obtain ⟨next, hnext, -, rfl⟩ := processDispatchNext_eq_some h
  have hready := processNextRunnable_ready hnext
  have hqueued := sameResources_requeue k current policy
  have hlive : next ∈ (requeue k current policy).live := by
    rw [hqueued.live, mem_live, hready]
    simp
  have hput := hqueued.trans (sameResources_put (i := next)
    (p := { (requeue k current policy).procs next with state := .running }) rfl
    (by simpa using hlive) rfl rfl)
  refine ⟨⟨hput.pid, hput.live, hput.table, hput.regions, hput.count, hput.mm, hput.taken,
    hput.returned⟩, fun i hi => ?_⟩
  rw [← Option.some.inj hi, ← hqueued.live]
  exact hlive

end

end Slots

end Process
