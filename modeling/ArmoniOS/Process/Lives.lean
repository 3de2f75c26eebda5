import ArmoniOS.Process.Contexts

/-! Processes without their contexts and memory: who is there, under which pid, whose child it is and
how it ended. What every trap of the running process does at this level. -/
namespace Process
open Exec Pmm Vmm Function List

structure Life where
  pid : ℕ
  parentPid : ℕ
  state : ProcessState
  exitCode : BitVec 64
  deriving DecidableEq

abbrev Lives : Type := Fin 16 → Life

def Pcb.life (p : Pcb) : Life := ⟨p.pid, p.parentPid, p.state, p.exitCode⟩

def Kernel.lives (k : Kernel) : Lives := fun i => (k.procs i).life

def Life.Alive (l : Life) : Prop := l.state ≠ .unused ∧ l.state ≠ .zombie
deriving Decidable

theorem Life.alive_of_running {l : Life} (h : l.state = .running) : l.Alive := by
  constructor <;> simp [h]

def unusedLife : Life := ⟨0, 0, .unused, 0⟩

def Life.exit (l : Life) (code : BitVec 64) : Life := { l with exitCode := code, state := .zombie }

/-- Processes that are there, zombies included, have their own non-zero pids; the other slots are
cleared. -/
structure Lives.Ok (L : Lives) : Prop where
  pid_ne : ∀ i, (L i).state ≠ .unused → (L i).pid ≠ 0
  pid_inj : ∀ i j, (L i).state ≠ .unused → (L j).state ≠ .unused → (L i).pid = (L j).pid → i = j
  idle : ∀ i, (L i).state = .unused → L i = unusedLife

/-- A zombie nobody can wait for: no process that has not exited has the pid of its parent. -/
def Lives.Orphaned (L : Lives) (i : Fin 16) : Prop :=
  (L i).state = .zombie ∧ ¬ ∃ j, (L j).Alive ∧ (L j).pid = (L i).parentPid
deriving Decidable

def Lives.reclaim (L : Lives) : Lives := fun i => if L.Orphaned i then unusedLife else L i

section Lives
variable {L L' : Lives} {k : Kernel} {i j : Fin 16} {p : Pcb}

@[simp] theorem lives_state (k : Kernel) (i : Fin 16) : (k.lives i).state = (k.procs i).state := rfl

@[simp] theorem lives_pid (k : Kernel) (i : Fin 16) : (k.lives i).pid = (k.procs i).pid := rfl

theorem lives_update {k' : Kernel} (h : k'.procs = update k.procs i p) :
    k'.lives = update k.lives i p.life := by
  funext j
  unfold Kernel.lives
  rw [h]
  exact apply_update (fun _ => Pcb.life) k.procs i p j

theorem lives_put (k : Kernel) (i : Fin 16) (p : Pcb) :
    (k.put i p).lives = update k.lives i p.life := lives_update rfl

theorem lives_put_same (h : p.life = (k.procs i).life) : (k.put i p).lives = k.lives := by
  rw [lives_put, h]
  exact update_eq_self i k.lives

theorem lives_release (hlive : (k.procs i).state ≠ .unused) :
    (processRelease k i).lives = update k.lives i unusedLife := by
  rcases processRelease_cases k i with ⟨hi, -⟩ | ⟨hprocs, -, -⟩
  · exact absurd (mem_live.2 hlive) hi
  · exact lives_update hprocs

theorem release_current (hlive : (k.procs i).state ≠ .unused) :
    (processRelease k i).current = if k.current = some i then none else k.current := by
  rcases processRelease_cases k i with ⟨hi, -⟩ | ⟨-, hcurrent, -⟩
  · exact absurd (mem_live.2 hlive) hi
  · exact hcurrent

theorem Lives.Ok.idle_or (h : L.Ok) (i : Fin 16) : L i = unusedLife ∨
    (L i).state ≠ .unused ∧ (L i).state ≠ .unused ∧ (L i).pid = (L i).pid := by
  by_cases hi : (L i).state = .unused
  · exact .inl (h.idle i hi)
  · exact .inr ⟨hi, hi, rfl⟩

theorem Lives.Ok.mono (h : L.Ok) (hsub : ∀ i, L' i = unusedLife ∨
      (L' i).state ≠ .unused ∧ (L i).state ≠ .unused ∧ (L' i).pid = (L i).pid) : L'.Ok := by
  have hlive (i) (hi : (L' i).state ≠ .unused) :
      (L i).state ≠ .unused ∧ (L' i).pid = (L i).pid := by
    rcases hsub i with heq | ⟨-, hrest⟩
    · rw [heq] at hi
      exact absurd rfl hi
    · exact hrest
  refine ⟨fun i hi => ?_, fun i j hi hj heq => ?_, fun i hi => ?_⟩
  · rw [(hlive i hi).2]
    exact h.pid_ne i (hlive i hi).1
  · apply h.pid_inj i j (hlive i hi).1 (hlive j hj).1
    rw [← (hlive i hi).2, heq, (hlive j hj).2]
  · rcases hsub i with heq | ⟨hne, -⟩
    · exact heq
    · exact absurd hi hne

theorem Lives.Ok.insert (h : L.Ok) {l : Life} (hl : l.state ≠ .unused) (hpid : l.pid ≠ 0)
    (hfresh : ∀ j ≠ i, (L j).state ≠ .unused → (L j).pid ≠ l.pid) : Lives.Ok (update L i l) where
  pid_ne := by
    rw [forall_update_iff L fun _ l => l.state ≠ .unused → l.pid ≠ 0]
    exact ⟨fun _ => hpid, fun j _ => h.pid_ne j⟩
  pid_inj j m hj hm heq := by
    by_cases hji : j = i <;> by_cases hmi : m = i
    · rw [hji, hmi]
    · rw [update_of_ne hmi] at hm heq
      rw [hji, update_self] at heq
      exact absurd heq.symm (hfresh m hmi hm)
    · rw [update_of_ne hji] at hj heq
      rw [hmi, update_self] at heq
      exact absurd heq (hfresh j hji hj)
    · rw [update_of_ne hji] at hj heq
      rw [update_of_ne hmi] at hm heq
      exact h.pid_inj j m hj hm heq
  idle := by
    rw [forall_update_iff L fun _ l => l.state = .unused → l = unusedLife]
    exact ⟨fun hu => absurd hu hl, fun j _ => h.idle j⟩

theorem Lives.Ok.keep (h : L.Ok) {l : Life} (hl : l.state ≠ .unused)
    (hi : (L i).state ≠ .unused) (hpid : l.pid = (L i).pid) : Lives.Ok (update L i l) := by
  apply h.insert hl
  · rw [hpid]
    exact h.pid_ne i hi
  · intro j hji hj heq
    exact hji (h.pid_inj j i hj hi (heq.trans hpid))

theorem Lives.Ok.remove (h : L.Ok) (i : Fin 16) : Lives.Ok (update L i unusedLife) := by
  apply h.mono
  rw [forall_update_iff L fun j l => l = unusedLife ∨
    l.state ≠ .unused ∧ (L j).state ≠ .unused ∧ l.pid = (L j).pid]
  exact ⟨.inl rfl, fun j _ => h.idle_or j⟩

theorem reclaim_of_orphaned (h : L.Orphaned i) : L.reclaim i = unusedLife := if_pos h

theorem reclaim_of_not_orphaned (h : ¬ L.Orphaned i) : L.reclaim i = L i := if_neg h

theorem not_orphaned_of_alive (h : (L i).Alive) : ¬ L.Orphaned i := fun ho => h.2 ho.1

theorem Lives.Ok.reclaim (h : L.Ok) : L.reclaim.Ok := by
  apply h.mono
  intro i
  by_cases ho : L.Orphaned i
  · exact .inl (reclaim_of_orphaned ho)
  · rw [reclaim_of_not_orphaned ho]
    exact h.idle_or i

theorem parentAlive_iff (h : k.lives.Ok) (p : Pcb) :
    parentAlive k p = true ↔ ∃ j, (k.lives j).Alive ∧ (k.lives j).pid = p.parentPid := by
  unfold parentAlive
  cases hfind : processFind k p.parentPid with
  | none =>
    simp only [Bool.false_eq_true, false_iff, not_exists, not_and]
    intro j halive hpid
    have hne := h.pid_ne j halive.1
    rw [hpid] at hne
    exact processFind_eq_none hne hfind j (mem_live.2 halive.1) hpid
  | some j =>
    obtain ⟨hj, hpid⟩ := processFind_eq_some hfind
    rw [decide_eq_true_iff]
    constructor
    · intro halive
      exact ⟨j, halive, hpid⟩
    · rintro ⟨m, halive, hm⟩
      obtain rfl : m = j := h.pid_inj m j halive.1 (mem_live.1 hj) (hm.trans hpid.symm)
      exact halive

theorem reclaimSlot_eq (h : k.lives.Ok) (i : Fin 16) :
    reclaimSlot k i = if k.lives.Orphaned i then processRelease k i else k := by
  unfold reclaimSlot
  have hcond : (k.procs i).state ≠ .zombie ∨ parentAlive k (k.procs i) = true ↔
      ¬ k.lives.Orphaned i := by
    rw [parentAlive_iff h]
    simp only [Lives.Orphaned, lives_state, not_and_or, not_not]
    rfl
  by_cases ho : k.lives.Orphaned i
  · rw [if_pos ho, if_neg fun hkeep => hcond.1 hkeep ho]
  · rw [if_neg ho, if_pos (hcond.2 ho)]

theorem orphaned_update (hi : (L i).state = .zombie) (hj : j ≠ i) :
    Lives.Orphaned (update L i unusedLife) j ↔ L.Orphaned j := by
  have halive (m : Fin 16) : (update L i unusedLife m).Alive ↔ (L m).Alive := by
    by_cases hm : m = i
    · rw [hm, update_self]
      exact iff_of_false (fun ha => ha.1 rfl) (fun ha => ha.2 hi)
    · rw [update_of_ne hm]
  have hpid (m : Fin 16) (ha : (L m).Alive) : (update L i unusedLife m).pid = (L m).pid := by
    have hm : m ≠ i := fun heq => ha.2 (heq ▸ hi)
    rw [update_of_ne hm]
  unfold Lives.Orphaned
  rw [update_of_ne hj]
  apply and_congr_right'
  apply not_congr
  apply exists_congr
  intro m
  rw [halive m]
  apply and_congr_right
  intro ha
  rw [hpid m ha]

theorem lives_reclaim_loop (slots : List (Fin 16)) (hnodup : slots.Nodup) (k : Kernel)
    (h : k.lives.Ok) :
    (slots.foldl reclaimSlot k).lives =
        (fun j => if j ∈ slots ∧ k.lives.Orphaned j then unusedLife else k.lives j) ∧
      (slots.foldl reclaimSlot k).current =
        k.current.filter fun j => ¬ (j ∈ slots ∧ k.lives.Orphaned j) := by
  induction slots generalizing k with
  | nil =>
    cases hcur : k.current <;> simp [hcur, Option.filter_some]
  | cons i slots ih =>
    obtain ⟨hnot, hnodup⟩ := nodup_cons.1 hnodup
    rw [foldl_cons, reclaimSlot_eq h]
    by_cases ho : k.lives.Orphaned i
    · have hlive : (k.procs i).state ≠ .unused := fun hu => by simp [Lives.Orphaned, hu] at ho
      have hlives := lives_release hlive
      have hcurrent := release_current hlive
      rw [if_pos ho]
      obtain ⟨hrest, hrest'⟩ := ih hnodup (processRelease k i) (hlives ▸ h.remove i)
      have hiff (j) (hj : j ≠ i) : (processRelease k i).lives.Orphaned j ↔ k.lives.Orphaned j := by
        rw [hlives]
        exact orphaned_update ho.1 hj
      constructor
      · rw [hrest]
        funext j
        by_cases hj : j = i
        · subst hj
          simp [hlives, hnot, ho]
        · simp only [hiff j hj, mem_cons, hj, false_or]
          simp [hlives, hj]
      · rw [hrest', hcurrent]
        cases hcur : k.current with
        | none => simp
        | some j =>
          by_cases hj : j = i
          · subst hj
            simp [ho, Option.filter_some]
          · simp [hj, Option.filter_some, hiff j hj]
    · rw [if_neg ho]
      obtain ⟨hrest, hrest'⟩ := ih hnodup k h
      have hiff (j) : (j ∈ slots ∧ k.lives.Orphaned j) ↔ (j ∈ i :: slots ∧ k.lives.Orphaned j) := by
        by_cases hj : j = i
        · subst hj
          simp [ho]
        · simp [hj]
      simp only [hiff] at hrest hrest'
      exact ⟨hrest, hrest'⟩

theorem lives_reclaim (h : k.lives.Ok) : (processReclaimZombies k).lives = k.lives.reclaim := by
  unfold processReclaimZombies
  rw [(lives_reclaim_loop (finRange 16) (nodup_finRange 16) k h).1]
  funext i
  simp [Lives.reclaim]

theorem reclaim_current (h : k.lives.Ok) :
    (processReclaimZombies k).current = k.current.filter fun j => ¬ k.lives.Orphaned j := by
  unfold processReclaimZombies
  rw [(lives_reclaim_loop (finRange 16) (nodup_finRange 16) k h).2]
  simp

end Lives

/-! ### System calls -/

/-- What a system call of `c` that returns to its caller does, and what it replies. -/
inductive Called (out : Outside) (x : Fin 31 → BitVec 64) (L : Lives) (c : Fin 16) :
    BitVec 64 → Lives → Prop
  | same (reply : BitVec 64) : Called out x L c reply L
  | waited (i : Fin 16) (hcall : x 8 = sysWaitNumber) (hpid : (x 0).toNat = (L i).pid)
      (hzombie : (L i).state = .zombie) (hparent : (L i).parentPid = (L c).pid) :
      Called out x L c (L i).exitCode (update L i unusedLife)
  | killed (i : Fin 16) (halive : (L i).Alive) (hother : i ≠ c) :
      Called out x L c 0 (update L i ((L i).exit userKillExitCode))
  | reclaimed (reply : BitVec 64) (hcall : x 8 = sysSpawnNumber ∨ x 8 = sysSpawnArgvNumber) :
      Called out x L c reply L.reclaim
  | spawned (i : Fin 16) (hcall : x 8 = sysSpawnNumber ∨ x 8 = sysSpawnArgvNumber)
      (hrefused : out.refused = none) (hresolved : out.resolved = true)
      (hfree : (L.reclaim i).state = .unused) (hpid : out.load.pid ≠ 0)
      (hfresh : ∀ j, (L.reclaim j).state ≠ .unused → (L.reclaim j).pid ≠ out.load.pid) :
      Called out x L c out.load.pid
        (update L.reclaim i ⟨out.load.pid, (L c).pid, .ready, 0⟩)

section Called
variable {out : Outside} {x : Fin 31 → BitVec 64} {L L' : Lives} {c : Fin 16} {reply : BitVec 64}

section
variable (hcall : Called out x L c reply L')
include hcall

theorem Called.ok (h : L.Ok) : L'.Ok := by
  cases hcall with
  | same => exact h
  | waited i => exact h.remove i
  | killed i halive => exact h.keep (by simp [Life.exit]) halive.1 rfl
  | reclaimed => exact h.reclaim
  | spawned i _ _ _ _ hpid hfresh => exact h.reclaim.insert (by simp) hpid fun j _ => hfresh j

theorem Called.caller (hc : (L c).Alive) : L' c = L c := by
  have hreclaim := reclaim_of_not_orphaned (not_orphaned_of_alive hc)
  cases hcall with
  | same => rfl
  | waited i _ _ hzombie =>
    have hci : c ≠ i := fun heq => hc.2 (heq ▸ hzombie)
    exact update_of_ne hci _ _
  | killed i _ hother => exact update_of_ne hother.symm _ _
  | reclaimed => exact hreclaim
  | spawned i _ _ _ hfree =>
    have hci : c ≠ i := by
      rintro rfl
      rw [hreclaim] at hfree
      exact hc.1 hfree
    rw [update_of_ne hci]
    exact hreclaim

theorem Called.states (j : Fin 16) :
    L' j = L j ∨ (L' j).state = .unused ∨ (L' j).state = .zombie ∨ (L' j).state = .ready := by
  have hreclaim : L.reclaim j = L j ∨ (L.reclaim j).state = .unused := by
    by_cases ho : L.Orphaned j
    · rw [reclaim_of_orphaned ho]
      exact .inr rfl
    · exact .inl (reclaim_of_not_orphaned ho)
  cases hcall with
  | same => exact .inl rfl
  | waited i =>
    by_cases hj : j = i
    · rw [hj, update_self]
      exact .inr (.inl rfl)
    · exact .inl (update_of_ne hj _ _)
  | killed i =>
    by_cases hj : j = i
    · rw [hj, update_self]
      exact .inr (.inr (.inl rfl))
    · exact .inl (update_of_ne hj _ _)
  | reclaimed => exact hreclaim.imp_right .inl
  | spawned i =>
    by_cases hj : j = i
    · rw [hj, update_self]
      exact .inr (.inr (.inr rfl))
    · rw [update_of_ne hj]
      exact hreclaim.imp_right .inl

end

end Called

section Calls
variable {k k' : Kernel} {c : Fin 16} {out : Outside} {x : Fin 31 → BitVec 64}

theorem called_wait (hc : k.current = some c) (hcall : x 8 = sysWaitNumber) :
    Called out x k.lives c (BitVec.ofInt 64 (sysWait k (some c) (x 0)).1)
        (sysWait k (some c) (x 0)).2.lives ∧
      (sysWait k (some c) (x 0)).2.current = some c := by
  unfold sysWait
  dsimp only
  split
  · exact ⟨.same _, hc⟩
  cases hfind : processFind k (x 0).toNat with
  | none => exact ⟨.same _, hc⟩
  | some child =>
    obtain ⟨hlive, hpid⟩ := processFind_eq_some hfind
    have hrelease := lives_release (mem_live.1 hlive)
    dsimp only
    split_ifs with hparent hzombie
    · exact ⟨.same _, hc⟩
    · exact ⟨.same _, hc⟩
    · unfold processWaitZombie
      rw [hfind]
      dsimp only
      split_ifs with hcurrent
      · exact ⟨.same _, hc⟩
      · simp only [not_or, not_not] at hcurrent hparent
        rw [BitVec.ofInt_toInt, hrelease, release_current (mem_live.1 hlive), if_neg hcurrent.1]
        exact ⟨.waited child hcall hpid.symm hcurrent.2 hparent, hc⟩

theorem called_kill (hc : k.current = some c) :
    Called out x k.lives c (BitVec.ofInt 64 (sysKill k (x 0)).1) (sysKill k (x 0)).2.lives ∧
      (sysKill k (x 0)).2.current = some c := by
  unfold sysKill
  split
  · exact ⟨.same _, hc⟩
  cases hfind : processFind k (x 0).toNat with
  | none => exact ⟨.same _, hc⟩
  | some i =>
    obtain ⟨hlive, -⟩ := processFind_eq_some hfind
    unfold processKill
    rw [hfind]
    dsimp only
    split_ifs with hcurrent
    · exact ⟨.same _, hc⟩
    · simp only [not_or] at hcurrent
      have hother : i ≠ c := fun heq => hcurrent.1 (heq ▸ hc)
      unfold processMarkExited
      rw [if_neg hcurrent.2]
      rw [lives_put]
      exact ⟨.killed i ⟨mem_live.1 hlive, hcurrent.2⟩ hother, hc⟩

theorem called_spawn (h : k.lives.Ok) (hc : k.current = some c) (halive : (k.lives c).Alive)
    (hcall : x 8 = sysSpawnNumber ∨ x 8 = sysSpawnArgvNumber) :
    Called out x k.lives c (BitVec.ofInt 64 (sysSpawn out k).1) (sysSpawn out k).2.lives ∧
      (sysSpawn out k).2.current = some c := by
  have hstay := reclaim_of_not_orphaned (not_orphaned_of_alive halive)
  have hreclaim := lives_reclaim h
  have hcurrent : (processReclaimZombies k).current = some c := by
    rw [reclaim_current h, hc, Option.filter_some, if_pos]
    simpa using not_orphaned_of_alive halive
  unfold sysSpawn
  cases hrefused : out.refused with
  | some err => exact ⟨.same _, hc⟩
  | none =>
    have hspawns := appSpawnVfs_spawns out k
    generalize appSpawnVfs out k = result at hspawns ⊢
    generalize processReclaimZombies k = r at *
    have hidle {i : Fin 16} (hfree : i ∉ r.live) : (k.lives.reclaim i).state = .unused := by
      rw [← hreclaim]
      simpa using hfree
    rcases result with ⟨reply, k'⟩
    cases hspawns with
    | unresolved => exact ⟨.same _, hc⟩
    | full =>
      rw [hreclaim]
      exact ⟨.reclaimed _ hcall, hcurrent⟩
    | failed i _ hfree hprocs hcur =>
      have hne : c ≠ i := by
        rintro rfl
        exact halive.1 (hstay ▸ hidle hfree)
      rw [lives_update hprocs, hreclaim, hcur, if_neg (by simpa [hcurrent] using hne)]
      change Called _ _ _ _ _ (update k.lives.reclaim i unusedLife) ∧ _
      rw [← h.reclaim.idle i (hidle hfree), update_eq_self]
      exact ⟨.reclaimed _ hcall, hcurrent⟩
    | spawned i _ hfree hresolved hpid hfresh hprocs hcur =>
      rw [lives_update hprocs, hcur, hcurrent, BitVec.ofInt_natCast, hreclaim]
      have hparent : (r.procs c).pid = (k.lives c).pid := by
        rw [← lives_pid, hreclaim, hstay]
      change Called _ _ _ _ _ (update _ i ⟨out.load.pid, (r.procs c).pid, .ready, 0⟩) ∧ _
      rw [hparent]
      refine ⟨.spawned i hcall hrefused hresolved (hidle hfree) hpid fun j hj => ?_, rfl⟩
      rw [← hreclaim] at hj ⊢
      exact hfresh j (mem_live.2 hj)

theorem lives_onlyRegions {i : Fin 16} (h : OnlyRegions k k' i) :
    k'.lives = k.lives ∧ k'.current = k.current := by
  obtain ⟨regions, next, hprocs, -⟩ := h.procs
  exact ⟨(lives_update hprocs).trans (update_eq_self i k.lives), h.current⟩

theorem syscallCall_called (h : k.lives.Ok) (hc : k.current = some c) (halive : (k.lives c).Alive)
    (out : Outside) (x : Fin 31 → BitVec 64) :
    Called out x k.lives c (syscallCall out k (some c) x).1 (syscallCall out k (some c) x).2.lives ∧
      (syscallCall out k (some c) x).2.current = some c := by
  unfold syscallCall
  dsimp only
  split_ifs with _ hspawn hargv hwait
  · exact ⟨.same _, hc⟩
  · exact called_spawn h hc halive (.inl hspawn)
  · exact called_spawn h hc halive (.inr hargv)
  · exact called_wait hc hwait
  · exact called_kill hc
  · obtain ⟨hlives, hcurrent⟩ := lives_onlyRegions
      (userVmMapAnonymous_shape k c (x 0).toNat (x 1).toNat (x 2))
    dsimp only [sysMmap]
    rw [hlives, hcurrent]
    exact ⟨.same _, hc⟩
  · obtain ⟨hlives, hcurrent⟩ := lives_onlyRegions
      (userVmUnmapAnonymous_shape k c (x 0).toNat (x 1).toNat)
    dsimp only [sysMunmap]
    rw [hlives, hcurrent]
    exact ⟨.same _, hc⟩
  · exact ⟨.same _, hc⟩

end Calls

/-! ### The dispatcher -/

/-- How many slots the search of `process_next_runnable` behind `c` goes on until it is at `j`. -/
def distance (c j : Fin 16) : ℕ := (j - c).val

/-- `next` is the first ready process behind `c`. -/
structure Lives.NextReady (L : Lives) (c next : Fin 16) : Prop where
  ready : (L next).state = .ready
  other : next ≠ c
  first : ∀ j, (L j).state = .ready → j ≠ c → distance c next ≤ distance c j

section Dispatch
variable {k k' : Kernel} {c next : Fin 16} {frame : Frame} {policy : DispatchPolicy}

theorem offset_eq (c j : Fin 16) (hj : j ≠ c) :
    ∃ offset < 15, Fin.ofNat 16 (c + 1 + offset) = j ∧ distance c j = offset + 1 := by
  revert c j
  decide

theorem offset_spec (c : Fin 16) (offset : ℕ) (h : offset < 15) :
    Fin.ofNat 16 (c + 1 + offset) ≠ c ∧ distance c (Fin.ofNat 16 (c + 1 + offset)) = offset + 1 := by
  revert c offset
  decide

theorem nextReady_of_some (h : processNextRunnable k (some c) = some next) :
    k.lives.NextReady c next := by
  unfold processNextRunnable at h
  rw [find?_map, Option.map_eq_some_iff] at h
  obtain ⟨offset, hfind, rfl⟩ := h
  rw [find?_range_eq_some] at hfind
  obtain ⟨hready, hmem, hfirst⟩ := hfind
  obtain ⟨hother, hdist⟩ := offset_spec c offset (mem_range.1 hmem)
  refine ⟨by simpa using hready, hother, fun j hj hjc => ?_⟩
  obtain ⟨offset', -, rfl, hdist'⟩ := offset_eq c j hjc
  by_contra hlt
  have hnot := hfirst offset' (by omega)
  rw [comp_apply, Bool.not_eq_true', decide_eq_false_iff_not] at hnot
  exact hnot hj

def Life.requeued (l : Life) : DispatchPolicy → Life
  | .preempt => if l.state = .running then { l with state := .ready } else l
  | .exit => l

theorem lives_dispatch (h : processDispatchNext k (some c) policy = some (frame, k')) :
    ∃ next, k.lives.NextReady c next ∧ k'.current = some next ∧
      k'.lives = update (update k.lives c ((k.lives c).requeued policy)) next
        { k.lives next with state := .running } := by
  obtain ⟨next, hnext, -, rfl⟩ := processDispatchNext_eq_some h
  have hready := nextReady_of_some hnext
  have hqueue : (requeue k (some c) policy).lives =
      update k.lives c ((k.lives c).requeued policy) := by
    unfold requeue Life.requeued
    cases policy with
    | exit => simp
    | preempt =>
      dsimp only
      by_cases hr : (k.procs c).state = .running
      · rw [if_pos ⟨rfl, hr⟩, lives_put, lives_state, if_pos hr]
        rfl
      · rw [if_neg (by simp [hr]), lives_state, if_neg hr, update_eq_self]
  refine ⟨next, hready, rfl, ?_⟩
  change ((requeue k (some c) policy).put next _).lives = _
  rw [lives_put, hqueue]
  congr 1
  have hsame : (requeue k (some c) policy).lives next = k.lives next := by
    rw [hqueue, update_of_ne hready.other]
  change { (requeue k (some c) policy).lives next with state := .running } = _
  rw [hsame]

theorem processDispatchNext_none (h : processDispatchNext k (some c) policy = none) (j : Fin 16)
    (hj : (k.lives j).state = .ready) : j = c := by
  unfold processDispatchNext at h
  rw [if_neg (by simp)] at h
  split at h
  next hnone =>
    by_contra hjc
    obtain ⟨offset, hlt, rfl, -⟩ := offset_eq c j hjc
    unfold processNextRunnable at hnone
    simp only [find?_eq_none, mem_map, mem_range] at hnone
    exact hnone _ ⟨offset, hlt, rfl⟩ (by simpa using hj)
  · cases h

end Dispatch

end Process
