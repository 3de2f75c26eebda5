import ArmoniOS.Process.Slots
import ArmoniOS.Process.Traps

/-! What the system calls and the dispatcher do to the saved contexts: a process that lives through
them keeps its own. -/
namespace Process
open Exec Pmm Vmm Function

def Pcb.Alive (p : Pcb) : Prop := p.state ≠ .unused ∧ p.state ≠ .zombie
deriving Decidable

def Load.entryFrame (load : Load) : Frame :=
  if load.argvVaddr = 0 then ⟨fun _ => 0, load.pc, load.pstate, load.sp⟩
  else
    ⟨update (update (fun _ => 0) 0 load.argc) 1 load.argvVaddr, load.pc,
      load.pstate, load.argvVaddr⟩

section Contexts
variable {k k' k'' : Kernel} {i : Fin 16} {frame fresh : Frame}

/-- No process is created and no context changes; the running process goes on. -/
structure Quiet (k k' : Kernel) : Prop where
  kept : ∀ i, (k'.procs i).Alive →
    (k.procs i).Alive ∧ processLoadContext (k'.procs i) = processLoadContext (k.procs i)
  running : ∀ c, k.current = some c → (k.procs c).state = .running →
    k'.current = some c ∧ (k'.procs c).state = .running

theorem alive_of_running {p : Pcb} (h : p.state = .running) : p.Alive := by
  constructor <;> simp [h]

theorem Quiet.refl (k : Kernel) : Quiet k k := ⟨fun _ h => ⟨h, rfl⟩, fun _ hc hr => ⟨hc, hr⟩⟩

theorem Quiet.trans (h : Quiet k k') (h' : Quiet k' k'') : Quiet k k'' where
  kept i hi := by
    obtain ⟨halive, heq⟩ := h'.kept i hi
    obtain ⟨halive', heq'⟩ := h.kept i halive
    exact ⟨halive', heq.trans heq'⟩
  running c hc hr := by
    obtain ⟨hc', hr'⟩ := h.running c hc hr
    exact h'.running c hc' hr'

theorem quiet_put {p : Pcb}
    (hkept : p.Alive → (k.procs i).Alive ∧ processLoadContext p = processLoadContext (k.procs i))
    (hrunning : (k.procs i).state = .running → k.current = some i → p.state = .running) :
    Quiet k (k.put i p) := by
  refine ⟨fun j hj => ?_, fun c hc hr => ⟨hc, ?_⟩⟩
  · by_cases hji : j = i
    · subst hji
      rw [put_procs_self] at hj ⊢
      exact hkept hj
    · rw [put_procs_of_ne hji] at hj ⊢
      exact ⟨hj, rfl⟩
  · by_cases hci : c = i
    · subst hci
      rw [put_procs_self]
      exact hrunning hr hc
    · rw [put_procs_of_ne hci]
      exact hr

theorem not_alive_unusedSlot : ¬ unusedSlot.Alive := fun h => h.1 rfl

theorem quiet_release (hdead : ¬ (k.procs i).Alive) :
    Quiet k (processRelease k i) ∧ ∀ j, (k.procs j).Alive → ((processRelease k i).procs j).Alive := by
  rcases processRelease_cases k i with ⟨-, heq⟩ | ⟨hprocs, hcurrent, -⟩
  · rw [heq]
    exact ⟨.refl k, fun _ hj => hj⟩
  · have hother (j) (hj : j ≠ i) : (processRelease k i).procs j = k.procs j := by
      rw [hprocs, update_of_ne hj]
    refine ⟨⟨fun j hj => ?_, fun c hc hr => ?_⟩, fun j hj => ?_⟩
    · by_cases hji : j = i
      · rw [hji, hprocs, update_self] at hj
        exact absurd hj not_alive_unusedSlot
      · rw [hother j hji] at hj ⊢
        exact ⟨hj, rfl⟩
    · have hci : c ≠ i := by
        rintro rfl
        exact hdead (alive_of_running hr)
      have hcur : k.current ≠ some i := fun heq => hci (Option.some.inj (hc.symm.trans heq))
      rw [hcurrent, if_neg hcur, hother c hci]
      exact ⟨hc, hr⟩
    · have hji : j ≠ i := by
        rintro rfl
        exact hdead hj
      rw [hother j hji]
      exact hj

theorem quiet_reclaim (k : Kernel) : Quiet k (processReclaimZombies k) ∧
    ∀ j, (k.procs j).Alive → ((processReclaimZombies k).procs j).Alive := by
  unfold processReclaimZombies
  generalize List.finRange 16 = slots
  induction slots generalizing k with
  | nil => exact ⟨.refl k, fun _ hj => hj⟩
  | cons i slots ih =>
    have hslot : Quiet k (reclaimSlot k i) ∧
        ∀ j, (k.procs j).Alive → ((reclaimSlot k i).procs j).Alive := by
      unfold reclaimSlot
      split
      · exact ⟨.refl k, fun _ hj => hj⟩
      next hzombie =>
        apply quiet_release
        intro halive
        exact hzombie (Or.inl halive.2)
    obtain ⟨hquiet, halive⟩ := ih (reclaimSlot k i)
    exact ⟨hslot.1.trans hquiet, fun j hj => halive j (hslot.2 j hj)⟩

theorem quiet_onlyRegions (h : OnlyRegions k k' i) : Quiet k k' := by
  obtain ⟨regions, next, hprocs, -⟩ := h.procs
  have hput : Quiet k (k.put i { k.procs i with userRegions := regions, nextUserVaddr := next }) :=
    quiet_put (fun halive => ⟨halive, rfl⟩) fun hr _ => hr
  have heq := hprocs
  refine ⟨fun j hj => ?_, fun c hc hr => ?_⟩
  · rw [heq] at hj ⊢
    exact hput.kept j hj
  · rw [heq, h.current]
    exact hput.running c hc hr

theorem quiet_waitZombie (pid : ℕ) : Quiet k (processWaitZombie k pid).2 := by
  unfold processWaitZombie
  cases processFind k pid with
  | none => exact .refl k
  | some i =>
    dsimp only
    split
    · exact .refl k
    next hzombie =>
      refine (quiet_release fun halive => ?_).1
      exact hzombie (Or.inr halive.2)

theorem quiet_processKill (pid : ℕ) (code : BitVec 64) : Quiet k (processKill k pid code).2 := by
  unfold processKill
  cases processFind k pid with
  | none => exact .refl k
  | some i =>
    dsimp only
    split
    · exact .refl k
    next hother =>
      unfold processMarkExited
      split
      · exact .refl k
      · apply quiet_put
        · intro halive
          exact absurd rfl halive.2
        · intro _ hcurrent
          exact absurd (Or.inl hcurrent) hother

theorem quiet_wait (current : Option (Fin 16)) (pid : BitVec 64) :
    Quiet k (sysWait k current pid).2 := by
  have hwait := quiet_waitZombie (k := k) pid.toNat
  unfold sysWait
  split
  · exact .refl k
  · split
    · exact .refl k
    · split
      · exact .refl k
      · split_ifs
        · exact .refl k
        · exact .refl k
        · split <;> next heq => rwa [heq] at hwait

theorem quiet_kill (pid : BitVec 64) : Quiet k (sysKill k pid).2 := by
  have hkill := quiet_processKill (k := k) pid.toNat userKillExitCode
  unfold sysKill
  split
  · exact .refl k
  · split
    · exact .refl k
    · split <;> next heq => rwa [heq] at hkill

/-- Processes that live through a call keep their contexts, the running one goes on, and a new one
starts from the frame `fresh`. -/
structure Undisturbed (fresh : Frame) (k k' : Kernel) : Prop where
  kept : ∀ i, (k.procs i).Alive → (k'.procs i).Alive →
    processLoadContext (k'.procs i) = processLoadContext (k.procs i)
  running : ∀ c, k.current = some c → (k.procs c).state = .running →
    k'.current = some c ∧ (k'.procs c).state = .running
  born : ∀ i, ¬ (k.procs i).Alive → (k'.procs i).Alive → processLoadContext (k'.procs i) = fresh

theorem Quiet.undisturbed (h : Quiet k k') : Undisturbed fresh k k' where
  kept i _ halive := (h.kept i halive).2
  running := h.running
  born i hdead halive := absurd (h.kept i halive).1 hdead

/-- Only this slot changes; the current process stays, unless it is the one in the slot. -/
structure OnlySlot (k k' : Kernel) (i : Fin 16) : Prop where
  other : ∀ j, j ≠ i → k'.procs j = k.procs j
  current : k.current ≠ some i → k'.current = k.current

theorem OnlySlot.trans (h : OnlySlot k k' i) (h' : OnlySlot k' k'' i) : OnlySlot k k'' i where
  other j hj := (h'.other j hj).trans (h.other j hj)
  current hcur := by
    have hstay := h.current hcur
    rw [h'.current (by rwa [hstay]), hstay]

theorem onlySlot_put (k : Kernel) (i : Fin 16) (p : Pcb) : OnlySlot k (k.put i p) i :=
  ⟨fun _ hj => put_procs_of_ne hj, fun _ => rfl⟩

theorem Undisturbed.onlySlot (h : Quiet k k') (halive : ∀ j, (k.procs j).Alive → (k'.procs j).Alive)
    (hdead : ¬ (k'.procs i).Alive) (honly : OnlySlot k' k'' i)
    (hfresh : (k''.procs i).Alive → processLoadContext (k''.procs i) = fresh) :
    Undisturbed fresh k k'' := by
  constructor
  · intro j hj hj''
    have hji : j ≠ i := by
      rintro rfl
      exact hdead (halive j hj)
    rw [honly.other j hji] at hj'' ⊢
    exact (h.kept j hj'').2
  · intro c hc hr
    obtain ⟨hc', hr'⟩ := h.running c hc hr
    have hci : c ≠ i := by
      rintro rfl
      exact hdead (alive_of_running hr')
    have hcur : k'.current ≠ some i := fun heq => hci (Option.some.inj (hc'.symm.trans heq))
    rw [honly.current hcur, honly.other c hci]
    exact ⟨hc', hr'⟩
  · intro j hj hj''
    by_cases hji : j = i
    · subst hji
      exact hfresh hj''
    · rw [honly.other j hji] at hj''
      exact absurd (h.kept j hj'').1 hj

def Load.spawned (load : Load) (parentPid : ℕ) : Pcb :=
  { processInit load.pid with
    parentPid := parentPid, state := .ready, pageTable := load.pageTable
    userRegions := load.userRegions, regs := load.entryFrame.x, pc := load.pc
    pstate := load.pstate, sp := load.entryFrame.spEl0 }

/-- What `app_spawn_vfs` makes of the table `k`, which is `r` once its zombies are reclaimed. -/
inductive Spawns (out : Outside) (k r : Kernel) : Option ℕ → Kernel → Prop
  | unresolved : Spawns out k r none k
  | full : Spawns out k r none r
  | failed (i : Fin 16) (k' : Kernel) (hfree : i ∉ r.live)
      (hprocs : k'.procs = update r.procs i unusedSlot)
      (hcurrent : k'.current = if r.current = some i then none else r.current) :
      Spawns out k r none k'
  | spawned (i : Fin 16) (k' : Kernel) (hfree : i ∉ r.live) (hresolved : out.resolved = true)
      (hpid : out.load.pid ≠ 0) (hfresh : ∀ j ∈ r.live, (r.procs j).pid ≠ out.load.pid)
      (hprocs : k'.procs = update r.procs i
        (out.load.spawned (r.current.elim 0 fun c => (r.procs c).pid)))
      (hcurrent : k'.current = r.current) : Spawns out k r (some out.load.pid) k'

variable (out : Outside)

theorem appSpawnVfs_spawns (k : Kernel) :
    Spawns out k (processReclaimZombies k) (appSpawnVfs out k).1 (appSpawnVfs out k).2 := by
  unfold appSpawnVfs
  split
  · exact .unresolved
  next hresolved =>
    dsimp only
    generalize processReclaimZombies k = r
    rcases processAlloc_cases r out.load.pid with heq | ⟨i, hi, hpid, hfresh, heq⟩
    · rw [heq]
      exact .full
    · rw [heq]
      dsimp only
      -- a failed load clears the slot again
      have hundo (k' : Kernel) (p : Pcb) (mm : Memory) (hk : k'.procs = update r.procs i p)
          (hp : p.state = .blocked) (hcur : k'.current = r.current) :
          Spawns out k r none { processRelease k' i with mm := mm } := by
        rcases processRelease_cases k' i with ⟨hidle, -⟩ | ⟨hprocs, hcurrent, -⟩
        · simp [hk, hp] at hidle
        · rw [hk, update_idem] at hprocs
          rw [hcur] at hcurrent
          exact .failed i _ hi hprocs hcurrent
      split
      · exact hundo _ _ _ (update_idem ..) rfl rfl
      · split
        · exact hundo _ _ _ (update_idem ..) rfl rfl
        · refine .spawned i _ hi (not_not.1 hresolved) hpid hfresh ?_ rfl
          simp only [Kernel.put, update_idem]
          congr 1
          unfold Load.spawned Load.entryFrame
          cases r.current <;> split <;> simp [processInit]

theorem undisturbed_spawnVfs (k : Kernel) :
    Undisturbed out.load.entryFrame k (appSpawnVfs out k).2 := by
  obtain ⟨hquiet, halive⟩ := quiet_reclaim k
  have hspawns := appSpawnVfs_spawns out k
  generalize processReclaimZombies k = r at *
  generalize appSpawnVfs out k = result at hspawns ⊢
  rcases result with ⟨reply, k'⟩
  have hslot {k' : Kernel} {i : Fin 16} {p : Pcb} (hfree : i ∉ r.live)
      (hprocs : k'.procs = update r.procs i p) (hcurrent : r.current ≠ some i → k'.current = r.current)
      (hfresh : p.Alive → processLoadContext p = out.load.entryFrame) :
      Undisturbed out.load.entryFrame k k' := by
    apply Undisturbed.onlySlot hquiet halive fun h => hfree (mem_live.2 h.1)
    · exact ⟨fun j hj => by rw [hprocs, update_of_ne hj], hcurrent⟩
    · rw [hprocs, update_self]
      exact hfresh
  cases hspawns with
  | unresolved => exact (Quiet.refl _).undisturbed
  | full => exact hquiet.undisturbed
  | failed i k' hfree hprocs hcurrent =>
    apply hslot hfree hprocs
    · intro hne
      rw [hcurrent, if_neg hne]
    · exact fun h => absurd h not_alive_unusedSlot
  | spawned i k' hfree _ _ _ hprocs hcurrent =>
    refine hslot hfree hprocs (fun _ => hcurrent) fun _ => ?_
    unfold processLoadContext Load.spawned Load.entryFrame
    split <;> rfl

theorem undisturbed_spawn (k : Kernel) : Undisturbed out.load.entryFrame k (sysSpawn out k).2 := by
  have hspawn := undisturbed_spawnVfs out k
  unfold sysSpawn
  split
  · exact (Quiet.refl k).undisturbed
  · split <;> next heq => rwa [heq] at hspawn

theorem undisturbed_call (k : Kernel) (current : Option (Fin 16)) (x : Fin 31 → BitVec 64) :
    Undisturbed out.load.entryFrame k (syscallCall out k current x).2 := by
  unfold syscallCall
  dsimp only
  split_ifs
  · exact (Quiet.refl k).undisturbed
  · exact undisturbed_spawn out k
  · exact undisturbed_spawn out k
  · exact (quiet_wait current (x 0)).undisturbed
  · exact (quiet_kill (x 0)).undisturbed
  · cases current with
    | none => exact (Quiet.refl k).undisturbed
    | some i =>
      exact (quiet_onlyRegions (userVmMapAnonymous_shape k i _ _ _)).undisturbed
  · cases current with
    | none => exact (Quiet.refl k).undisturbed
    | some i =>
      exact (quiet_onlyRegions (userVmUnmapAnonymous_shape k i _ _)).undisturbed
  · exact (Quiet.refl k).undisturbed

theorem processDispatchNext_contexts {current : Option (Fin 16)} {policy : DispatchPolicy}
    (h : processDispatchNext k current policy = some (frame, k')) :
    (∀ i, processLoadContext (k'.procs i) = processLoadContext (k.procs i)) ∧
      (∀ i, (k'.procs i).Alive → (k.procs i).Alive) ∧
      ∃ next, k'.current = some next ∧ frame = processLoadContext (k'.procs next) := by
  obtain ⟨next, hnext, hframe, rfl⟩ := processDispatchNext_eq_some h
  have hready := processNextRunnable_ready hnext
  have hqueue (i) : processLoadContext ((requeue k current policy).procs i) =
      processLoadContext (k.procs i) ∧
        (((requeue k current policy).procs i).Alive → (k.procs i).Alive) := by
    rcases requeue_procs k current policy i with hsame | ⟨-, -, hrunning, hsame⟩
    · rw [hsame]
      exact ⟨rfl, id⟩
    · rw [hsame]
      exact ⟨rfl, fun _ => alive_of_running hrunning⟩
  have hcontext (i) : processLoadContext (((requeue k current policy).put next
      { (requeue k current policy).procs next with state := .running }).procs i) =
        processLoadContext (k.procs i) := by
    by_cases hi : i = next
    · subst hi
      rw [put_procs_self]
      exact (hqueue i).1
    · rw [put_procs_of_ne hi]
      exact (hqueue i).1
  refine ⟨hcontext, fun i halive => ?_, next, rfl, hframe.trans (hcontext next).symm⟩
  by_cases hi : i = next
  · subst hi
    constructor <;> simp [hready]
  · refine (hqueue i).2 ?_
    rwa [← put_procs_of_ne hi
     ]

end Contexts

end Process
