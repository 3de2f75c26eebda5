import ArmoniOS.Process.Lives
import ArmoniOS.Process.Resume

/-! The system from boot on: `panel_boot_run` starts the first process, every other step is a trap of
the running one. At most one process runs, and the dispatcher goes round: a process that stays ready
is reached within fifteen dispatches. -/
namespace Process
open Exec Pmm Vmm Function List Option

/-- The first part of `sys_exit` and `handle_user_fault`. -/
def exitTable (k : Kernel) (code : BitVec 64) : Kernel :=
  match k.current with
  | some i => processMarkExited k i code
  | none => k

/-- The call of `process_dispatch_next` a trap makes, if it makes one: the table at that point, the
process it is called for and the policy. -/
def Trap.dispatch (k : Kernel) (frame : Frame) :
    Trap → Option (Kernel × Option (Fin 16) × DispatchPolicy)
  | .syscall _ =>
      let k := saveCurrent k frame
      if frame.x 8 = sysExitNumber then some (exitTable k (frame.x 0), k.current, .exit)
      else if frame.x 8 = sysYieldNumber then
        k.current.map fun i =>
          (k.put i { k.procs i with regs := update (k.procs i).regs 0 0 }, some i, .preempt)
      else none
  | .irq spurious =>
      let k := saveCurrent k frame
      if spurious then none
      else
        k.current.map fun i =>
          (k.put i { k.procs i with pc := frame.elr, pstate := frame.spsr, sp := frame.spEl0 },
            some i, .preempt)
  | .fault _ =>
      let k := saveCurrent k frame
      k.current.map fun i => (exitTable k userFaultExitCode, some i, .exit)

/-- How a trap ends: the caller goes on, the dispatcher has chosen another process, or there is none
left and the processor goes back to `panel_boot_run`. -/
inductive Ending where
  | stays
  | switched (next : Option (Fin 16))
  | left
  deriving DecidableEq

def Trap.ending (k : Kernel) (frame : Frame) (t : Trap) : Ending :=
  match t.dispatch k frame with
  | none => .stays
  | some (k, current, policy) =>
      match processDispatchNext k current policy with
      | some (_, k) => .switched k.current
      | none => if policy = .exit then .left else .stays

/-- What a trap of the running process `c` does, with the reply to its call. -/
inductive Outcome (t : Trap) (frame : Frame) (reply : Option (BitVec 64)) (L : Lives) (c : Fin 16) :
    Ending → Lives → Prop
  | stays : Outcome t frame reply L c .stays L
  | called {out : Outside} {value : BitVec 64} {L' : Lives} (ht : t = .syscall out)
      (hreply : reply = some value) (hcall : Called out frame.x L c value L') :
      Outcome t frame reply L c .stays L'
  | preempted (next : Fin 16) (hnext : L.NextReady c next) :
      Outcome t frame reply L c (.switched (some next))
        (update (update L c { L c with state := .ready }) next
          { L next with state := .running })
  | exited (code : BitVec 64) (next : Fin 16) (hnext : L.NextReady c next) :
      Outcome t frame reply L c (.switched (some next))
        (update (update L c ((L c).exit code)) next
          { L next with state := .running })
  | left (code : BitVec 64) (hnone : ∀ j, (L j).state ≠ .ready) :
      Outcome t frame reply L c .left (update L c ((L c).exit code))

section Traps
variable {k : Kernel} {c : Fin 16} {frame : Frame}

theorem lives_writeBack (k : Kernel) (frame : Frame) :
    (writeBack k frame).lives = k.lives ∧ (writeBack k frame).current = k.current := by
  unfold writeBack
  split
  · exact ⟨lives_put_same rfl, rfl⟩
  · exact ⟨rfl, rfl⟩

theorem saveCurrent_lives (hc : k.current = some c) (frame : Frame) :
    (saveCurrent k frame).lives = k.lives ∧ (saveCurrent k frame).current = some c := by
  rw [saveCurrent_eq hc]
  exact ⟨lives_put_same rfl, hc⟩

theorem nextReady_update {L : Lives} {l : Life} {next : Fin 16}
    (h : Lives.NextReady (update L c l) c next) : L.NextReady c next := by
  refine ⟨?_, h.other, fun j hj hjc => ?_⟩
  · have hready := h.ready
    rwa [update_of_ne h.other] at hready
  · apply h.first j _ hjc
    rwa [update_of_ne hjc]

theorem exitTable_lives (hc : k.current = some c) (hr : (k.lives c).state = .running)
    (code : BitVec 64) :
    (exitTable k code).lives = update k.lives c ((k.lives c).exit code) ∧
      (exitTable k code).current = some c := by
  have hz : (k.procs c).state ≠ .zombie := by
    rw [← lives_state, hr]
    simp
  unfold exitTable
  rw [hc]
  dsimp only
  unfold processMarkExited
  rw [if_neg hz]
  exact ⟨lives_put k c _, hc⟩

/-- The table a trap of `c` leaves behind. -/
def Settles (t : Trap) (frame : Frame) (reply : Option (BitVec 64)) (k : Kernel) (c : Fin 16)
    (ending : Ending) (k' : Kernel) : Prop :=
  Outcome t frame reply k.lives c ending k'.lives ∧
    k'.current = match ending with
      | .switched next => next
      | _ => some c

variable {k' k'' : Kernel} {t : Trap} {reply : Option (BitVec 64)} {frame' : Frame} {code : BitVec 64}

theorem settles_preempt (hr : (k.lives c).state = .running) (hlives : k'.lives = k.lives)
    (h : processDispatchNext k' (some c) .preempt = some (frame', k'')) :
    Settles t frame reply k c (.switched k''.current) k'' := by
  obtain ⟨next, hnext, hcurrent, heq⟩ := lives_dispatch h
  rw [hlives] at hnext heq
  have hqueued : (k.lives c).requeued .preempt = { k.lives c with state := .ready } := if_pos hr
  rw [hqueued] at heq
  refine ⟨?_, rfl⟩
  rw [hcurrent, heq]
  exact .preempted next hnext

theorem Settles.writeBack {ending : Ending} (h : Settles t frame reply k c ending k')
    (frame' : Frame) : Settles t frame reply k c ending (Process.writeBack k' frame') := by
  obtain ⟨hlives, hcurrent⟩ := lives_writeBack k' frame'
  unfold Settles
  rw [hlives, hcurrent]
  exact h

def endingOf (policy : DispatchPolicy) : Option (Frame × Kernel) → Ending
  | some (_, k) => .switched k.current
  | none => if policy = .exit then .left else .stays

theorem ending_of_dispatch {current : Option (Fin 16)} {policy : DispatchPolicy}
    (h : t.dispatch k frame = some (k', current, policy)) :
    t.ending k frame = endingOf policy (processDispatchNext k' current policy) := by
  unfold Trap.ending
  rw [h]
  rfl

theorem settles_exitCurrent (hr : (k.lives c).state = .running) (hlives : k'.lives = k.lives)
    (hcurrent : k'.current = some c) (out : Outside) (frame' : Frame) (code : BitVec 64) :
    Settles t frame reply k c
      (endingOf .exit (processDispatchNext (exitTable k' code) (some c) .exit))
      (exitCurrent out k' frame' code).2 := by
  obtain ⟨hexit, hstays⟩ := exitTable_lives hcurrent (hlives ▸ hr) code
  rw [hlives] at hexit
  have heq : exitCurrent out k' frame' code =
      (processDispatchNext (exitTable k' code) (some c) .exit).getD
        (leaveFrame out frame' code, exitTable k' code) := by
    unfold exitCurrent exitTable
    rw [hcurrent]
    dsimp only
    cases processDispatchNext (processMarkExited k' c code) (some c) .exit <;> rfl
  rw [heq]
  rcases hdispatch : processDispatchNext (exitTable k' code) (some c) .exit with _ | ⟨frame'', k''⟩
  · refine ⟨?_, hstays⟩
    rw [Option.getD_none, hexit]
    apply Outcome.left
    intro j hj
    have hjc : j ≠ c := by
      rintro rfl
      rw [hr] at hj
      cases hj
    apply hjc
    apply processDispatchNext_none hdispatch
    rw [hexit, update_of_ne hjc]
    exact hj
  · obtain ⟨next, hnext, hcurrent, heq⟩ := lives_dispatch hdispatch
    rw [hexit] at hnext heq
    rw [update_of_ne hnext.other, update_self, Life.requeued, update_idem] at heq
    refine ⟨?_, rfl⟩
    rw [Option.getD_some, heq]
    change Outcome t frame reply k.lives c (.switched k''.current) _
    rw [hcurrent]
    exact .exited code next (nextReady_update hnext)

theorem settles_yield (hr : (k.lives c).state = .running) (hlives : k'.lives = k.lives)
    (hcurrent : k'.current = some c) :
    Settles t frame reply k c (endingOf .preempt (processDispatchNext (k'.put c { k'.procs c with
        regs := update (k'.procs c).regs 0 0 }) (some c) .preempt))
      (sysYieldProcess k').2 := by
  have hput : (k'.put c { k'.procs c with
      regs := update (k'.procs c).regs 0 0 }).lives = k.lives := by
    rw [lives_put_same, hlives]
    rfl
  unfold sysYieldProcess
  rw [hcurrent]
  dsimp only
  rcases hdispatch : processDispatchNext (k'.put c { k'.procs c with
      regs := update (k'.procs c).regs 0 0 }) (some c) .preempt with _ | ⟨frame'', k''⟩
  · refine ⟨?_, hcurrent⟩
    rw [hput]
    exact .stays
  · exact settles_preempt hr hput hdispatch

theorem settles_syscall (h : k.lives.Ok) (hc : k.current = some c)
    (hr : (k.lives c).state = .running) (out : Outside) (frame : Frame) :
    Settles (.syscall out) frame (Trap.reply k frame (.syscall out)) k c
      (Trap.ending k frame (.syscall out)) (syscallDispatch out k frame).2 := by
  obtain ⟨hlives, hcurrent⟩ := saveCurrent_lives hc frame
  unfold syscallDispatch syscallBody
  dsimp only
  apply Settles.writeBack
  by_cases hexit : frame.x 8 = sysExitNumber
  · have hdispatch : Trap.dispatch k frame (.syscall out) =
        some (exitTable (saveCurrent k frame) (frame.x 0), some c, .exit) := by
      simp [Trap.dispatch, hexit, hcurrent]
    rw [ending_of_dispatch hdispatch, if_pos hexit]
    exact settles_exitCurrent hr hlives hcurrent out frame (frame.x 0)
  rw [if_neg hexit]
  by_cases hyield : frame.x 8 = sysYieldNumber
  · have hdispatch : Trap.dispatch k frame (.syscall out) =
        some ((saveCurrent k frame).put c { (saveCurrent k frame).procs c with
          regs := update ((saveCurrent k frame).procs c).regs 0 0 }, some c, .preempt) := by
      simp only [Trap.dispatch, if_neg hexit, if_pos hyield, hcurrent, map_some]
    have hsettles : Settles (.syscall out) frame (Trap.reply k frame (.syscall out)) k c _ _ :=
      settles_yield hr hlives hcurrent
    rw [ending_of_dispatch hdispatch, if_pos hyield]
    generalize sysYieldProcess (saveCurrent k frame) = result at hsettles ⊢
    rcases result with ⟨_ | frame', k'⟩ <;> exact hsettles
  · have hdispatch : Trap.dispatch k frame (.syscall out) = none := by
      simp [Trap.dispatch, hexit, hyield]
    have hending : Trap.ending k frame (.syscall out) = .stays := by
      unfold Trap.ending
      rw [hdispatch]
    obtain ⟨hcall, hstays⟩ := syscallCall_called (hlives ▸ h) hcurrent
      (hlives ▸ Life.alive_of_running hr) out frame.x
    rw [hending, if_neg hyield, hc]
    rw [hlives] at hcall
    refine ⟨.called rfl ?_ hcall, hstays⟩
    simp only [Trap.reply, if_neg hexit, if_neg hyield, hc]

theorem Trap.settles (h : k.lives.Ok) (hc : k.current = some c)
    (hr : (k.lives c).state = .running) (t : Trap) (frame : Frame) :
    Settles t frame (t.reply k frame) k c (t.ending k frame) (t.handle k frame).2 := by
  obtain ⟨hlives, hcurrent⟩ := saveCurrent_lives hc frame
  cases t with
  | syscall out => exact settles_syscall h hc hr out frame
  | irq spurious =>
    simp only [Trap.handle, irqHandlerFrame, hc]
    cases spurious with
    | true =>
      have hending : Trap.ending k frame (.irq true) = .stays := rfl
      rw [hending, if_pos rfl]
      refine ⟨?_, hcurrent⟩
      rw [hlives]
      exact .stays
    | false =>
      have hdispatch : Trap.dispatch k frame (.irq false) =
          some ((saveCurrent k frame).put c { (saveCurrent k frame).procs c with
            pc := frame.elr, pstate := frame.spsr, sp := frame.spEl0 }, some c, .preempt) := by
        simp only [Trap.dispatch, Bool.false_eq_true, if_false, hcurrent, map_some]
      have hput : ((saveCurrent k frame).put c { (saveCurrent k frame).procs c with
          pc := frame.elr, pstate := frame.spsr, sp := frame.spEl0 }).lives = k.lives := by
        rw [lives_put_same, hlives]
        rfl
      rw [ending_of_dispatch hdispatch, if_neg (by simp)]
      split
      next result hsome =>
        rw [hsome]
        exact settles_preempt hr hput hsome
      next hnone =>
        rw [hnone]
        refine ⟨?_, hcurrent⟩
        rw [hput]
        exact .stays
  | fault out =>
    have hdispatch : Trap.dispatch k frame (.fault out) =
        some (exitTable (saveCurrent k frame) userFaultExitCode, some c, .exit) := by
      simp [Trap.dispatch, hcurrent]
    rw [ending_of_dispatch hdispatch]
    simp only [Trap.handle, handleUserFault, hc]
    exact settles_exitCurrent hr hlives hcurrent out frame userFaultExitCode

end Traps

/-! ### Runs from boot -/

def panelBootPid : ℕ := 1

/-- Where the processor is: in the kernel, in user mode with `panel_boot_run` waiting in
`user_enter_el0`, or back from there. `panel_boot_run` keeps the slot of the panel. -/
inductive Mode where
  | kernel
  | user (panel : Fin 16)
  | returned (panel : Fin 16)
  deriving DecidableEq

structure System where
  kernel : Kernel
  nextSpawnPid : ℕ
  mode : Mode

/-- The pid of a new process is the value of `g_next_spawn_pid`. -/
def Trap.withPid (pid : ℕ) : Trap → Trap
  | .syscall out => .syscall { out with load := { out.load with pid := pid } }
  | .irq spurious => .irq spurious
  | .fault out => .fault out

/-- The call gets as far as `process_alloc(g_next_spawn_pid++)`. -/
def Trap.allocates (frame : Frame) : Trap → Prop
  | .syscall out => (frame.x 8 = sysSpawnNumber ∨ frame.x 8 = sysSpawnArgvNumber) ∧
      out.refused = none ∧ out.resolved = true
  | .irq _ => False
  | .fault _ => False

instance (frame : Frame) (t : Trap) : Decidable (t.allocates frame) :=
  match t with
  | .syscall _ => inferInstanceAs (Decidable (_ ∧ _))
  | .irq _ => inferInstanceAs (Decidable False)
  | .fault _ => inferInstanceAs (Decidable False)

/-- `panel_boot_run` up to `user_enter_el0`. -/
def panelBoot (s : System) (load : Load) : System :=
  let pid := if s.nextSpawnPid = 0 then panelBootPid + 1 else s.nextSpawnPid
  match processAlloc (processReclaimZombies s.kernel) panelBootPid with
  | (none, k) => ⟨k, pid, .kernel⟩
  | (some i, k) =>
      let p := { k.procs i with
        pageTable := load.pageTable, userRegions := load.userRegions, pc := load.pc, sp := load.sp,
        pstate := load.pstate }
      let k := { k with mm := load.mm }.put i p
      if ¬ load.loaded then
        let k := processRelease k i
        let pmm := load.storage.foldl pmmFreePage k.mm.pmm
        ⟨{ k with mm := { k.mm with pmm := pmm } }, pid, .kernel⟩
      else ⟨{ k.put i { p with state := .running } with current := some i }, pid, .user i⟩

/-- The end of `panel_boot_run`, after `user_enter_el0` has returned. -/
def panelReturn (k : Kernel) (panel : Fin 16) : Kernel :=
  processRelease (processReclaimZombies k) panel

/-- A trap is possible in user mode only; the other two are the parts of `panel_boot_run`. -/
inductive Event where
  | boot (load : Load)
  | trap (t : Trap) (frame : Frame)
  | back

def System.step (s : System) : Event → System
  | .boot load =>
      match s.mode with
      | .kernel => panelBoot s load
      | _ => s
  | .trap t frame =>
      match s.mode with
      | .user panel =>
          let t := t.withPid s.nextSpawnPid
          let k := (t.handle s.kernel frame).2
          let pid := if t.allocates frame then (s.nextSpawnPid + 1) % 2 ^ 32 else s.nextSpawnPid
          match t.ending s.kernel frame with
          | .left => ⟨k, pid, .returned panel⟩
          | _ => ⟨k, pid, .user panel⟩
      | _ => s
  | .back =>
      match s.mode with
      | .returned panel => ⟨panelReturn s.kernel panel, s.nextSpawnPid, .kernel⟩
      | _ => s

def System.start (mm : Memory) : System := ⟨processTableInit mm, 0, .kernel⟩

def System.run (s : System) (events : List Event) : System := events.foldl System.step s

/-- The process that a successful `process_dispatch_next` of this step has chosen. -/
def System.chosen (s : System) : Event → Option (Fin 16)
  | .trap t frame =>
      match s.mode with
      | .user _ =>
          match (t.withPid s.nextSpawnPid).ending s.kernel frame with
          | .switched next => next
          | _ => none
      | _ => none
  | _ => none

/-- The choices of all successful calls of `process_dispatch_next` in a run, in order. -/
def System.dispatched (s : System) : List Event → List (Fin 16)
  | [] => []
  | e :: events => (s.chosen e).toList ++ (s.step e).dispatched events

/-- Between two steps no process is half created, the only running process is the current one, and
without user mode the table is empty. -/
structure System.Ok (s : System) : Prop where
  lives : s.kernel.lives.Ok
  running : ∀ j, (s.kernel.lives j).state = .running → s.kernel.current = some j
  blocked : ∀ j, (s.kernel.lives j).state ≠ .blocked
  idle : s.mode = .kernel → s.kernel.current = none ∧ ∀ j, (s.kernel.lives j).state = .unused
  user : ∀ panel, s.mode = .user panel →
    ∃ c, s.kernel.current = some c ∧ (s.kernel.lives c).state = .running
  returned : ∀ panel, s.mode = .returned panel → ∃ c, s.kernel.current = some c ∧
    (s.kernel.lives c).state = .zombie ∧
    ∀ j, (s.kernel.lives j).state = .unused ∨ (s.kernel.lives j).state = .zombie

theorem unusedLives_ok : Lives.Ok fun _ => unusedLife :=
  ⟨fun _ h => absurd rfl h, fun _ _ h => absurd rfl h, fun _ _ => rfl⟩

theorem idle_ok {k : Kernel} (pid : ℕ) (hnone : k.current = none)
    (hidle : k.lives = fun _ => unusedLife) : System.Ok ⟨k, pid, .kernel⟩ := by
  have hstate (j) : (k.lives j).state = .unused := by rw [hidle]; rfl
  refine ⟨hidle ▸ unusedLives_ok, fun j hj => ?_, fun j hj => ?_, fun _ => ⟨hnone, hstate⟩,
    fun _ hmode => ?_, fun _ hmode => ?_⟩
  · cases (hstate j).symm.trans hj
  · cases (hstate j).symm.trans hj
  · cases hmode
  · cases hmode

theorem user_ok {k : Kernel} {n : Fin 16} (pid : ℕ) (panel : Fin 16) (hok : k.lives.Ok)
    (hblocked : ∀ j, (k.lives j).state ≠ .blocked) (hcurrent : k.current = some n)
    (hrun : (k.lives n).state = .running) (hone : ∀ j, (k.lives j).state = .running → j = n) :
    System.Ok ⟨k, pid, .user panel⟩ where
  lives := hok
  running j hj := by
    rw [hone j hj]
    exact hcurrent
  blocked := hblocked
  idle hmode := nomatch hmode
  user _ _ := ⟨n, hcurrent, hrun⟩
  returned _ hmode := nomatch hmode

theorem started_ok {k : Kernel} {i : Fin 16} (pid : ℕ) (hcurrent : k.current = some i)
    (hlives : k.lives = update (fun _ => unusedLife) i ⟨panelBootPid, 0, .running, 0⟩) :
    System.Ok ⟨k, pid, .user i⟩ := by
  apply user_ok pid i _ _ hcurrent
  · rw [hlives, update_self]
  · rw [hlives, forall_update_iff (fun _ => unusedLife) fun j l => l.state = .running → j = i]
    exact ⟨fun _ => rfl, fun j _ hj => nomatch hj⟩
  · rw [hlives]
    exact unusedLives_ok.insert (by simp) (by simp [panelBootPid]) fun _ _ h => absurd rfl h
  · rw [hlives, forall_update_iff (fun _ => unusedLife) fun _ l => l.state ≠ .blocked]
    exact ⟨by simp, by simp [unusedLife]⟩

theorem System.start_ok (mm : Memory) : (System.start mm).Ok := idle_ok 0 rfl rfl

section Steps
variable {s : System} {L L' : Lives} {c : Fin 16} {t : Trap} {frame : Frame}
  {reply : Option (BitVec 64)} {ending : Ending}

theorem Outcome.ok (h : Outcome t frame reply L c ending L') (hok : L.Ok)
    (hr : (L c).state = .running) : L'.Ok := by
  have hlive : (L c).state ≠ .unused := by simp [hr]
  have hswitch {l : Life} {next : Fin 16} (hnext : L.NextReady c next) (hl : l.state ≠ .unused)
      (hpid : l.pid = (L c).pid) :
      Lives.Ok (update (update L c l) next { L next with state := .running }) := by
    have hother : update L c l next = L next := update_of_ne hnext.other _ _
    apply (hok.keep hl hlive hpid).keep
    · simp
    · rw [hother, hnext.ready]
      simp
    · rw [hother]
  cases h with
  | stays => exact hok
  | called _ _ hcall => exact hcall.ok hok
  | preempted next hnext => exact hswitch hnext (by simp) rfl
  | exited code next hnext => exact hswitch hnext (by simp [Life.exit]) rfl
  | left code => exact hok.keep (by simp [Life.exit]) hlive rfl

theorem switch_states {l : Life} (next : Fin 16) (hone : ∀ j, (L j).state = .running → j = c)
    (hblocked : ∀ j, (L j).state ≠ .blocked) (hl : l.state ≠ .running) (hl' : l.state ≠ .blocked)
    (j : Fin 16) :
    ((update (update L c l) next { L next with state := .running } j).state = .running → j = next) ∧
      (update (update L c l) next { L next with state := .running } j).state ≠ .blocked := by
  by_cases hj : j = next
  · rw [hj, update_self]
    simp
  · rw [update_of_ne hj]
    by_cases hjc : j = c
    · rw [hjc, update_self]
      exact ⟨fun hrun => absurd hrun hl, hl'⟩
    · rw [update_of_ne hjc]
      exact ⟨fun hrun => absurd (hone j hrun) hjc, hblocked j⟩

/-- Who runs after a trap of `c`. -/
def RunsAfter (L : Lives) (c : Fin 16) : Ending → Prop
  | .stays => (L c).state = .running ∧ ∀ j, (L j).state = .running → j = c
  | .switched next => ∃ n, next = some n ∧ (L n).state = .running ∧
      ∀ j, (L j).state = .running → j = n
  | .left => (L c).state = .zombie ∧ ∀ j, (L j).state = .unused ∨ (L j).state = .zombie

theorem Outcome.states (h : Outcome t frame reply L c ending L') (hr : (L c).state = .running)
    (hone : ∀ j, (L j).state = .running → j = c) (hblocked : ∀ j, (L j).state ≠ .blocked) :
    (∀ j, (L' j).state ≠ .blocked) ∧ RunsAfter L' c ending := by
  cases h with
  | stays => exact ⟨hblocked, hr, hone⟩
  | called _ _ hcall =>
    have hcaller := hcall.caller (Life.alive_of_running hr)
    have hsame (j) (hj : (L' j).state = .blocked ∨ (L' j).state = .running) : L' j = L j := by
      rcases hcall.states j with heq | hstate | hstate | hstate
      · exact heq
      all_goals simp [hstate] at hj
    refine ⟨fun j hj => ?_, by rw [hcaller, hr], fun j hj => ?_⟩
    · exact hblocked j (hsame j (.inl hj) ▸ hj)
    · exact hone j (hsame j (.inr hj) ▸ hj)
  | preempted next =>
    have hstates := switch_states next hone hblocked
      (show { L c with state := ProcessState.ready }.state ≠ .running by simp) (by simp)
    exact ⟨fun j => (hstates j).2, next, rfl, by simp, fun j => (hstates j).1⟩
  | exited code next =>
    have hstates := switch_states next hone hblocked
      (show ((L c).exit code).state ≠ .running by simp [Life.exit]) (by simp [Life.exit])
    exact ⟨fun j => (hstates j).2, next, rfl, by simp, fun j => (hstates j).1⟩
  | left code hnone =>
    have hdead (j) : (update L c ((L c).exit code) j).state = .unused ∨
        (update L c ((L c).exit code) j).state = .zombie := by
      by_cases hj : j = c
      · rw [hj, update_self]
        exact .inr rfl
      · rw [update_of_ne hj]
        cases hstate : (L j).state with
        | unused => exact .inl rfl
        | ready => exact absurd hstate (hnone j)
        | running => exact absurd (hone j hstate) hj
        | blocked => exact absurd hstate (hblocked j)
        | zombie => exact .inr rfl
    refine ⟨fun j hj => ?_, by rw [update_self]; rfl, hdead⟩
    rcases hdead j with hstate | hstate
    all_goals
      rw [hj] at hstate
      cases hstate

theorem orphaned_of_dead (hdead : ∀ j, (L j).state = .unused ∨ (L j).state = .zombie) {j : Fin 16}
    (hj : (L j).state = .zombie) : L.Orphaned j := by
  refine ⟨hj, ?_⟩
  rintro ⟨m, halive, -⟩
  rcases hdead m with hm | hm
  · exact halive.1 hm
  · exact halive.2 hm

/-- Back in `panel_boot_run` all processes have exited, so that the last reclaim clears the table and
there is nothing left to release. -/
theorem panelReturn_idle {k : Kernel} (hok : k.lives.Ok) (hc : k.current = some c)
    (hz : (k.lives c).state = .zombie)
    (hdead : ∀ j, (k.lives j).state = .unused ∨ (k.lives j).state = .zombie) (panel : Fin 16) :
    (panelReturn k panel).current = none ∧ (panelReturn k panel).lives = fun _ => unusedLife := by
  have hlives : (processReclaimZombies k).lives = fun _ => unusedLife := by
    rw [lives_reclaim hok]
    funext j
    rcases hdead j with hj | hj
    · have hnot : ¬ k.lives.Orphaned j := fun ho => by cases hj.symm.trans ho.1
      rw [reclaim_of_not_orphaned hnot, hok.idle j hj]
    · exact reclaim_of_orphaned (orphaned_of_dead hdead hj)
  have hcurrent : (processReclaimZombies k).current = none := by
    rw [reclaim_current hok, hc, filter_some, if_neg]
    simp [orphaned_of_dead hdead hz]
  unfold panelReturn
  rcases processRelease_cases (processReclaimZombies k) panel with ⟨-, heq⟩ | ⟨hprocs, hcur, -⟩
  · rw [heq]
    exact ⟨hcurrent, hlives⟩
  · constructor
    · rw [hcur, hcurrent]
      simp
    · rw [lives_update hprocs, hlives]
      exact update_eq_self panel fun _ => unusedLife

theorem System.Ok.trap (h : s.Ok) (t : Trap) (frame : Frame) : (s.step (.trap t frame)).Ok := by
  unfold System.step
  cases hmode : s.mode with
  | kernel => exact h
  | returned panel => exact h
  | user panel =>
    obtain ⟨c, hc, hr⟩ := h.user panel hmode
    have hone (j) (hj : (s.kernel.lives j).state = .running) : j = c :=
      some.inj ((h.running j hj).symm.trans hc)
    obtain ⟨houtcome, hcurrent⟩ := Trap.settles h.lives hc hr (t.withPid s.nextSpawnPid) frame
    have hok := houtcome.ok h.lives hr
    obtain ⟨hblocked, hstates⟩ := houtcome.states hr hone h.blocked
    dsimp only
    cases hending : (t.withPid s.nextSpawnPid).ending s.kernel frame with
    | stays =>
      rw [hending] at hcurrent hstates
      exact user_ok _ panel hok hblocked hcurrent hstates.1 hstates.2
    | switched next =>
      rw [hending] at hcurrent hstates
      obtain ⟨n, rfl, hrun, hstates⟩ := hstates
      exact user_ok _ panel hok hblocked hcurrent hrun hstates
    | left =>
      rw [hending] at hcurrent hstates
      obtain ⟨hzombie, hdead⟩ := hstates
      refine ⟨hok, fun j hj => ?_, hblocked, fun hm => ?_, fun _ hm => ?_,
        fun _ _ => ⟨c, hcurrent, hzombie, hdead⟩⟩
      · rcases hdead j with hj' | hj' <;> cases hj.symm.trans hj'
      · cases hm
      · cases hm

theorem System.Ok.back (h : s.Ok) : (s.step .back).Ok := by
  unfold System.step
  cases hmode : s.mode with
  | kernel => exact h
  | user panel => exact h
  | returned panel =>
    obtain ⟨c, hc, hz, hdead⟩ := h.returned panel hmode
    obtain ⟨hnone, hidle⟩ := panelReturn_idle h.lives hc hz hdead panel
    exact idle_ok _ hnone hidle

/-- What `panel_boot_run` makes of an empty table: the panel alone, running, or nothing. -/
theorem panelBoot_cases (h : s.Ok) (hmode : s.mode = .kernel) (load : Load) :
    (panelBoot s load).mode = .kernel ∧ (panelBoot s load).kernel.current = none ∧
        (panelBoot s load).kernel.lives = (fun _ => unusedLife) ∨
      ∃ i, (panelBoot s load).mode = .user i ∧ (panelBoot s load).kernel.current = some i ∧
        (panelBoot s load).kernel.lives =
          update (fun _ => unusedLife) i ⟨panelBootPid, 0, .running, 0⟩ := by
  obtain ⟨hnone, hunused⟩ := h.idle hmode
  have hidle : (processReclaimZombies s.kernel).lives = fun _ => unusedLife := by
    rw [lives_reclaim h.lives]
    funext j
    have hnot : ¬ s.kernel.lives.Orphaned j := fun ho => by cases (hunused j).symm.trans ho.1
    rw [reclaim_of_not_orphaned hnot, h.lives.idle j (hunused j)]
  have hcurrent : (processReclaimZombies s.kernel).current = none := by
    rw [reclaim_current h.lives, hnone]
    rfl
  unfold panelBoot
  generalize processReclaimZombies s.kernel = r at *
  rcases processAlloc_cases r panelBootPid with heq | ⟨i, -, -, -, heq⟩
  · rw [heq]
    exact .inl ⟨rfl, hcurrent, hidle⟩
  · rw [heq]
    dsimp only
    rw [put_procs_self]
    -- the table with the panel in slot `i` and nothing else
    have hput (p : Pcb) (count : ℕ) (mm : Memory) :
        (Kernel.put { r.put i (processInit panelBootPid) with count := count, mm := mm } i p).lives =
          update (fun _ => unusedLife) i p.life := by
      rw [← hidle]
      exact lives_update (update_idem ..)
    split
    · refine .inl ⟨rfl, ?_, ?_⟩
      · rw [release_current (by rw [put_procs_self]; simp [processInit]), if_neg]
        · exact hcurrent
        · intro hcur
          cases hcurrent.symm.trans hcur
      · change (processRelease _ i).lives = _
        rw [lives_release (by rw [put_procs_self]; simp [processInit]), hput, update_idem]
        exact update_eq_self i (fun _ => unusedLife)
    · refine .inr ⟨i, rfl, rfl, ?_⟩
      change (Kernel.put _ i _).lives = _
      rw [lives_put, hput, update_idem]
      rfl

theorem System.Ok.boot (h : s.Ok) (load : Load) : (s.step (.boot load)).Ok := by
  unfold System.step
  cases hmode : s.mode with
  | user panel => exact h
  | returned panel => exact h
  | kernel =>
    dsimp only
    rcases panelBoot_cases h hmode load with ⟨hm, hnone, hidle⟩ | ⟨i, hm, hcurrent, hlives⟩
    all_goals
      generalize panelBoot s load = booted at *
      obtain ⟨k, pid, mode⟩ := booted
      subst hm
    · exact idle_ok pid hnone hidle
    · exact started_ok pid hcurrent hlives

theorem System.Ok.step (h : s.Ok) (e : Event) : (s.step e).Ok := by
  cases e with
  | boot load => exact h.boot load
  | trap t frame => exact h.trap t frame
  | back => exact h.back

theorem System.Ok.run (h : s.Ok) (events : List Event) : (s.run events).Ok := by
  induction events generalizing s with
  | nil => exact h
  | cons e events ih => exact ih (h.step e)

end Steps

/-! ### Fairness -/

section Fairness
variable {s : System} {i : Fin 16} {c : Fin 16}

theorem distance_pos (h : i ≠ c) : 0 < distance c i := by
  simp only [distance, Fin.sub_def]
  omega

theorem distance_le (c i : Fin 16) : distance c i ≤ 15 := by
  simp only [distance]
  omega

theorem distance_lt {c n : Fin 16} (hn : n ≠ c) (hni : n ≠ i) (hle : distance c n ≤ distance c i) :
    distance n i < distance c i := by
  simp only [distance, Fin.sub_def] at *
  omega

theorem System.Ok.user_of_ready (h : s.Ok) (hi : (s.kernel.lives i).state = .ready) :
    ∃ panel c, s.mode = .user panel ∧ s.kernel.current = some c ∧
      (s.kernel.lives c).state = .running ∧ i ≠ c := by
  cases hmode : s.mode with
  | kernel => cases ((h.idle hmode).2 i).symm.trans hi
  | returned panel =>
    obtain ⟨-, -, -, hdead⟩ := h.returned panel hmode
    rcases hdead i with hi' | hi' <;> cases hi.symm.trans hi'
  | user panel =>
    obtain ⟨c, hc, hr⟩ := h.user panel hmode
    refine ⟨panel, c, rfl, hc, hr, ?_⟩
    rintro rfl
    cases hi.symm.trans hr

/-- While `i` is ready, a step without a successful dispatch leaves the current process in place, and
every successful dispatch chooses `i` or comes nearer to it. -/
theorem System.Ok.approaches (h : s.Ok) (hi : (s.kernel.lives i).state = .ready)
    (hc : s.kernel.current = some c) (e : Event) :
    s.chosen e = none ∧ (s.step e).kernel.current = some c ∨
      ∃ n, s.chosen e = some n ∧ (s.step e).kernel.current = some n ∧ 0 < distance c i ∧
        (n ≠ i → distance n i < distance c i) := by
  obtain ⟨panel, c', hmode, hc', hr, hic⟩ := h.user_of_ready hi
  obtain rfl : c = c' := some.inj (hc.symm.trans hc')
  cases e with
  | boot load =>
    refine .inl ⟨rfl, ?_⟩
    simp only [System.step, hmode]
    exact hc
  | back =>
    refine .inl ⟨rfl, ?_⟩
    simp only [System.step, hmode]
    exact hc
  | trap t frame =>
    obtain ⟨houtcome, hcurrent⟩ := Trap.settles h.lives hc hr (t.withPid s.nextSpawnPid) frame
    unfold System.chosen System.step
    rw [hmode]
    dsimp only
    generalize (t.withPid s.nextSpawnPid).handle s.kernel frame = result at *
    generalize (t.withPid s.nextSpawnPid).ending s.kernel frame = ending at *
    have hnear {next : Fin 16} (hnext : s.kernel.lives.NextReady c next) (hni : next ≠ i) :=
      distance_lt hnext.other hni (hnext.first i hi hic)
    generalize result.2.lives = L' at houtcome
    cases houtcome with
    | stays => exact .inl ⟨rfl, hcurrent⟩
    | called => exact .inl ⟨rfl, hcurrent⟩
    | preempted next hnext => exact .inr ⟨next, rfl, hcurrent, distance_pos hic, hnear hnext⟩
    | exited code next hnext => exact .inr ⟨next, rfl, hcurrent, distance_pos hic, hnear hnext⟩
    | left code hnone => exact absurd hi (hnone i)

/-- The run lemma: the way to `i` bounds the number of dispatches until `i` is chosen. -/
theorem System.Ok.reaches (events : List Event) {s : System} (h : s.Ok)
    (hready : ∀ n, i ∉ s.dispatched (events.take n) → ((s.run (events.take n)).kernel.lives i).state = .ready)
    (hc : s.kernel.current = some c) (hlen : distance c i ≤ (s.dispatched events).length) :
    i ∈ (s.dispatched events).take (distance c i) := by
  induction events generalizing s c with
  | nil =>
    obtain ⟨-, c', -, hc', -, hic⟩ := h.user_of_ready (hready 0 (by simp [System.dispatched]))
    obtain rfl : c = c' := some.inj (hc.symm.trans hc')
    have hpos := distance_pos hic
    rw [System.dispatched, length_nil] at hlen
    omega
  | cons e events ih =>
    have hi := hready 0 (by simp [System.dispatched])
    have hnext (hskip : i ∉ (s.chosen e).toList) (n : ℕ)
        (hn : i ∉ (s.step e).dispatched (events.take n)) :
        (((s.step e).run (events.take n)).kernel.lives i).state = .ready := by
      apply hready (n + 1)
      rw [take_succ_cons, System.dispatched, mem_append]
      exact not_or.2 ⟨hskip, hn⟩
    rcases h.approaches hi hc e with ⟨hnone, hstay⟩ | ⟨n, hchosen, hcurrent, hpos, hnear⟩
    · have hskip : i ∉ (s.chosen e).toList := by simp [hnone]
      rw [System.dispatched, hnone] at hlen ⊢
      exact ih (h.step e) (hnext hskip) hstay hlen
    · rw [System.dispatched, hchosen] at hlen ⊢
      obtain ⟨d, hd⟩ := Nat.exists_eq_succ_of_ne_zero hpos.ne'
      rw [hd, toList_some, singleton_append, length_cons] at hlen
      rw [hd, toList_some, singleton_append, take_succ_cons, mem_cons]
      by_cases hni : n = i
      · exact .inl hni.symm
      · have hskip : i ∉ (s.chosen e).toList := by simpa [hchosen] using Ne.symm hni
        have hmem := ih (h.step e) (hnext hskip) hcurrent (by omega)
        exact .inr ((take_prefix_take_left (by omega)).subset hmem)

end Fairness

/-- In every state that is reached from boot at most one process runs, the current one. A process that
stays ready until it is dispatched is among the next fifteen that are dispatched. -/
theorem one_running_and_fair (mm : Memory) (before : List Event) :
    let s := (System.start mm).run before
    (∀ j, (s.kernel.procs j).state = .running → s.kernel.current = some j) ∧
    ∀ events i, (∀ n, i ∉ s.dispatched (events.take n) →
        ((s.run (events.take n)).kernel.procs i).state = .ready) →
      15 ≤ (s.dispatched events).length → i ∈ (s.dispatched events).take 15 := by
  intro s
  have h : s.Ok := (System.start_ok mm).run before
  refine ⟨h.running, fun events i hready hlen => ?_⟩
  obtain ⟨-, c, -, hc, -, -⟩ := h.user_of_ready (hready 0 (by simp [System.dispatched]))
  have hle := distance_le c i
  have hmem := h.reaches events hready hc (hle.trans hlen)
  exact (take_prefix_take_left hle).subset hmem

def noMemory : Memory := ⟨fun _ _ => 0, ⟨fun _ => 0, 0, 0, 0⟩⟩

def readyLoad : Load := ⟨0, noMemory, [], 0, [], 0, 0, 0, true, true, 0, 0⟩

def callFrame (number arg : BitVec 64) : Frame :=
  ⟨fun n => if n = 8 then number else if n = 0 then arg else 0, 0, 0, 0⟩

def callEvent (number arg : BitVec 64) : Event :=
  .trap (.syscall ⟨0, 0, none, true, readyLoad⟩) (callFrame number arg)

def twoStarted : List Event := [.boot readyLoad, callEvent sysSpawnNumber 0]

def yieldEvent : Event := callEvent sysYieldNumber 0

theorem one_running_and_fair_two_processes :
    let s := (System.start noMemory).run twoStarted
    (s.dispatched (replicate 15 yieldEvent)).length = 15 ∧
      1 ∈ (s.dispatched (replicate 15 yieldEvent)).take 15 := by
  intro s
  have hlen : (s.dispatched (replicate 15 yieldEvent)).length = 15 := by decide +kernel
  refine ⟨hlen, (one_running_and_fair noMemory twoStarted).2 _ 1 (fun n hn => ?_) hlen.ge⟩
  cases n with
  | zero => rfl
  | succ n =>
    have hfirst : s.chosen yieldEvent = some 1 := by decide +kernel
    have hmem : (1 : Fin 16) ∈ s.dispatched ((replicate 15 yieldEvent).take (n + 1)) := by
      rw [replicate_succ, take_succ_cons, System.dispatched]
      rw [hfirst]
      simp
    exact absurd hmem hn

end Process
