import ArmoniOS.Gui.Damage

/-! The deferred work of `irq.c`: interrupt handlers publish bits in `pending_work`, and
`runtime_service_run_pending` takes them and runs the handlers of the timer tick and of the network
until a deadline. The build is the one without `ARMONIOS_TEST`. -/
namespace Runtime
open BitVec

def workPeriodic : BitVec 32 := 1
def workInput : BitVec 32 := 2
def workNetwork : BitVec 32 := 4
def workAll : BitVec 32 := workPeriodic ||| workInput ||| workNetwork

def inputEventBudget : BitVec 32 := 16
def networkFrameBudget : BitVec 32 := 16
def redrawDamageBudget : ℕ := 8

def metricCount : ℕ := 8
def metricInputConsumed : Fin metricCount := ⟨1, by decide⟩
def metricRedraw : BitVec 32 := 2
def metricNetworkFrames : Fin metricCount := ⟨3, by decide⟩
def metricDamageItems : BitVec 32 := 5
def metricFullRedraws : BitVec 32 := 6
def metricRedrawExhaustions : BitVec 32 := 7

/-- The low nibble holds the batch plus one, so that zero means no prepared redraw. -/
def redrawCountMask : BitVec 8 := 0x0f
def redrawFull : BitVec 8 := 1 <<< 4
def redrawSuccess : BitVec 8 := 1 <<< 5
def redrawExhausted : BitVec 32 := 1 <<< 6

def phaseDeadline : BitVec 8 := 1 <<< 3

/-- `runtime_service_stats_t`. -/
structure Stats where
  requestCount : BitVec 64
  coalescedRequestCount : BitVec 64
  runCount : BitVec 64
  emptyRunCount : BitVec 64
  requeueCount : BitVec 64
  lastDurationTicks : BitVec 64
  maxDurationTicks : BitVec 64
  totalDurationTicks : BitVec 64
  overBudgetCount : BitVec 64
  inputBudgetExhaustionCount : BitVec 64
  networkBudgetExhaustionCount : BitVec 64
  counterFrequencyHz : BitVec 64
  budgetTicks : BitVec 64
  metricTotal : Fin metricCount → BitVec 64
  inputQueueOverflowCount : BitVec 64
  metricLast : Fin metricCount → BitVec 32
  metricMax : Fin metricCount → BitVec 32
  maxInputQueueDepth : BitVec 32
  inputQueueHighWater : BitVec 32
  pendingWork : BitVec 32
  lastWork : BitVec 32

/-- What an observer notes down and no function reads: whether the deadline expired in this pass, the
bits whose handler returned in it, and the bits requested in it. -/
structure Watch where
  expired : Bool
  completed : BitVec 32
  requested : BitVec 32

/-- The statics of `irq.c`, the damage of the desktop with `g_gui_active`, the flag of `kernel.c` that
the display is there, and the clock readings still to come. -/
structure State where
  stats : Stats
  phase : BitVec 8
  redrawState : BitVec 8
  screen : Gui.Screen
  active : Bool
  damage : Gui.Damage
  displayReady : Bool
  clock : ℕ → BitVec 64
  watch : Watch

def State.readClock (s : State) : BitVec 64 × State :=
  (s.clock 0, { s with clock := fun n => s.clock (n + 1) })

def runtimeServiceDeadline (s : State) : Bool × State :=
  if s.phase = phaseDeadline then (true, s)
  else
    let (now, s) := s.readClock
    if now < s.stats.lastDurationTicks then (false, s)
    else (true, { s with
      stats.pendingWork := s.stats.pendingWork ||| s.stats.lastWork
      stats.overBudgetCount := s.stats.overBudgetCount + 1
      phase := phaseDeadline
      watch.expired := true })

def runtimeServiceReportMetric (metric value : BitVec 32) (s : State) : State :=
  if s.phase = 0 ∨ value = 0 then s
  else if h : metric.toNat < metricCount then
    let i : Fin metricCount := ⟨metric.toNat, h⟩
    let current := s.stats.metricLast i + value
    (runtimeServiceDeadline { s with
      stats.metricLast := Function.update s.stats.metricLast i current
      stats.metricTotal :=
        Function.update s.stats.metricTotal i (s.stats.metricTotal i + value.setWidth 64)
      stats.metricMax := if s.stats.metricMax i < current
        then Function.update s.stats.metricMax i current else s.stats.metricMax }).2
  else s

def preparedState (originalCount batch : ℕ) : BitVec 8 :=
  let state := BitVec.ofNat 32 (batch + 1)
  (if batch < originalCount then state ||| redrawExhausted else state).setWidth 8

/-- The damage that `gui_render` is called with, if the desktop is drawn: at most eight rectangles, since
the count is lowered around the call. -/
def runtimeServiceGuiRender (s : State) : Option Gui.Damage × State :=
  let (late, s) := runtimeServiceDeadline s
  if late then (none, s)
  else if s.active = false then (none, { s with redrawState := 1 })
  else if s.damage.full then (some s.damage, { s with redrawState := redrawFull ||| 1 })
  else
    let originalCount := s.damage.rects.length
    let batch := min originalCount redrawDamageBudget
    (some { s.damage with rects := s.damage.rects.take batch },
      { s with redrawState := preparedState originalCount batch })

/-- The batch of a packed state, as the `uint32_t` that the code computes. -/
def redrawBatch (state : BitVec 8) : BitVec 32 := (state &&& redrawCountMask).setWidth 32 - 1

def reportPrepared (state : BitVec 8) (s : State) : State :=
  if state &&& redrawFull ≠ 0 then runtimeServiceReportMetric metricFullRedraws 1 s
  else
    let s := runtimeServiceReportMetric metricDamageItems (redrawBatch state) s
    if state.setWidth 32 &&& redrawExhausted ≠ 0
    then runtimeServiceReportMetric metricRedrawExhaustions 1 s else s

/-- `state` is the redraw state at the start of the report. -/
def markRedrawn (state : BitVec 8) (s : State) : State :=
  if s.redrawState ≠ 0 then { s with redrawState := state ||| redrawSuccess } else s

def runtimeServiceReportRedraw (s : State) : State :=
  let state := s.redrawState
  let s := runtimeServiceReportMetric metricRedraw 1 s
  if state = 0 then s else markRedrawn state (reportPrepared state s)

def runtimeServiceGuiClearDirty (s : State) : State :=
  let state := s.redrawState
  let s := { s with redrawState := 0 }
  if state &&& redrawSuccess = 0 ∨ s.active = false then s
  else
    let batch := (redrawBatch state).toNat
    if state &&& redrawFull ≠ 0 ∨ s.damage.rects.length ≤ batch then
      { s with damage := Gui.guiClearDirty s.damage }
    else { s with damage.rects := s.damage.rects.drop batch }

/-- `if (new > old) old = new`. -/
def raise {n : ℕ} (old new : BitVec n) : BitVec n := if old < new then new else old

def runtimeServiceReportInputQueue (depth highWater : BitVec 32) (overflowCount : BitVec 64)
    (s : State) : State :=
  if s.phase = 0 then s
  else { s with
    stats.maxInputQueueDepth := raise s.stats.maxInputQueueDepth depth
    stats.inputQueueHighWater := raise s.stats.inputQueueHighWater highWater
    stats.inputQueueOverflowCount := raise s.stats.inputQueueOverflowCount overflowCount }

def runtimeServiceRequest (work : BitVec 32) (s : State) : State :=
  let accepted := work &&& workAll
  if accepted = 0 then s
  else { s with
    stats.requestCount := s.stats.requestCount + 1
    stats.coalescedRequestCount := if s.stats.pendingWork &&& accepted ≠ 0
      then s.stats.coalescedRequestCount + 1 else s.stats.coalescedRequestCount
    stats.pendingWork := s.stats.pendingWork ||| accepted
    watch.requested := s.watch.requested ||| accepted }

/-- `bump` adds one to the counter that is passed by its address. -/
def runtimeServiceRequeueBudget (work : BitVec 32) (bump : Stats → Stats) (s : State) : State :=
  if s.stats.pendingWork &&& work = 0 then
    { s with stats := { bump s.stats with
        requestCount := s.stats.requestCount + 1
        pendingWork := s.stats.pendingWork ||| work } }
  else s

/-- `runtime_service_input_poll`, up to the call of `input_queue_poll` where it comes to that. -/
def runtimeServiceInputPoll (available : Bool) (s : State) : State :=
  if s.phase = 0 then s
  else if s.phase.setWidth 32 &&& workInput = 0 then s
  else if s.stats.metricLast metricInputConsumed < inputEventBudget then s
  else if available then
    runtimeServiceRequeueBudget workInput
      (fun st => { st with inputBudgetExhaustionCount := st.inputBudgetExhaustionCount + 1 }) s
  else s

/-- `runtime_service_virtio_net_recv`, up to the call of `virtio_net_recv`. -/
def runtimeServiceVirtioNetRecv (s : State) : State :=
  if s.phase.setWidth 32 &&& workNetwork = 0 then s
  else if networkFrameBudget ≤ s.stats.metricLast metricNetworkFrames then
    runtimeServiceRequeueBudget workNetwork
      (fun st => { st with networkBudgetExhaustionCount := st.networkBudgetExhaustionCount + 1 }) s
  else s

def runtimeServiceConfigureTiming (counterFrequencyHz budgetTicks : BitVec 64) (s : State) : State :=
  { s with stats.counterFrequencyHz := counterFrequencyHz, stats.budgetTicks := budgetTicks }

/-- How `virtio_gpu_draw` ends: before it draws, after it drew, or with the picture on the screen. -/
inductive Display where
  | unready
  | failed
  | done
  deriving DecidableEq

/-- `board_display_redraw` of the board with a display. -/
def boardDisplayRedraw : Display → State → State
  | .unready, s => s
  | .failed, s => (runtimeServiceGuiRender s).2
  | .done, s => runtimeServiceReportRedraw (runtimeServiceGuiRender s).2

def flushDirtyRedraw (display : Display) (s : State) : State :=
  if s.displayReady = true ∧ s.damage.dirty = true then
    runtimeServiceGuiClearDirty (boardDisplayRedraw display s)
  else s

/-- `gui_damage_add` on the desktop. -/
def damageAdd (x y w h : ℤ) (s : State) : State :=
  { s with damage := Gui.guiDamageAdd s.screen s.damage x y w h }

def guiRequestRedraw (s : State) : State :=
  if s.active then { s with damage := Gui.guiDamageAddFull s.damage }
  else { s with damage.dirty := true }

inductive Call where
  | request (work : BitVec 32)
  | configureTiming (counterFrequencyHz budgetTicks : BitVec 64)
  | reportMetric (metric value : BitVec 32)
  | reportInputQueue (depth highWater : BitVec 32) (overflowCount : BitVec 64)
  | inputPoll (available : Bool)
  | netRecv
  | damage (x y w h : ℤ)
  | requestRedraw
  | redraw (display : Display)

def Call.run : Call → State → State
  | .request work => runtimeServiceRequest work
  | .configureTiming frequency budget => runtimeServiceConfigureTiming frequency budget
  | .reportMetric metric value => runtimeServiceReportMetric metric value
  | .reportInputQueue depth highWater overflow => runtimeServiceReportInputQueue depth highWater overflow
  | .inputPoll available => runtimeServiceInputPoll available
  | .netRecv => runtimeServiceVirtioNetRecv
  | .damage x y w h => damageAdd x y w h
  | .requestRedraw => guiRequestRedraw
  | .redraw display => flushDirtyRedraw display

def runCalls (calls : List Call) (s : State) : State := calls.foldl (fun s c => c.run s) s

/-- The calls that `kernel_on_timer_tick` and `kernel_io_poll_network` make in a pass. -/
structure Pass where
  tick : List Call
  network : List Call

def takeWork (s : State) : State :=
  { s with
    stats.pendingWork := 0
    stats.lastWork := s.stats.pendingWork
    stats.metricLast := fun _ => 0
    phase := 0
    redrawState := 0
    watch.expired := false
    watch.completed := 0
    watch.requested := 0 }

def runTick (calls : List Call) (work : BitVec 32) (s : State) : State :=
  let mine := work &&& (workPeriodic ||| workInput)
  if mine ≠ 0 then
    let s := runCalls calls { s with phase := mine.setWidth 8 }
    (runtimeServiceDeadline { s with watch.completed := s.watch.completed ||| mine }).2
  else s

def runNetwork (calls : List Call) (work : BitVec 32) (s : State) : State :=
  if work &&& workNetwork ≠ 0 ∧ s.phase ≠ phaseDeadline then
    let (late, s) := runtimeServiceDeadline { s with phase := workNetwork.setWidth 8 }
    if late then s
    else
      let s := runCalls calls s
      (runtimeServiceDeadline
        { s with watch.completed := s.watch.completed ||| workNetwork }).2
  else s

def finishPass (started : BitVec 64) (s : State) : State :=
  let (now, s) := s.readClock
  let duration := now - started
  { s with
    phase := 0
    stats.runCount := s.stats.runCount + 1
    stats.lastDurationTicks := duration
    stats.totalDurationTicks := s.stats.totalDurationTicks + duration
    stats.maxDurationTicks := raise s.stats.maxDurationTicks duration
    stats.requeueCount := if s.stats.pendingWork ≠ 0 then s.stats.requeueCount + 1
      else s.stats.requeueCount }

def runtimeServiceRunPending (p : Pass) (s : State) : BitVec 32 × State :=
  let work := s.stats.pendingWork
  let s := takeWork s
  if work = 0 then (0, { s with stats.emptyRunCount := s.stats.emptyRunCount + 1 })
  else
    let (started, s) := s.readClock
    let s := { s with stats.lastDurationTicks := started + s.stats.budgetTicks }
    let s := runTick p.tick work s
    let s := runNetwork p.network work s
    (work, finishPass started s)

/-! ### Runs -/

inductive Step where
  | call (c : Call)
  | pass (p : Pass)

def State.step (s : State) : Step → State
  | .call c => c.run s
  | .pass p => (runtimeServiceRunPending p s).2

def State.run (s : State) (steps : List Step) : State := steps.foldl State.step s

def Stats.zero : Stats :=
  ⟨0, 0, 0, 0, 0, 0, 0, 0, 0, 0, 0, 0, 0, fun _ => 0, 0, fun _ => 0, fun _ => 0, 0, 0, 0, 0⟩

/-- The service before its first call, with the desktop as `gui_init_for_framebuffer` leaves it. -/
def State.boot (screen : Gui.Screen) (active displayReady : Bool) (clock : ℕ → BitVec 64) : State where
  stats := Stats.zero
  phase := 0
  redrawState := 0
  screen := screen
  active := active
  damage := ⟨[], false, false⟩
  displayReady := displayReady
  clock := clock
  watch := ⟨false, 0, 0⟩

/-! ### No work is lost -/

/-- The bits of `a` are among those of `b`. -/
def Within (a b : BitVec 32) : Prop := ∀ i, a.getLsbD i = true → b.getLsbD i = true

section Within
variable {a b c : BitVec 32}

theorem Within.refl (a : BitVec 32) : Within a a := fun _ h => h

theorem Within.trans (hab : Within a b) (hbc : Within b c) : Within a c := fun i h => hbc i (hab i h)

theorem Within.or_left (h : Within a b) (c : BitVec 32) : Within a (b ||| c) := by
  intro i ha
  rw [getLsbD_or, h i ha, Bool.true_or]

theorem Within.or_right (h : Within a c) (b : BitVec 32) : Within a (b ||| c) := by
  intro i ha
  rw [getLsbD_or, h i ha, Bool.or_true]

theorem Within.or (ha : Within a c) (hb : Within b c) : Within (a ||| b) c := by
  intro i h
  rw [getLsbD_or, Bool.or_eq_true] at h
  exact h.elim (ha i) (hb i)

theorem zero_within (b : BitVec 32) : Within 0 b := by
  intro i h
  simp at h

theorem within_and_right (a b : BitVec 32) : Within (a &&& b) b := by
  intro i h
  rw [getLsbD_and, Bool.and_eq_true] at h
  exact h.2

end Within

structure Progress where
  pending : BitVec 32
  lastWork : BitVec 32
  requested : BitVec 32
  completed : BitVec 32
  late : Bool
  expired : Bool

def State.progress (s : State) : Progress :=
  ⟨s.stats.pendingWork, s.stats.lastWork, s.watch.requested, s.watch.completed,
    decide (s.phase = phaseDeadline), s.watch.expired⟩

/-- In a pass that took the bits `taken` and whose handlers have returned for `done`. -/
structure Progress.Ok (taken done : BitVec 32) (p : Progress) : Prop where
  pending : Within p.pending workAll
  lastWork : p.lastWork = taken
  taken : Within p.lastWork workAll
  requested : Within p.requested p.pending
  expired : p.expired = true → Within p.lastWork p.pending
  late : p.late = true → p.expired = true
  completed : p.completed = done

section Progress
variable {taken done : BitVec 32} {s : State}

theorem deadline_ok (h : s.progress.Ok taken done) :
    (runtimeServiceDeadline s).2.progress.Ok taken done := by
  unfold runtimeServiceDeadline
  split_ifs
  · exact h
  · dsimp only [State.readClock]
    split_ifs
    · exact h
    · exact ⟨h.pending.or h.taken, h.lastWork, h.taken, h.requested.or_left _,
        fun _ => (Within.refl _).or_right _, fun _ => rfl, h.completed⟩

theorem deadline_late (hlate : (runtimeServiceDeadline s).1 = true) :
    (runtimeServiceDeadline s).2.phase = phaseDeadline := by
  unfold runtimeServiceDeadline at hlate ⊢
  split_ifs at hlate ⊢ with hphase
  · exact hphase
  · dsimp only [State.readClock] at hlate ⊢
    split_ifs at hlate ⊢
    rfl

section
variable (h : s.progress.Ok taken done)
include h

theorem reportMetric_ok (metric value : BitVec 32) :
    (runtimeServiceReportMetric metric value s).progress.Ok taken done := by
  unfold runtimeServiceReportMetric
  split_ifs
  · exact h
  · exact deadline_ok h
  · exact h

theorem guiRender_ok : (runtimeServiceGuiRender s).2.progress.Ok taken done := by
  have hd := deadline_ok h
  unfold runtimeServiceGuiRender
  dsimp only
  split_ifs <;> exact hd

theorem reportRedraw_ok : (runtimeServiceReportRedraw s).progress.Ok taken done := by
  have hreported := reportMetric_ok h metricRedraw 1
  unfold runtimeServiceReportRedraw markRedrawn reportPrepared
  dsimp only
  split_ifs
  · exact hreported
  · exact reportMetric_ok hreported _ _
  · exact reportMetric_ok hreported _ _
  · exact reportMetric_ok (reportMetric_ok hreported _ _) _ _
  · exact reportMetric_ok (reportMetric_ok hreported _ _) _ _
  · exact reportMetric_ok hreported _ _
  · exact reportMetric_ok hreported _ _

theorem guiClearDirty_ok : (runtimeServiceGuiClearDirty s).progress.Ok taken done := by
  unfold runtimeServiceGuiClearDirty
  dsimp only
  split_ifs <;> exact h

theorem request_ok (work : BitVec 32) : (runtimeServiceRequest work s).progress.Ok taken done := by
  unfold runtimeServiceRequest
  dsimp only
  split
  · exact h
  · exact ⟨h.pending.or (within_and_right _ _), h.lastWork, h.taken,
      (h.requested.or_left _).or ((Within.refl _).or_right _), fun hx => (h.expired hx).or_left _,
      h.late, h.completed⟩

theorem requeueBudget_ok {work : BitVec 32} {bump : Stats → Stats} (hwork : Within work workAll)
    (hbump : (bump s.stats).lastWork = s.stats.lastWork) :
    (runtimeServiceRequeueBudget work bump s).progress.Ok taken done := by
  unfold runtimeServiceRequeueBudget
  split
  · have hlast : Within (bump s.stats).lastWork workAll := by
      rw [hbump]
      exact h.taken
    refine ⟨h.pending.or hwork, hbump.trans h.lastWork, hlast, h.requested.or_left _, fun hx => ?_,
      h.late, h.completed⟩
    have hkept : Within (bump s.stats).lastWork s.stats.pendingWork := by
      rw [hbump]
      exact h.expired hx
    exact hkept.or_left _
  · exact h

theorem inputPoll_ok (available : Bool) :
    (runtimeServiceInputPoll available s).progress.Ok taken done := by
  unfold runtimeServiceInputPoll
  split_ifs
  · exact h
  · exact h
  · exact h
  · exact requeueBudget_ok h (within_and_right workInput workAll) rfl
  · exact h

theorem netRecv_ok : (runtimeServiceVirtioNetRecv s).progress.Ok taken done := by
  unfold runtimeServiceVirtioNetRecv
  split_ifs
  · exact h
  · exact requeueBudget_ok h (within_and_right workNetwork workAll) rfl
  · exact h

theorem requestRedraw_ok : (guiRequestRedraw s).progress.Ok taken done := by
  unfold guiRequestRedraw
  split <;> exact h

theorem flushDirtyRedraw_ok (display : Display) :
    (flushDirtyRedraw display s).progress.Ok taken done := by
  unfold flushDirtyRedraw
  split
  · apply guiClearDirty_ok
    cases display with
    | unready => exact h
    | failed => exact guiRender_ok h
    | done => exact reportRedraw_ok (guiRender_ok h)
  · exact h

theorem call_ok (c : Call) : (c.run s).progress.Ok taken done := by
  cases c with
  | request work => exact request_ok h work
  | configureTiming frequency budget => exact h
  | reportMetric metric value => exact reportMetric_ok h metric value
  | reportInputQueue depth highWater overflow =>
    change (runtimeServiceReportInputQueue depth highWater overflow s).progress.Ok taken done
    unfold runtimeServiceReportInputQueue
    split <;> exact h
  | inputPoll available => exact inputPoll_ok h available
  | netRecv => exact netRecv_ok h
  | damage x y w h' => exact h
  | requestRedraw => exact requestRedraw_ok h
  | redraw display => exact flushDirtyRedraw_ok h display

theorem runCalls_ok (calls : List Call) : (runCalls calls s).progress.Ok taken done := by
  induction calls generalizing s with
  | nil => exact h
  | cons c calls ih => exact ih (call_ok h c)

theorem Progress.Ok.complete (mine : BitVec 32) :
    ({ s with watch.completed := s.watch.completed ||| mine } : State).progress.Ok taken
      (done ||| mine) :=
  ⟨h.pending, h.lastWork, h.taken, h.requested, h.expired, h.late, by
    change s.watch.completed ||| mine = done ||| mine
    rw [show s.watch.completed = done from h.completed]⟩

theorem Progress.Ok.enter {phase : BitVec 8} (hphase : phase ≠ phaseDeadline) :
    ({ s with phase } : State).progress.Ok taken done :=
  ⟨h.pending, h.lastWork, h.taken, h.requested, h.expired,
    fun hlate => absurd (of_decide_eq_true hlate) hphase, h.completed⟩

end

theorem tickPhase_ne (work : BitVec 32) :
    (work &&& (workPeriodic ||| workInput)).setWidth 8 ≠ phaseDeadline := by
  intro h
  have hbit := congrArg (fun b => getLsbD b 3) h
  rw [getLsbD_setWidth, getLsbD_and, show (workPeriodic ||| workInput).getLsbD 3 = false from rfl,
    show phaseDeadline.getLsbD 3 = true from rfl, Bool.and_false, Bool.and_false] at hbit
  cases hbit

theorem runTick_ok (h : s.progress.Ok taken 0) (calls : List Call) :
    (runTick calls taken s).progress.Ok taken (taken &&& (workPeriodic ||| workInput)) := by
  unfold runTick
  dsimp only
  split
  · have hran := (runCalls_ok (h.enter (tickPhase_ne taken)) calls).complete
      (taken &&& (workPeriodic ||| workInput))
    have hmine : 0 ||| (taken &&& (workPeriodic ||| workInput)) =
        taken &&& (workPeriodic ||| workInput) := zero_or
    rw [hmine] at hran
    exact deadline_ok hran
  next hnone =>
    rw [not_not.1 hnone]
    exact h

theorem runNetwork_ok (h : s.progress.Ok taken done) (calls : List Call) :
    ∃ done', (runNetwork calls taken s).progress.Ok taken done' ∧
      ((runNetwork calls taken s).watch.expired = false →
        Within (done ||| (taken &&& workNetwork)) done') := by
  unfold runNetwork
  split_ifs with hrun
  · dsimp only
    have henter : ({ s with phase := workNetwork.setWidth 8 } : State).progress.Ok taken done :=
      h.enter (by decide)
    have hstarted := deadline_ok henter
    split_ifs with hlate
    · refine ⟨done, hstarted, fun hx => ?_⟩
      have hexpired := hstarted.late (decide_eq_true (deadline_late hlate))
      exact absurd (hexpired.symm.trans hx) Bool.false_ne_true.symm
    · refine ⟨done ||| workNetwork, deadline_ok ((runCalls_ok hstarted calls).complete workNetwork),
        fun _ => ?_⟩
      exact ((Within.refl done).or_left _).or ((within_and_right taken workNetwork).or_right _)
  · refine ⟨done, h, fun hx => ?_⟩
    rcases not_and_or.1 hrun with hnone | hphase
    · rw [not_not.1 hnone]
      exact (Within.refl done).or (zero_within done)
    · have hexpired := h.late (decide_eq_true (not_not.1 hphase))
      exact absurd (hexpired.symm.trans hx) Bool.false_ne_true.symm

theorem runPending_ok (h : Within s.stats.pendingWork workAll) (p : Pass) :
    let t := (runtimeServiceRunPending p s).2
    ∃ done, t.progress.Ok s.stats.pendingWork done ∧
      (t.watch.expired = false → Within s.stats.pendingWork done) := by
  have htaken : (takeWork s).progress.Ok s.stats.pendingWork 0 :=
    ⟨zero_within _, rfl, h, zero_within _, fun hx => absurd hx Bool.false_ne_true,
      fun hx => absurd hx Bool.false_ne_true, rfl⟩
  unfold runtimeServiceRunPending
  dsimp only
  split_ifs with hzero
  · refine ⟨0, htaken, fun _ => ?_⟩
    rw [hzero]
    exact .refl 0
  · have hstarted : ({ (takeWork s).readClock.2 with
        stats.lastDurationTicks :=
          (takeWork s).readClock.1 + (takeWork s).readClock.2.stats.budgetTicks } : State).progress.Ok
          s.stats.pendingWork 0 := htaken
    obtain ⟨done, hdone, hon⟩ := runNetwork_ok (runTick_ok hstarted p.tick) p.network
    refine ⟨done, ?_, fun hx => Within.trans (fun i hi => ?_) (hon hx)⟩
    · exact ⟨hdone.pending, hdone.lastWork, hdone.taken, hdone.requested, hdone.expired,
        fun hx => absurd hx Bool.false_ne_true, hdone.completed⟩
    · have hall := h i hi
      unfold workAll at hall
      rw [getLsbD_or] at hall
      rw [getLsbD_or, getLsbD_and, getLsbD_and, hi, Bool.true_and, Bool.true_and]
      exact hall

end Progress

theorem run_pending_within {s : State} (h : ∃ taken done, s.progress.Ok taken done)
    (steps : List Step) : ∃ taken done, (s.run steps).progress.Ok taken done := by
  induction steps using List.reverseRecOn with
  | nil => exact h
  | append_singleton steps step ih =>
    rw [State.run, List.foldl_concat]
    obtain ⟨taken, done, hok⟩ := ih
    cases step with
    | call c => exact ⟨taken, done, call_ok hok c⟩
    | pass p =>
      obtain ⟨done', hok', -⟩ := runPending_ok hok.pending p
      exact ⟨_, done', hok'⟩

end Runtime
