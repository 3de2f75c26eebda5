import ArmoniOS.Runtime.Service

/-! Redraws of the desktop within the budget of a pass. A redraw shows at most eight rectangles of the
damage list to the compositor and takes them off the list only when the board reports success. -/
namespace Runtime
open Gui

open List

structure Canvas where
  screen : Screen
  active : Bool
  damage : Damage
  displayReady : Bool
  redrawState : BitVec 8

def State.canvas (s : State) : Canvas := ⟨s.screen, s.active, s.damage, s.displayReady, s.redrawState⟩

/-- What `gui_render` is shown of the damage. -/
def batchOf (d : Damage) : Damage :=
  if d.full then d
  else { d with rects := d.rects.take (min d.rects.length redrawDamageBudget) }

def afterBatch (d : Damage) : Damage :=
  if d.full = true ∨ d.rects.length ≤ redrawDamageBudget then guiClearDirty d
  else { d with rects := d.rects.drop redrawDamageBudget }

def stateOf (d : Damage) : BitVec 8 :=
  if d.full then redrawFull ||| 1
  else preparedState d.rects.length (min d.rects.length redrawDamageBudget)

section Packed

theorem preparedState_spec (n : ℕ) :
    let state := preparedState n (min n redrawDamageBudget)
    state ≠ 0 ∧ state &&& redrawSuccess = 0 ∧ (state ||| redrawSuccess) &&& redrawSuccess ≠ 0 ∧
      (state ||| redrawSuccess) &&& redrawFull = 0 ∧
      (redrawBatch (state ||| redrawSuccess)).toNat = min n redrawDamageBudget := by
  unfold preparedState
  have hle : min n redrawDamageBudget ≤ 8 := min_le_right n 8
  generalize min n redrawDamageBudget = batch at hle ⊢
  split_ifs <;> interval_cases batch <;> decide

theorem stateOf_ne_zero (d : Damage) : stateOf d ≠ 0 := by
  unfold stateOf
  split
  · decide
  · exact (preparedState_spec _).1

theorem stateOf_success (d : Damage) : stateOf d &&& redrawSuccess = 0 := by
  unfold stateOf
  split
  · decide
  · exact (preparedState_spec _).2.1

end Packed

variable {d : Damage}

section Specs
variable {s : State} {display : Display}

theorem deadline_canvas (s : State) : (runtimeServiceDeadline s).2.canvas = s.canvas := by
  unfold runtimeServiceDeadline
  split_ifs
  · rfl
  · dsimp only [State.readClock]
    split_ifs <;> rfl

theorem reportMetric_canvas (metric value : BitVec 32) (s : State) :
    (runtimeServiceReportMetric metric value s).canvas = s.canvas := by
  unfold runtimeServiceReportMetric
  split_ifs
  · rfl
  · exact deadline_canvas _
  · rfl

theorem reportPrepared_canvas (state : BitVec 8) (s : State) :
    (reportPrepared state s).canvas = s.canvas := by
  unfold reportPrepared
  split_ifs
  · exact reportMetric_canvas ..
  · exact (reportMetric_canvas ..).trans (reportMetric_canvas ..)
  · exact reportMetric_canvas ..

theorem guiRender_cases (hactive : s.active = true) :
    ((runtimeServiceGuiRender s).1 = none ∧ (runtimeServiceGuiRender s).2.canvas = s.canvas) ∨
    ((runtimeServiceGuiRender s).1 = some (batchOf s.damage) ∧
      (runtimeServiceGuiRender s).2.canvas = { s.canvas with redrawState := stateOf s.damage }) := by
  have hcanvas := deadline_canvas s
  unfold runtimeServiceGuiRender
  generalize runtimeServiceDeadline s = r at hcanvas ⊢
  obtain ⟨late, t⟩ := r
  have hdamage : s.damage = t.damage := (congrArg Canvas.damage hcanvas).symm
  have hact : ¬ t.active = false := by
    rw [show t.active = true from (congrArg Canvas.active hcanvas).trans hactive]
    exact Bool.noConfusion
  dsimp only at hcanvas ⊢
  rw [← hcanvas, hdamage]
  unfold batchOf stateOf
  cases late with
  | true => exact .inl ⟨rfl, rfl⟩
  | false =>
    apply Or.inr
    rw [if_neg Bool.false_ne_true, if_neg hact]
    split <;> exact ⟨rfl, rfl⟩

theorem guiClearDirty_taken (hactive : s.active = true)
    (hstate : s.redrawState = stateOf s.damage ||| redrawSuccess) :
    (runtimeServiceGuiClearDirty s).canvas =
      { s.canvas with damage := afterBatch s.damage, redrawState := 0 } := by
  unfold runtimeServiceGuiClearDirty afterBatch
  dsimp only
  cases hfull : s.damage.full with
  | true =>
    have hpacked : s.redrawState = redrawFull ||| 1 ||| redrawSuccess := by
      rw [hstate, stateOf, if_pos hfull]
    rw [hpacked, if_neg (by rw [hactive]; decide), if_pos (.inl (by decide)), if_pos (.inl rfl)]
    rfl
  | false =>
    obtain ⟨_, _, hsuccess, hpartial, hbatch⟩ := preparedState_spec s.damage.rects.length
    have hpacked : s.redrawState = preparedState s.damage.rects.length
        (min s.damage.rects.length redrawDamageBudget) ||| redrawSuccess := by
      rw [hstate, stateOf, hfull]
      rfl
    rw [hpacked, hbatch, hpartial, if_neg (by rw [hactive]; simpa using hsuccess)]
    by_cases hle : s.damage.rects.length ≤ redrawDamageBudget
    · rw [min_eq_left hle, if_pos (.inr le_rfl), if_pos (.inr hle)]
      rfl
    · rw [min_eq_right (not_le.1 hle).le, if_neg (by simpa using hle), if_neg (by simpa using hle)]
      rfl

/-- What a redraw puts on the screen: the damage shown to `gui_render`, if the board then reports
success. -/
def State.redrawn (display : Display) (s : State) : Option Damage :=
  if s.displayReady = true ∧ s.damage.dirty = true ∧ display = .done
  then (runtimeServiceGuiRender s).1 else none

theorem reportRedraw_prepared (h : s.redrawState ≠ 0) : (runtimeServiceReportRedraw s).canvas =
      { s.canvas with redrawState := s.redrawState ||| redrawSuccess } := by
  have hcanvas : (reportPrepared s.redrawState
      (runtimeServiceReportMetric metricRedraw 1 s)).canvas = s.canvas :=
    (reportPrepared_canvas ..).trans (reportMetric_canvas ..)
  unfold runtimeServiceReportRedraw markRedrawn
  have hstill : (reportPrepared s.redrawState
      (runtimeServiceReportMetric metricRedraw 1 s)).redrawState ≠ 0 := by
    rw [show State.redrawState _ = s.redrawState from congrArg Canvas.redrawState hcanvas]
    exact h
  rw [if_neg h, if_pos hstill]
  exact congrArg (fun c : Canvas => { c with redrawState := s.redrawState ||| redrawSuccess }) hcanvas

theorem boardDisplayRedraw_failed (hactive : s.active = true) (hidle : s.redrawState = 0)
    (h : display = .done → (runtimeServiceGuiRender s).1 = none) :
    ∃ state, state &&& redrawSuccess = 0 ∧
      (boardDisplayRedraw display s).canvas = { s.canvas with redrawState := state } := by
  cases display with
  | unready =>
    refine ⟨s.redrawState, ?_, rfl⟩
    rw [hidle]
    decide
  | failed =>
    rcases guiRender_cases hactive with ⟨-, hcanvas⟩ | ⟨-, hcanvas⟩
    · refine ⟨s.redrawState, ?_, hcanvas⟩
      rw [hidle]
      decide
    · exact ⟨stateOf s.damage, stateOf_success _, hcanvas⟩
  | done =>
    rcases guiRender_cases hactive with ⟨-, hcanvas⟩ | ⟨hdrawn, -⟩
    · have hstate : (runtimeServiceGuiRender s).2.redrawState = 0 :=
        (congrArg Canvas.redrawState hcanvas).trans hidle
      refine ⟨s.redrawState, by rw [hidle]; decide, Eq.trans ?_ hcanvas⟩
      unfold boardDisplayRedraw runtimeServiceReportRedraw
      dsimp only
      rw [if_pos hstate]
      exact reportMetric_canvas ..
    · rw [h rfl] at hdrawn
      cases hdrawn

theorem flushDirtyRedraw_unchanged (hactive : s.active = true) (hidle : s.redrawState = 0)
    (h : s.redrawn display = none) : (flushDirtyRedraw display s).canvas = s.canvas := by
  unfold flushDirtyRedraw
  split
  next hrun =>
    have hfailed : display = .done → (runtimeServiceGuiRender s).1 = none := by
      intro hdone
      unfold State.redrawn at h
      rwa [if_pos ⟨hrun.1, hrun.2, hdone⟩] at h
    obtain ⟨state, hstate, hcanvas⟩ := boardDisplayRedraw_failed hactive hidle hfailed
    have hunmarked : (boardDisplayRedraw display s).redrawState &&& redrawSuccess = 0 := by
      rw [show State.redrawState _ = state from congrArg Canvas.redrawState hcanvas]
      exact hstate
    unfold runtimeServiceGuiClearDirty
    rw [if_pos (.inl hunmarked)]
    change { (boardDisplayRedraw display s).canvas with redrawState := 0 } = _
    rw [hcanvas, ← hidle]
    rfl
  · rfl

theorem flushDirtyRedraw_drawn (hactive : s.active = true) (hidle : s.redrawState = 0) (h : s.redrawn display = some d) :
    d = batchOf s.damage ∧
      (flushDirtyRedraw display s).canvas = { s.canvas with damage := afterBatch s.damage } := by
  unfold State.redrawn at h
  split at h
  next hrun =>
    obtain ⟨hready, hdirty, rfl⟩ := hrun
    rcases guiRender_cases hactive with ⟨hnone, -⟩ | ⟨hdrawn, hcanvas⟩
    · rw [hnone] at h
      cases h
    · rw [hdrawn, Option.some.injEq] at h
      refine ⟨h.symm, ?_⟩
      have hstate : (runtimeServiceGuiRender s).2.redrawState = stateOf s.damage :=
        congrArg Canvas.redrawState hcanvas
      have hreport := reportRedraw_prepared
        (by rw [hstate]; exact stateOf_ne_zero _)
      rw [hstate, hcanvas] at hreport
      unfold flushDirtyRedraw
      rw [if_pos ⟨hready, hdirty⟩]
      change (runtimeServiceGuiClearDirty
        (runtimeServiceReportRedraw (runtimeServiceGuiRender s).2)).canvas = _
      have hreported := congrArg Canvas.damage hreport
      rw [guiClearDirty_taken ((congrArg Canvas.active hreport).trans hactive)
        (by rw [show State.damage _ = s.damage from hreported]
            exact congrArg Canvas.redrawState hreport), hreport]
      rw [show State.damage _ = s.damage from hreported, ← hidle]
      rfl
  · cases h

end Specs

/-! ### Runs -/

/-- What happens to the desktop's damage. The service changes its own state in any way in between: its
passes begin and end, work is requested, time goes by. -/
inductive Event where
  | damage (x y w h : ℤ)
  | requestRedraw
  | redraw (display : Display)
  | service (stats : Stats) (phase : BitVec 8) (clock : ℕ → BitVec 64)

def State.apply (s : State) : Event → State
  | .damage x y w h => damageAdd x y w h s
  | .requestRedraw => guiRequestRedraw s
  | .redraw display => flushDirtyRedraw display s
  | .service stats phase clock => { s with stats, phase, clock }

def State.settled (s : State) : Event → Option Damage
  | .redraw display => s.redrawn display
  | _ => none

def Event.Damages (screen : Screen) (px py : ℤ) : Event → Prop
  | .damage x y w h => screen.Has px py ∧ (Rect.mk x y w h).Covers px py
  | .requestRedraw => screen.Has px py
  | _ => False

/-- The pixels that were damaged and have not been in a batch on the screen since, along a run. -/
structure Ledger where
  state : State
  owed : ℤ → ℤ → Prop

def Ledger.step (l : Ledger) (e : Event) : Ledger where
  state := l.state.apply e
  owed px py := (l.owed px py ∧ ∀ d ∈ l.state.settled e, ¬ d.Covers px py) ∨
    e.Damages l.state.screen px py

def Ledger.run (l : Ledger) (events : List Event) : Ledger := events.foldl Ledger.step l

/-- No pixel is owed when the GUI starts, with the service in any state. -/
def Ledger.boot (screen : Screen) (displayReady : Bool) (stats : Stats) (phase : BitVec 8)
    (clock : ℕ → BitVec 64) : Ledger where
  state := { State.boot screen true displayReady clock with stats, phase }
  owed _ _ := False

structure Ledger.Ok (l : Ledger) : Prop where
  active : l.state.active = true
  idle : l.state.redrawState = 0
  damage : l.state.damage.Ok l.state.screen
  covered : ∀ px py, l.owed px py → l.state.damage.Covers px py

variable {screen : Screen}

section Ledger
variable {l : Ledger}

theorem afterBatch_covers {px py : ℤ} (h : d.Covers px py)
    (hbatch : ¬ (batchOf d).Covers px py) : (afterBatch d).Covers px py := by
  unfold batchOf at hbatch
  unfold afterBatch
  split at hbatch
  · exact absurd h hbatch
  next hfull =>
    obtain ⟨r, hr, hcovers⟩ := h.resolve_left hfull
    have hnot : r ∉ d.rects.take (min d.rects.length redrawDamageBudget) :=
      fun hmem => hbatch (.inr ⟨r, hmem, hcovers⟩)
    have hlong : ¬ d.rects.length ≤ redrawDamageBudget := by
      intro hle
      rw [min_eq_left hle, take_length] at hnot
      exact hnot hr
    rw [if_neg (not_or.2 ⟨hfull, hlong⟩)]
    rw [min_eq_right (not_le.1 hlong).le] at hnot
    rw [← take_append_drop redrawDamageBudget d.rects, mem_append] at hr
    exact .inr ⟨r, hr.resolve_left hnot, hcovers⟩

theorem afterBatch_ok (h : d.Ok screen) : (afterBatch d).Ok screen := by
  unfold afterBatch
  split_ifs with hdone
  · exact ⟨Nat.zero_le _, fun r hr => absurd hr not_mem_nil, fun _ => rfl,
      fun hd => hd.elim (fun hf => absurd hf Bool.false_ne_true) (fun hr => absurd rfl hr)⟩
  · obtain ⟨hfull, hlong⟩ := not_or.1 hdone
    refine ⟨?_, fun r hr => h.inside r (mem_of_mem_drop hr), fun hf => absurd hf hfull,
      fun _ => h.dirty (.inr ?_)⟩
    · rw [length_drop]
      exact (Nat.sub_le _ _).trans h.length
    · intro hnil
      rw [hnil] at hlong
      exact hlong (Nat.zero_le _)

theorem Ledger.Ok.settle {l' : Ledger} (h : l.Ok)
    (hcanvas : l'.state.canvas = { l.state.canvas with damage := d }) (hok : d.Ok l.state.screen)
    (hcovers : ∀ px py, l'.owed px py → d.Covers px py) : l'.Ok := by
  have hdamage : l'.state.damage = d := congrArg Canvas.damage hcanvas
  have hscreen : l'.state.screen = l.state.screen := congrArg Canvas.screen hcanvas
  refine ⟨(congrArg Canvas.active hcanvas).trans h.active,
    (congrArg Canvas.redrawState hcanvas).trans h.idle, ?_, ?_⟩
  · rw [hdamage, hscreen]
    exact hok
  · rw [hdamage]
    exact hcovers

theorem Ledger.Ok.step (h : l.Ok) (e : Event) : (l.step e).Ok := by
  cases e with
  | damage x y w h' =>
    refine ⟨h.active, h.idle, h.damage.add, fun px py howed => ?_⟩
    rcases howed with ⟨howed, -⟩ | ⟨hhas, hrect⟩
    · exact guiDamageAdd_keeps (h.covered px py howed)
    · exact guiDamageAdd_covers hhas hrect
  | requestRedraw =>
    have hstate : (l.step .requestRedraw).state =
        { l.state with damage := guiDamageAddFull l.state.damage } := by
      change guiRequestRedraw l.state = _
      unfold guiRequestRedraw
      rw [if_pos h.active]
    exact h.settle (d := allDamaged) (congrArg State.canvas hstate) (allDamaged_ok _)
      fun _ _ _ => .inl rfl
  | redraw display =>
    cases hdrawn : l.state.redrawn display with
    | none =>
      exact h.settle (flushDirtyRedraw_unchanged h.active h.idle hdrawn) h.damage
        fun px py howed => h.covered px py (howed.resolve_right id).1
    | some d =>
      obtain ⟨rfl, hcanvas⟩ := flushDirtyRedraw_drawn h.active h.idle hdrawn
      refine h.settle hcanvas (afterBatch_ok h.damage) fun px py howed => ?_
      obtain ⟨hold, hnot⟩ := howed.resolve_right id
      exact afterBatch_covers (h.covered px py hold) (hnot _ hdrawn)
  | service stats phase clock =>
    exact ⟨h.active, h.idle, h.damage, fun px py howed => h.covered px py (howed.resolve_right id).1⟩

theorem Ledger.Ok.run (h : l.Ok) (events : List Event) : (l.run events).Ok := by
  induction events generalizing l with
  | nil => exact h
  | cons e events ih => exact ih (h.step e)

/-! ### Redraws empty the damage -/

def redrawsLeft (d : Damage) : ℕ :=
  if d.full then 1 else (d.rects.length + (redrawDamageBudget - 1)) / redrawDamageBudget

theorem redrawsLeft_le (h : d.Ok screen) : redrawsLeft d ≤ 4 := by
  have hlength := h.length
  unfold redrawsLeft
  unfold damageMax at hlength
  unfold redrawDamageBudget
  split <;> omega

theorem redrawsLeft_zero (h : redrawsLeft d = 0) : d.full = false ∧ d.rects = [] := by
  unfold redrawsLeft redrawDamageBudget at h
  split at h
  · cases h
  next hfull =>
    refine ⟨Bool.eq_false_iff.2 hfull, eq_nil_of_length_eq_zero ?_⟩
    omega

theorem redrawsLeft_afterBatch (d : Damage) : redrawsLeft (afterBatch d) = redrawsLeft d - 1 := by
  unfold afterBatch
  split_ifs with hdone
  · have hzero : redrawsLeft (guiClearDirty d) = 0 := by
      simp [redrawsLeft, guiClearDirty, guiDamageClear, redrawDamageBudget]
    rw [hzero]
    unfold redrawsLeft
    unfold redrawDamageBudget at hdone ⊢
    split
    · rfl
    next hfull =>
      have := hdone.resolve_left hfull
      omega
  · obtain ⟨hfull, hlong⟩ := not_or.1 hdone
    unfold redrawsLeft
    rw [if_neg hfull, if_neg hfull, length_drop]
    unfold redrawDamageBudget at hlong ⊢
    omega

def successes : State → List Event → ℕ
  | _, [] => 0
  | s, e :: events => (if (s.settled e).isSome then 1 else 0) + successes (s.apply e) events

def Event.Quiet : Event → Prop
  | .damage .. => False
  | .requestRedraw => False
  | _ => True

theorem redrawsLeft_step (h : l.Ok) {e : Event} (hquiet : e.Quiet) :
    redrawsLeft (l.step e).state.damage =
      redrawsLeft l.state.damage - if (l.state.settled e).isSome then 1 else 0 := by
  cases e with
  | damage x y w h' => exact hquiet.elim
  | requestRedraw => exact hquiet.elim
  | redraw display =>
    change redrawsLeft (flushDirtyRedraw display l.state).damage =
      redrawsLeft l.state.damage - if (l.state.redrawn display).isSome then 1 else 0
    cases hdrawn : l.state.redrawn display with
    | none =>
      have hcanvas := flushDirtyRedraw_unchanged h.active h.idle hdrawn
      rw [show State.damage _ = l.state.damage from congrArg Canvas.damage hcanvas]
      rfl
    | some d =>
      obtain ⟨-, hcanvas⟩ := flushDirtyRedraw_drawn h.active h.idle hdrawn
      rw [show State.damage _ = afterBatch l.state.damage from congrArg Canvas.damage hcanvas]
      exact redrawsLeft_afterBatch _
  | service stats phase clock => rfl

theorem redrawsLeft_run (h : l.Ok) {events : List Event} (hquiet : ∀ e ∈ events, e.Quiet) :
    redrawsLeft (l.run events).state.damage = redrawsLeft l.state.damage - successes l.state events := by
  induction events generalizing l with
  | nil => rfl
  | cons e events ih =>
    obtain ⟨he, hevents⟩ := forall_mem_cons.1 hquiet
    change redrawsLeft ((l.step e).run events).state.damage = _
    rw [ih (h.step e) hevents, redrawsLeft_step h he, successes, Nat.sub_sub]
    rfl

end Ledger

/-- Pixels that are owed a redraw are in the damage, a redraw that fails or is skipped leaves the damage
as it is, and while any is left the desktop is dirty, so that at most four redraws with success and no
new damage empty it. -/
theorem damage_kept_until_drawn (screen : Screen) (displayReady : Bool) (stats : Stats)
    (phase : BitVec 8) (clock : ℕ → BitVec 64) (events : List Event) :
    let l := (Ledger.boot screen displayReady stats phase clock).run events
    (∀ px py, l.owed px py → l.state.damage.Covers px py) ∧
    (∀ display, l.state.redrawn display = none →
      (flushDirtyRedraw display l.state).damage = l.state.damage) ∧
    (l.state.damage.full = true ∨ l.state.damage.rects ≠ [] → l.state.damage.dirty = true) ∧
    ∃ n ≤ 4, ∀ more : List Event, (∀ e ∈ more, e.Quiet) → n ≤ successes l.state more →
      (l.run more).state.damage.full = false ∧ (l.run more).state.damage.rects = [] := by
  intro l
  have hboot : (Ledger.boot screen displayReady stats phase clock).Ok :=
    ⟨rfl, rfl, ⟨Nat.zero_le _, fun _ hr => absurd hr not_mem_nil, fun _ => rfl,
      fun hd => hd.elim (fun hf => absurd hf Bool.false_ne_true) (fun hr => absurd rfl hr)⟩,
      fun _ _ howed => howed.elim⟩
  have hok : l.Ok := hboot.run events
  refine ⟨hok.covered, fun display hnone => ?_, hok.damage.dirty,
    redrawsLeft l.state.damage, redrawsLeft_le hok.damage, fun more hquiet henough => ?_⟩
  · exact congrArg Canvas.damage (flushDirtyRedraw_unchanged hok.active hok.idle hnone)
  · apply redrawsLeft_zero
    rw [redrawsLeft_run hok hquiet]
    exact Nat.sub_eq_zero_of_le henough

def oneDamaged : Ledger :=
  (Ledger.boot virtioGpuScreen true { Stats.zero with lastDurationTicks := 9 } 1 fun _ => 5).run
    [.damage 630 470 20 20]

theorem damage_kept_until_drawn_one :
    oneDamaged.owed 635 475 ∧ oneDamaged.state.damage.Covers 635 475 ∧
      (oneDamaged.state.redrawn .done).isSome = true ∧
      (oneDamaged.run [.redraw .failed, .redraw .done]).state.damage.rects = [] := by
  have h := damage_kept_until_drawn virtioGpuScreen true
    { Stats.zero with lastDurationTicks := 9 } 1 (fun _ => 5) [.damage 630 470 20 20]
  have hpixel : virtioGpuScreen.Has 635 475 ∧ (Rect.mk 630 470 20 20).Covers 635 475 := by
    decide
  have howed : oneDamaged.owed 635 475 := .inr hpixel
  refine ⟨howed, h.1 635 475 howed, by decide, ?_⟩
  decide

end Runtime
