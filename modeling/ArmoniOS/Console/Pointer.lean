import ArmoniOS.Gui.Steps

/-! The mouse and click commands of `console.c`. The console turns a target into a movement from the
position that it remembers, and the desktop handles the movement later. -/
namespace Console
open Gui Desktop
open Input (EventData)

/-- A queued event, with the target of the console command that it belongs to. No handler reads the
timestamp. -/
structure Pending where
  data : EventData
  target : Option (ℤ × ℤ)

/-- The desktop, `g_cursor_x` and `g_cursor_y` once they are known, and the events to be handled. -/
structure State where
  desktop : Desktop
  known : Option (ℤ × ℤ)
  queue : List Pending

def readCursor (d : Desktop) : ℤ × ℤ := (d.cursor.x, d.cursor.y)

def queueMouseMove (goal : ℤ × ℤ) (s : State) : State :=
  let cursor := s.known.getD (readCursor s.desktop)
  { s with
    known := some goal
    queue := s.queue ++ [⟨.mouseMove (goal.1 - cursor.1) (goal.2 - cursor.2), some goal⟩] }

def queueMouseButton (button pressed : BitVec 32) (s : State) : State :=
  { s with queue := s.queue ++ [⟨.mouseButton button pressed, none⟩] }

def runMouse (goal : ℤ × ℤ) (s : State) : State := queueMouseMove goal s

def runClick (goal : ℤ × ℤ) (s : State) : State :=
  queueMouseButton 0 0 (queueMouseButton 0 1 (queueMouseMove goal s))

/-- A command, a movement of the mouse, and the handling of the oldest event. -/
inductive Step where
  | command (click : Bool) (goal : ℤ × ℤ)
  | moved (dx dy : ℤ)
  | handle (ownerDead : Bool)

def State.step (s : State) : Step → State
  | .command click goal => if click then runClick goal s else runMouse goal s
  | .moved dx dy => { s with queue := s.queue ++ [⟨.mouseMove dx dy, none⟩] }
  | .handle ownerDead =>
    match s.queue with
    | [] => s
    | e :: rest =>
      { s with desktop := guiHandleDesktopInput ownerDead ⟨0, e.data⟩ s.desktop, queue := rest }

def State.run (s : State) (steps : List Step) : State := steps.foldl State.step s

def State.start (d : Desktop) : State := ⟨d, none, []⟩

def OnScreen (screen : Screen) (p : ℤ × ℤ) : Prop :=
  0 ≤ p.1 ∧ p.1 < screen.width ∧ 0 ≤ p.2 ∧ p.2 < screen.height

/-! ### Where an event leaves the cursor -/

section Cursor
variable {d : Desktop} {goal : ℤ × ℤ}

theorem clampCursor_of_mem {size : ℕ} {x : ℤ} (h0 : 0 ≤ x) (h : x < size) :
    clampCursor size x = x := by
  unfold clampCursor
  rw [if_neg (not_lt.mpr h0), if_neg (not_le.mpr h)]

theorem readCursor_mouseMove (hon : OnScreen d.screen goal) (ownerDead : Bool) :
    readCursor (guiHandleDesktopInput ownerDead
      ⟨0, .mouseMove (goal.1 - (readCursor d).1) (goal.2 - (readCursor d).2)⟩ d) = goal := by
  obtain ⟨hx0, hx, hy0, hy⟩ := hon
  have hdrag (d : Desktop) : readCursor (guiDragUpdate d.cursor.x d.cursor.y d) = readCursor d := by
    unfold guiDragUpdate
    split
    · rfl
    · dsimp only
      split <;> rfl
  have hdispatch (d : Desktop) : readCursor (dispatchMouseMove d) = readCursor d := by
    unfold dispatchMouseMove
    split <;> rfl
  refine ((hdispatch _).trans (hdrag _)).trans ?_
  change (clampCursor _ (d.cursor.x + (goal.1 - d.cursor.x)),
    clampCursor _ (d.cursor.y + (goal.2 - d.cursor.y))) = goal
  rw [add_sub_cancel, add_sub_cancel, clampCursor_of_mem hx0 hx, clampCursor_of_mem hy0 hy]

theorem readCursor_pressWindow (ownerDead : Bool) (hit : Fin maxWindows) :
    readCursor (pressWindow ownerDead hit d) = readCursor d := by
  unfold pressWindow
  dsimp only
  split
  · split
    · unfold guiDestroyWindow
      split
      · rfl
      next i _ =>
        unfold destroySlot
        obtain ⟨focused, heq, -⟩ := refocus_eq i (d.setWindow i (clearedWindow (d.windows i)))
        dsimp only
        rw [heq]
        rfl
    · rfl
  · unfold guiWindowMinimize
    split
    · rfl
    · dsimp only
      split <;> rfl
  · rfl
  · unfold guiDragStart
    dsimp only
    split
    · rfl
    · split <;> rfl

theorem readCursor_mouseButton (ownerDead : Bool) (button pressed : BitVec 32) :
    readCursor (guiHandleDesktopInput ownerDead ⟨0, .mouseButton button pressed⟩ d) =
      readCursor d := by
  have hbutton : readCursor (guiCursorButton button pressed d) = readCursor d :=
    congrArg Prod.snd (guiCursorButton_hand ..)
  rw [← hbutton]
  dsimp only [guiHandleDesktopInput]
  split
  · split
    · split
      · exact readCursor_pressWindow ..
      · rfl
    · rfl
  · rfl

end Cursor

/-! ### Runs -/

/-- The commands have targets on the screen, the first one finds no event waiting, and the mouse is not
moved from then on. -/
def Step.Follows (s : State) : Step → Prop
  | .command _ goal => OnScreen s.desktop.screen goal ∧ (s.known = none → s.queue = [])
  | .moved _ _ => s.known = none
  | .handle _ => True

def State.Meets : State → List Step → Prop
  | _, [] => True
  | s, step :: steps => step.Follows s ∧ (s.step step).Meets steps

/-- The events take the cursor from `p` through the targets to `last`. -/
def Lands (screen : Screen) : ℤ × ℤ → List Pending → ℤ × ℤ → Prop
  | p, [], last => p = last
  | p, ⟨data, some goal⟩ :: rest, last =>
      data = .mouseMove (goal.1 - p.1) (goal.2 - p.2) ∧ OnScreen screen goal ∧ Lands screen goal rest last
  | p, ⟨data, none⟩ :: rest, last =>
      (∃ button pressed, data = .mouseButton button pressed) ∧ Lands screen p rest last

theorem Lands.append {screen : Screen} {p c last : ℤ × ℤ} {queue queue' : List Pending}
    (h : Lands screen p queue c) (h' : Lands screen c queue' last) :
    Lands screen p (queue ++ queue') last := by
  induction queue generalizing p with
  | nil =>
    obtain rfl : p = c := h
    exact h'
  | cons e queue ih =>
    obtain ⟨data, _ | goal⟩ := e
    · exact ⟨h.1, ih h.2⟩
    · exact ⟨h.1, h.2.1, ih h.2.2⟩

/-- As long as no command was run, no event has a target; then the events lead to the position that the
console remembers. -/
structure State.Ok (s : State) : Prop where
  unknown : s.known = none → ∀ e ∈ s.queue, e.target = none
  known : ∀ c ∈ s.known, Lands s.desktop.screen (readCursor s.desktop) s.queue c

section Steps
variable {s : State} (h : s.Ok)
include h

theorem State.Ok.lands (hempty : s.known = none → s.queue = []) :
    Lands s.desktop.screen (readCursor s.desktop) s.queue
      (s.known.getD (readCursor s.desktop)) := by
  cases hknown : s.known with
  | none =>
    rw [hempty hknown]
    rfl
  | some c => exact h.known c hknown

theorem State.Ok.handle {e : Pending} {rest : List Pending} (hqueue : s.queue = e :: rest)
    (ownerDead : Bool) :
    (∀ goal ∈ e.target, readCursor (s.step (.handle ownerDead)).desktop = goal) ∧
      (s.step (.handle ownerDead)).Ok := by
  have hdoes : s.desktop.Does False (fun _ _ => True)
      (guiHandleDesktopInput ownerDead ⟨0, e.data⟩ s.desktop) := does_input _ _ _ False.elim
  unfold State.step
  rw [hqueue]
  obtain ⟨data, target⟩ := e
  cases hknown : s.known with
  | none =>
    have hnone := h.unknown hknown
    rw [hqueue] at hnone
    obtain rfl : target = none := hnone _ List.mem_cons_self
    exact ⟨by simp, fun _ e he => hnone e (List.mem_cons_of_mem _ he), by simp⟩
  | some c =>
    have hlands := h.known c hknown
    rw [hqueue] at hlands
    cases target with
    | none =>
      obtain ⟨⟨button, pressed, rfl⟩, hrest⟩ := hlands
      refine ⟨by simp, by simp, fun c' hc => ?_⟩
      obtain rfl := Option.some.inj hc
      rw [hdoes.screen, readCursor_mouseButton]
      exact hrest
    | some goal =>
      obtain ⟨rfl, hon, hrest⟩ := hlands
      refine ⟨fun other hgoal => ?_, by simp, fun c' hc => ?_⟩
      · rw [← Option.some.inj hgoal]
        exact readCursor_mouseMove hon ownerDead
      · obtain rfl := Option.some.inj hc
        rw [hdoes.screen, readCursor_mouseMove hon]
        exact hrest

theorem State.Ok.step {step : Step} (hstep : step.Follows s) : (s.step step).Ok := by
  cases step with
  | command click goal =>
    cases click with
    | false =>
      refine ⟨nofun, fun c hc => ?_⟩
      obtain rfl := Option.some.inj hc
      exact (h.lands hstep.2).append ⟨rfl, hstep.1, rfl⟩
    | true =>
      refine ⟨nofun, fun c hc => ?_⟩
      obtain rfl := Option.some.inj hc
      simp only [State.step, runClick, queueMouseButton, queueMouseMove, List.append_assoc]
      exact (h.lands hstep.2).append ⟨rfl, hstep.1, ⟨_, _, rfl⟩, ⟨_, _, rfl⟩, rfl⟩
  | moved dx dy =>
    refine ⟨fun hknown e he => ?_, fun c hc => ?_⟩
    · rcases List.mem_append.1 he with he | he
      · exact h.unknown hknown e he
      · rw [List.mem_singleton.1 he]
    · cases (show s.known = none from hstep).symm.trans hc
  | handle ownerDead =>
    cases hqueue : s.queue with
    | nil =>
      unfold State.step
      rw [hqueue]
      exact h
    | cons e rest => exact (h.handle hqueue ownerDead).2

theorem State.Ok.run {steps : List Step} (hmeets : s.Meets steps) : (s.run steps).Ok := by
  induction steps generalizing s with
  | nil => exact h
  | cons step steps ih => exact ih (h.step hmeets.1) hmeets.2

end Steps

/-- Once the event of a command has been handled, the cursor is at the target of the command. -/
theorem console_targets_reached (d : Desktop) {steps : List Step}
    (hmeets : (State.start d).Meets steps) {e : Pending} {rest : List Pending}
    (hqueue : ((State.start d).run steps).queue = e :: rest) {goal : ℤ × ℤ} (hgoal : e.target = some goal)
    (ownerDead : Bool) :
    readCursor (((State.start d).run steps).step (.handle ownerDead)).desktop = goal := by
  have hstart : (State.start d).Ok := ⟨by simp [State.start], nofun⟩
  exact ((hstart.run hmeets).handle hqueue ownerDead).1 goal hgoal

/-- The mouse is moved, and a click goes to the middle of the screen. -/
theorem console_targets_reached_click :
    let steps : List Step := [.moved 1 0, .handle false, .command true (2, 1)]
    readCursor (((State.start (init tinyScreen)).run steps).step (.handle false)).desktop = (2, 1) := by
  intro steps
  have hmeets : (State.start (init tinyScreen)).Meets steps :=
    ⟨rfl, trivial, ⟨by unfold OnScreen; decide, fun _ => rfl⟩, trivial⟩
  exact console_targets_reached (init tinyScreen) hmeets rfl rfl false

/-- The cursor stops at the edge on the way to `(9, 0)`, and the console takes it to be there: the next
command misses its target. -/
theorem console_target_missed :
    let s := (State.start (init tinyScreen)).run [.command false (9, 0), .handle false, .command false (2, 0)]
    s.queue.map Pending.target = [some (2, 0)] ∧ OnScreen tinyScreen (2, 0) ∧
      readCursor (s.step (.handle false)).desktop = (0, 0) := by
  unfold OnScreen
  decide +kernel

end Console
