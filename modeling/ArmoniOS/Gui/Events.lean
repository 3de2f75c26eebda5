import Mathlib

/-! The event ring of a window, from `gui_events.c`. Indices wrap at the size of the ring, as those of
`Fin` do. -/
namespace Gui

def eventQueueSize : ℕ := 32

/-- The `GUI_EVENT_` values; `none` is the zero of a slot that was never written. -/
inductive EventType where
  | none
  | keyPress
  | keyRelease
  | mouseClick
  | mouseMove
  | resize
  | close
  | minimize
  | maximize
  deriving DecidableEq

structure GuiEvent where
  type : EventType
  data1 : ℤ
  data2 : ℤ
  deriving DecidableEq

/-- `events`, `event_head`, `event_tail` and `event_count` of a window. -/
structure EventRing where
  events : Fin eventQueueSize → GuiEvent
  head : Fin eventQueueSize
  tail : Fin eventQueueSize
  count : ℕ

instance : NeZero eventQueueSize := ⟨by decide⟩

def EventRing.empty : EventRing := ⟨fun _ => ⟨.none, 0, 0⟩, 0, 0, 0⟩

def EventRing.reset (r : EventRing) : EventRing := { r with head := 0, tail := 0, count := 0 }

/-- The event is a mouse move behind a mouse move that is still queued. -/
def EventRing.Coalesces (r : EventRing) (type : EventType) : Prop :=
  type = .mouseMove ∧ 0 < r.count ∧ (r.events (r.tail - 1)).type = .mouseMove
deriving Decidable

def EventRing.merge (r : EventRing) (data1 data2 : ℤ) : EventRing :=
  { r with events := Function.update r.events (r.tail - 1) ⟨.mouseMove, data1, data2⟩ }

def EventRing.store (r : EventRing) (event : GuiEvent) : EventRing :=
  let r := if eventQueueSize ≤ r.count then { r with head := r.head + 1, count := r.count - 1 } else r
  { r with
    events := Function.update r.events r.tail event
    tail := r.tail + 1
    count := r.count + 1 }

/-- `gui_window_push_event` on the ring of a used window. -/
def EventRing.push (r : EventRing) (type : EventType) (data1 data2 : ℤ) : EventRing :=
  if r.Coalesces type then r.merge data1 data2
  else if eventQueueSize ≤ r.count ∧ type = .mouseMove then r
  else r.store ⟨type, data1, data2⟩

def EventRing.advance (r : EventRing) : EventRing :=
  { r with head := r.head + 1, count := r.count - 1 }

/-- `gui_window_pop_event` on the ring of a used window. -/
def EventRing.pop (r : EventRing) : Option GuiEvent × EventRing :=
  if r.count = 0 then (none, r) else (some (r.events r.head), r.advance)

end Gui
