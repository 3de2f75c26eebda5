import Mathlib

/-! The kernel's input queue, from `input.c`: a ring of 64 events that refuses events when it is full
and counts those it refused. -/
namespace Input

def eventQueueSize : ℕ := 64

inductive EventData where
  | keyPress (key : BitVec 32)
  | keyRelease (key : BitVec 32)
  | mouseMove (dx dy : ℤ)
  | mouseButton (button pressed : BitVec 32)
  deriving DecidableEq

structure InputEvent where
  timestamp : BitVec 64
  data : EventData
  deriving DecidableEq

structure Queue where
  events : Fin eventQueueSize → InputEvent
  head : Fin eventQueueSize
  tail : Fin eventQueueSize
  count : ℕ
  highWater : ℕ
  overflowCount : BitVec 64

instance : NeZero eventQueueSize := ⟨by decide⟩

def Queue.init : Queue := ⟨fun _ => ⟨0, .keyPress 0⟩, 0, 0, 0, 0, 0⟩

def Queue.refuse (q : Queue) : Queue := { q with overflowCount := q.overflowCount + 1 }

def Queue.store (q : Queue) (event : InputEvent) : Queue :=
  { q with
    events := Function.update q.events q.tail event
    tail := q.tail + 1
    count := q.count + 1
    highWater := max q.highWater (q.count + 1) }

/-- `input_queue_push`, and whether the event was accepted. -/
def inputQueuePush (event : InputEvent) (q : Queue) : Bool × Queue :=
  if eventQueueSize ≤ q.count then (false, q.refuse) else (true, q.store event)

def Queue.advance (q : Queue) : Queue := { q with head := q.head + 1, count := q.count - 1 }

/-- What `input_queue_poll` hands out: the event, and what it reports about the queue. -/
structure Polled where
  event : InputEvent
  depth : ℕ
  highWater : ℕ
  overflow : BitVec 64

def inputQueuePoll (q : Queue) : Option Polled × Queue :=
  if q.count = 0 then (none, q)
  else (some ⟨q.events q.head, q.count, q.highWater, q.overflowCount⟩, q.advance)

end Input
