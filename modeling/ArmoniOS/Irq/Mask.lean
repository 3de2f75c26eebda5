import ArmoniOS.Gui.Events
import ArmoniOS.Input.Queue

/-! The interrupt mask. `irq_disable` and `irq_enable` of `irq_asm.S` count their nesting and bring back
the mask that the outermost call found; the event rings and the input queue are used between them. An
interrupt can come between any two instructions while it is not masked, so that the two helpers are
modelled instruction by instruction. -/
namespace Irq
open List

/-- The I bit of DAIF, `irq_disable_depth` and `irq_restore_enabled`. -/
structure Cpu where
  masked : Bool
  disableDepth : BitVec 32
  restoreEnabled : BitVec 32
  deriving DecidableEq

/-- The next instruction of a helper that reads or writes the mask or a counter, with the register that
it uses. -/
inductive Helper where
  | disable
  | readDaif
  | storeRestore (w2 : BitVec 32)
  | storeDepth
  | setMask
  | storeNested (w2 : BitVec 32)
  | enable
  | storeLower (w2 : BitVec 32)
  | loadRestore
  | clearMask
  deriving DecidableEq

/-- The effect of the instruction, and the one after it unless the helper returns. -/
def Helper.step (c : Cpu) : Helper → Cpu × Option Helper
  | .disable => (c, if c.disableDepth ≠ 0 then some (.storeNested c.disableDepth) else some .readDaif)
  | .readDaif => (c, some (.storeRestore (if c.masked then 0 else 1)))
  | .storeRestore w2 => ({ c with restoreEnabled := w2 }, some .storeDepth)
  | .storeDepth => ({ c with disableDepth := 1 }, some .setMask)
  | .setMask => ({ c with masked := true }, none)
  | .storeNested w2 => ({ c with disableDepth := w2 + 1 }, none)
  | .enable =>
      (c, if c.disableDepth = 0 then some .clearMask else some (.storeLower c.disableDepth))
  | .storeLower w2 =>
      ({ c with disableDepth := w2 - 1 }, if w2 - 1 ≠ 0 then none else some .loadRestore)
  | .loadRestore => (c, if c.restoreEnabled = 0 then none else some .clearMask)
  | .clearMask => ({ c with masked := false }, none)

/-- `irq_disable` when no interrupt comes in between. -/
def irqDisable (c : Cpu) : Cpu :=
  if c.disableDepth ≠ 0 then { c with disableDepth := c.disableDepth + 1 }
  else ⟨true, 1, if c.masked then 0 else 1⟩

/-- `irq_enable` when no interrupt comes in between. -/
def irqEnable (c : Cpu) : Cpu :=
  if c.disableDepth = 0 then { c with masked := false }
  else if c.disableDepth - 1 ≠ 0 then { c with disableDepth := c.disableDepth - 1 }
  else if c.restoreEnabled = 0 then { c with disableDepth := c.disableDepth - 1 }
  else { c with disableDepth := c.disableDepth - 1, masked := false }

/-- Up to `n` instructions of a helper. -/
def Helper.run : ℕ → Cpu → Option Helper → Cpu
  | _, c, none => c
  | 0, c, some _ => c
  | n + 1, c, some h => Helper.run n (h.step c).1 (h.step c).2

theorem run_disable (c : Cpu) : Helper.run 5 c (some .disable) = irqDisable c := by
  unfold irqDisable
  split_ifs <;> simp_all [Helper.run, Helper.step]

theorem run_enable (c : Cpu) : Helper.run 5 c (some .enable) = irqEnable c := by
  unfold irqEnable
  split_ifs <;> simp_all [Helper.run, Helper.step]

/-! ### Operations -/

/-- Straight-line code around the helpers: updates of shared data and branches on it. -/
inductive Code (δ : Type) where
  | done
  | disable (rest : Code δ)
  | enable (rest : Code δ)
  | update (f : δ → δ) (rest : Code δ)
  | branch (c : δ → Bool) (yes no : Code δ)

variable {δ : Type}

def Code.append : Code δ → Code δ → Code δ
  | .done, next => next
  | .disable rest, next => .disable (rest.append next)
  | .enable rest, next => .enable (rest.append next)
  | .update f rest, next => .update f (rest.append next)
  | .branch c yes no, next => .branch c (yes.append next) (no.append next)

def Code.run : Code δ → Cpu → δ → Cpu × δ
  | .done, c, d => (c, d)
  | .disable rest, c, d => rest.run (irqDisable c) d
  | .enable rest, c, d => rest.run (irqEnable c) d
  | .update f rest, c, d => rest.run c (f d)
  | .branch p yes no, c, d => if p d then yes.run c d else no.run c d

structure Shared where
  used : Fin 16 → Bool
  rings : Fin 16 → Gui.EventRing
  queue : Input.Queue

def Shared.setRing (d : Shared) (w : Fin 16) (f : Gui.EventRing → Gui.EventRing) : Shared :=
  { d with rings := Function.update d.rings w (f (d.rings w)) }

def Shared.setQueue (d : Shared) (f : Input.Queue → Input.Queue) : Shared :=
  { d with queue := f d.queue }

/-- The operations on the rings and the queue, the critical section of `sched_yield`, and work that
uses neither helper. -/
inductive Op where
  | pushEvent (window : Fin 16) (type : Gui.EventType) (data1 data2 : ℤ)
  | popEvent (window : Fin 16)
  | queuePush (event : Input.InputEvent)
  | queuePoll
  | queuePeek
  | queueAvailable
  | queueGetStats
  | schedYield
  | work (f : Shared → Shared)

def guiWindowPushEvent (w : Fin 16) (type : Gui.EventType) (data1 data2 : ℤ) : Code Shared :=
  .branch (fun d => d.used w)
    (.disable
      (.branch (fun d => decide ((d.rings w).Coalesces type))
        (.update (fun d => d.setRing w (·.merge data1 data2)) (.enable .done))
        (.branch (fun d => decide (Gui.eventQueueSize ≤ (d.rings w).count ∧ type = .mouseMove))
          (.enable .done)
          (.update (fun d => d.setRing w (·.store ⟨type, data1, data2⟩)) (.enable .done)))))
    .done

def guiWindowPopEvent (w : Fin 16) : Code Shared :=
  .branch (fun d => d.used w)
    (.disable
      (.branch (fun d => decide ((d.rings w).count = 0))
        (.enable .done)
        (.update (fun d => d.setRing w (·.advance)) (.enable .done))))
    .done

def inputQueuePush (event : Input.InputEvent) : Code Shared :=
  .disable
    (.branch (fun d => decide (Input.eventQueueSize ≤ d.queue.count))
      (.update (fun d => d.setQueue (·.refuse)) (.enable .done))
      (.update (fun d => d.setQueue (·.store event)) (.enable .done)))

def inputQueuePoll : Code Shared :=
  .disable
    (.branch (fun d => decide (d.queue.count = 0))
      (.enable .done)
      (.update (fun d => d.setQueue (·.advance)) (.enable .done)))

def inputQueuePeek : Code Shared :=
  .disable (.branch (fun d => decide (d.queue.count = 0)) (.enable .done) (.enable .done))

def Op.code : Op → Code Shared
  | .pushEvent w type data1 data2 => guiWindowPushEvent w type data1 data2
  | .popEvent w => guiWindowPopEvent w
  | .queuePush event => inputQueuePush event
  | .queuePoll => inputQueuePoll
  | .queuePeek => inputQueuePeek
  | .queueAvailable => .disable (.enable .done)
  | .queueGetStats => .disable (.enable .done)
  | .schedYield => .disable (.enable .done)
  | .work f => .update f .done

def Op.effect (d : Shared) : Op → Shared
  | .pushEvent w type data1 data2 =>
      if d.used w then d.setRing w (·.push type data1 data2) else d
  | .popEvent w => if d.used w then d.setRing w (fun r => r.pop.2) else d
  | .queuePush event => d.setQueue (fun q => (Input.inputQueuePush event q).2)
  | .queuePoll => d.setQueue (fun q => (Input.inputQueuePoll q).2)
  | .work f => f d
  | _ => d

/-- An operation does to the shared data what the functions of the rings and the queue do. -/
theorem Op.run_code (op : Op) (c : Cpu) (d : Shared) : (op.code.run c d).2 = op.effect d := by
  cases op <;>
    simp only [Op.code, guiWindowPushEvent, guiWindowPopEvent, inputQueuePush, inputQueuePoll,
      inputQueuePeek, Code.run, Op.effect, decide_eq_true_eq, Shared.setRing, Shared.setQueue,
      Gui.EventRing.push, Gui.EventRing.pop, Input.inputQueuePush, Input.inputQueuePoll] <;>
    split_ifs <;> simp only [Function.update_eq_self]

def codeOf : List Op → Code Shared
  | [] => .done
  | op :: ops => op.code.append (codeOf ops)

/-- A run of `irq_handler_frame`: what the callback of the device does, and what the pass of the runtime
service does after the end of the interrupt. The rest is work that leaves the mask alone: saving the
context, the acknowledgement, and the dispatch of the next process. -/
structure HandlerRun where
  spurious : Bool
  saveContext : Shared → Shared
  device : List Op
  endOfInterrupt : Shared → Shared
  runPending : List Op
  dispatch : Shared → Shared

def irqHandlerFrame (r : HandlerRun) : Code Shared :=
  codeOf (.work r.saveContext :: if r.spurious then []
    else r.device ++ .work r.endOfInterrupt :: (r.runPending ++ [.work r.dispatch]))

/-! ### Balanced code -/

/-- Every `irq_disable` is followed by one `irq_enable` before the next. `held` says that the code starts
between the two. -/
def Code.Balanced : Bool → Code δ → Prop
  | held, .done => held = false
  | held, .disable rest => held = false ∧ rest.Balanced true
  | held, .enable rest => held = true ∧ rest.Balanced false
  | held, .update _ rest => rest.Balanced held
  | held, .branch _ yes no => yes.Balanced held ∧ no.Balanced held

variable {code next : Code δ} {held : Bool}

theorem Code.Balanced.append (h : code.Balanced held)
    (hnext : next.Balanced false) : (code.append next).Balanced held := by
  induction code generalizing held with
  | done =>
    rw [show held = false from h]
    exact hnext
  | disable rest ih => exact ⟨h.1, ih h.2⟩
  | enable rest ih => exact ⟨h.1, ih h.2⟩
  | update f rest ih => exact ih h
  | branch c yes no ihyes ihno => exact ⟨ihyes h.1, ihno h.2⟩

theorem Op.code_balanced (op : Op) : op.code.Balanced false := by
  cases op <;> simp [Op.code, guiWindowPushEvent, guiWindowPopEvent, inputQueuePush, inputQueuePoll,
    inputQueuePeek, Code.Balanced]

theorem codeOf_balanced (ops : List Op) : (codeOf ops).Balanced false := by
  induction ops with
  | nil => rfl
  | cons op ops ih => exact op.code_balanced.append ih

/-- A place where an operation may start: outside every critical section, or inside one of another
context, which then has masked interrupts. -/
def Cpu.Rested (c : Cpu) : Prop := c.disableDepth = 0 ∨ (c.disableDepth = 1 ∧ c.masked = true)

theorem irqEnable_irqDisable {c : Cpu} (h : c.Rested) :
    (irqEnable (irqDisable c)).masked = c.masked ∧
      (irqEnable (irqDisable c)).disableDepth = c.disableDepth := by
  obtain ⟨masked, depth, restore⟩ := c
  rcases h with hzero | ⟨hone, hmasked⟩
  · subst hzero
    cases masked <;> simp [irqDisable, irqEnable]
  · subst hone hmasked
    simp [irqDisable, irqEnable]

/-- Balanced code gives the mask back. Inside a critical section the helper that ends it is still to
come. -/
theorem Code.Balanced.run (h : code.Balanced held) {c : Cpu} (d : δ) (hc : c.Rested) :
    let start := if held then irqDisable c else c
    (code.run start d).1.masked = c.masked ∧ (code.run start d).1.disableDepth = c.disableDepth := by
  induction code generalizing held c d with
  | done =>
    rw [show held = false from h]
    exact ⟨rfl, rfl⟩
  | disable rest ih =>
    rw [h.1]
    exact ih h.2 d hc
  | enable rest ih =>
    rw [h.1]
    obtain ⟨hmasked, hdepth⟩ := irqEnable_irqDisable hc
    have hrested : (irqEnable (irqDisable c)).Rested := by
      unfold Cpu.Rested
      rw [hmasked, hdepth]
      exact hc
    obtain ⟨hm, hd⟩ := ih h.2 d hrested
    exact ⟨hm.trans hmasked, hd.trans hdepth⟩
  | update f rest ih => exact ih h (f d) hc
  | branch p yes no ihyes ihno =>
    unfold Code.run
    dsimp only
    split
    · exact ihyes h.1 d hc
    · exact ihno h.2 d hc

/-! ### Interrupts between any two instructions -/

/-- A context: the helper that it is in, if any, and the code after that. -/
structure Context where
  helper : Option Helper
  code : Code Shared

def Code.isDone : Code δ → Bool
  | .done => true
  | _ => false

def Context.finished (x : Context) : Bool := x.helper.isNone && x.code.isDone

/-- The kernel's own code, and above it the runs of `irq_handler_frame`, the newest first, each with the
mask that its `eret` brings back. -/
structure System where
  cpu : Cpu
  shared : Shared
  kernel : Context
  handlers : List (Bool × Context)

def Context.step (x : Context) (c : Cpu) (d : Shared) : Context × Cpu × Shared :=
  match x.helper with
  | some h => (⟨(h.step c).2, x.code⟩, (h.step c).1, d)
  | none =>
    match x.code with
    | .done => (x, c, d)
    | .disable rest => (⟨some .disable, rest⟩, c, d)
    | .enable rest => (⟨some .enable, rest⟩, c, d)
    | .update f rest => (⟨none, rest⟩, c, f d)
    | .branch p yes no => (⟨none, if p d then yes else no⟩, c, d)

/-- What can happen next: an instruction of the running context, an interrupt, the start of an operation
of the kernel's own code, or a change of its own mask outside every operation (an exception from EL0
and the return to it, and the first `irq_enable` at boot). -/
inductive Event where
  | instruction
  | interrupt (run : HandlerRun)
  | start (op : Op)
  | mode (masked : Bool)

def System.step (s : System) : Event → System
  | .instruction =>
    match s.handlers with
    | [] =>
      let (kernel, cpu, shared) := s.kernel.step s.cpu s.shared
      { s with kernel, cpu, shared }
    | (saved, x) :: rest =>
      if x.finished then { s with handlers := rest, cpu.masked := saved }
      else
        let (x, cpu, shared) := x.step s.cpu s.shared
        { s with handlers := (saved, x) :: rest, cpu, shared }
  | .interrupt run =>
    if s.cpu.masked then s
    else { s with
      handlers := (s.cpu.masked, ⟨none, irqHandlerFrame run⟩) :: s.handlers
      cpu.masked := true }
  | .start op =>
    if s.handlers.isEmpty && s.kernel.finished then { s with kernel := ⟨none, op.code⟩ } else s
  | .mode masked =>
    if s.handlers.isEmpty && s.kernel.finished then { s with cpu.masked := masked } else s

def System.run (s : System) (events : List Event) : System := events.foldl System.step s

/-- `start.S` masks interrupts, and the counters are zero. -/
def System.boot (shared : Shared) : System := ⟨⟨true, 0, 0⟩, shared, ⟨none, .done⟩, []⟩

/-- Where the kernel's own code stands when no handler runs, or the interrupted code while one does. -/
def Context.KernelAt (depth : BitVec 32) (masked : Bool) (x : Context) : Prop :=
  match x.helper with
  | none => (x.code.Balanced false ∧ depth = 0) ∨
      (x.code.Balanced true ∧ depth = 1 ∧ masked = true)
  | some .disable => x.code.Balanced true ∧ depth = 0
  | some .readDaif => x.code.Balanced true ∧ depth = 0
  | some (.storeRestore _) => x.code.Balanced true ∧ depth = 0
  | some .storeDepth => x.code.Balanced true ∧ depth = 0
  | some .setMask => x.code.Balanced true ∧ depth = 1
  | some (.storeNested _) => False
  | some .enable => x.code.Balanced false ∧ depth = 1 ∧ masked = true
  | some (.storeLower w2) => x.code.Balanced false ∧ w2 = 1 ∧ masked = true
  | some .loadRestore => x.code.Balanced false ∧ depth = 0 ∧ masked = true
  | some .clearMask => x.code.Balanced false ∧ depth = 0

/-- Where a handler stands that interrupted code outside every critical section: it finds the mask set,
so that it stores zero as what to restore. -/
def Context.HandlerAt (c : Cpu) (x : Context) : Prop :=
  match x.helper with
  | none => (x.code.Balanced false ∧ c.disableDepth = 0) ∨
      (x.code.Balanced true ∧ c.disableDepth = 1 ∧ c.restoreEnabled = 0)
  | some .disable => x.code.Balanced true ∧ c.disableDepth = 0
  | some .readDaif => x.code.Balanced true ∧ c.disableDepth = 0
  | some (.storeRestore w2) => x.code.Balanced true ∧ c.disableDepth = 0 ∧ w2 = 0
  | some .storeDepth => x.code.Balanced true ∧ c.restoreEnabled = 0
  | some .setMask => x.code.Balanced true ∧ c.disableDepth = 1 ∧ c.restoreEnabled = 0
  | some (.storeNested _) => False
  | some .enable => x.code.Balanced false ∧ c.disableDepth = 1 ∧ c.restoreEnabled = 0
  | some (.storeLower w2) => x.code.Balanced false ∧ w2 = 1 ∧ c.restoreEnabled = 0
  | some .loadRestore => x.code.Balanced false ∧ c.disableDepth = 0 ∧ c.restoreEnabled = 0
  | some .clearMask => False

/-- Where a handler stands that interrupted `irq_disable` after the depth was stored: its own pairs are
nested. -/
def Context.NestedAt (c : Cpu) (x : Context) : Prop :=
  match x.helper with
  | none => (x.code.Balanced false ∧ c.disableDepth = 1) ∨ (x.code.Balanced true ∧ c.disableDepth = 2)
  | some .disable => x.code.Balanced true ∧ c.disableDepth = 1
  | some (.storeNested w2) => x.code.Balanced true ∧ w2 = 1
  | some .enable => x.code.Balanced false ∧ c.disableDepth = 2
  | some (.storeLower w2) => x.code.Balanced false ∧ w2 = 2
  | _ => False

/-- At most one handler runs, with interrupts masked, above code that can be interrupted. -/
inductive System.Ok : System → Prop
  | kernel {s : System} (handlers : s.handlers = [])
      (at_ : s.kernel.KernelAt s.cpu.disableDepth s.cpu.masked) : System.Ok s
  | handler {s : System} {x : Context} (handlers : s.handlers = [(false, x)])
      (masked : s.cpu.masked = true) (at_ : x.HandlerAt s.cpu) (below : s.kernel.KernelAt 0 false) :
      System.Ok s
  | nested {s : System} {x : Context} (handlers : s.handlers = [(false, x)])
      (masked : s.cpu.masked = true) (at_ : x.NestedAt s.cpu) (below : s.kernel.KernelAt 1 false) :
      System.Ok s

variable {depth : BitVec 32} {outer inner : Prop}

section Steps
variable {x : Context} {c : Cpu} {d : Shared}

theorem Context.step_helper (h : Helper) (code : Code Shared) :
    (⟨some h, code⟩ : Context).step c d = (⟨(h.step c).2, code⟩, (h.step c).1, d) := rfl

theorem step_disable_outer (h : c.disableDepth = 0) : Helper.step c .disable = (c, some .readDaif) := by
  rw [Helper.step, if_neg (not_not.2 h)]

theorem step_disable_inner (h : c.disableDepth = 1) :
    Helper.step c .disable = (c, some (.storeNested 1)) := by
  simp [Helper.step, h]

theorem step_enable (h : c.disableDepth = depth) (hne : depth ≠ 0) :
    Helper.step c .enable = (c, some (.storeLower depth)) := by
  rw [Helper.step, h, if_neg hne]

theorem step_storeLower_outer :
    Helper.step c (.storeLower 1) = ({ c with disableDepth := 0 }, some .loadRestore) := by
  simp [Helper.step]

theorem step_storeLower_inner :
    Helper.step c (.storeLower 2) = ({ c with disableDepth := 1 }, none) := by
  simp [Helper.step]

theorem step_loadRestore_masked (h : c.restoreEnabled = 0) :
    Helper.step c .loadRestore = (c, none) := by
  rw [Helper.step, if_pos h]

theorem step_loadRestore_open (h : c.restoreEnabled ≠ 0) :
    Helper.step c .loadRestore = (c, some .clearMask) := by
  rw [Helper.step, if_neg h]

theorem balanced_done (h : ((Code.done : Code Shared).Balanced false ∧ outer) ∨
    ((Code.done : Code Shared).Balanced true ∧ inner)) : outer :=
  h.elim And.right fun h => absurd h.1.symm Bool.false_ne_true

theorem code_step {P : Context → Prop}
    (hnone : ∀ code, (code.Balanced false ∧ outer) ∨ (code.Balanced true ∧ inner) → P ⟨none, code⟩)
    (hdisable : ∀ rest, rest.Balanced true ∧ outer → P ⟨some .disable, rest⟩)
    (henable : ∀ rest, rest.Balanced false ∧ inner → P ⟨some .enable, rest⟩) {code : Code Shared}
    (h : (code.Balanced false ∧ outer) ∨ (code.Balanced true ∧ inner)) :
    P ((⟨none, code⟩ : Context).step c d).1 ∧ ((⟨none, code⟩ : Context).step c d).2.1 = c := by
  cases code with
  | done => exact ⟨hnone _ h, rfl⟩
  | disable rest =>
    exact ⟨hdisable _ (h.elim (fun h => ⟨h.1.2, h.2⟩) fun h => absurd h.1.1.symm Bool.false_ne_true), rfl⟩
  | enable rest =>
    exact ⟨henable _ (h.elim (fun h => absurd h.1.1 Bool.false_ne_true) fun h => ⟨h.1.2, h.2⟩), rfl⟩
  | update f rest => exact ⟨hnone _ h, rfl⟩
  | branch p yes no =>
    refine ⟨hnone _ ?_, rfl⟩
    split
    · exact h.imp (fun h => ⟨h.1.1, h.2⟩) (fun h => ⟨h.1.1, h.2⟩)
    · exact h.imp (fun h => ⟨h.1.2, h.2⟩) (fun h => ⟨h.1.2, h.2⟩)

theorem kernelAt_step (h : x.KernelAt c.disableDepth c.masked) :
    (x.step c d).1.KernelAt (x.step c d).2.1.disableDepth (x.step c d).2.1.masked := by
  obtain ⟨helper, code⟩ := x
  cases helper with
  | none =>
    obtain ⟨hat, hcpu⟩ := code_step (P := Context.KernelAt c.disableDepth c.masked) (fun _ => id)
      (fun _ => id) (fun _ => id) h
    rw [hcpu]
    exact hat
  | some helper =>
    rw [Context.step_helper]
    cases helper with
    | disable =>
      rw [step_disable_outer h.2]
      exact h
    | readDaif => exact h
    | storeRestore w2 => exact h
    | storeDepth => exact ⟨h.1, rfl⟩
    | setMask => exact .inr ⟨h.1, h.2, rfl⟩
    | storeNested w2 => exact h.elim
    | enable =>
      rw [step_enable h.2.1 (by decide)]
      exact ⟨h.1, rfl, h.2.2⟩
    | storeLower w2 =>
      obtain ⟨hcode, rfl, hmasked⟩ := h
      rw [step_storeLower_outer]
      exact ⟨hcode, rfl, hmasked⟩
    | loadRestore =>
      by_cases hrestore : c.restoreEnabled = 0
      · rw [step_loadRestore_masked hrestore]
        exact .inl ⟨h.1, h.2.1⟩
      · rw [step_loadRestore_open hrestore]
        exact ⟨h.1, h.2.1⟩
    | clearMask => exact .inl h

/-- Code that can be interrupted holds no critical section, or has just counted the start of one. -/
theorem kernelAt_unmasked (h : x.KernelAt depth false) : depth = 0 ∨ depth = 1 := by
  obtain ⟨helper, code⟩ := x
  cases helper with
  | none => exact h.elim (fun h => .inl h.2) (fun h => .inr h.2.1)
  | some helper =>
    cases helper with
    | setMask => exact .inr h.2
    | storeNested w2 => exact h.elim
    | enable => exact .inr h.2.1
    | storeLower w2 => exact absurd h.2.2 Bool.false_ne_true
    | loadRestore => exact .inl h.2.1
    | disable => exact .inl h.2
    | readDaif => exact .inl h.2
    | storeRestore w2 => exact .inl h.2
    | storeDepth => exact .inl h.2
    | clearMask => exact .inl h.2

theorem handlerAt_step (hmasked : c.masked = true) (h : x.HandlerAt c) :
    (x.step c d).1.HandlerAt (x.step c d).2.1 ∧ (x.step c d).2.1.masked = true := by
  obtain ⟨helper, code⟩ := x
  cases helper with
  | none =>
    obtain ⟨hat, hcpu⟩ := code_step (P := Context.HandlerAt c) (fun _ => id) (fun _ => id) (fun _ => id) h
    rw [hcpu]
    exact ⟨hat, hmasked⟩
  | some helper =>
    rw [Context.step_helper]
    cases helper with
    | disable =>
      rw [step_disable_outer h.2]
      exact ⟨h, hmasked⟩
    | readDaif =>
      -- the handler runs with the mask set, so that this is what `irq_enable` will restore
      have hread : Helper.step c .readDaif = (c, some (.storeRestore 0)) := by
        rw [Helper.step, if_pos hmasked]
      rw [hread]
      exact ⟨⟨h.1, h.2, rfl⟩, hmasked⟩
    | storeRestore w2 => exact ⟨⟨h.1, h.2.2⟩, hmasked⟩
    | storeDepth => exact ⟨⟨h.1, rfl, h.2⟩, hmasked⟩
    | setMask => exact ⟨.inr h, rfl⟩
    | storeNested w2 => exact h.elim
    | enable =>
      rw [step_enable h.2.1 (by decide)]
      exact ⟨⟨h.1, rfl, h.2.2⟩, hmasked⟩
    | storeLower w2 =>
      obtain ⟨hcode, rfl, hrestore⟩ := h
      rw [step_storeLower_outer]
      exact ⟨⟨hcode, rfl, hrestore⟩, hmasked⟩
    | loadRestore =>
      rw [step_loadRestore_masked h.2.2]
      exact ⟨.inl ⟨h.1, h.2.1⟩, hmasked⟩
    | clearMask => exact h.elim

/-- A handler above code that has just counted its own critical section, one instruction on. -/
theorem nestedAt_step (hmasked : c.masked = true) (h : x.NestedAt c) :
    (x.step c d).1.NestedAt (x.step c d).2.1 ∧ (x.step c d).2.1.masked = true := by
  obtain ⟨helper, code⟩ := x
  cases helper with
  | none =>
    obtain ⟨hat, hcpu⟩ := code_step (P := Context.NestedAt c) (fun _ => id) (fun _ => id) (fun _ => id) h
    rw [hcpu]
    exact ⟨hat, hmasked⟩
  | some helper =>
    rw [Context.step_helper]
    cases helper with
    | disable =>
      rw [step_disable_inner h.2]
      exact ⟨⟨h.1, rfl⟩, hmasked⟩
    | storeNested w2 =>
      obtain ⟨hcode, rfl⟩ := h
      exact ⟨.inr ⟨hcode, rfl⟩, hmasked⟩
    | enable =>
      rw [step_enable h.2 (by decide)]
      exact ⟨⟨h.1, rfl⟩, hmasked⟩
    | storeLower w2 =>
      obtain ⟨hcode, rfl⟩ := h
      rw [step_storeLower_inner]
      exact ⟨.inl ⟨hcode, rfl⟩, hmasked⟩
    | readDaif => exact h.elim
    | storeRestore w2 => exact h.elim
    | storeDepth => exact h.elim
    | setMask => exact h.elim
    | loadRestore => exact h.elim
    | clearMask => exact h.elim

theorem Context.finished_iff : x.finished = true ↔ x = ⟨none, .done⟩ := by
  obtain ⟨helper, code⟩ := x
  cases helper <;> cases code <;> simp [Context.finished, Code.isDone]

end Steps

theorem step_handler (cpu : Cpu) (shared : Shared) (kernel x : Context) :
    let s : System := ⟨cpu, shared, kernel, [(false, x)]⟩
    (x = ⟨none, .done⟩ ∧ s.step .instruction = ⟨{ cpu with masked := false }, shared, kernel, []⟩) ∨
    s.step .instruction = ⟨(x.step cpu shared).2.1, (x.step cpu shared).2.2, kernel,
      [(false, (x.step cpu shared).1)]⟩ := by
  by_cases hfin : x.finished = true
  · refine .inl ⟨Context.finished_iff.1 hfin, ?_⟩
    change (if x.finished then _ else _) = _
    rw [if_pos hfin]
  · refine .inr ?_
    change (if x.finished then _ else _) = _
    rw [if_neg hfin]
    rfl

variable {s t : System}

/-- What waits until no code runs finds the depth at zero. -/
theorem System.Ok.update_idle (h : s.Ok)
    (ht : s.handlers = [] → s.kernel = ⟨none, .done⟩ → s.cpu.disableDepth = 0 → t.Ok) :
    System.Ok (if s.handlers.isEmpty && s.kernel.finished then t else s) := by
  split
  next hidle =>
    obtain ⟨hempty, hfin⟩ := Bool.and_eq_true_iff.1 hidle
    have hnone := isEmpty_iff.1 hempty
    have hdone := Context.finished_iff.1 hfin
    cases h with
    | kernel _ hat =>
      rw [hdone] at hat
      exact ht hnone hdone (balanced_done hat)
    | handler hone _ _ _ => cases hnone.symm.trans hone
    | nested hone _ _ _ => cases hnone.symm.trans hone
  · exact h

theorem System.Ok.step (h : s.Ok) (e : Event) : (s.step e).Ok := by
  obtain ⟨cpu, shared, kernel, handlers⟩ := s
  cases e with
  | instruction =>
    cases h with
    | kernel hnone hat =>
      subst hnone
      exact System.Ok.kernel rfl (kernelAt_step hat)
    | @handler x hone hmasked hat hbelow =>
      subst hone
      rcases step_handler cpu shared kernel x with ⟨rfl, hstep⟩ | hstep
      · rw [hstep]
        apply System.Ok.kernel rfl
        rw [show cpu.disableDepth = 0 from balanced_done hat]
        exact hbelow
      · rw [hstep]
        obtain ⟨hat', hmasked'⟩ := handlerAt_step hmasked hat
        exact System.Ok.handler rfl hmasked' hat' hbelow
    | @nested x hone hmasked hat hbelow =>
      subst hone
      rcases step_handler cpu shared kernel x with ⟨rfl, hstep⟩ | hstep
      · rw [hstep]
        apply System.Ok.kernel rfl
        rw [show cpu.disableDepth = 1 from balanced_done hat]
        exact hbelow
      · rw [hstep]
        obtain ⟨hat', hmasked'⟩ := nestedAt_step hmasked hat
        exact System.Ok.nested rfl hmasked' hat' hbelow
  | interrupt run =>
    change System.Ok (if cpu.masked then _ else _)
    split
    · exact h
    next hopen =>
      cases h with
      | kernel hnone hat =>
        subst hnone
        have hfalse := Bool.eq_false_iff.2 hopen
        rw [hfalse] at hat ⊢
        have hcode : (irqHandlerFrame run).Balanced false := codeOf_balanced _
        rcases kernelAt_unmasked hat with hdepth | hdepth
        · rw [hdepth] at hat
          exact System.Ok.handler rfl rfl (.inl ⟨hcode, hdepth⟩) hat
        · rw [hdepth] at hat
          exact System.Ok.nested rfl rfl (.inl ⟨hcode, hdepth⟩) hat
      | handler _ hmasked _ _ => exact absurd hmasked hopen
      | nested _ hmasked _ _ => exact absurd hmasked hopen
  | start op =>
    exact h.update_idle fun hnone _ hdepth => .kernel hnone (.inl ⟨op.code_balanced, hdepth⟩)
  | mode masked =>
    refine h.update_idle fun hnone hdone hdepth => .kernel hnone ?_
    obtain rfl := hdone
    exact .inl ⟨rfl, hdepth⟩

theorem System.Ok.run (h : s.Ok) (events : List Event) : (s.run events).Ok := by
  induction events generalizing s with
  | nil => exact h
  | cons e events ih => exact ih (h.step e)

def quietShared : Shared := ⟨fun _ => true, fun _ => .empty, .init⟩

/-- A run that delivers a key press to window 0 and asks how many input events are left. -/
def keyRun : HandlerRun :=
  ⟨false, id, [], id, [.queuePoll, .pushEvent 0 .keyPress 65 0, .queueAvailable], id⟩

/-- The kernel's own code is interrupted inside `irq_disable`, after it stored that interrupts are to be
restored and before it stores the depth. -/
def interruptedDisable : List Event :=
  [.mode false, .start .queueAvailable] ++ replicate 4 .instruction ++ [.interrupt keyRun]

/-- The operation that was interrupted there ends with interrupts masked, although it started without the
mask: the handler's own pair has overwritten `irq_restore_enabled`. -/
example :
    let s := (System.boot quietShared).run (interruptedDisable ++ replicate 60 .instruction)
    s.handlers.length = 0 ∧ s.kernel.finished = true ∧ s.cpu.masked = true := by
  decide

end Irq
