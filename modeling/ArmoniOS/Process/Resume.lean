import ArmoniOS.Process.Contexts

/-! Runs of traps. Whatever processes trap, yield, exit, fault or spawn, a process is resumed with
the frame of its own last trap and the reply to its own call. -/
namespace Process
open Exec Pmm Vmm Function List Option

inductive Trap where
  | syscall (out : Outside)
  | irq (spurious : Bool)
  | fault (out : Outside)

def Trap.handle (k : Kernel) (frame : Frame) : Trap → Frame × Kernel
  | .syscall out => syscallDispatch out k frame
  | .irq spurious => irqHandlerFrame k frame spurious
  | .fault out => handleUserFault out k frame

/-- What the trap puts into `x0`: the result of the call, `0` for a yield. -/
def Trap.reply (k : Kernel) (frame : Frame) : Trap → Option (BitVec 64)
  | .syscall out =>
      if frame.x 8 = sysExitNumber then none
      else if frame.x 8 = sysYieldNumber then some 0
      else some (syscallCall out (saveCurrent k frame) k.current frame.x).1
  | .irq _ => none
  | .fault _ => none

def Trap.fresh : Trap → Option Frame
  | .syscall out => some out.load.entryFrame
  | .irq _ => none
  | .fault _ => none

def Frame.withReply (frame : Frame) : Option (BitVec 64) → Frame
  | some value => frame.setX0 value
  | none => frame

inductive Entry where
  | created (slot : Fin 16) (context : Frame)
  | trapped (slot : Fin 16) (frame : Frame) (reply : Option (BitVec 64))
  | resumed (slot : Fin 16) (frame : Frame)

/-- The frame of the last trap of the process in a slot, with the reply to its call, or the context
it was created with if it has not trapped yet. The latest entry of a history comes first. -/
def ownFrame (slot : Fin 16) : List Entry → Option Frame
  | [] => none
  | .created i context :: history => if i = slot then some context else ownFrame slot history
  | .trapped i frame reply :: history =>
      if i = slot then some (frame.withReply reply) else ownFrame slot history
  | .resumed _ _ :: history => ownFrame slot history

def generation (slot : Fin 16) : List Entry → ℕ
  | [] => 0
  | .created i _ :: history =>
      if i = slot then generation slot history + 1 else generation slot history
  | _ :: history => generation slot history

structure Frame.All (P : BitVec 64 → Prop) (frame : Frame) : Prop where
  x : ∀ n, P (frame.x n)
  elr : P frame.elr
  spsr : P frame.spsr
  spEl0 : P frame.spEl0

/-- A labelling of values with the processes they belong to: each process starts with values of its
own, traps with values of its own, and is replied to with values of its own. -/
def Labelled (Own : Fin 16 → ℕ → BitVec 64 → Prop) : List Entry → Prop
  | [] => True
  | .created i context :: history =>
      context.All (Own i (generation i history + 1)) ∧ Labelled Own history
  | .trapped i frame reply :: history =>
      frame.All (Own i (generation i history)) ∧
        (∀ value ∈ reply, Own i (generation i history) value) ∧ Labelled Own history
  | .resumed _ _ :: history => Labelled Own history

structure Session where
  kernel : Kernel
  history : List Entry

/-- The processes in these slots are new and start from these contexts. -/
def creations (context : Fin 16 → Frame) (slots : List (Fin 16)) : List Entry :=
  slots.map fun i => .created i (context i)

def bornSlots (k k' : Kernel) : List (Fin 16) :=
  (finRange 16).filter fun i => ¬ (k.procs i).Alive ∧ (k'.procs i).Alive

def births (k k' : Kernel) : Option Frame → List Entry
  | some fresh => creations (fun _ => fresh) (bornSlots k k')
  | none => []

/-- The processor goes back to the current process, if that one is running. -/
def resumption (k : Kernel) (frame : Frame) : List Entry :=
  match k.current with
  | some i => if (k.procs i).state = .running then [.resumed i frame] else []
  | none => []

def Session.trap (s : Session) (event : Trap × Frame) : Session :=
  match s.kernel.current with
  | none => s
  | some c =>
      if (s.kernel.procs c).state ≠ .running then s
      else
        let result := event.1.handle s.kernel event.2
        let entry := .trapped c event.2 (event.1.reply s.kernel event.2)
        let born := births s.kernel result.2 event.1.fresh
        ⟨result.2, resumption result.2 result.1 ++ (born ++ entry :: s.history)⟩

def Session.run (s : Session) (events : List (Trap × Frame)) : Session := events.foldl Session.trap s

def Session.start (k : Kernel) : Session :=
  ⟨k, creations (fun i => processLoadContext (k.procs i)) (finRange 16)⟩

/-- What the handling of a trap of `c` leaves behind: `c` has the frame `own`, every other process
the context it had, a new one the frame `fresh`, and the processor gets the context of the current
process. -/
structure Handled (fresh : Option Frame) (k k' : Kernel) (c : Fin 16) (own frame : Frame) : Prop where
  own : (k'.procs c).Alive → processLoadContext (k'.procs c) = own
  others : ∀ i, i ≠ c → (k.procs i).Alive → (k'.procs i).Alive →
    processLoadContext (k'.procs i) = processLoadContext (k.procs i)
  current : ∀ j, k'.current = some j → (k'.procs j).Alive →
    frame = processLoadContext (k'.procs j)
  born : ∀ i, ¬ (k.procs i).Alive → (k'.procs i).Alive →
    fresh = some (processLoadContext (k'.procs i))

section Handlers
variable {k k' k'' : Kernel} {c : Fin 16} {frame own : Frame} {fresh : Option Frame}

theorem saveCurrent_eq (hc : k.current = some c) (frame : Frame) :
    saveCurrent k frame = k.put c (processSaveContext (k.procs c) frame) := by
  unfold saveCurrent
  rw [hc]

theorem handled_stay (hlive : (k.procs c).Alive) (honly : OnlySlot k k' c)
    (hcurrent : k'.current = some c)
    (hself : (k'.procs c).Alive → processLoadContext (k'.procs c) = own ∧ frame = own) :
    Handled fresh k k' c own frame := by
  constructor
  · intro halive
    exact (hself halive).1
  · intro i hi _ _
    rw [honly.other i hi]
  · intro j hj halive
    obtain rfl : c = j := some.inj (hcurrent.symm.trans hj)
    obtain ⟨hload, hframe⟩ := hself halive
    exact hframe.trans hload.symm
  · intro i hdead halive
    have hi : i ≠ c := fun heq => hdead (heq ▸ hlive)
    rw [honly.other i hi] at halive
    exact absurd halive hdead

theorem handled_switch (hlive : (k.procs c).Alive) (honly : OnlySlot k k' c)
    (hself : (k'.procs c).Alive → processLoadContext (k'.procs c) = own)
    {current : Option (Fin 16)} {policy : DispatchPolicy}
    (h : processDispatchNext k' current policy = some (frame, k'')) :
    Handled fresh k k'' c own frame := by
  obtain ⟨hcontext, halive, next, hnext, hframe⟩ := processDispatchNext_contexts h
  constructor
  · intro hc
    rw [hcontext c]
    exact hself (halive c hc)
  · intro i hi _ _
    rw [hcontext i, honly.other i hi]
  · intro j hj _
    obtain rfl : next = j := some.inj (hnext.symm.trans hj)
    exact hframe
  · intro i hdead hi''
    have hi : i ≠ c := fun heq => hdead (heq ▸ hlive)
    have hi' := halive i hi''
    rw [honly.other i hi] at hi'
    exact absurd hi' hdead

theorem handled_irq (hc : k.current = some c) (hlive : (k.procs c).Alive) (frame : Frame)
    (spurious : Bool) : Handled fresh k (irqHandlerFrame k frame spurious).2 c frame
      (irqHandlerFrame k frame spurious).1 := by
  unfold irqHandlerFrame
  rw [saveCurrent_eq hc, hc]
  have hsave := onlySlot_put k c (processSaveContext (k.procs c) frame)
  cases spurious with
  | true =>
    apply handled_stay hlive hsave hc
    intro _
    exact ⟨by rw [put_procs_self]; rfl, rfl⟩
  | false =>
    dsimp only
    rw [if_neg (by simp), put_procs_self]
    have honly := hsave.trans (onlySlot_put _ c { processSaveContext (k.procs c) frame with
      pc := frame.elr, pstate := frame.spsr, sp := frame.spEl0 })
    split
    next result hdispatch =>
      apply handled_switch hlive honly _ hdispatch
      intro _
      rw [put_procs_self]
      rfl
    · apply handled_stay hlive honly hc
      intro _
      exact ⟨by rw [put_procs_self]; rfl, rfl⟩

theorem handled_exit (hc : k.current = some c) (hlive : (k.procs c).Alive) (out : Outside)
    (frame own : Frame) (code : BitVec 64) :
    Handled fresh k (exitCurrent out (saveCurrent k frame) frame code).2 c own
      (exitCurrent out (saveCurrent k frame) frame code).1 := by
  rw [saveCurrent_eq hc]
  have hsave := onlySlot_put k c (processSaveContext (k.procs c) frame)
  have hcurrent : (k.put c (processSaveContext (k.procs c) frame)).current = some c := hc
  generalize k.put c (processSaveContext (k.procs c) frame) = saved at *
  have honly : OnlySlot k (processMarkExited saved c code) c := by
    unfold processMarkExited
    split
    · exact hsave
    · exact hsave.trans (onlySlot_put _ c _)
  have hdead : ¬ ((processMarkExited saved c code).procs c).Alive := by
    unfold processMarkExited
    split
    next hzombie => exact fun halive => halive.2 hzombie
    · rw [put_procs_self]
      exact fun halive => halive.2 rfl
  have hstays : (processMarkExited saved c code).current = some c := by
    unfold processMarkExited
    split <;> exact hcurrent
  unfold exitCurrent
  rw [hcurrent]
  dsimp only
  split
  next result hdispatch => exact handled_switch hlive honly (fun halive => absurd halive hdead) hdispatch
  · exact handled_stay hlive honly hstays fun halive => absurd halive hdead

theorem handled_yield (hc : k.current = some c) (hlive : (k.procs c).Alive) (frame : Frame) :
    Handled fresh k (sysYieldProcess (saveCurrent k frame)).2 c (frame.setX0 0)
      ((sysYieldProcess (saveCurrent k frame)).1.getD (frame.setX0 0)) := by
  rw [saveCurrent_eq hc]
  have hcurrent : (k.put c (processSaveContext (k.procs c) frame)).current = some c := hc
  have honly := (onlySlot_put k c (processSaveContext (k.procs c) frame)).trans
    (onlySlot_put _ c { processSaveContext (k.procs c) frame with
      regs := update frame.x 0 0 })
  unfold sysYieldProcess
  rw [hcurrent]
  dsimp only
  rw [put_procs_self]
  split
  next result next hdispatch =>
    apply handled_switch hlive honly _ hdispatch
    intro _
    rw [put_procs_self]
    rfl
  · apply handled_stay hlive honly hc
    intro _
    exact ⟨by rw [put_procs_self]; rfl, rfl⟩

theorem Handled.writeBack (h : Handled fresh k k' c own frame) :
    Handled fresh k (writeBack k' frame) c own frame := by
  unfold Process.writeBack
  split
  next j hj =>
    have hkept (i) (halive : ((k'.put j { k'.procs j with
        regs := update (k'.procs j).regs 0 (frame.x 0)
        pc := frame.elr, pstate := frame.spsr, sp := frame.spEl0 }).procs i).Alive) :
        (k'.procs i).Alive ∧ processLoadContext ((k'.put j { k'.procs j with
          regs := update (k'.procs j).regs 0 (frame.x 0)
          pc := frame.elr, pstate := frame.spsr, sp := frame.spEl0 }).procs i) =
            processLoadContext (k'.procs i) := by
      by_cases hi : i = j
      · subst hi
        rw [put_procs_self] at halive ⊢
        have hframe := h.current i hj halive
        refine ⟨halive, ?_⟩
        simp [hframe, processLoadContext]
      · rw [put_procs_of_ne hi] at halive ⊢
        exact ⟨halive, rfl⟩
    constructor
    · intro halive
      rw [(hkept c halive).2]
      exact h.own (hkept c halive).1
    · intro i hi hk halive
      rw [(hkept i halive).2]
      exact h.others i hi hk (hkept i halive).1
    · intro i hcurrent halive
      rw [(hkept i halive).2]
      exact h.current i hcurrent (hkept i halive).1
    · intro i hdead halive
      rw [(hkept i halive).2]
      exact h.born i hdead (hkept i halive).1
  · exact h

section
variable (hc : k.current = some c)
include hc

section
variable (hrunning : (k.procs c).state = .running)
include hrunning

theorem handled_call (frame : Frame) (value : BitVec 64) {entry : Frame}
    (h : Undisturbed entry (saveCurrent k frame) k') :
    Handled (some entry) k (writeBack k' (frame.setX0 value)) c (frame.setX0 value)
      (frame.setX0 value) := by
  rw [saveCurrent_eq hc] at h
  have hsaved : (k.put c (processSaveContext (k.procs c) frame)).procs c =
      processSaveContext (k.procs c) frame := put_procs_self
  obtain ⟨hc', hrunning'⟩ := h.running c hc (by rw [hsaved]; exact hrunning)
  have hload := h.kept c (by rw [hsaved]; exact alive_of_running hrunning)
    (alive_of_running hrunning')
  rw [hsaved] at hload
  have hregs : (k'.procs c).regs = frame.x := congrArg Frame.x hload
  unfold writeBack
  rw [hc']
  have hnew : processLoadContext ({ k'.procs c with
      regs := update (k'.procs c).regs 0 ((frame.setX0 value).x 0)
      pc := (frame.setX0 value).elr
      pstate := (frame.setX0 value).spsr, sp := (frame.setX0 value).spEl0 }) =
        frame.setX0 value := by
    simp [processLoadContext, Frame.setX0, hregs]
  have hother (i) (hi : i ≠ c) : (k.put c (processSaveContext (k.procs c) frame)).procs i =
      k.procs i := put_procs_of_ne hi
  constructor
  · intro _
    rw [put_procs_self]
    exact hnew
  · intro i hi hk halive
    rw [put_procs_of_ne hi] at halive ⊢
    rw [h.kept i (by rwa [hother i hi]) halive, hother i hi]
  · intro j hj _
    obtain rfl : c = j := some.inj (hc'.symm.trans hj)
    rw [put_procs_self]
    exact hnew.symm
  · intro i hdead halive
    have hi : i ≠ c := fun heq => hdead (heq ▸ alive_of_running hrunning)
    rw [put_procs_of_ne hi] at halive ⊢
    rw [h.born i (by rwa [hother i hi]) halive]

theorem handled_syscall (out : Outside) (frame : Frame) :
    Handled (some out.load.entryFrame) k (syscallDispatch out k frame).2 c
      (frame.withReply (Trap.reply k frame (.syscall out))) (syscallDispatch out k frame).1 := by
  have hlive := alive_of_running hrunning
  unfold syscallDispatch syscallBody Trap.reply
  split_ifs
  · exact (handled_exit hc hlive out frame frame (frame.x 0)).writeBack
  · have hyield : Handled (some out.load.entryFrame) k _ c _ _ :=
      (handled_yield hc hlive frame).writeBack
    revert hyield
    rcases sysYieldProcess (saveCurrent k frame) with ⟨_ | switched, k'⟩ <;> exact id
  · exact handled_call hc hrunning frame _ (undisturbed_call out _ _ _)

theorem Trap.handled (event : Trap) (frame : Frame) :
    Handled event.fresh k (event.handle k frame).2 c (frame.withReply (event.reply k frame))
      (event.handle k frame).1 := by
  have hlive := alive_of_running hrunning
  cases event with
  | syscall out => exact handled_syscall hc hrunning out frame
  | irq spurious => exact handled_irq hc hlive frame spurious
  | fault out =>
    simp only [Trap.handle, handleUserFault, hc]
    exact handled_exit hc hlive out frame frame userFaultExitCode

end

end

end Handlers

section Histories
variable {history added : List Entry} {slot : Fin 16} {frame : Frame}

theorem ownFrame_creations (context : Fin 16 → Frame) (slots : List (Fin 16))
    (history : List Entry) : ownFrame slot (creations context slots ++ history) =
      if slot ∈ slots then some (context slot) else ownFrame slot history := by
  induction slots with
  | nil => simp [creations]
  | cons i slots ih =>
    change ownFrame slot (.created i (context i) :: (creations context slots ++ history)) = _
    rw [ownFrame, ih]
    by_cases hi : i = slot
    · subst hi
      simp
    · simp [hi, Ne.symm hi]

theorem ownFrame_births {k k' : Kernel} {fresh : Option Frame} (hold : (k.procs slot).Alive) :
    ownFrame slot (births k k' fresh ++ history) = ownFrame slot history := by
  cases fresh with
  | none => rfl
  | some context => rw [births, ownFrame_creations, if_neg (by simp [bornSlots, hold])]

/-- Every resumption so far was with the frame of the process's own last trap. -/
def Faithful (history : List Entry) : Prop :=
  ∀ slot frame earlier, Entry.resumed slot frame :: earlier <:+ history →
    ownFrame slot earlier = some frame

theorem Faithful.append (h : Faithful history)
    (hadded : ∀ slot frame, Entry.resumed slot frame ∉ added) : Faithful (added ++ history) := by
  induction added with
  | nil => exact h
  | cons e added ih =>
    intro slot frame earlier hsuffix
    rcases suffix_cons_iff.1 hsuffix with heq | hlater
    · obtain ⟨he, -⟩ := cons.inj heq
      exact absurd (he ▸ mem_cons_self) (hadded slot frame)
    · apply ih (fun slot frame hmem => hadded slot frame (mem_cons_of_mem e hmem))
      exact hlater

theorem Faithful.resumption (h : Faithful history) {k : Kernel}
    (hcurrent : ∀ i, k.current = some i → (k.procs i).state = .running →
      ownFrame i history = some frame) : Faithful (resumption k frame ++ history) := by
  unfold Process.resumption
  split
  next i hi =>
    split
    next hrunning =>
      intro slot frame' earlier hsuffix
      rcases suffix_cons_iff.1 hsuffix with heq | hlater
      · obtain ⟨he, rfl⟩ := cons.inj heq
        obtain ⟨rfl, rfl⟩ := Entry.resumed.inj he
        exact hcurrent slot hi hrunning
      · exact h slot frame' earlier hlater
    · exact h
  · exact h

theorem Labelled.ownFrame {Own : Fin 16 → ℕ → BitVec 64 → Prop} (h : Labelled Own history)
    (hframe : ownFrame slot history = some frame) :
    frame.All (Own slot (generation slot history)) := by
  induction history with
  | nil => cases hframe
  | cons e history ih =>
    cases e with
    | created i context =>
      by_cases hi : i = slot
      · subst hi
        simp only [Process.ownFrame, if_pos, some.injEq] at hframe
        simp only [generation, if_pos]
        exact hframe ▸ h.1
      · simp only [Process.ownFrame, if_neg hi] at hframe
        simp only [generation, if_neg hi]
        exact ih h.2 hframe
    | trapped i saved reply =>
      by_cases hi : i = slot
      · subst hi
        simp only [Process.ownFrame, if_pos, some.injEq] at hframe
        obtain ⟨hsaved, hreply, -⟩ := h
        subst hframe
        cases reply with
        | none => exact hsaved
        | some value =>
          refine ⟨fun n => ?_, hsaved.elr, hsaved.spsr, hsaved.spEl0⟩
          by_cases hn : n = 0
          · subst hn
            simpa [Frame.withReply, Frame.setX0, generation] using hreply value rfl
          · simpa [Frame.withReply, Frame.setX0, hn, generation] using hsaved.x n
      · simp only [Process.ownFrame, if_neg hi] at hframe
        exact ih h.2.2 hframe
    | resumed i saved => exact ih h hframe

end Histories

/-- The invariant of a session: each process that is there has the context its own last trap left,
and each resumption so far was with such a frame. -/
structure Session.Ok (s : Session) : Prop where
  saved : ∀ i, (s.kernel.procs i).Alive →
    ownFrame i s.history = some (processLoadContext (s.kernel.procs i))
  faithful : Faithful s.history

theorem Session.Ok.trap {s : Session} (h : s.Ok) (event : Trap × Frame) : (s.trap event).Ok := by
  unfold Session.trap
  split
  · exact h
  next c hc =>
    split_ifs with hidle
    · exact h
    have hhandled := Trap.handled hc (not_not.1 hidle) event.1 event.2
    dsimp only
    generalize event.1.handle s.kernel event.2 = result at *
    generalize event.1.reply s.kernel event.2 = reply at *
    generalize event.1.fresh = fresh at *
    -- the history up to the point where the processor is given back
    have hsaved (i) (halive : (result.2.procs i).Alive) :
        ownFrame i (births s.kernel result.2 fresh ++ .trapped c event.2 reply :: s.history) =
          some (processLoadContext (result.2.procs i)) := by
      by_cases hold : (s.kernel.procs i).Alive
      · rw [ownFrame_births hold, ownFrame]
        by_cases hi : c = i
        · subst hi
          rw [if_pos rfl, hhandled.own halive]
        · rw [if_neg hi, h.saved i hold, hhandled.others i (Ne.symm hi) hold halive]
      · rw [hhandled.born i hold halive, births, ownFrame_creations,
          if_pos (by simp [bornSlots, hold, halive])]
    constructor
    · intro i halive
      unfold resumption
      split
      · split <;> exact hsaved i halive
      · exact hsaved i halive
    · apply Faithful.resumption
      · apply Faithful.append
        · have htrapped (slot frame) : Entry.resumed slot frame ∉ [.trapped c event.2 reply] := by
            simp
          exact h.faithful.append htrapped
        · cases fresh <;> simp [births, creations]
      · intro i hi hrunning
        rw [hsaved i (alive_of_running hrunning), ← hhandled.current i hi (alive_of_running hrunning)]

theorem Session.Ok.run {s : Session} (h : s.Ok) (events : List (Trap × Frame)) :
    (s.run events).Ok := by
  induction events generalizing s with
  | nil => exact h
  | cons event events ih => exact ih (h.trap event)

theorem Session.start_ok (k : Kernel) : (Session.start k).Ok := by
  have hhistory : (Session.start k).history =
      creations (fun i => processLoadContext (k.procs i)) (finRange 16) ++ [] :=
    (append_nil _).symm
  constructor
  · intro i _
    rw [hhistory, ownFrame_creations, if_pos (mem_finRange i)]
    rfl
  · rw [hhistory]
    apply Faithful.append
    · intro slot frame earlier hsuffix
      exact absurd (suffix_nil.1 hsuffix) (cons_ne_nil _ _)
    · simp [creations]

/-- In every run of system calls, interrupts and faults, a process is resumed with the registers of
its own last trap and the result of its own call, and with no value of another process. -/
theorem resumed_with_own_frame (k : Kernel) (events : List (Trap × Frame)) (slot : Fin 16)
    (frame : Frame) (earlier : List Entry)
    (h : Entry.resumed slot frame :: earlier <:+ ((Session.start k).run events).history) :
    ownFrame slot earlier = some frame ∧
      ∀ Own, Labelled Own earlier → frame.All (Own slot (generation slot earlier)) := by
  have hown := ((Session.start_ok k).run events).faithful slot frame earlier h
  exact ⟨hown, fun Own hlabelled => hlabelled.ownFrame hown⟩

def twoProcesses : Kernel :=
  let empty := processTableInit ⟨fun _ _ => 0, ⟨fun _ => 0, 0, 0, 0⟩⟩
  { (empty.put 0 { processInit 1 with state := .running }).put 1 (processInit 2) with
    current := some 0, count := 2 }

/-- Slot 0 yields, the process in slot 1 is interrupted, and slot 0 goes on. -/
theorem resumed_with_own_frame_after_yield :
    let yielding : Frame :=
      ⟨fun n => if n = 8 then sysYieldNumber else BitVec.ofNat 64 n + 100, 0x4000, 0, 0x8000⟩
    let interrupted : Frame := ⟨fun n => BitVec.ofNat 64 n + 200, 0x5000, 0, 0x9000⟩
    let load : Load := ⟨3, twoProcesses.mm, [], 0, [], 0, 0, 0, false, false, 0, 0⟩
    let events := [(.syscall ⟨0, 0, none, false, load⟩, yielding), (.irq false, interrupted)]
    ∃ earlier, Entry.resumed 0 (yielding.setX0 0) :: earlier <:+
        ((Session.start twoProcesses).run events).history ∧
      ownFrame 0 earlier = some (yielding.setX0 0) ∧
      ∀ Own, Labelled Own earlier → (yielding.setX0 0).All (Own 0 (generation 0 earlier)) := by
  intro yielding interrupted load events
  have hlast : ((Session.start twoProcesses).run events).history =
      .resumed 0 (yielding.setX0 0) :: ((Session.start twoProcesses).run events).history.tail := rfl
  exact ⟨_, ⟨[], hlast.symm⟩, resumed_with_own_frame twoProcesses events 0 _ _ ⟨[], hlast.symm⟩⟩

end Process
