import ArmoniOS.Usb.XhciEvents

/-!
Which event ends a wait.

Events are matched by the place of a TRB in its ring, and places are used again. What makes the match
sound is that an endpoint never has more than one event to come: then the place does not matter, the
event can only belong to the submission being waited for.
-/
namespace Xhci

open Function List

/-! ### What a run has to keep to -/

def System.pendingEndpoints (s : System) : Finset (ℕ × ℕ) :=
  (Finset.range maxDevices ×ˢ Finset.range maxEndpoints).filter fun p =>
    (s.pending ⟨p.1, p.2⟩).isSome

def Pc.abandonsControl : Pc → Bool
  | .spin wait spins => wait.kind = .control ∧ wait.spinLimit ≤ spins
  | _ => false

/-- A new interrupt transfer finds fewer than eight pending, a control transfer is never given up, and
no data stage is short. -/
def System.Allowed (s : System) : Move → Prop
  | .interrupt device endpoint _ _ =>
    s.pending ⟨device, endpointDci (endpoint ||| 0x80#8)⟩ = none →
      s.pendingEndpoints.card < completionStash
  | .drive => s.pc.abandonsControl = false
  | .complete endpoint short _ =>
    ∀ submission ∈ (s.queued endpoint).head?,
      submission.trb.ioc = false → submission.trb.isp = true → short = false
  | _ => True

instance (s : System) (m : Move) : Decidable (s.Allowed m) := by
  cases m <;> unfold System.Allowed <;> infer_instance

def System.Careful (hw : Hardware) : System → List Move → Prop
  | _, [] => True
  | s, m :: rest => s.Allowed m ∧ System.Careful hw (s.move hw m) rest

instance (hw : Hardware) (s : System) (moves : List Move) : Decidable (s.Careful hw moves) := by
  induction moves generalizing s with
  | nil => exact isTrue trivial
  | cons m rest ih =>
    have := ih (s.move hw m)
    exact inferInstanceAs (Decidable (_ ∧ _))

/-! ### The stash -/

section Stash
variable {event : TransferEvent} {wait : Wait} {slots left : List (Option TransferEvent)}

theorem stashTransferEvent_perm (h : stashTransferEvent event slots = some left) :
    left.length = slots.length ∧ left.reduceOption.Perm (event :: slots.reduceOption) := by
  induction slots generalizing left with
  | nil => cases h
  | cons slot rest ih =>
    cases slot with
    | none =>
      cases h
      simp [reduceOption_cons_of_some, reduceOption_cons_of_none]
    | some kept =>
      obtain ⟨more, hmore, rfl⟩ := Option.map_eq_some_iff.mp h
      obtain ⟨hlen, hperm⟩ := ih hmore
      exact ⟨congrArg (· + 1) hlen, (hperm.cons kept).trans (.swap event kept _)⟩

theorem stashTransferEvent_eq_none (h : stashTransferEvent event slots = none) :
    slots.reduceOption.length = slots.length := by
  induction slots with
  | nil => rfl
  | cons slot rest ih =>
    cases slot with
    | none => cases h
    | some kept =>
      rw [reduceOption_cons_of_some, length_cons, length_cons, ih (Option.map_eq_none_iff.mp h)]

theorem takeStashedTransfer_perm (h : takeStashedTransfer wait slots = some (event, left)) :
    wait.accepts event = true ∧ left.length = slots.length ∧
      slots.reduceOption.Perm (event :: left.reduceOption) := by
  induction slots generalizing left with
  | nil => cases h
  | cons slot rest ih =>
    cases slot with
    | none =>
      obtain ⟨⟨found, more⟩, hmore, heq⟩ := Option.map_eq_some_iff.mp h
      cases heq
      obtain ⟨hok, hlen, hperm⟩ := ih hmore
      exact ⟨hok, congrArg (· + 1) hlen, hperm⟩
    | some kept =>
      rw [takeStashedTransfer] at h
      split_ifs at h with hkept
      · cases h
        exact ⟨hkept, rfl, .refl _⟩
      · obtain ⟨⟨found, more⟩, hmore, heq⟩ := Option.map_eq_some_iff.mp h
        cases heq
        obtain ⟨hok, hlen, hperm⟩ := ih hmore
        exact ⟨hok, congrArg (· + 1) hlen, (hperm.cons kept).trans (.swap event kept _)⟩

end Stash

/-! ### Events to come -/

abbrev Tag := TrbPointer × ℕ

def Submission.tag (t : Submission) : Tag := (t.pointer, t.serial)
def TransferEvent.tag (e : TransferEvent) : Tag := (e.parameter, e.serial)
def Pending.tag (p : Pending) : Tag := (p.pointer, p.serial)
def Wait.tag (w : Wait) : Tag := (w.doneTrb, w.serial)

def TransferEvent.endpoint (e : TransferEvent) : Endpoint := e.parameter.endpoint
def Wait.endpoint (w : Wait) : Endpoint := w.doneTrb.endpoint

def Event.transfer? : Event → Option TransferEvent
  | .transfer event => some event
  | _ => none

def transfers (events : List Event) : List TransferEvent := events.filterMap Event.transfer?

def System.flight (s : System) : List TransferEvent :=
  transfers s.events.unread ++ s.stashed.reduceOption

def System.due (s : System) (e : Endpoint) : List Tag :=
  ((s.queued e).filter (·.trb.ioc)).map Submission.tag ++
    (s.flight.filter (·.endpoint = e)).map TransferEvent.tag

def Pc.controlWait : Pc → Option Wait
  | .enter wait => if wait.kind = .control then some wait else none
  | .spin wait _ => if wait.kind = .control then some wait else none
  | _ => none

def System.awaited (s : System) (e : Endpoint) : Option Tag :=
  if e.dci = 1 then (s.pc.controlWait.filter (·.endpoint = e)).map Wait.tag
  else (s.pending e).map Pending.tag

structure TransferEvent.Routed (hw : Hardware) (e : TransferEvent) : Prop where
  dci : e.dci = e.endpoint.dci
  slotId : e.slotId = hw.slotId e.endpoint.device

structure Endpoint.Interrupts (e : Endpoint) : Prop where
  device : e.device < maxDevices
  dci : e.dci < maxEndpoints
  notControl : e.dci ≠ 1

structure Wait.Routed (hw : Hardware) (s : System) (w : Wait) : Prop where
  dci : w.dci = w.endpoint.dci
  slotId : w.slotId = hw.slotId w.endpoint.device
  control : w.kind = .control → w.endpoint.dci = 1
  interrupt : w.kind ≠ .control → (s.pending w.endpoint).map Pending.tag = some w.tag

def System.At (hw : Hardware) (s : System) : Pc → Prop
  | .idle _ => True
  | .command _ endpoint _ _ _ =>
    endpoint.Interrupts ∧ (s.pending endpoint = none → s.pendingEndpoints.card < completionStash)
  | .enter wait => wait.Routed hw s
  | .spin wait _ => wait.Routed hw s

structure System.Inv (hw : Hardware) (s : System) : Prop where
  events : s.events.Good
  owed : ∀ e, (s.due e).Perm (s.awaited e).toList
  placed : ∀ e, ∀ t ∈ s.queued e, t.pointer.endpoint = e
  routed : ∀ e ∈ s.flight, e.Routed hw
  slots : s.stashed.length = completionStash
  stashed : ∀ e ∈ s.stashed.reduceOption, e.endpoint.dci ≠ 1
  pending : ∀ e p, s.pending e = some p →
    e.Interrupts ∧ s.configured e = true ∧ p.pointer.endpoint = e
  room : s.pendingEndpoints.card ≤ completionStash
  at_pc : s.At hw s.pc
  faithful : s.Faithful

variable {rest : List Submission} {pc : Pc} {events : EventRing} {t : Submission}

section Inv
variable {hw : Hardware} {s s' : System} {e : TransferEvent} {w : Wait} {ep : Endpoint}

theorem transfers_append (l l' : List Event) : transfers (l ++ l') = transfers l ++ transfers l' :=
  filterMap_append

theorem System.Inv.awaited_of_flight (h : s.Inv hw) (he : e ∈ s.flight) :
    s.awaited e.endpoint = some e.tag := by
  have hmem : e.tag ∈ s.due e.endpoint := by
    apply mem_append_right
    apply mem_map_of_mem
    rw [mem_filter]
    exact ⟨he, decide_eq_true rfl⟩
  have hlist := (h.owed e.endpoint).mem_iff.mp hmem
  exact Option.mem_toList.mp hlist

theorem System.Inv.flight_nodup (h : s.Inv hw) : (s.flight.map TransferEvent.endpoint).Nodup := by
  rw [nodup_iff_count_le_one]
  intro a
  have hcount : (s.flight.map TransferEvent.endpoint).count a =
      (s.flight.filter (·.endpoint = a)).length := by
    rw [count_eq_countP, countP_map, countP_eq_length_filter]
    congr 1
  have hle : (s.due a).length ≤ 1 := by
    rw [(h.owed a).length_eq]
    cases s.awaited a <;> simp
  unfold System.due at hle
  rw [length_append, length_map, length_map] at hle
  omega

/-- An event in flight off the control endpoints is that of a pending interrupt transfer. -/
theorem System.Inv.pending_of_flight (h : s.Inv hw) (he : e ∈ s.flight)
    (hdci : e.endpoint.dci ≠ 1) :
    (e.endpoint.device, e.endpoint.dci) ∈ s.pendingEndpoints := by
  have hawait := h.awaited_of_flight he
  rw [System.awaited, if_neg hdci] at hawait
  obtain ⟨p, hp, -⟩ := Option.map_eq_some_iff.mp hawait
  obtain ⟨hint, -, -⟩ := h.pending _ _ hp
  simp only [System.pendingEndpoints, Finset.mem_filter, Finset.mem_product, Finset.mem_range]
  exact ⟨⟨hint.device, hint.dci⟩, by rw [hp]; rfl⟩

theorem System.Inv.stash_succeeds (h : s.Inv hw) {rest : List Event}
    (hunread : s.events.unread = .transfer e :: rest) (hdci : e.endpoint.dci ≠ 1) :
    ∃ stashed, stashTransferEvent e s.stashed = some stashed := by
  by_contra hnone
  have hfull := stashTransferEvent_eq_none
    (Option.eq_none_iff_forall_ne_some.mpr (not_exists.mp hnone))
  let held := e :: s.stashed.reduceOption
  have hsub : held.Sublist s.flight := by
    unfold System.flight
    rw [hunread]
    exact (sublist_append_right _ _).cons_cons e
  let pair (x : TransferEvent) : ℕ × ℕ := (x.endpoint.device, x.endpoint.dci)
  have hnodup : (held.map pair).Nodup := by
    have hmap : held.map pair =
        (held.map TransferEvent.endpoint).map fun a : Endpoint => (a.device, a.dci) := by
      rw [map_map]
      rfl
    rw [hmap]
    apply (h.flight_nodup.sublist (hsub.map _)).map
    rintro ⟨d, c⟩ ⟨d', c'⟩ heq
    cases heq
    rfl
  have hsubset : (held.map pair).toFinset ⊆ s.pendingEndpoints := by
    intro x hx
    obtain ⟨y, hy, rfl⟩ := mem_map.mp (mem_toFinset.mp hx)
    apply h.pending_of_flight (hsub.subset hy)
    rcases mem_cons.mp hy with rfl | hy
    · exact hdci
    · exact h.stashed y hy
  have hcard := Finset.card_le_card hsubset
  rw [toFinset_card_of_nodup hnodup, length_map, length_cons, hfull, h.slots] at hcard
  exact absurd (hcard.trans h.room) (by decide)

/-! ### Moves that keep the account -/

/-- What waits and the controller cannot change without settling or opening an account. -/
structure System.SameAccount (s s' : System) : Prop where
  queued : s'.queued = s.queued
  pending : s'.pending = s.pending
  configured : ∀ e, s.configured e = true → s'.configured e = true
  answered : s'.answered = s.answered
  dropped : s'.dropped = s.dropped

/-- The flight of a sound state: the event ring and stash it is spread over. -/
structure System.Carried (hw : Hardware) (s : System) : Prop where
  events : s.events.Good
  routed : ∀ e ∈ s.flight, e.Routed hw
  slots : s.stashed.length = completionStash
  stashed : ∀ e ∈ s.stashed.reduceOption, e.endpoint.dci ≠ 1

theorem System.pendingEndpoints_congr (hp : s'.pending = s.pending) :
    s'.pendingEndpoints = s.pendingEndpoints := by
  unfold System.pendingEndpoints
  rw [hp]

theorem Wait.Routed.congr (h : w.Routed hw s) (hp : s'.pending = s.pending) : w.Routed hw s' where
  dci := h.dci
  slotId := h.slotId
  control := h.control
  interrupt := by
    rw [hp]
    exact h.interrupt

theorem System.At.congr (h : s.At hw pc) (hp : s'.pending = s.pending) : s'.At hw pc := by
  cases pc with
  | idle _ => trivial
  | command _ _ _ _ _ =>
    unfold System.At
    rw [hp, System.pendingEndpoints_congr hp]
    exact h
  | enter _ => exact Wait.Routed.congr h hp
  | spin _ _ => exact Wait.Routed.congr h hp

theorem System.due_perm (hq : s'.queued = s.queued) (hf : s'.flight.Perm s.flight)
    (a : Endpoint) : (s'.due a).Perm (s.due a) := by
  unfold System.due
  rw [hq]
  exact ((hf.filter _).map _).append_left _

theorem System.due_cons (hq : s'.queued = s.queued) (hf : s.flight.Perm (e :: s'.flight))
    (a : Endpoint) :
    (s.due a).Perm (if e.endpoint = a then e.tag :: s'.due a else s'.due a) := by
  have hsplit := ((hf.filter (·.endpoint = a)).map TransferEvent.tag).append_left
    (((s.queued a).filter (·.trb.ioc)).map Submission.tag)
  unfold System.due
  rw [hq]
  split_ifs with ha
  · rw [filter_cons_of_pos (by simpa using ha), map_cons] at hsplit
    exact hsplit.trans perm_middle
  · rwa [filter_cons_of_neg (by simpa using ha)] at hsplit

section
variable (h : s.Inv hw)
include h

theorem System.Inv.carry (hsame : s.SameAccount s') (hc : s'.Carried hw)
    (hf : s'.flight.Perm s.flight) (hpc : s'.pc.controlWait = s.pc.controlWait)
    (hat : s'.At hw s'.pc) : s'.Inv hw where
  events := hc.events
  owed a := by
    have hawait : s'.awaited a = s.awaited a := by
      unfold System.awaited
      rw [hpc, hsame.pending]
    rw [hawait]
    exact (System.due_perm hsame.queued hf a).trans (h.owed a)
  placed := by
    rw [hsame.queued]
    exact h.placed
  routed := hc.routed
  slots := hc.slots
  stashed := hc.stashed
  pending a p hp := by
    rw [hsame.pending] at hp
    obtain ⟨hint, hconf, hptr⟩ := h.pending a p hp
    exact ⟨hint, hsame.configured a hconf, hptr⟩
  room := by
    rw [System.pendingEndpoints_congr hsame.pending]
    exact h.room
  at_pc := hat
  faithful := by
    constructor
    · rw [hsame.answered]
      exact h.faithful.own
    · rw [hsame.dropped]
      exact h.faithful.kept

theorem System.Inv.goto (hpc : pc.controlWait = s.pc.controlWait) (hat : s.At hw pc) :
    System.Inv hw { s with pc := pc } :=
  h.carry ⟨rfl, rfl, fun _ => id, rfl, rfl⟩ ⟨h.events, h.routed, h.slots, h.stashed⟩
    (.refl _) hpc (hat.congr rfl)

theorem System.Inv.flight_of_next (hnext : s.events.eventNext = some (.transfer e, events)) :
    s.flight = e :: System.flight { s with events := events } := by
  obtain ⟨-, hunread⟩ := h.events.eventNext hnext
  unfold System.flight
  rw [hunread]
  rfl

theorem System.Inv.reread (hgood : events.Good)
    (hflight : System.flight { s with events := events } = s.flight) :
    System.Inv hw { s with events := events } := by
  refine h.carry ⟨rfl, rfl, fun _ => id, rfl, rfl⟩ ⟨hgood, ?_, h.slots, h.stashed⟩
    (.of_eq hflight) rfl (h.at_pc.congr rfl)
  rw [hflight]
  exact h.routed

theorem System.Inv.skip {event : Event} (hnext : s.events.eventNext = some (event, events))
    (hno : event.transfer? = none) : System.Inv hw { s with events := events } := by
  obtain ⟨hgood, hunread⟩ := h.events.eventNext hnext
  apply h.reread hgood
  unfold System.flight transfers
  rw [hunread, filterMap_cons_none hno]

theorem System.Inv.putBy (hnext : s.events.eventNext = some (.transfer e, events))
    (hdci : e.endpoint.dci ≠ 1) :
    ({ s with events := events }.stash e).Inv hw ∧ ({ s with events := events }.stash e).pc = s.pc ∧
      ({ s with events := events }.stash e).pending = s.pending := by
  obtain ⟨hgood, hunread⟩ := h.events.eventNext hnext
  obtain ⟨stashed, hstash⟩ := h.stash_succeeds hunread hdci
  obtain ⟨hlen, hperm⟩ := stashTransferEvent_perm hstash
  have heq : System.stash { s with events := events } e =
      { s with events := events, stashed := stashed } := by
    unfold System.stash
    dsimp only
    rw [hstash]
  have hflight : (System.flight { s with events := events, stashed := stashed }).Perm s.flight := by
    rw [h.flight_of_next hnext]
    exact (hperm.append_left _).trans perm_middle
  rw [heq]
  refine ⟨?_, rfl, rfl⟩
  refine h.carry ⟨rfl, rfl, fun _ => id, rfl, rfl⟩ ⟨hgood, ?_, hlen.trans h.slots, ?_⟩ hflight rfl
    (h.at_pc.congr rfl)
  · intro x hx
    exact h.routed x (hflight.subset hx)
  · intro x hx
    rcases mem_cons.mp (hperm.subset hx) with rfl | hx
    · exact hdci
    · exact h.stashed x hx

end

/-! ### Ends of waits -/

/-- `wait` is the wait the driver is in. -/
def Pc.waits (pc : Pc) (wait : Wait) : Prop := pc = .enter wait ∨ ∃ spins, pc = .spin wait spins

theorem Pc.waits.controlWait_eq (h : pc.waits w) :
    pc.controlWait = if w.kind = .control then some w else none := by
  rcases h with rfl | ⟨_, rfl⟩ <;> rfl

theorem System.Inv.wait_routed (h : s.Inv hw) (hpc : s.pc.waits w) : w.Routed hw s := by
  have hat := h.at_pc
  rcases hpc with hpc | ⟨_, hpc⟩ <;> rw [hpc] at hat <;> exact hat

theorem System.Inv.awaited_wait (h : s.Inv hw) (hpc : s.pc.waits w) :
    s.awaited w.endpoint = some w.tag := by
  have hr := h.wait_routed hpc
  unfold System.awaited
  by_cases hkind : w.kind = .control
  · rw [if_pos (hr.control hkind), hpc.controlWait_eq, if_pos hkind]
    simp
  · have hpending := hr.interrupt hkind
    obtain ⟨p, hp, -⟩ := Option.map_eq_some_iff.mp hpending
    obtain ⟨hint, -, -⟩ := h.pending _ _ hp
    rw [if_neg hint.notControl, hpending]

/-- An event in flight that is not for the wait is of another endpoint, no control endpoint. -/
theorem System.Inv.foreign (h : s.Inv hw) (hpc : s.pc.waits w) (he : e ∈ s.flight)
    (hno : w.accepts e = false) : e.endpoint.dci ≠ 1 := by
  have hr := h.wait_routed hpc
  have hawait := h.awaited_of_flight he
  intro hdci
  have hsame : e.endpoint = w.endpoint ∧ e.tag = w.tag := by
    rw [System.awaited, if_pos hdci, hpc.controlWait_eq] at hawait
    split_ifs at hawait with hkind
    · simp only [Option.filter_some, decide_eq_true_eq] at hawait
      split_ifs at hawait with hend
      · exact ⟨hend.symm, (Option.some.inj hawait).symm⟩
      · cases hawait
    · cases hawait
  have hroute := h.routed e he
  have hptr : e.parameter = w.doneTrb := congrArg Prod.fst hsame.2
  have haccepts : w.accepts e = true := by
    unfold Wait.accepts
    rw [hroute.dci, hroute.slotId, hr.dci, hr.slotId, hsame.1]
    simp [hptr]
  rw [haccepts] at hno
  cases hno

theorem System.Inv.own_event (h : s.Inv hw) (hpc : s.pc.waits w) (he : e ∈ s.flight)
    (hok : w.accepts e = true) : e.endpoint = w.endpoint ∧ e.tag = w.tag := by
  have hptr := (of_decide_eq_true hok).1
  have hend : e.endpoint = w.endpoint := congrArg TrbPointer.endpoint hptr
  have hawait := h.awaited_of_flight he
  rw [hend, h.awaited_wait hpc] at hawait
  exact ⟨hend, (Option.some.inj hawait).symm⟩

def System.pendingAfter (s : System) (w : Wait) : Endpoint → Option Pending :=
  if w.kind = .control then s.pending else update s.pending w.endpoint none

theorem System.finish_eq (s : System) (w : Wait) (e : TransferEvent) : ∃ busy result, s.finish w e =
      { s with
        answered := s.answered ++ [(w.serial, e.serial)]
        inControlXfer := busy
        pending := s.pendingAfter w
        pc := .idle result } := by
  unfold System.finish System.pendingAfter
  cases hkind : w.kind with
  | control =>
    exact ⟨_, _, rfl⟩
  | interrupt bufSize =>
    exact ⟨_, _, rfl⟩

theorem System.pendingAfter_some {p : Pending} {a : Endpoint} (hp : s.pendingAfter w a = some p) :
    s.pending a = some p := by
  unfold System.pendingAfter at hp
  split_ifs at hp with hkind
  · exact hp
  · by_cases ha : a = w.endpoint
    · rw [ha, update_self] at hp
      cases hp
    · rwa [update_of_ne ha] at hp

theorem System.Inv.settle (h : s.Inv hw) (hpc : s.pc.waits w) (hok : w.accepts e = true)
    (hsame : s.SameAccount s') (hc : s'.Carried hw) (hf : s.flight.Perm (e :: s'.flight)) :
    (s'.finish w e).Inv hw := by
  obtain ⟨hend, htag⟩ := h.own_event hpc (hf.symm.subset mem_cons_self) hok
  obtain ⟨busy, result, heq⟩ := s'.finish_eq w e
  have hr := h.wait_routed hpc
  have hcontrol := hpc.controlWait_eq
  rw [heq]
  have hawait (a : Endpoint) : System.awaited { s' with
        answered := s'.answered ++ [(w.serial, e.serial)]
        inControlXfer := busy
        pending := s'.pendingAfter w
        pc := .idle result } a = if a = w.endpoint then none else s.awaited a := by
    unfold System.awaited System.pendingAfter
    rw [hsame.pending, hcontrol]
    by_cases hkind : w.kind = .control
    · have hdci := hr.control hkind
      by_cases ha : a = w.endpoint
      · rw [if_pos ha, ha, if_pos hdci]
        rfl
      · have hne := Ne.symm ha
        simp [hkind, ha, hne, Pc.controlWait, Option.filter_some]
    · by_cases ha : a = w.endpoint
      · simp [hkind, ha, Pc.controlWait]
      · simp [hkind, ha, Pc.controlWait]
  constructor
  · exact hc.events
  · intro a
    have hdue := (System.due_cons hsame.queued hf a).symm.trans (h.owed a)
    rw [hawait]
    by_cases ha : a = w.endpoint
    · rw [if_pos (hend.trans ha.symm), ha, h.awaited_wait hpc, Option.toList_some] at hdue
      have hnil : s'.due w.endpoint = [] := by simpa using hdue.length_eq
      rw [if_pos ha, ha]
      exact .of_eq hnil
    · rw [if_neg (by rw [hend]; exact Ne.symm ha)] at hdue
      rw [if_neg ha]
      exact hdue
  · rw [hsame.queued]
    exact h.placed
  · exact hc.routed
  · exact hc.slots
  · exact hc.stashed
  · intro a p hp
    have hp := System.pendingAfter_some hp
    rw [hsame.pending] at hp
    obtain ⟨hint, hconf, hptr⟩ := h.pending a p hp
    exact ⟨hint, hsame.configured a hconf, hptr⟩
  · refine le_trans (Finset.card_le_card fun a ha => ?_) h.room
    simp only [System.pendingEndpoints, Finset.mem_filter] at ha ⊢
    refine ha.imp_right fun ha => ?_
    obtain ⟨p, hp⟩ := Option.isSome_iff_exists.mp ha
    have hp := System.pendingAfter_some hp
    rw [← hsame.pending, hp]
    rfl
  · trivial
  · constructor
    · intro pair hpair
      rcases mem_append.mp hpair with hpair | hpair
      · rw [hsame.answered] at hpair
        exact h.faithful.own pair hpair
      · rw [mem_singleton.mp hpair]
        exact (congrArg Prod.snd htag).symm
    · exact hsame.dropped.trans h.faithful.kept

/-! ### The controller -/

theorem System.Inv.post (h : s.Inv hw) (event : Event) (hfull : s.events.full = false)
    (hno : event.transfer? = none) :
    System.Inv hw { s with events := s.events.post event } := by
  obtain ⟨hgood, hunread⟩ := h.events.post hfull event
  apply h.reread hgood
  unfold System.flight
  rw [hunread, transfers_append]
  simp [transfers, hno]

theorem System.due_posted (hq : s.queued ep = t :: rest)
    (hioc : t.trb.ioc = true) (htag : e.tag = t.tag) (hend : e.endpoint = ep)
    (hnext : s'.queued = update s.queued ep rest) (hf : s'.flight.Perm (e :: s.flight))
    (a : Endpoint) : (s'.due a).Perm (s.due a) := by
  have hperm := ((hf.filter (·.endpoint = a)).map TransferEvent.tag).append_left
    (((s'.queued a).filter (·.trb.ioc)).map Submission.tag)
  refine List.Perm.trans hperm ?_
  unfold System.due
  rw [hnext]
  by_cases ha : a = ep
  · rw [filter_cons_of_pos (by simpa using hend.trans ha.symm), map_cons, ha,
      update_self, hq, filter_cons_of_pos (p := fun x : Submission => x.trb.ioc) hioc,
      map_cons, cons_append, htag]
    exact perm_middle
  · have hthere : e.endpoint ≠ a := by
      rw [hend]
      exact Ne.symm ha
    rw [filter_cons_of_neg (by simpa using hthere), update_of_ne ha]

theorem System.Inv.complete (h : s.Inv hw) {short : Bool} {status : BitVec 32}
    (hall : s.Allowed (.complete ep short status)) : (s.complete hw ep short status).Inv hw := by
  unfold System.complete
  cases hq : s.queued ep with
  | nil => exact h
  | cons t rest =>
    dsimp only
    by_cases hfull : s.events.full = true
    · rw [if_pos hfull]
      exact h
    rw [if_neg hfull]
    have hhome := h.placed ep t (by rw [hq]; exact mem_cons_self)
    have hplaced (a : Endpoint) (x : Submission) (hx : x ∈ update s.queued ep rest a) :
        x.pointer.endpoint = a := by
      by_cases ha : a = ep
      · rw [ha, update_self] at hx
        rw [ha]
        exact h.placed ep x (by rw [hq]; exact mem_cons_of_mem _ hx)
      · rw [update_of_ne ha] at hx
        exact h.placed a x hx
    by_cases hioc : t.trb.ioc = true
    · rw [if_pos (Or.inl hioc)]
      let event : TransferEvent := ⟨t.pointer, status, ep.dci, hw.slotId ep.device, t.serial⟩
      obtain ⟨hgood, hunread⟩ := h.events.post (by simpa using hfull) (.transfer event)
      have hflight : (System.flight { s with
          queued := update s.queued ep rest
          events := s.events.post (.transfer event) }).Perm (event :: s.flight) := by
        unfold System.flight
        rw [hunread, transfers_append, append_assoc]
        exact perm_middle
      refine ⟨hgood, ?_, hplaced, ?_, h.slots, h.stashed, h.pending, h.room, h.at_pc.congr rfl,
        ⟨h.faithful.own, h.faithful.kept⟩⟩
      · intro a
        have hend : event.endpoint = ep := hhome
        exact (System.due_posted hq hioc rfl hend rfl hflight a).trans (h.owed a)
      · intro x hx
        rcases mem_cons.mp (hflight.subset hx) with rfl | hx
        · exact ⟨congrArg Endpoint.dci hhome.symm,
            congrArg (fun a => hw.slotId a.device) hhome.symm⟩
        · exact h.routed x hx
    · have hshort : ¬(t.trb.ioc = true ∨ t.trb.isp = true ∧ short = true) := by
        rintro (hyes | ⟨hisp, hs⟩)
        · exact hioc hyes
        · have hno := hall t (by rw [hq]; rfl) (by simpa using hioc) hisp
          rw [hs] at hno
          cases hno
      rw [if_neg hshort]
      refine ⟨h.events, ?_, hplaced, h.routed, h.slots, h.stashed, h.pending, h.room,
        h.at_pc.congr rfl, ⟨h.faithful.own, h.faithful.kept⟩⟩
      intro a
      apply Perm.trans (.of_eq _) (h.owed a)
      unfold System.due
      dsimp only
      by_cases ha : a = ep
      · rw [ha, update_self, hq, filter_cons_of_neg (p := fun x : Submission => x.trb.ioc) hioc]
        rfl
      · rw [update_of_ne ha]
        rfl

end Inv
end Xhci
