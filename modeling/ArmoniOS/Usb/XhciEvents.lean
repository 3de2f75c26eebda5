import ArmoniOS.Usb.XhciRing

/-!
Transfers of the xHCI driver and the events they wait for.

All endpoints share one event ring and a stash of eight completions. A wait takes the event whose TRB
address, slot and endpoint are its own; any other transfer event it meets goes to the stash.
-/
namespace Xhci

open CycleRing IndexRing Function List

def eventRingSize : ℕ := 64
def transferRingSize : ℕ := 32
def completionStash : ℕ := 8
def maxDevices : ℕ := 4
def maxEndpoints : ℕ := 32
def controlBufSize : ℕ := 512
def intrBufSize : ℕ := 64

def trbIsp : BitVec 32 := 4
def trbIoc : BitVec 32 := 0x20
def trbIdt : BitVec 32 := 0x40
def trbDir : BitVec 32 := 0x10000

def trbNormal : BitVec 32 := 1
def trbSetupStage : BitVec 32 := 2
def trbDataStage : BitVec 32 := 3
def trbStatusStage : BitVec 32 := 4
def trbConfigureEp : BitVec 32 := 12

def ccSuccess : BitVec 32 := 1
def ccShortPacket : BitVec 32 := 13

/-- A device index with a device context index, the pair that picks a transfer ring. -/
structure Endpoint where
  device : ℕ
  dci : ℕ
  deriving DecidableEq, Repr

/-- `&transfer_ring[device][dci][slot]`. -/
structure TrbPointer where
  endpoint : Endpoint
  slot : ℕ
  deriving DecidableEq, Repr

/-- A TRB pushed on a transfer ring. The serial number counts the pushes and is seen by nobody. -/
structure Submission where
  pointer : TrbPointer
  trb : Trb
  serial : ℕ
  deriving DecidableEq, Repr

def Trb.ioc (trb : Trb) : Bool := trb.control &&& trbIoc ≠ 0

def Trb.isp (trb : Trb) : Bool := trb.control &&& trbIsp ≠ 0

/-- A transfer event, its control word split into endpoint and slot, with the serial number of the
submission it was generated for. -/
structure TransferEvent where
  parameter : TrbPointer
  status : BitVec 32
  dci : ℕ
  slotId : ℕ
  serial : ℕ
  deriving DecidableEq, Repr

/-- Completions of commands name the slot of the command ring; port changes and the like carry
nothing the driver reads. -/
inductive Event where
  | transfer (event : TransferEvent)
  | command (slot : ℕ) (status : BitVec 32)
  | other
  deriving DecidableEq, Repr

def trbCompletionCode (status : BitVec 32) : BitVec 32 := status >>> 24

def completionOk (code : BitVec 32) : Bool := code = ccSuccess ∨ code = ccShortPacket

/-! ### The event ring -/

/-- The ring memory with the dequeue position of the driver; `posted` and `taken` record what has
been written and how much of it was read. -/
structure EventRing where
  slots : ℕ → Event × Bool
  dequeue : ℕ
  cycle : Bool
  posted : List Event
  taken : ℕ

def EventRing.start : EventRing := ⟨fun _ => (.other, false), 0, true, [], 0⟩

/-- The controller writes the next entry with the cycle bit of its lap, once there is a free one. -/
def EventRing.post (ring : EventRing) (event : Event) : EventRing :=
  { ring with
    slots := update ring.slots (ring.posted.length % eventRingSize)
      (event, lapCycle eventRingSize ring.posted.length)
    posted := ring.posted ++ [event] }

def EventRing.full (ring : EventRing) : Bool := ring.taken + eventRingSize ≤ ring.posted.length

def EventRing.eventNext (ring : EventRing) : Option (Event × EventRing) :=
  let entry := ring.slots ring.dequeue
  if entry.2 ≠ ring.cycle then none
  else if eventRingSize ≤ ring.dequeue + 1 then
    some (entry.1, { ring with dequeue := 0, cycle := !ring.cycle, taken := ring.taken + 1 })
  else some (entry.1, { ring with dequeue := ring.dequeue + 1, taken := ring.taken + 1 })

def EventRing.unread (ring : EventRing) : List Event := ring.posted.drop ring.taken

structure EventRing.Good (ring : EventRing) : Prop where
  lapped : Lapped eventRingSize eventRingSize ring.slots ring.posted
  behind : ring.taken ≤ ring.posted.length
  near : ring.posted.length ≤ ring.taken + eventRingSize
  dequeue : ring.dequeue = ring.taken % eventRingSize
  cycle : ring.cycle = lapCycle eventRingSize ring.taken

theorem EventRing.start_good : EventRing.start.Good where
  lapped := by
    apply Lapped.start (by decide)
    intro i _
    rfl
  behind := le_rfl
  near := Nat.zero_le _
  dequeue := rfl
  cycle := by decide

section EventRing
variable {ring next : EventRing}

theorem EventRing.Good.post (h : ring.Good) (hfull : ring.full = false) (event : Event) :
    (ring.post event).Good ∧ (ring.post event).unread = ring.unread ++ [event] := by
  have hroom : ring.posted.length < ring.taken + eventRingSize := by
    simpa [EventRing.full] using hfull
  constructor
  · constructor
    · have hnarrow : Lapped eventRingSize 63 ring.slots ring.posted := h.lapped.narrow (by decide)
      apply hnarrow.publish rfl
      · intro i _ hne
        exact update_of_ne hne _ _
      · exact update_self ..
    · exact h.behind.trans (by simp [EventRing.post])
    · simpa [EventRing.post] using hroom
    · exact h.dequeue
    · exact h.cycle
  · exact drop_append_of_le_length h.behind

theorem EventRing.Good.eventNext (h : ring.Good) {event : Event}
    (hnext : ring.eventNext = some (event, next)) :
    next.Good ∧ ring.unread = event :: next.unread := by
  unfold EventRing.eventNext at hnext
  rw [h.dequeue, h.cycle] at hnext
  by_cases hc : (ring.slots (ring.taken % eventRingSize)).2 = lapCycle eventRingSize ring.taken
  · have hlt := (h.lapped.cycle_eq_iff h.behind h.near).mp hc
    have hheld := h.lapped.held ring.taken ring.posted[ring.taken] (getElem?_eq_getElem hlt) h.near
    have hmod := succ_mod (m := eventRingSize) (by decide) ring.taken
    have hlap := lapCycle_succ (m := eventRingSize) (by decide) ring.taken
    have hslot := Nat.mod_lt ring.taken (show 0 < eventRingSize by decide)
    have hnear := h.near
    rw [if_neg (not_not.mpr hc), hheld] at hnext
    have hlast : eventRingSize ≤ ring.taken % eventRingSize + 1 ↔
        ring.taken % eventRingSize + 1 = eventRingSize := by omega
    simp only [hlast] at hnext
    split_ifs at hnext hmod hlap
    all_goals
      cases hnext
      exact ⟨⟨h.lapped, hlt, by dsimp only; omega, hmod.symm, hlap.symm⟩, drop_eq_getElem_cons hlt⟩
  · rw [if_pos hc] at hnext
    cases hnext

end EventRing

/-! ### Driver and controller -/

/-- Addresses the driver hands to the controller, and the slot id of each device. -/
structure Hardware where
  slotId : ℕ → ℕ
  ringBase : Endpoint → BitVec 64
  inputContext : BitVec 64
  controlBuffer : BitVec 64
  interruptBuffer : Endpoint → BitVec 64

/-- `pending_intr_trb` and `pending_intr_len`. -/
structure Pending where
  pointer : TrbPointer
  length : ℕ
  serial : ℕ
  deriving DecidableEq, Repr

inductive WaitKind where
  | control
  | interrupt (bufSize : ℕ)
  deriving DecidableEq, Repr

/-- The arguments of `wait_transfer`, with the submission they stand for and what its caller does
with the outcome. -/
structure Wait where
  doneTrb : TrbPointer
  slotId : ℕ
  dci : ℕ
  spinLimit : ℕ
  requested : ℕ
  serial : ℕ
  kind : WaitKind
  deriving DecidableEq, Repr

/-- Where the driver is: between calls with the last result, in `wait_command` for an endpoint being
configured, at the head of `wait_transfer`, or in its loop. -/
inductive Pc where
  | idle (result : ℤ)
  | command (slot : ℕ) (endpoint : Endpoint) (maxPacket bufSize spins : ℕ)
  | enter (wait : Wait)
  | spin (wait : Wait) (spins : ℕ)
  deriving DecidableEq, Repr

structure System where
  endpoint : Endpoint → Ring
  command : Ring
  configured : Endpoint → Bool
  pending : Endpoint → Option Pending
  stashed : List (Option TransferEvent)
  inControlXfer : Bool
  events : EventRing
  pc : Pc
  queued : Endpoint → List Submission
  commands : List ℕ
  serial : ℕ
  /-- Serial numbers awaited and found, for each wait that an event has ended. -/
  answered : List (ℕ × ℕ)
  dropped : List TransferEvent

def System.start (endpoint : Endpoint → Ring) (command : Ring) (configured : Endpoint → Bool) :
    System :=
  { endpoint, command, configured
    pending := fun _ => none
    stashed := replicate completionStash none
    inControlXfer := false
    events := EventRing.start
    pc := .idle 0
    queued := fun _ => []
    commands := []
    serial := 0
    answered := []
    dropped := [] }

/-- The first free entry takes the event; `none` when there is none. -/
def stashTransferEvent (event : TransferEvent) :
    List (Option TransferEvent) → Option (List (Option TransferEvent))
  | [] => none
  | none :: rest => some (some event :: rest)
  | some kept :: rest => (stashTransferEvent event rest).map (some kept :: ·)

def Wait.accepts (wait : Wait) (event : TransferEvent) : Bool :=
  event.parameter = wait.doneTrb ∧ event.dci = wait.dci ∧ event.slotId = wait.slotId

def takeStashedTransfer (wait : Wait) :
    List (Option TransferEvent) → Option (TransferEvent × List (Option TransferEvent))
  | [] => none
  | none :: rest => (takeStashedTransfer wait rest).map fun (event, left) => (event, none :: left)
  | some event :: rest =>
    if wait.accepts event then some (event, none :: rest)
    else (takeStashedTransfer wait rest).map fun (found, left) => (found, some event :: left)

def System.stash (s : System) (event : TransferEvent) : System :=
  match stashTransferEvent event s.stashed with
  | some stashed => { s with stashed := stashed }
  | none => { s with dropped := s.dropped ++ [event] }

/-- `ring_push` on a transfer ring. -/
def System.push (s : System) (endpoint : Endpoint) (trb : Trb) : Option Submission × System :=
  match ringPush (s.endpoint endpoint) trb with
  | none => (none, s)
  | some (slot, _, ring) =>
    let submission : Submission := ⟨⟨endpoint, slot⟩, trb, s.serial⟩
    (some submission,
      { s with
        endpoint := update s.endpoint endpoint ring
        queued := update s.queued endpoint (s.queued endpoint ++ [submission])
        serial := s.serial + 1 })

def usbReqSetAddress : BitVec 8 := 5

def setupIsSetAddress (setup : BitVec 64) : Bool :=
  setup.extractLsb' 0 8 = 0 ∧ setup.extractLsb' 8 8 = usbReqSetAddress ∧
    setup.extractLsb' 48 16 = 0

def setupTrt (isIn hasData : Bool) : BitVec 32 :=
  if hasData then if isIn then 3 else 2 else 0

def setupControl (isIn hasData : Bool) : BitVec 32 :=
  trbType trbSetupStage ||| trbIdt ||| setupTrt isIn hasData <<< 16

def dataControl (isIn : Bool) : BitVec 32 :=
  trbType trbDataStage ||| trbIsp ||| if isIn then trbDir else 0

def statusControl (isIn : Bool) : BitVec 32 :=
  trbType trbStatusStage ||| (if isIn then 0 else trbDir) ||| trbIoc

def normalControl : BitVec 32 := trbType trbNormal ||| trbIsp ||| trbIoc

def System.controlTransferDevice (hw : Hardware) (s : System) (device : ℕ) (setup : BitVec 64)
    (dataSize : ℕ) : System :=
  if hw.slotId device = 0 ∨ maxDevices ≤ device then { s with pc := .idle (-1) }
  else if setupIsSetAddress setup then { s with pc := .idle 0 }
  else if s.inControlXfer then { s with pc := .idle (-1) }
  else
    let size := min dataSize controlBufSize
    let isIn := setup.getLsbD 7
    let endpoint : Endpoint := ⟨device, 1⟩
    let (setupTrb, s₁) := { s with inControlXfer := true }.push endpoint
      ⟨setup, 8, setupControl isIn (0 < size)⟩
    let (dataTrb, s₂) :=
      if 0 < size then s₁.push endpoint ⟨hw.controlBuffer, size, dataControl isIn⟩ else (none, s₁)
    let (statusTrb, s₃) := s₂.push endpoint ⟨0, 0, statusControl isIn⟩
    match setupTrb, statusTrb with
    | some _, some done =>
      if 0 < size ∧ dataTrb = none then { s₃ with inControlXfer := false, pc := .idle (-1) }
      else { s₃ with
        pc := .enter ⟨done.pointer, hw.slotId device, 1, 1000000, size, done.serial, .control⟩ }
    | _, _ => { s₃ with inControlXfer := false, pc := .idle (-1) }

def endpointDci (endpoint : BitVec 8) : ℕ :=
  let epNum := (endpoint &&& 0x0f#8).toNat
  if epNum = 0 then 1 else epNum * 2 + if endpoint &&& 0x80#8 ≠ 0 then 1 else 0

/-- The transfer half of `xhci_interrupt_in_device`, once the endpoint is configured. -/
def System.submitInterrupt (hw : Hardware) (s : System) (endpoint : Endpoint)
    (maxPacket bufSize : ℕ) : System :=
  let xferLen := min (min bufSize maxPacket) intrBufSize
  let await (s : System) (p : Pending) : System :=
    { s with
      pc := .enter ⟨p.pointer, hw.slotId endpoint.device, endpoint.dci, 5000, p.length, p.serial,
        .interrupt bufSize⟩ }
  match s.pending endpoint with
  | some p => await s p
  | none =>
    match s.push endpoint ⟨hw.interruptBuffer endpoint, xferLen, normalControl⟩ with
    | (none, s) => { s with pc := .idle (-1) }
    | (some trb, s) =>
      let p : Pending := ⟨trb.pointer, xferLen, trb.serial⟩
      await { s with pending := update s.pending endpoint (some p) } p

/-- `configure_interrupt_endpoint` up to its wait; the controller forgets what the ring held. -/
def System.configureInterruptEndpoint (hw : Hardware) (s : System) (endpoint : Endpoint)
    (maxPacket bufSize : ℕ) : System :=
  let s := { s with
    endpoint := update s.endpoint endpoint
      (ringInit (hw.ringBase endpoint) transferRingSize).1
    queued := update s.queued endpoint [] }
  match ringPush s.command ⟨hw.inputContext, 0,
    trbType trbConfigureEp ||| BitVec.ofNat 32 (hw.slotId endpoint.device) <<< 24⟩ with
  | none => { s with pc := .idle (-1) }
  | some (slot, _, ring) =>
    { s with
      command := ring
      commands := s.commands ++ [slot]
      pc := .command slot endpoint maxPacket bufSize 0 }

def System.interruptInDevice (hw : Hardware) (s : System) (device : ℕ) (endpoint : BitVec 8)
    (maxPacket bufSize : ℕ) : System :=
  let ep : Endpoint := ⟨device, endpointDci (endpoint ||| 0x80#8)⟩
  if bufSize = 0 ∨ hw.slotId device = 0 ∨ endpoint = 0 ∨ maxDevices ≤ device then
    { s with pc := .idle (-1) }
  else if maxEndpoints ≤ ep.dci ∨ ep.dci = 1 then { s with pc := .idle (-1) }
  else if s.configured ep then s.submitInterrupt hw ep maxPacket bufSize
  else s.configureInterruptEndpoint hw ep maxPacket bufSize

def System.finish (s : System) (wait : Wait) (event : TransferEvent) : System :=
  let ok := completionOk (trbCompletionCode event.status)
  let residue := min (event.status &&& 0x00ffffff#32).toNat wait.requested
  let actual := wait.requested - residue
  let s := { s with answered := s.answered ++ [(wait.serial, event.serial)] }
  match wait.kind with
  | .control => { s with inControlXfer := false, pc := .idle (if ok then actual else -1) }
  | .interrupt bufSize =>
    { s with
      pending := update s.pending wait.doneTrb.endpoint none
      pc := .idle (if ok then (min actual bufSize : ℕ) else -1) }

/-- The spins are used up: a control transfer fails, an interrupt transfer stays pending. -/
def System.giveUp (s : System) (wait : Wait) : System :=
  match wait.kind with
  | .control => { s with inControlXfer := false, pc := .idle (-1) }
  | .interrupt _ => { s with pc := .idle 0 }

/-- One round of the loop in `wait_command`. -/
def System.spinCommand (hw : Hardware) (s : System) (slot : ℕ) (endpoint : Endpoint)
    (maxPacket bufSize spins : ℕ) : System :=
  let again (s : System) := { s with pc := .command slot endpoint maxPacket bufSize (spins + 1) }
  if 1000000 ≤ spins then { s with pc := .idle (-1) }
  else match s.events.eventNext with
    | none => again s
    | some (.transfer event, events) => again ({ s with events := events }.stash event)
    | some (.command found status, events) =>
      if found ≠ slot then again { s with events := events }
      else if trbCompletionCode status ≠ ccSuccess then
        { s with events := events, pc := .idle (-1) }
      else
        { s with
          events := events
          configured := update s.configured endpoint true }.submitInterrupt hw endpoint
            maxPacket bufSize
    | some (.other, events) => again { s with events := events }

/-- One round of the loop in `wait_transfer`. -/
def System.spinTransfer (s : System) (wait : Wait) (spins : ℕ) : System :=
  let again (s : System) := { s with pc := .spin wait (spins + 1) }
  if wait.spinLimit ≤ spins then s.giveUp wait
  else match s.events.eventNext with
    | none => again s
    | some (.transfer event, events) =>
      if wait.accepts event then { s with events := events }.finish wait event
      else again ({ s with events := events }.stash event)
    | some (_, events) => again { s with events := events }

def System.drive (hw : Hardware) (s : System) : System :=
  match s.pc with
  | .idle _ => s
  | .command slot endpoint maxPacket bufSize spins =>
    s.spinCommand hw slot endpoint maxPacket bufSize spins
  | .enter wait =>
    match takeStashedTransfer wait s.stashed with
    | some (event, stashed) => { s with stashed := stashed }.finish wait event
    | none => { s with pc := .spin wait 0 }
  | .spin wait spins => s.spinTransfer wait spins

/-- The controller completes the next TRB of a ring, and posts one event for it if the TRB asks for
one. A full event ring holds it up. -/
def System.complete (hw : Hardware) (s : System) (endpoint : Endpoint) (short : Bool)
    (status : BitVec 32) : System :=
  match s.queued endpoint with
  | [] => s
  | submission :: rest =>
    if s.events.full then s
    else
      let s := { s with queued := update s.queued endpoint rest }
      if submission.trb.ioc ∨ submission.trb.isp ∧ short then
        { s with
          events := s.events.post (.transfer ⟨submission.pointer, status, endpoint.dci,
            hw.slotId endpoint.device, submission.serial⟩) }
      else s

def System.completeCommand (s : System) (status : BitVec 32) : System :=
  match s.commands with
  | [] => s
  | slot :: rest =>
    if s.events.full then s
    else { s with commands := rest, events := s.events.post (.command slot status) }

/-- Calls of the driver come one after another; the controller works in between. -/
inductive Move where
  | control (device : ℕ) (setup : BitVec 64) (dataSize : ℕ)
  | interrupt (device : ℕ) (endpoint : BitVec 8) (maxPacket bufSize : ℕ)
  | drive
  | complete (endpoint : Endpoint) (short : Bool) (status : BitVec 32)
  | completeCommand (status : BitVec 32)
  | notice
  deriving DecidableEq, Repr

def Pc.isIdle : Pc → Bool
  | .idle _ => true
  | _ => false

def System.move (hw : Hardware) (s : System) : Move → System
  | .control device setup dataSize =>
    if s.pc.isIdle then s.controlTransferDevice hw device setup dataSize else s
  | .interrupt device endpoint maxPacket bufSize =>
    if s.pc.isIdle then s.interruptInDevice hw device endpoint maxPacket bufSize else s
  | .drive => s.drive hw
  | .complete endpoint short status => s.complete hw endpoint short status
  | .completeCommand status => s.completeCommand status
  | .notice => if s.events.full then s else { s with events := s.events.post .other }

def System.run (hw : Hardware) (s : System) (moves : List Move) : System :=
  moves.foldl (System.move hw) s

/-- Every wait that has taken an event has taken that of its own submission, and no transfer event
was lost. -/
structure System.Faithful (s : System) : Prop where
  own : ∀ pair ∈ s.answered, pair.1 = pair.2
  kept : s.dropped = []

end Xhci
