import ArmoniOS.Usb.XhciCompletions

/-!
Transfers open an account with the controller, waits settle it.

A control transfer submits up to three TRBs of which the status stage alone asks for an event, unless
its data stage turns out short; an interrupt transfer submits one and may stay pending over any number
of calls.
-/
namespace Xhci

open Function List

variable {ts : List Submission} {t : Submission}

variable {pc : Pc} {device maxPacket bufSize slot spins : ℕ}

section Transfers
variable {hw : Hardware} {s s' : System} {w : Wait} {ep : Endpoint}

/-! ### Submissions -/

/-- TRBs `ts` were pushed on the ring of `ep`, and nothing else happened. -/
structure System.Pushed (ep : Endpoint) (ts : List Submission) (s s' : System) : Prop where
  queued : s'.queued = update s.queued ep (s.queued ep ++ ts)
  placed : ∀ t ∈ ts, t.pointer.endpoint = ep
  configured : s'.configured = s.configured
  pending : s'.pending = s.pending
  stashed : s'.stashed = s.stashed
  events : s'.events = s.events
  pc : s'.pc = s.pc
  answered : s'.answered = s.answered
  dropped : s'.dropped = s.dropped

def System.Ready (s : System) (ep : Endpoint) : Prop :=
  (s.endpoint ep).enqueue < (s.endpoint ep).size - 1

theorem System.push_not_ready (hready : ¬s.Ready ep) (trb : Trb) : s.push ep trb = (none, s) := by
  unfold System.push ringPush
  rw [if_pos (not_lt.mp hready)]

theorem System.push_ready (hready : s.Ready ep) (trb : Trb) :
    ∃ t s', s.push ep trb = (some t, s') ∧ t.trb = trb ∧ System.Pushed ep [t] s s' ∧
      s'.Ready ep := by
  unfold System.Ready at hready
  unfold System.push ringPush
  rw [if_neg (not_le.mpr hready)]
  split_ifs
  all_goals
    refine ⟨_, _, rfl, rfl, ⟨rfl, by simp, rfl, rfl, rfl, rfl, rfl, rfl, rfl⟩, ?_⟩
    unfold System.Ready
    simp only [update_self]
    omega

theorem System.Pushed.trans {ts' : List Submission} {s₁ s₂ s₃ : System}
    (h : System.Pushed ep ts s₁ s₂) (h' : System.Pushed ep ts' s₂ s₃) :
    System.Pushed ep (ts ++ ts') s₁ s₃ where
  queued := by
    rw [h'.queued, h.queued, update_idem, update_self, append_assoc]
  placed t ht := by
    rcases mem_append.mp ht with ht | ht
    · exact h.placed t ht
    · exact h'.placed t ht
  configured := h'.configured.trans h.configured
  pending := h'.pending.trans h.pending
  stashed := h'.stashed.trans h.stashed
  events := h'.events.trans h.events
  pc := h'.pc.trans h.pc
  answered := h'.answered.trans h.answered
  dropped := h'.dropped.trans h.dropped

section
variable (h : System.Pushed ep ts s s')
include h

theorem System.Pushed.flight_eq : s'.flight = s.flight := by
  unfold System.flight
  rw [h.events, h.stashed]

/-- One event more is due on the endpoint of a submission with a single TRB that asks for one. -/
theorem System.Pushed.due_perm (hone : ts.filter (·.trb.ioc) = [t]) (a : Endpoint) :
    (s'.due a).Perm (if a = ep then t.tag :: s.due a else s.due a) := by
  unfold System.due
  rw [h.flight_eq, h.queued]
  by_cases ha : a = ep
  · rw [if_pos ha, ha, update_self, filter_append, hone, map_append, append_assoc]
    exact perm_middle
  · rw [if_neg ha, update_of_ne ha]

end

section
variable (p : BitVec 64) (st : BitVec 32)

theorem setupControl_ioc : ∀ isIn hasData, Trb.ioc ⟨p, st, setupControl isIn hasData⟩ = false :=
  show ∀ isIn hasData, decide (setupControl isIn hasData &&& trbIoc ≠ 0) = false by decide

theorem dataControl_ioc : ∀ isIn, Trb.ioc ⟨p, st, dataControl isIn⟩ = false :=
  show ∀ isIn, decide (dataControl isIn &&& trbIoc ≠ 0) = false by decide

theorem statusControl_ioc : ∀ isIn, Trb.ioc ⟨p, st, statusControl isIn⟩ = true :=
  show ∀ isIn, decide (statusControl isIn &&& trbIoc ≠ 0) = true by decide

end

/-- A submission opens an account: its endpoint was owed nothing and is owed one event now. -/
theorem System.Inv.opened (h : s.Inv hw) (hpush : System.Pushed ep ts s s')
    (hone : ts.filter (·.trb.ioc) = [t]) (hnone : s.awaited ep = none)
    {pending : Endpoint → Option Pending}
    (hawait : ∀ a, System.awaited { s' with pending := pending, pc := pc } a = if a = ep then some t.tag else s.awaited a)
    (hpending : ∀ a p, pending a = some p → a.Interrupts ∧ s.configured a = true ∧ p.pointer.endpoint = a)
    (hroom : (System.pendingEndpoints { s' with pending := pending, pc := pc }).card ≤ completionStash)
    (hat : System.At hw { s' with pending := pending, pc := pc } pc) :
    System.Inv hw { s' with pending := pending, pc := pc } where
  events := by
    rw [hpush.events]
    exact h.events
  owed a := by
    rw [hawait]
    refine (hpush.due_perm hone a).trans ?_
    by_cases ha : a = ep
    · have hnil : s.due ep = [] := by
        have hdue := h.owed ep
        rw [hnone] at hdue
        exact hdue.eq_nil
      rw [if_pos ha, if_pos ha, ha, hnil]
      exact .refl _
    · rw [if_neg ha, if_neg ha]
      exact h.owed a
  placed a t ht := by
    rw [hpush.queued] at ht
    by_cases ha : a = ep
    · rw [ha, update_self] at ht
      rw [ha]
      rcases mem_append.mp ht with ht | ht
      · exact h.placed ep t ht
      · exact hpush.placed t ht
    · rw [update_of_ne ha] at ht
      exact h.placed a t ht
  routed e he := h.routed e (hpush.flight_eq ▸ he)
  slots := by
    rw [hpush.stashed]
    exact h.slots
  stashed := by
    rw [hpush.stashed]
    exact h.stashed
  pending a p hp := by
    rw [hpush.configured]
    exact hpending a p hp
  room := hroom
  at_pc := hat
  faithful := by
    constructor
    · rw [hpush.answered]
      exact h.faithful.own
    · rw [hpush.dropped]
      exact h.faithful.kept

theorem System.Inv.submit_control (h : s.Inv hw) (hidle : s.pc.controlWait = none)
    (hpush : System.Pushed ep ts s s') (hone : ts.filter (·.trb.ioc) = [t]) (hdci : ep.dci = 1)
    (hend : t.pointer.endpoint = ep) (limit requested : ℕ) :
    System.Inv hw { s' with
      pc := .enter ⟨t.pointer, hw.slotId ep.device, 1, limit, requested, t.serial, .control⟩ } := by
  have hnone (a : Endpoint) (ha : a.dci = 1) : s.awaited a = none := by
    unfold System.awaited
    rw [if_pos ha, hidle]
    rfl
  refine h.opened hpush hone (hnone ep hdci) ?_ ?_ ?_ ?_
  · intro a
    unfold System.awaited
    rw [hpush.pending, hidle]
    by_cases ha : a = ep
    · simp [ha, hdci, Pc.controlWait, Wait.endpoint, hend, Option.filter_some, Wait.tag,
        Submission.tag]
    · simp [ha, Ne.symm ha, Pc.controlWait, Wait.endpoint, hend, Option.filter_some]
  · rw [hpush.pending]
    exact h.pending
  · exact (congrArg Finset.card (System.pendingEndpoints_congr hpush.pending)).trans_le h.room
  · constructor
    · exact (congrArg Endpoint.dci hend).symm ▸ hdci.symm
    · exact congrArg (fun a => hw.slotId a.device) hend.symm
    · intro _
      exact (congrArg Endpoint.dci hend).trans hdci
    · intro hno
      exact absurd rfl hno

theorem System.Inv.controlTransferDevice (h : s.Inv hw) (hidle : s.pc.controlWait = none)
    (device : ℕ) (setup : BitVec 64) (dataSize : ℕ) :
    (s.controlTransferDevice hw device setup dataSize).Inv hw := by
  have hstop (result : ℤ) : System.Inv hw { s with pc := .idle result } := h.goto hidle.symm trivial
  unfold System.controlTransferDevice
  by_cases hbad : hw.slotId device = 0 ∨ maxDevices ≤ device
  · rw [if_pos hbad]
    exact hstop _
  rw [if_neg hbad]
  by_cases haddr : setupIsSetAddress setup = true
  · rw [if_pos haddr]
    exact hstop _
  split_ifs with hbusy
  · exact hstop _
  have hflag : System.Inv hw { s with inControlXfer := true } :=
    h.carry ⟨rfl, rfl, fun _ => id, rfl, rfl⟩ ⟨h.events, h.routed, h.slots, h.stashed⟩ (.refl _) rfl
      (h.at_pc.congr rfl)
  have hfail (busy : Bool) : System.Inv hw { s with inControlXfer := busy, pc := .idle (-1) } :=
    (hstop (-1)).carry ⟨rfl, rfl, fun _ => id, rfl, rfl⟩ ⟨h.events, h.routed, h.slots, h.stashed⟩
      (.refl _) rfl trivial
  dsimp only
  generalize min dataSize controlBufSize = size
  generalize setup.getLsbD 7 = isIn
  by_cases hready : System.Ready { s with inControlXfer := true } ⟨device, 1⟩
  · obtain ⟨t₁, s₁, hpush₁, htrb₁, hp₁, hready₁⟩ := System.push_ready hready
      ⟨setup, 8, setupControl isIn (0 < size)⟩
    rw [hpush₁]
    by_cases hsize : 0 < size
    · obtain ⟨t₂, s₂, hpush₂, htrb₂, hp₂, hready₂⟩ := System.push_ready hready₁
        ⟨hw.controlBuffer, size, dataControl isIn⟩
      obtain ⟨t₃, s₃, hpush₃, htrb₃, hp₃, -⟩ := System.push_ready hready₂ ⟨0, 0, statusControl isIn⟩
      rw [if_pos hsize, hpush₂]
      rw [hpush₃]
      dsimp only
      rw [if_neg (by simp)]
      exact hflag.submit_control hidle ((hp₁.trans hp₂).trans hp₃)
        (by simp [htrb₁, htrb₂, htrb₃, setupControl_ioc, dataControl_ioc, statusControl_ioc]) rfl (hp₃.placed t₃ mem_cons_self) _ _
    · obtain ⟨t₃, s₃, hpush₃, htrb₃, hp₃, -⟩ := System.push_ready hready₁ ⟨0, 0, statusControl isIn⟩
      rw [if_neg hsize]
      rw [hpush₃]
      dsimp only
      rw [if_neg (by simp [hsize])]
      exact hflag.submit_control hidle (hp₁.trans hp₃)
        (by simp [htrb₁, htrb₃, setupControl_ioc, statusControl_ioc]) rfl (hp₃.placed t₃ mem_cons_self) _ _
  · rw [System.push_not_ready hready]
    rw [System.push_not_ready hready, ite_self]
    rw [System.push_not_ready hready]
    exact hfail false

theorem interruptWait_routed {p : Pending} (hp : s.pending ep = some p)
    (hend : p.pointer.endpoint = ep) (bufSize : ℕ) :
    Wait.Routed hw s ⟨p.pointer, hw.slotId ep.device, ep.dci, 5000, p.length, p.serial,
      .interrupt bufSize⟩ where
  dci := congrArg Endpoint.dci hend.symm
  slotId := congrArg (fun a => hw.slotId a.device) hend.symm
  control hkind := nomatch hkind
  interrupt _ := by
    change (s.pending p.pointer.endpoint).map Pending.tag = _
    rw [hend, hp]
    rfl

theorem System.Inv.submitInterrupt (h : s.Inv hw) (hidle : s.pc.controlWait = none)
    (hint : ep.Interrupts) (hconf : s.configured ep = true)
    (hfew : s.pending ep = none → s.pendingEndpoints.card < completionStash)
    (maxPacket bufSize : ℕ) : (s.submitInterrupt hw ep maxPacket bufSize).Inv hw := by
  unfold System.submitInterrupt
  cases hp : s.pending ep with
  | some p =>
    obtain ⟨-, -, hend⟩ := h.pending ep p hp
    exact h.goto hidle.symm (interruptWait_routed hp hend bufSize)
  | none =>
    dsimp only
    by_cases hready : s.Ready ep
    · obtain ⟨t, s', hpush, htrb, hpushed, -⟩ := System.push_ready hready
        ⟨hw.interruptBuffer ep, ↑(min (min bufSize maxPacket) intrBufSize), normalControl⟩
      have hend := hpushed.placed t mem_cons_self
      have hioc : t.trb.ioc = true := by
        rw [htrb]
        exact show decide (normalControl &&& trbIoc ≠ 0) = true by decide
      rw [hpush]
      dsimp only
      rw [hpushed.pending]
      refine h.opened hpushed (t := t) (by simp [hioc]) ?_ ?_ ?_ ?_ ?_
      · unfold System.awaited
        rw [if_neg hint.notControl, hp]
        rfl
      · intro a
        unfold System.awaited
        rw [hidle]
        by_cases ha : a = ep
        · simp [ha, hint.notControl, Pending.tag, Submission.tag]
        · simp [ha, Pc.controlWait]
      · intro a p hap
        by_cases ha : a = ep
        · rw [ha, update_self] at hap
          cases hap
          rw [ha]
          exact ⟨hint, hconf, hend⟩
        · rw [update_of_ne ha] at hap
          exact h.pending a p hap
      · have hsub : System.pendingEndpoints { s' with
            pending := update s.pending ep
              (some ⟨t.pointer, min (min bufSize maxPacket) intrBufSize, t.serial⟩) } ⊆
            insert (ep.device, ep.dci) s.pendingEndpoints := by
          intro x hx
          simp only [System.pendingEndpoints, Finset.mem_filter, Finset.mem_insert] at hx ⊢
          by_cases ha : (⟨x.1, x.2⟩ : Endpoint) = ep
          · left
            rw [← ha]
          · rw [update_of_ne ha] at hx
            exact .inr hx
        exact (Finset.card_le_card hsub).trans ((Finset.card_insert_le _ _).trans (hfew hp))
      · exact interruptWait_routed
          (p := ⟨t.pointer, min (min bufSize maxPacket) intrBufSize, t.serial⟩)
          (update_self ..) hend bufSize
    · rw [System.push_not_ready hready]
      exact h.goto hidle.symm trivial

theorem System.Inv.configureInterruptEndpoint (h : s.Inv hw) (hidle : s.pc.controlWait = none)
    (hint : ep.Interrupts) (hconf : s.configured ep = false)
    (hfew : s.pending ep = none → s.pendingEndpoints.card < completionStash)
    (maxPacket bufSize : ℕ) : (s.configureInterruptEndpoint hw ep maxPacket bufSize).Inv hw := by
  have hnone : s.pending ep = none := by
    by_contra hsome
    obtain ⟨p, hp⟩ := Option.ne_none_iff_exists'.mp hsome
    obtain ⟨-, hyes, -⟩ := h.pending ep p hp
    rw [hconf] at hyes
    cases hyes
  have hnil : s.due ep = [] := by
    have hdue := h.owed ep
    rw [System.awaited, if_neg hint.notControl, hnone] at hdue
    exact hdue.eq_nil
  have hreset : System.Inv hw { s with
      endpoint := update s.endpoint ep (ringInit (hw.ringBase ep) transferRingSize).1
      queued := update s.queued ep [] } := by
    refine ⟨h.events, ?_, ?_, h.routed, h.slots, h.stashed, h.pending, h.room, h.at_pc.congr rfl,
      ⟨h.faithful.own, h.faithful.kept⟩⟩
    · intro a
      refine List.Perm.trans (.of_eq ?_) (h.owed a)
      unfold System.due
      dsimp only
      by_cases ha : a = ep
      · rw [ha, update_self]
        have hparts := append_eq_nil_iff.mp hnil
        rw [hparts.1]
        rfl
      · rw [update_of_ne ha]
        rfl
    · intro a t ht
      dsimp only at ht
      by_cases ha : a = ep
      · rw [ha, update_self] at ht
        cases ht
      · rw [update_of_ne ha] at ht
        exact h.placed a t ht
  unfold System.configureInterruptEndpoint
  dsimp only
  split
  · exact hreset.goto hidle.symm trivial
  · refine hreset.carry ⟨rfl, rfl, fun _ => id, rfl, rfl⟩
      ⟨h.events, h.routed, h.slots, h.stashed⟩ (.refl _) hidle.symm ?_
    exact ⟨hint, hfew⟩

/-! ### Every move -/

theorem Pc.controlWait_of_idle (h : pc.isIdle = true) : pc.controlWait = none := by
  cases pc with
  | idle _ => rfl
  | _ => cases h

section
variable (h : s.Inv hw)
include h

theorem System.Inv.interruptInDevice (hidle : s.pc.controlWait = none) {endpoint : BitVec 8}
    (hall : s.Allowed (.interrupt device endpoint maxPacket bufSize)) :
    (s.interruptInDevice hw device endpoint maxPacket bufSize).Inv hw := by
  have hstop : System.Inv hw { s with pc := .idle (-1) } := h.goto hidle.symm trivial
  unfold System.interruptInDevice
  by_cases hbad : bufSize = 0 ∨ hw.slotId device = 0 ∨ endpoint = 0 ∨ maxDevices ≤ device
  · rw [if_pos hbad]
    exact hstop
  rw [if_neg hbad]
  by_cases hdci : maxEndpoints ≤ endpointDci (endpoint ||| 0x80#8) ∨
      endpointDci (endpoint ||| 0x80#8) = 1
  · rw [if_pos hdci]
    exact hstop
  rw [if_neg hdci]
  have hint : Endpoint.Interrupts ⟨device, endpointDci (endpoint ||| 0x80#8)⟩ := by
    constructor
    · exact not_le.mp fun hle => hbad (.inr (.inr (.inr hle)))
    · exact not_le.mp fun hle => hdci (.inl hle)
    · exact fun heq => hdci (.inr heq)
  split_ifs with hconf
  · exact h.submitInterrupt hidle hint hconf hall _ _
  · exact h.configureInterruptEndpoint hidle hint (by simpa using hconf) hall _ _

theorem System.Inv.spinCommand (hpc : s.pc = .command slot ep maxPacket bufSize spins) :
    (s.spinCommand hw slot ep maxPacket bufSize spins).Inv hw := by
  have hidle : s.pc.controlWait = none := by
    rw [hpc]
    rfl
  have hat : s.At hw (.command slot ep maxPacket bufSize (spins + 1)) := by
    have hat := h.at_pc
    rw [hpc] at hat
    exact hat
  unfold System.spinCommand
  split_ifs with hlimit
  · exact h.goto hidle.symm trivial
  cases hnext : s.events.eventNext with
  | none => exact h.goto hidle.symm hat
  | some pair =>
    obtain ⟨event, events⟩ := pair
    cases event with
    | transfer event =>
      have hmem : event ∈ s.flight := by
        rw [h.flight_of_next hnext]
        exact mem_cons_self
      have hdci : event.endpoint.dci ≠ 1 := by
        intro hdci
        have hawait := h.awaited_of_flight hmem
        rw [System.awaited, if_pos hdci, hidle] at hawait
        cases hawait
      obtain ⟨hinv, hsame, hpending⟩ := h.putBy hnext hdci
      exact hinv.goto (by rw [hsame, hpc]; rfl) (hat.congr hpending)
    | command found status =>
      have hskip := h.skip hnext rfl
      dsimp only
      by_cases hfound : found ≠ slot
      · rw [if_pos hfound]
        exact hskip.goto hidle.symm (hat.congr rfl)
      split_ifs with hcode
      · exact hskip.goto hidle.symm trivial
      have hmarked : System.Inv hw { s with
          events := events
          configured := update s.configured ep true } := by
        refine hskip.carry ⟨rfl, rfl, ?_, rfl, rfl⟩
          ⟨hskip.events, hskip.routed, hskip.slots, hskip.stashed⟩ (.refl _) rfl (hskip.at_pc.congr rfl)
        intro a ha
        by_cases hep : a = ep
        · rw [hep]
          exact update_self ..
        · exact (update_of_ne hep _ _).trans ha
      exact hmarked.submitInterrupt hidle hat.1 (update_self ..) hat.2 _ _
    | other => exact (h.skip hnext rfl).goto hidle.symm (hat.congr rfl)

theorem System.Inv.spinTransfer (hpc : s.pc = .spin w spins) (hall : s.Allowed .drive) :
    (s.spinTransfer w spins).Inv hw := by
  have hwaits : s.pc.waits w := .inr ⟨spins, hpc⟩
  have hat := h.wait_routed hwaits
  have hcontrol : (Pc.spin w (spins + 1)).controlWait = s.pc.controlWait := by
    rw [hpc]
    rfl
  unfold System.spinTransfer
  split_ifs with hlimit
  · unfold System.giveUp
    cases hkind : w.kind with
    | control =>
      unfold System.Allowed at hall
      rw [hpc] at hall
      simp [Pc.abandonsControl, hkind, hlimit] at hall
    | interrupt bufSize =>
      have hnone := hwaits.controlWait_eq
      rw [if_neg (by simp [hkind])] at hnone
      exact h.goto hnone.symm trivial
  cases hnext : s.events.eventNext with
  | none => exact h.goto hcontrol hat
  | some pair =>
    obtain ⟨event, events⟩ := pair
    cases event with
    | transfer event =>
      obtain ⟨hgood, -⟩ := h.events.eventNext hnext
      have hflight := h.flight_of_next hnext
      have hmem : event ∈ s.flight := by
        rw [hflight]
        exact mem_cons_self
      dsimp only
      split_ifs with hok
      · refine h.settle hwaits hok ⟨rfl, rfl, fun _ => id, rfl, rfl⟩
          ⟨hgood, ?_, h.slots, h.stashed⟩ (.of_eq hflight)
        intro x hx
        apply h.routed
        rw [hflight]
        exact mem_cons_of_mem _ hx
      · have hdci := h.foreign hwaits hmem (by simpa using hok)
        obtain ⟨hinv, hsame, hpending⟩ := h.putBy hnext hdci
        exact hinv.goto (by rw [hsame, hcontrol]) (hat.congr hpending)
    | command found status => exact (h.skip hnext rfl).goto hcontrol (hat.congr rfl)
    | other => exact (h.skip hnext rfl).goto hcontrol (hat.congr rfl)

theorem System.Inv.drive (hall : s.Allowed .drive) : (s.drive hw).Inv hw := by
  unfold System.drive
  cases hpc : s.pc with
  | idle _ => exact h
  | command slot ep maxPacket bufSize spins => exact h.spinCommand hpc
  | enter w =>
    have hwaits : s.pc.waits w := .inl hpc
    dsimp only
    cases htake : takeStashedTransfer w s.stashed with
    | none => exact h.goto (by rw [hpc]; rfl) (h.wait_routed hwaits)
    | some pair =>
      obtain ⟨event, stashed⟩ := pair
      obtain ⟨hok, hlen, hperm⟩ := takeStashedTransfer_perm htake
      have hflight : s.flight.Perm (event :: System.flight { s with stashed := stashed }) := by
        exact (hperm.append_left _).trans perm_middle
      refine h.settle hwaits hok ⟨rfl, rfl, fun _ => id, rfl, rfl⟩
        ⟨h.events, ?_, hlen.trans h.slots, ?_⟩ hflight
      · intro x hx
        exact h.routed x (hflight.symm.subset (mem_cons_of_mem _ hx))
      · intro x hx
        exact h.stashed x (hperm.symm.subset (mem_cons_of_mem _ hx))
  | spin w spins => exact h.spinTransfer hpc hall

theorem System.Inv.move {m : Move} (hall : s.Allowed m) : (s.move hw m).Inv hw := by
  cases m with
  | control device setup dataSize =>
    unfold System.move
    dsimp only
    split_ifs with hidle
    · exact h.controlTransferDevice (Pc.controlWait_of_idle hidle) _ _ _
    · exact h
  | interrupt device endpoint maxPacket bufSize =>
    unfold System.move
    dsimp only
    split_ifs with hidle
    · exact h.interruptInDevice (Pc.controlWait_of_idle hidle) hall
    · exact h
  | drive => exact h.drive hall
  | complete endpoint short status => exact h.complete hall
  | completeCommand status =>
    change (s.completeCommand status).Inv hw
    unfold System.completeCommand
    cases s.commands with
    | nil => exact h
    | cons slot rest =>
      split_ifs with hfull
      · exact h
      · have hpost := h.post (.command slot status) (by simpa using hfull) rfl
        exact hpost.carry ⟨rfl, rfl, fun _ => id, rfl, rfl⟩
          ⟨hpost.events, hpost.routed, hpost.slots, hpost.stashed⟩ (.refl _) rfl
          (hpost.at_pc.congr rfl)
  | notice =>
    unfold System.move
    dsimp only
    split_ifs with hfull
    · exact h
    · exact h.post .other (by simpa using hfull) rfl

theorem System.Inv.run {moves : List Move} (hcare : s.Careful hw moves) :
    (s.run hw moves).Inv hw := by
  induction moves generalizing s with
  | nil => exact h
  | cons m rest ih => exact ih (h.move hcare.1) hcare.2

end

end Transfers

theorem System.start_inv (hw : Hardware) (endpoint : Endpoint → Ring) (command : Ring)
    (configured : Endpoint → Bool) : (System.start endpoint command configured).Inv hw where
  events := EventRing.start_good
  owed a := by
    have hawait : (System.start endpoint command configured).awaited a = none := by
      unfold System.awaited
      split_ifs <;> rfl
    rw [hawait]
    exact .refl _
  placed _ _ ht := nomatch ht
  routed _ he := nomatch he
  slots := rfl
  stashed _ he := nomatch he
  pending _ _ hp := nomatch hp
  room := by simp [System.pendingEndpoints, System.start]
  at_pc := trivial
  faithful := ⟨fun _ hpair => (nomatch hpair), rfl⟩

/-- As long as no data stage is short, no control transfer is given up and no more than eight
interrupt transfers are pending, every wait takes the event of its own submission and the stash loses
none. -/
theorem careful_run_faithful (hw : Hardware) (endpoint : Endpoint → Ring) (command : Ring)
    (configured : Endpoint → Bool) (moves : List Move)
    (hcare : (System.start endpoint command configured).Careful hw moves) :
    ((System.start endpoint command configured).run hw moves).Faithful :=
  ((System.start_inv hw endpoint command configured).run hcare).faithful

def testHardware : Hardware := ⟨fun device => device + 1, fun _ => 0, 0, 0, fun _ => 0⟩

def testSystem : System :=
  System.start (fun _ => (ringInit 0 transferRingSize).1) (ringInit 0 64).1 fun e => e.dci = 1

def readMoves (short : Bool) : List Move :=
  [.control 0 0x0008000001000680 8, .complete ⟨0, 1⟩ false 0x01000000,
    .complete ⟨0, 1⟩ short 0x0d000004, .complete ⟨0, 1⟩ false 0x01000000, .drive, .drive] ++
    if short then [.drive] else []

/-- An interrupt transfer stays pending over a control read, which puts its event by. -/
theorem careful_run_faithful_interrupt :
    let moves := [Move.interrupt 1 1 8 8, .drive, .completeCommand 0x01000000, .drive, .drive,
      .complete ⟨1, 3⟩ true 0x0d000002] ++ readMoves false
    testSystem.Careful testHardware moves ∧ (testSystem.run testHardware moves).Faithful :=
  ⟨by decide +kernel, careful_run_faithful _ _ _ _ _ (by decide +kernel)⟩

/-- A short data stage leaves its event in the stash. Ten reads later the status TRB lies where that
data TRB was, and the read succeeds before the controller has begun with it. -/
theorem stale_event_ends_read :
    let s := testSystem.run testHardware
      (readMoves true ++ (replicate 9 (readMoves false)).flatten ++
        [.control 0 0x0008000001000680 8, .drive])
    s.pc = .idle 4 ∧ s.answered.getLast? = some (32, 1) ∧ (s.queued ⟨0, 1⟩).length = 3 := by
  decide +kernel

end Xhci
