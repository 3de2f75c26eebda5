import ArmoniOS.Lib.ByteBlock

/-! The message slots of `ipc.c`. All receivers share eight slots and the order of arrival is kept in
sequence numbers only; over whole runs the slots are one queue in the order of the sends, from which
every receiver takes its own messages in order. -/
namespace Ipc
open ByteBlock Function List

def maxMessages : ℕ := 8
def maxMessageSize : ℕ := 16

structure Message where
  senderPid : BitVec 32
  targetPid : BitVec 32
  size : BitVec 32
  data : Block maxMessageSize

structure Slot where
  message : Message
  sequence : BitVec 64
  used : Bool

structure State where
  slots : Fin maxMessages → Slot
  nextSequence : BitVec 64

/-- The first `size` bytes from `src`, then zeros. -/
def ipcCopyPayload (src : ℕ → UInt8) (size : BitVec 32) : Block maxMessageSize :=
  fun i => if i.val < size.toNat then src i.val else 0

def ipcZeroPayload : Block maxMessageSize := fun _ => 0

def clearedSlot : Slot := ⟨⟨0, 0, 0, ipcZeroPayload⟩, 0, false⟩

def ipcClearSlot (s : State) (i : Fin maxMessages) : State :=
  { s with slots := update s.slots i clearedSlot }

def ipcFindFreeSlot (s : State) : Option (Fin maxMessages) :=
  (finRange maxMessages).find? fun i => (s.slots i).used = false

/-- One pass of the loop of `ipc_find_oldest_target_slot`. -/
def olderSlot (s : State) (targetPid : BitVec 32) (oldest : Option (Fin maxMessages))
    (i : Fin maxMessages) : Option (Fin maxMessages) :=
  if (s.slots i).used = false ∨ (s.slots i).message.targetPid ≠ targetPid then oldest
  else
    match oldest with
    | none => some i
    | some j => if (s.slots i).sequence < (s.slots j).sequence then some i else some j

def ipcFindOldestTargetSlot (s : State) (targetPid : BitVec 32) : Option (Fin maxMessages) :=
  (finRange maxMessages).foldl (olderSlot s targetPid) none

def ipcInit : State := ⟨fun _ => clearedSlot, 1⟩

/-- The check of the arguments; a null pointer is `none`. -/
def SendInvalid (senderPid targetPid : BitVec 32) (data : Option (ℕ → UInt8))
    (size : BitVec 32) : Prop :=
  senderPid = 0 ∨ targetPid = 0 ∨ data.isNone ∨ size = 0 ∨ maxMessageSize < size.toNat
deriving Decidable

/-- `true` is the status `0`. -/
def ipcSend (s : State) (senderPid targetPid : BitVec 32) (data : Option (ℕ → UInt8))
    (size : BitVec 32) : Bool × State :=
  if SendInvalid senderPid targetPid data size then (false, s)
  else
    match ipcFindFreeSlot s with
    | none => (false, s)
    | some i =>
        let payload := ipcCopyPayload (data.getD fun _ => 0) size
        let slot := ⟨⟨senderPid, targetPid, size, payload⟩, s.nextSequence, true⟩
        (true, ⟨update s.slots i slot, s.nextSequence + 1⟩)

/-- The message, or `none` for the status `-1`; `present` says that the caller has room for it. -/
def ipcRecv (s : State) (targetPid : BitVec 32) (present : Bool) : Option Message × State :=
  if targetPid = 0 ∨ ¬ present then (none, s)
  else
    match ipcFindOldestTargetSlot s targetPid with
    | none => (none, s)
    | some i =>
        let m := (s.slots i).message
        let payload := ipcCopyPayload (fun j => m.data.get j) m.size
        (some ⟨m.senderPid, m.targetPid, m.size, payload⟩, ipcClearSlot s i)

/-! ### The slots as one queue -/

structure Queue (s : State) (order : List (Fin maxMessages)) : Prop where
  used : ∀ i, i ∈ order ↔ (s.slots i).used = true
  sorted : order.Pairwise fun i j => (s.slots i).sequence.toNat < (s.slots j).sequence.toNat

def messagesOf (s : State) (order : List (Fin maxMessages)) : List Message :=
  order.map fun i => (s.slots i).message

variable {seen before after : List (Fin maxMessages)} {oldest : Option (Fin maxMessages)}

section Slots
variable {s : State} {order : List (Fin maxMessages)} {targetPid : BitVec 32}

theorem Queue.nodup (h : Queue s order) : order.Nodup :=
  h.sorted.imp fun hlt => by rintro rfl; exact absurd hlt (lt_irrefl _)

/-- The slot holds a message for `targetPid`. -/
def Slot.For (slot : Slot) (targetPid : BitVec 32) : Prop :=
  slot.used = true ∧ slot.message.targetPid = targetPid
deriving Decidable

/-- What the search has found among the slots `seen`. -/
def OldestIn (s : State) (targetPid : BitVec 32) (seen : List (Fin maxMessages)) :
    Option (Fin maxMessages) → Prop
  | none => ∀ i ∈ seen, ¬ (s.slots i).For targetPid
  | some j => (s.slots j).For targetPid ∧ ∀ i ∈ seen, (s.slots i).For targetPid →
      (s.slots j).sequence.toNat ≤ (s.slots i).sequence.toNat

theorem OldestIn.step (h : OldestIn s targetPid seen oldest) (i : Fin maxMessages) :
    OldestIn s targetPid (seen ++ [i]) (olderSlot s targetPid oldest i) := by
  unfold olderSlot
  by_cases hfor : (s.slots i).For targetPid
  · rw [if_neg (by simp [hfor.1, hfor.2])]
    cases oldest with
    | none =>
      refine ⟨hfor, fun k hk hkfor => ?_⟩
      rcases mem_append.mp hk with hk | hk
      · exact absurd hkfor (h k hk)
      · rw [mem_singleton.mp hk]
    | some j =>
      dsimp only
      split
      case isTrue hlt =>
        refine ⟨hfor, fun k hk hkfor => ?_⟩
        rcases mem_append.mp hk with hk | hk
        · exact (BitVec.lt_def.mp hlt).le.trans (h.2 k hk hkfor)
        · rw [mem_singleton.mp hk]
      case isFalse hle =>
        refine ⟨h.1, fun k hk hkfor => ?_⟩
        rcases mem_append.mp hk with hk | hk
        · exact h.2 k hk hkfor
        · rw [mem_singleton.mp hk]
          exact not_lt.mp fun hlt => hle (BitVec.lt_def.mpr hlt)
  · have hskip : (s.slots i).used = false ∨ (s.slots i).message.targetPid ≠ targetPid := by
      simpa [Slot.For, Classical.or_iff_not_imp_left] using hfor
    rw [if_pos hskip]
    cases oldest with
    | none =>
      intro k hk
      rcases mem_append.mp hk with hk | hk
      · exact h k hk
      · rwa [mem_singleton.mp hk]
    | some j =>
      refine ⟨h.1, fun k hk hkfor => ?_⟩
      rcases mem_append.mp hk with hk | hk
      · exact h.2 k hk hkfor
      · exact absurd (mem_singleton.mp hk ▸ hkfor) hfor

theorem OldestIn.foldl (slots : List (Fin maxMessages)) (h : OldestIn s targetPid seen oldest) :
    OldestIn s targetPid (seen ++ slots) (slots.foldl (olderSlot s targetPid) oldest) := by
  induction slots generalizing seen oldest with
  | nil => simpa using h
  | cons i slots ih => simpa using ih (h.step i)

theorem ipcFindOldestTargetSlot_eq_find (h : Queue s order) : ipcFindOldestTargetSlot s targetPid =
      order.find? fun i => (s.slots i).message.targetPid = targetPid := by
  have hnone : OldestIn s targetPid [] none := by
    intro i hi
    simp at hi
  have hold : OldestIn s targetPid _ (ipcFindOldestTargetSlot s targetPid) :=
    hnone.foldl (finRange maxMessages)
  cases hfound : ipcFindOldestTargetSlot s targetPid with
  | none =>
    rw [hfound] at hold
    symm
    rw [find?_eq_none]
    intro i hi hpid
    exact hold i (mem_finRange i) ⟨(h.used i).mp hi, by simpa using hpid⟩
  | some j =>
    rw [hfound] at hold
    obtain ⟨⟨hused, hpid⟩, hmin⟩ := hold
    have hmem : j ∈ order := (h.used j).mpr hused
    obtain ⟨k, hk⟩ : ∃ k, order.find? (fun i => (s.slots i).message.targetPid = targetPid)
        = some k := by
      rw [← Option.isSome_iff_exists, find?_isSome]
      exact ⟨j, hmem, by simpa using hpid⟩
    rw [hk]
    obtain ⟨hkpid, before, after, rfl, hbefore⟩ := find?_eq_some_iff_append.mp hk
    have hle := hmin k (mem_finRange k) ⟨(h.used k).mp (by simp), by simpa using hkpid⟩
    rcases mem_append.mp hmem with hj | hj
    · exact absurd hpid (by simpa using hbefore j hj)
    · rcases mem_cons.mp hj with rfl | hj
      · rfl
      · have hlt := (pairwise_cons.mp (pairwise_append.mp h.sorted).2.1).1 j hj
        omega

theorem Queue.push (h : Queue s order) (i : Fin maxMessages) (slot : Slot) (next : BitVec 64)
    (hfree : (s.slots i).used = false) (hused : slot.used = true)
    (hlast : ∀ j ∈ order, (s.slots j).sequence.toNat < slot.sequence.toNat) :
    Queue ⟨update s.slots i slot, next⟩ (order ++ [i]) ∧
      messagesOf ⟨update s.slots i slot, next⟩ (order ++ [i]) =
        messagesOf s order ++ [slot.message] := by
  have hne {j : Fin maxMessages} (hj : j ∈ order) : j ≠ i := by
    rintro rfl
    simp [(h.used j).mp hj] at hfree
  refine ⟨⟨fun j => ?_, ?_⟩, ?_⟩
  · by_cases hji : j = i
    · simp [hji, hused]
    · simp [hji, h.used]
  · rw [pairwise_append]
    refine ⟨h.sorted.imp_of_mem fun hj hk hlt => ?_, by simp, fun j hj k hk => ?_⟩
    · simpa [hne hj, hne hk] using hlt
    · rw [mem_singleton.mp hk]
      simpa [hne hj] using hlast j hj
  · have hmap : messagesOf ⟨update s.slots i slot, next⟩ order = messagesOf s order := by
      apply map_congr_left
      intro j hj
      simp [hne hj]
    simp only [messagesOf, map_append, map_cons, map_nil] at hmap ⊢
    simp [hmap]

theorem Queue.clear {i : Fin maxMessages} (h : Queue s (before ++ i :: after)) :
    Queue (ipcClearSlot s i) (before ++ after) ∧
      messagesOf (ipcClearSlot s i) (before ++ after) = messagesOf s (before ++ after) := by
  have hnodup := nodup_middle.mp h.nodup
  have hne {j : Fin maxMessages} (hj : j ∈ before ++ after) : j ≠ i := by
    rintro rfl
    exact (nodup_cons.mp hnodup).1 hj
  have hsub := (sublist_cons_self i after).append_left before
  refine ⟨⟨fun j => ?_, ?_⟩, ?_⟩
  · by_cases hji : j = i
    · have hnot : i ∉ before ++ after := fun hi => hne hi rfl
      rw [hji]
      simpa [ipcClearSlot, clearedSlot] using hnot
    · have hused := h.used j
      simp only [mem_append, mem_cons, hji, false_or] at hused
      simp [ipcClearSlot, hji, hused]
  · refine (h.sorted.sublist hsub).imp_of_mem fun hj hk hlt => ?_
    simpa [ipcClearSlot, hne hj, hne hk] using hlt
  · apply map_congr_left
    intro j hj
    simp [ipcClearSlot, hne hj]

end Slots

/-! ### Runs -/

inductive Step
  | send (senderPid targetPid : BitVec 32) (data : Option (ℕ → UInt8)) (size : BitVec 32)
  | recv (targetPid : BitVec 32) (present : Bool)

def Step.isSend : Step → Bool
  | .send .. => true
  | .recv .. => false

/-- The slots with the history of the run: every message whose send was accepted, as its sender
gave it, and every message received, with its receiver. -/
structure Exchange where
  state : State
  accepted : List Message
  received : List (BitVec 32 × Message)

/-- The message a sender asks for: its pid, the bytes from `data`, and zeros behind them. -/
def requested (senderPid targetPid : BitVec 32) (data : Option (ℕ → UInt8))
    (size : BitVec 32) : Message :=
  ⟨senderPid, targetPid, size,
    fun i => if i.val < size.toNat then (data.getD fun _ => 0) i.val else 0⟩

def Exchange.step (x : Exchange) : Step → Exchange
  | .send senderPid targetPid data size =>
      let (accepted, state) := ipcSend x.state senderPid targetPid data size
      ⟨state,
        if accepted then x.accepted ++ [requested senderPid targetPid data size] else x.accepted,
        x.received⟩
  | .recv targetPid present =>
      let (message, state) := ipcRecv x.state targetPid present
      ⟨state, x.accepted, x.received ++ message.toList.map fun m => (targetPid, m)⟩

def Exchange.start : Exchange := ⟨ipcInit, [], []⟩

def Exchange.run (x : Exchange) (steps : List Step) : Exchange := steps.foldl Exchange.step x

def Exchange.acceptedFor (x : Exchange) (pid : BitVec 32) : List Message :=
  x.accepted.filter fun m => m.targetPid = pid

def Exchange.receivedBy (x : Exchange) (pid : BitVec 32) : List Message :=
  (x.received.filter fun r => r.1 = pid).map (·.2)

/-- Between two calls: what was accepted for a process is what it received and then, in order, what
the slots hold for it. -/
structure Exchange.Ok (x : Exchange) (order : List (Fin maxMessages)) : Prop where
  queue : Queue x.state order
  next : x.state.nextSequence = BitVec.ofNat 64 (x.accepted.length + 1)
  sequence : ∀ i ∈ order, (x.state.slots i).sequence.toNat ≤ x.accepted.length
  padded : ∀ m ∈ messagesOf x.state order, ipcCopyPayload (fun j => m.data.get j) m.size = m.data
  conserved : ∀ pid, x.acceptedFor pid =
    x.receivedBy pid ++ (messagesOf x.state order).filter fun m => m.targetPid = pid

theorem Exchange.start_ok : Exchange.start.Ok [] where
  queue := ⟨fun i => by simp [start, ipcInit, clearedSlot], List.Pairwise.nil⟩
  next := rfl
  sequence := by simp
  padded := by simp [messagesOf]
  conserved := by simp [start, acceptedFor, receivedBy, messagesOf]

section Calls
variable {x : Exchange} {order : List (Fin maxMessages)}

theorem ipcSend_cases (s : State) (senderPid targetPid : BitVec 32) (data : Option (ℕ → UInt8))
    (size : BitVec 32) :
    ((SendInvalid senderPid targetPid data size ∨ ∀ i, (s.slots i).used = true) ∧
        ipcSend s senderPid targetPid data size = (false, s)) ∨
      ∃ i, ¬ SendInvalid senderPid targetPid data size ∧ (s.slots i).used = false ∧
        ipcSend s senderPid targetPid data size = (true, ⟨update s.slots i
            ⟨requested senderPid targetPid data size, s.nextSequence, true⟩,
            s.nextSequence + 1⟩) := by
  unfold ipcSend
  split
  case isTrue hbad => exact .inl ⟨.inl hbad, rfl⟩
  case isFalse hok =>
    cases hfree : ipcFindFreeSlot s with
    | none => exact .inl ⟨.inr (by simpa [ipcFindFreeSlot] using hfree), rfl⟩
    | some i =>
      have hunused := find?_some hfree
      exact .inr ⟨i, hok, by simpa using hunused, rfl⟩

theorem ipcRecv_cases {s : State} (h : Queue s order) (targetPid : BitVec 32) (present : Bool) :
    ((targetPid = 0 ∨ present = false ∨ ∀ m ∈ messagesOf s order, m.targetPid ≠ targetPid) ∧
        ipcRecv s targetPid present = (none, s)) ∨
      ∃ before i after, order = before ++ i :: after ∧
        (∀ m ∈ messagesOf s before, m.targetPid ≠ targetPid) ∧
        (s.slots i).message.targetPid = targetPid ∧ targetPid ≠ 0 ∧ present = true ∧
        ipcRecv s targetPid present =
          (some ⟨(s.slots i).message.senderPid, (s.slots i).message.targetPid,
            (s.slots i).message.size, ipcCopyPayload (fun j => (s.slots i).message.data.get j)
              (s.slots i).message.size⟩, ipcClearSlot s i) := by
  unfold ipcRecv
  split
  case isTrue hbad =>
    refine .inl ⟨?_, rfl⟩
    rcases hbad with hzero | hnull
    · exact .inl hzero
    · exact .inr (.inl (by simpa using hnull))
  case isFalse hok =>
    rw [ipcFindOldestTargetSlot_eq_find h]
    cases hfound : order.find? fun i => (s.slots i).message.targetPid = targetPid with
    | none =>
      refine .inl ⟨.inr (.inr ?_), rfl⟩
      simpa [messagesOf] using hfound
    | some i =>
      obtain ⟨hpid, before, after, rfl, hbefore⟩ := find?_eq_some_iff_append.mp hfound
      refine .inr ⟨before, i, after, rfl, ?_, by simpa using hpid, ?_, ?_, rfl⟩
      · simpa [messagesOf] using hbefore
      · exact fun hzero => hok (.inl hzero)
      · simpa using fun hnull => hok (.inr hnull)

theorem Exchange.Ok.send (h : x.Ok order) (senderPid targetPid : BitVec 32)
    (data : Option (ℕ → UInt8)) (size : BitVec 32) (hroom : x.accepted.length + 1 < 2 ^ 64) :
    ∃ order', (x.step (.send senderPid targetPid data size)).Ok order' := by
  rcases ipcSend_cases x.state senderPid targetPid data size with ⟨-, heq⟩ | ⟨i, -, hfree, heq⟩
  · refine ⟨order, ?_⟩
    simpa [step, heq] using h
  · have hseq : x.state.nextSequence.toNat = x.accepted.length + 1 := by
      rw [h.next, BitVec.toNat_ofNat, Nat.mod_eq_of_lt hroom]
    have hlast (j) (hj : j ∈ order) :
        (x.state.slots j).sequence.toNat < x.state.nextSequence.toNat := by
      have hle := h.sequence j hj
      omega
    obtain ⟨hqueue, hmessages⟩ := h.queue.push i
      ⟨requested senderPid targetPid data size, x.state.nextSequence, true⟩
      (x.state.nextSequence + 1) hfree rfl hlast
    refine ⟨order ++ [i], ?_⟩
    simp only [step, heq, if_true]
    refine ⟨hqueue, ?_, ?_, ?_, ?_⟩
    · simp only [h.next, length_append, length_singleton]
      rw [← BitVec.ofNat_add_ofNat (x.accepted.length + 1) 1]
      rfl
    · intro j hj
      by_cases hji : j = i
      · simp [hji, hseq]
      · have hmem : j ∈ order := by simpa [hji] using hj
        have hle := h.sequence j hmem
        simp only [update_of_ne hji, length_append, length_singleton]
        omega
    · rw [hmessages]
      intro m hm
      rcases mem_append.mp hm with hm | hm
      · exact h.padded m hm
      · rw [mem_singleton.mp hm]
        funext i
        by_cases hi : i.val < size.toNat
        · simp [requested, ipcCopyPayload, Block.get, hi]
        · simp [requested, ipcCopyPayload, hi]
    · intro pid
      have hconserved := h.conserved pid
      simp only [acceptedFor, receivedBy] at hconserved ⊢
      rw [hmessages, filter_append, filter_append, hconserved, append_assoc]

theorem Exchange.Ok.recv (h : x.Ok order) (targetPid : BitVec 32) (present : Bool) :
    ∃ order', (x.step (.recv targetPid present)).Ok order' := by
  rcases ipcRecv_cases h.queue targetPid present with
    ⟨-, heq⟩ | ⟨before, i, after, rfl, hbefore, hpid, -, -, heq⟩
  · refine ⟨order, ?_⟩
    simpa [step, heq] using h
  · obtain ⟨hqueue, hmessages⟩ := h.queue.clear
    have hsub {m : Message} (hm : m ∈ messagesOf x.state (before ++ after)) :
        m ∈ messagesOf x.state (before ++ i :: after) := by
      simp only [messagesOf, map_append, map_cons, mem_append, mem_cons] at hm ⊢
      tauto
    have hpadded := h.padded (x.state.slots i).message (by simp [messagesOf])
    refine ⟨before ++ after, ?_⟩
    simp only [step, heq, hpadded, Option.toList_some, map_cons, map_nil]
    refine ⟨hqueue, h.next, ?_, ?_, ?_⟩
    · intro j hj
      have hmem : j ∈ before ++ i :: after := by
        simp only [mem_append, mem_cons] at hj ⊢
        tauto
      by_cases hji : j = i
      · simp [ipcClearSlot, hji, clearedSlot]
      · simpa [ipcClearSlot, hji] using h.sequence j hmem
    · rw [hmessages]
      exact fun m hm => h.padded m (hsub hm)
    · intro pid
      have hconserved := h.conserved pid
      simp only [acceptedFor, receivedBy] at hconserved ⊢
      rw [hmessages, hconserved]
      by_cases hto : pid = targetPid
      · -- the messages before the slot are for others, so it is the next one of this process
        have hnone : (messagesOf x.state before).filter (fun m => m.targetPid = targetPid) = [] := by
          simpa using hbefore
        simp only [messagesOf] at hnone
        subst hpid
        simp [messagesOf, hto, hnone]
      · have hother : ¬ targetPid = pid := fun heq => hto heq.symm
        simp [messagesOf, hother, hpid]

end Calls

theorem Exchange.accepted_step (x : Exchange) (c : Step) :
    (x.step c).accepted.length ≤ x.accepted.length + if c.isSend then 1 else 0 := by
  cases c with
  | send senderPid targetPid data size =>
    simp only [step, Step.isSend, if_true]
    split <;> simp
  | recv targetPid present => simp [step]

theorem Exchange.Ok.run (steps : List Step) {x : Exchange} {order : List (Fin maxMessages)}
    (h : x.Ok order) (hroom : x.accepted.length + steps.countP Step.isSend < 2 ^ 64) :
    ∃ order', (x.run steps).Ok order' := by
  induction steps generalizing x order with
  | nil => exact ⟨order, h⟩
  | cons c steps ih =>
    have hstep : ∃ order', (x.step c).Ok order' := by
      cases c with
      | send senderPid targetPid data size =>
        apply h.send
        simp only [countP_cons, Step.isSend, if_true] at hroom
        omega
      | recv targetPid present => exact h.recv targetPid present
    obtain ⟨order', h'⟩ := hstep
    apply ih h'
    have hle := x.accepted_step c
    rw [countP_cons] at hroom
    omega

def twoReceivers : List Step :=
  [.send 2 5 (some fun i => UInt8.ofNat (i + 1)) 3, .send 3 6 (some fun _ => 9) 1,
    .recv 6 true, .send 3 5 (some fun _ => 7) 16, .recv 5 true]

end Ipc
