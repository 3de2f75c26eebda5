import ArmoniOS.Lib.CycleRing

/-!
Transfer and command rings of the xHCI driver.

`ring_push` is modelled store by store: the call changes the ring record of the driver at once and
leaves a list of stores, which reach memory one at a time while the controller reads the ring.
-/
namespace Xhci

open CycleRing IndexRing Function List

structure Trb where
  parameter : BitVec 64
  status : BitVec 32
  control : BitVec 32
  deriving DecidableEq, Repr

def trbCycle : BitVec 32 := 1
def trbTc : BitVec 32 := 2
def trbLink : BitVec 32 := 6

def trbType (type : BitVec 32) : BitVec 32 := type <<< 10

def trbGetType (control : BitVec 32) : BitVec 32 := (control &&& 0xfc00#32) >>> 10

/-- `ring->cycle ? XHCI_TRB_CYCLE : 0`. -/
def cycleBit (cycle : Bool) : BitVec 32 := if cycle then trbCycle else 0

inductive Field where
  | parameter (value : BitVec 64)
  | status (value : BitVec 32)
  | control (value : BitVec 32)
  deriving DecidableEq, Repr

def Trb.write (trb : Trb) : Field → Trb
  | .parameter value => { trb with parameter := value }
  | .status value => { trb with status := value }
  | .control value => { trb with control := value }

/-- The stores of `trb_set`, in order; the control word with the cycle bit comes last. -/
def trbSet (trb : Trb) : List Field :=
  [.parameter trb.parameter, .status trb.status, .control trb.control]

/-- `xhci_ring_t`, with the address of its storage. -/
structure Ring where
  base : BitVec 64
  size : ℕ
  enqueue : ℕ
  cycle : Bool
  deriving DecidableEq, Repr

def linkControl (cycle : Bool) : BitVec 32 := trbType trbLink ||| trbTc ||| cycleBit cycle

def linkTrb (base : BitVec 64) (cycle : Bool) : Trb := ⟨base, 0, linkControl cycle⟩

def ringInit (base : BitVec 64) (size : ℕ) : Ring × (ℕ → Trb) :=
  (⟨base, size, 0, true⟩,
    update (fun _ => ⟨0, 0, 0⟩) (size - 1) (linkTrb base true))

/-- The slot written, the stores in order, and the ring record behind the call; `none` is the null
pointer. -/
def ringPush (ring : Ring) (trb : Trb) : Option (ℕ × List (ℕ × Field) × Ring) :=
  if ring.size - 1 ≤ ring.enqueue then none
  else
    let stores := (trbSet { trb with control := trb.control ||| cycleBit ring.cycle }).map
      fun field => (ring.enqueue, field)
    if ring.enqueue + 1 = ring.size - 1 then
      some (ring.enqueue,
        stores ++ (trbSet (linkTrb ring.base ring.cycle)).map fun field => (ring.size - 1, field),
        { ring with enqueue := 0, cycle := !ring.cycle })
    else some (ring.enqueue, stores, { ring with enqueue := ring.enqueue + 1 })

/-! ### Words with a cycle bit -/

def Trb.cycle (trb : Trb) : Bool := trb.control.getLsbD 0

def Trb.body (trb : Trb) : Trb := { trb with control := trb.control &&& ~~~trbCycle }

/-- What the callers pass to `ring_push`: the cycle bit is left to the ring, and links are the
ring's own. -/
structure Request where
  trb : Trb
  noCycle : trb.cycle = false
  noLink : trbGetType trb.control ≠ trbLink

def Request.stored (request : Request) (cycle : Bool) : Trb :=
  { request.trb with control := request.trb.control ||| cycleBit cycle }

@[simp] theorem Trb.body_type (trb : Trb) :
    trbGetType trb.body.control = trbGetType trb.control := by
  have hmask : ~~~trbCycle &&& 0xfc00#32 = 0xfc00#32 := by decide
  unfold trbGetType Trb.body
  rw [BitVec.and_assoc, hmask]

@[simp] theorem Request.stored_body (request : Request) (cycle : Bool) :
    (request.stored cycle).body = request.trb := by
  have hno : request.trb.control.getLsbD 0 = false := request.noCycle
  have hword : (request.trb.control ||| cycleBit cycle) &&& ~~~trbCycle = request.trb.control := by
    apply BitVec.eq_of_getLsbD_eq
    intro i hi
    rw [BitVec.getLsbD_and, BitVec.getLsbD_or, BitVec.getLsbD_not]
    rcases Nat.eq_zero_or_pos i with rfl | hpos
    · rw [hno]
      cases cycle <;> rfl
    · have hbit (c : Bool) : (cycleBit c).getLsbD i = false := by
        cases c
        · simp [cycleBit]
        · simp [cycleBit, trbCycle]
          omega
      have hone : trbCycle.getLsbD i = false := hbit true
      rw [hbit, hone]
      simp only [hi, decide_true, Bool.or_false, Bool.not_false, Bool.and_true]
  unfold Request.stored Trb.body
  simp only [hword]

@[simp] theorem Request.stored_cycle (request : Request) (cycle : Bool) :
    (request.stored cycle).cycle = cycle := by
  have hno : request.trb.control.getLsbD 0 = false := request.noCycle
  unfold Request.stored Trb.cycle
  rw [BitVec.getLsbD_or, hno]
  cases cycle <;> rfl

/-! ### Driver and controller at one ring -/

/-- The ring with its memory, the stores of the push in progress, the controller at its dequeue
position with its cycle state, and what has been pushed and read so far. -/
structure Machine where
  ring : Ring
  mem : ℕ → Trb
  pending : List (ℕ × Field)
  pos : ℕ
  ccs : Bool
  pushed : List Trb
  read : List Trb

def Machine.start (base : BitVec 64) (size : ℕ) : Machine :=
  ⟨(ringInit base size).1, (ringInit base size).2, [], 0, true, [], []⟩

/-- The driver calls `ring_push`. -/
def Machine.push (s : Machine) (request : Request) : Machine :=
  match ringPush s.ring request.trb with
  | none => s
  | some (_, stores, ring) =>
    { s with ring := ring, pending := stores, pushed := s.pushed ++ [request.trb] }

def Machine.store (s : Machine) : Machine :=
  match s.pending with
  | [] => s
  | (slot, field) :: rest =>
    { s with mem := update s.mem slot ((s.mem slot).write field), pending := rest }

/-- The controller looks at its position: it stops at a foreign cycle bit, follows a link to the TRB
it points to, and reads any other TRB. -/
def Machine.consume (s : Machine) : Machine :=
  let trb := s.mem s.pos
  if trb.cycle ≠ s.ccs then s
  else if trbGetType trb.control = trbLink then
    { s with
      pos := (trb.parameter - s.ring.base).toNat / 16
      ccs := if trb.control &&& trbTc ≠ 0 then !s.ccs else s.ccs }
  else { s with read := s.read ++ [trb.body], pos := s.pos + 1 }

inductive Act where
  | push (request : Request)
  | store
  | consume

def Machine.act (s : Machine) : Act → Machine
  | .push request => s.push request
  | .store => s.store
  | .consume => s.consume

def Machine.run (s : Machine) (acts : List Act) : Machine := acts.foldl Machine.act s

def Machine.unread (s : Machine) : ℕ := s.pushed.length - s.read.length

/-- Fewer than `size - 1` TRBs are unread. -/
def Machine.Room (s : Machine) : Prop := s.unread < s.ring.size - 1

/-- The same with a link that the controller has still to follow counted as unread. -/
def Machine.RoomPastLink (s : Machine) : Prop :=
  s.unread + (if s.pos = s.ring.size - 1 then 1 else 0) < s.ring.size - 1

def Legal (room : Machine → Prop) : Machine → List Act → Prop
  | _, [] => True
  | s, act :: acts =>
    (match act with
      | .push _ => s.pending = [] ∧ room s
      | _ => True) ∧ Legal room (s.act act) acts

deriving instance Decidable for Machine.Room, Machine.RoomPastLink

instance legalDecidable (room : Machine → Prop) [DecidablePred room] :
    ∀ s acts, Decidable (Legal room s acts)
  | _, [] => isTrue trivial
  | s, .push request :: acts =>
    have := legalDecidable room (s.push request) acts
    inferInstanceAs (Decidable ((s.pending = [] ∧ room s) ∧ Legal room (s.push request) acts))
  | s, .store :: acts =>
    have := legalDecidable room s.store acts
    inferInstanceAs (Decidable (True ∧ Legal room s.store acts))
  | s, .consume :: acts =>
    have := legalDecidable room s.consume acts
    inferInstanceAs (Decidable (True ∧ Legal room s.consume acts))

/-! ### The invariant -/

/-- The stores that still have to be made until a slot holds `trb`. -/
inductive Left (trb current : Trb) : List Field → Prop
  | all : Left trb current (trbSet trb)
  | two (h : current.parameter = trb.parameter) :
      Left trb current [.status trb.status, .control trb.control]
  | one (h : current.parameter = trb.parameter) (h' : current.status = trb.status) :
      Left trb current [.control trb.control]

variable {trb : Trb} {field : Field}

variable {current : Trb} {rest : List Field}

theorem Left.step (h : Left trb current (field :: rest)) : (rest = [] ∧ current.write field = trb) ∨
      (rest ≠ [] ∧ Left trb (current.write field) rest ∧
        (current.write field).control = current.control) := by
  cases h with
  | all => exact .inr ⟨by simp, .two rfl, rfl⟩
  | two h => exact .inr ⟨by simp, .one h rfl, rfl⟩
  | one h h' =>
    left
    refine ⟨rfl, ?_⟩
    cases trb
    cases current
    cases h
    cases h'
    rfl

def slots (mem : ℕ → Trb) (i : ℕ) : Trb × Bool := ((mem i).body, (mem i).cycle)

inductive Phase (m : ℕ) (base : BitVec 64) (mem : ℕ → Trb) (pushed : List Trb) (read : ℕ) :
    List (ℕ × Field) → Prop
  | idle (hl : Lapped m m (slots mem) pushed)
      (hk : m ≤ pushed.length → (mem m).cycle = !lapCycle m pushed.length) :
      Phase m base mem pushed read []
  | body {done : List Trb} {request : Request} {fields : List Field} {tail : List (ℕ × Field)}
      (hp : pushed = done ++ [request.trb]) (hr : read ≤ done.length)
      (hl : Lapped m (m - 1) (slots mem) done)
      (hk : m ≤ done.length → (mem m).cycle = !lapCycle m done.length)
      (hf : Left (request.stored (lapCycle m done.length)) (mem (done.length % m)) fields)
      (ht : tail = if done.length % m + 1 = m then
        (trbSet (linkTrb base (lapCycle m done.length))).map fun field => (m, field) else []) :
      Phase m base mem pushed read (fields.map (fun field => (done.length % m, field)) ++ tail)
  | link {cycle : Bool} {fields : List Field}
      (hl : Lapped m m (slots mem) pushed) (hm : pushed.length % m = 0)
      (hc : cycle = !lapCycle m pushed.length)
      (hf : Left (linkTrb base cycle) (mem m) fields) :
      Phase m base mem pushed read (fields.map fun field => (m, field))

structure IsLink (base : BitVec 64) (trb : Trb) : Prop where
  parameter : trb.parameter = base
  type : trbGetType trb.control = trbLink
  toggles : trb.control &&& trbTc ≠ 0

structure Inv (m : ℕ) (base : BitVec 64) (s : Machine) : Prop where
  pos : 0 < m
  ring : s.ring = ⟨base, m + 1, s.pushed.length % m, lapCycle m s.pushed.length⟩
  noLink : ∀ trb ∈ s.pushed, trbGetType trb.control ≠ trbLink
  link : IsLink base (s.mem m)
  phase : Phase m base s.mem s.pushed s.read.length s.pending
  place : (s.pos = s.read.length % m ∧ s.ccs = lapCycle m s.read.length) ∨
    (s.pos = m ∧ 0 < s.read.length ∧ s.read.length % m = 0 ∧ s.ccs = !lapCycle m s.read.length)
  read : s.read <+: s.pushed
  room : s.pushed.length ≤ s.read.length + m

theorem linkControl_spec : ∀ cycle, trbGetType (linkControl cycle) = trbLink ∧
    linkControl cycle &&& trbTc ≠ 0 ∧ (linkControl cycle).getLsbD 0 = cycle := by decide

theorem isLink_linkTrb (base : BitVec 64) (cycle : Bool) : IsLink base (linkTrb base cycle) :=
  ⟨rfl, (linkControl_spec cycle).1, (linkControl_spec cycle).2.1⟩

variable {mem : ℕ → Trb}

variable {size i j read slot : ℕ} {pushed entries : List Trb} {acts : List Act}

section Steps
variable {m : ℕ} {base : BitVec 64} {s : Machine}

theorem inv_start (size : ℕ) (h : 2 ≤ size) : Inv (size - 1) base (Machine.start base size) where
  pos := by omega
  ring := by
    have hsize : size - 1 + 1 = size := by omega
    change Ring.mk base size 0 true = _
    rw [hsize, lapCycle_of_lt (by simp [Machine.start]; omega)]
    simp [Machine.start]
  noLink := by simp [Machine.start]
  link := by simpa [Machine.start, ringInit] using isLink_linkTrb base true
  phase := by
    apply Phase.idle
    · apply Lapped.start (by omega)
      intro i hi
      unfold slots
      simp [Machine.start, ringInit, show i ≠ size - 1 by omega]
      rfl
    · intro hle
      change size - 1 ≤ 0 at hle
      omega
  place := by
    left
    exact ⟨(Nat.zero_mod _).symm, (lapCycle_of_lt (by simp [Machine.start]; omega)).symm⟩
  read := nil_prefix
  room := Nat.zero_le _

theorem ringPush_eq (hm : 0 < m) (n : ℕ) (request : Request) :
    ringPush ⟨base, m + 1, n % m, lapCycle m n⟩ request.trb = some (n % m,
        (trbSet (request.stored (lapCycle m n))).map (fun field => (n % m, field)) ++
          (if n % m + 1 = m then
            (trbSet (linkTrb base (lapCycle m n))).map fun field => (m, field) else []),
        ⟨base, m + 1, (n + 1) % m, lapCycle m (n + 1)⟩) := by
  have hlt := Nat.mod_lt n hm
  unfold ringPush
  simp only [Nat.add_sub_cancel]
  rw [if_neg (by omega), succ_mod hm, lapCycle_succ hm]
  split_ifs with hend
  · rfl
  · rfl

theorem Inv.push (h : Inv m base s) (hidle : s.pending = []) (hroom : s.Room)
    (request : Request) : Inv m base (s.push request) := by
  have hread := h.read.length_le
  have hsize : s.ring.size = m + 1 := by rw [h.ring]
  have hfree : s.pushed.length < s.read.length + m := by
    unfold Machine.Room Machine.unread at hroom
    omega
  unfold Machine.push
  rw [h.ring, ringPush_eq h.pos]
  have hphase := h.phase
  rw [hidle] at hphase
  generalize hnil : ([] : List (ℕ × Field)) = pending at hphase
  cases hphase with
  | idle hl hk =>
    exact {
        pos := h.pos
        ring := by simp
        noLink := by
          intro trb htrb
          rcases mem_append.mp htrb with hold | hnew
          · exact h.noLink trb hold
          · rw [mem_singleton.mp hnew]
            exact request.noLink
        link := h.link
        phase := .body rfl hread (hl.narrow (Nat.sub_le m 1)) hk .all rfl
        place := h.place
        read := h.read.trans (prefix_append _ _)
        room := by simp; omega }
  | body _ _ _ _ hf _ => cases hf <;> cases hnil
  | link _ _ _ hf => cases hf <;> cases hnil

theorem slots_update_of_ne (trb : Trb) (h : i ≠ j) : slots (update mem j trb) i = slots mem i := by
  unfold slots
  rw [update_of_ne h]

theorem slots_update_self (mem : ℕ → Trb) (i : ℕ) (trb : Trb) :
    slots (update mem i trb) i = (trb.body, trb.cycle) := by
  unfold slots
  rw [update_self]

theorem IsLink.write (h : IsLink base current)
    (ht : IsLink base trb) (hf : Left trb current (field :: rest)) :
    IsLink base (current.write field) := by
  rcases hf.step with ⟨-, hlast⟩ | ⟨-, hleft, hcontrol⟩
  · rw [hlast]
    exact ht
  · refine ⟨?_, hcontrol ▸ h.type, hcontrol ▸ h.toggles⟩
    cases hf with
    | all => exact ht.parameter
    | two _ => exact h.parameter
    | one _ _ => exact h.parameter

theorem Phase.store {rest : List (ℕ × Field)} (hm : 0 < m)
    (hlink : IsLink base (mem m)) (h : Phase m base mem pushed read ((slot, field) :: rest)) :
    Phase m base (update mem slot ((mem slot).write field)) pushed read rest ∧
      IsLink base (update mem slot ((mem slot).write field) m) := by
  generalize hpend : (slot, field) :: rest = pending at h
  cases h with
  | idle => cases hpend
  | @body done request fields tail hp hr hl hk hf ht =>
    have hlt := Nat.mod_lt done.length hm
    cases fields with
    | nil => cases hf
    | cons f fields =>
      rw [map_cons, cons_append, cons.injEq, Prod.mk.injEq] at hpend
      obtain ⟨⟨rfl, rfl⟩, rfl⟩ := hpend
      have hm' : update mem (done.length % m) ((mem (done.length % m)).write field) m =
          mem m := update_of_ne (by omega) ..
      refine ⟨?_, hm' ▸ hlink⟩
      rcases hf.step with ⟨rfl, hlast⟩ | ⟨-, hleft, hcontrol⟩
      · -- the control word makes the TRB visible
        have hl' : Lapped m m (slots (update mem (done.length % m)
            ((mem (done.length % m)).write field))) pushed := by
          rw [hp]
          apply hl.publish (by omega)
          · intro i _ hne
            exact slots_update_of_ne _ hne
          · rw [slots_update_self, hlast, Request.stored_body, Request.stored_cycle]
        rw [map_nil, nil_append, ht]
        have hlen : pushed.length = done.length + 1 := by simp [hp]
        split_ifs with hend
        · apply Phase.link hl'
          · rw [hlen, succ_mod hm, if_pos hend]
          · rw [hlen, lapCycle_succ hm, if_pos hend, Bool.not_not]
          · exact .all
        · apply Phase.idle hl'
          intro hle
          rw [hm', hlen, lapCycle_succ hm, if_neg hend]
          apply hk
          -- the first lap ends with its link, so this push is in a later one
          by_contra hfirst
          apply hend
          rw [Nat.mod_eq_of_lt (by omega)]
          omega
      · apply Phase.body hp hr _ _ _ ht
        · apply hl.scribble (by omega)
          · intro i _ hne
            exact slots_update_of_ne _ hne
          · rw [slots_update_self]
            unfold slots Trb.cycle
            rw [hcontrol]
        · rw [hm']
          exact hk
        · rw [update_self]
          exact hleft
  | @link cycle fields hl hmod hc hf =>
    cases fields with
    | nil => cases hf
    | cons f fields =>
      obtain ⟨⟨rfl, rfl⟩, rfl⟩ := hpend
      have hl' : Lapped slot slot (slots (update mem slot ((mem slot).write field))) pushed := by
        apply hl.congr hm
        intro i hi
        exact slots_update_of_ne _ (by omega)
      constructor
      · rcases hf.step with ⟨rfl, hlast⟩ | ⟨-, hleft, -⟩
        · apply Phase.idle hl'
          intro _
          rw [update_self, hlast, ← hc]
          exact (linkControl_spec cycle).2.2
        · apply Phase.link hl' hmod hc
          rw [update_self]
          exact hleft
      · rw [update_self]
        exact hlink.write (isLink_linkTrb base cycle) hf

theorem Inv.store (h : Inv m base s) : Inv m base s.store := by
  have hphase := h.phase
  unfold Machine.store
  cases hpend : s.pending with
  | nil => exact h
  | cons entry rest =>
    rw [hpend] at hphase
    obtain ⟨hphase', hlink'⟩ := hphase.store h.pos h.link
    exact { h with link := hlink', phase := hphase' }

theorem Phase.entry {pending : List (ℕ × Field)} (hm : 0 < m)
    (h : Phase m base mem pushed read pending) (hr : read ≤ pushed.length)
    (hroom : pushed.length ≤ read + m) (hc : (mem (read % m)).cycle = lapCycle m read) :
    pushed[read]? = some (mem (read % m)).body ∧ Phase m base mem pushed (read + 1) pending := by
  have hvalue {w : ℕ} {entries : List Trb} (hl : Lapped m w (slots mem) entries)
      (hle : read ≤ entries.length) (hw : entries.length ≤ read + w) :
      read < entries.length ∧ entries[read]? = some (mem (read % m)).body := by
    have hlt := (hl.cycle_eq_iff hle hw).mp hc
    have heq := hl.held read _ (getElem?_eq_getElem hlt) hw
    rw [getElem?_eq_getElem hlt, (Prod.mk.inj heq).1]
    exact ⟨hlt, rfl⟩
  cases h with
  | idle hl hk => exact ⟨(hvalue hl hr hroom).2, .idle hl hk⟩
  | body hp hr' hl hk hf ht =>
    have hlen := congrArg length hp
    rw [length_append, length_singleton] at hlen
    obtain ⟨hlt, hget⟩ := hvalue hl hr' (by omega)
    rw [hp, getElem?_append_left hlt]
    exact ⟨hget, .body rfl hlt hl hk hf ht⟩
  | link hl hmod hc' hf => exact ⟨(hvalue hl hr hroom).2, .link hl hmod hc' hf⟩

/-- What a look of the controller does: nothing, follow the link, or read the next entry. -/
inductive Look (m : ℕ) (base : BitVec 64) (s : Machine) : Machine → Prop
  | stop (h : (s.mem s.pos).cycle ≠ s.ccs) : Look m base s s
  | follow (h : s.pos = m) (h' : s.read.length % m = 0) :
      Look m base s { s with pos := 0, ccs := lapCycle m s.read.length }
  | take {trb : Trb} (h : s.pos = s.read.length % m) (hc : s.ccs = lapCycle m s.read.length)
      (hget : s.pushed[s.read.length]? = some trb)
      (hp : Phase m base s.mem s.pushed (s.read.length + 1) s.pending) :
      Look m base s { s with read := s.read ++ [trb], pos := s.pos + 1 }

theorem Inv.look (h : Inv m base s) : Look m base s s.consume := by
  unfold Machine.consume
  by_cases hc : (s.mem s.pos).cycle = s.ccs
  · rw [if_neg (not_not.mpr hc)]
    rcases h.place with ⟨hpos, hccs⟩ | ⟨hpos, hread, hmod, hccs⟩
    · rw [hpos, hccs] at hc
      obtain ⟨hget, hphase⟩ := h.phase.entry h.pos h.read.length_le h.room hc
      have hno := h.noLink _ (mem_of_getElem? hget)
      rw [Trb.body_type, ← hpos] at hno
      rw [if_neg hno]
      rw [← hpos] at hget
      exact .take hpos hccs hget hphase
    · rw [hpos]
      have hzero : ((s.mem m).parameter - s.ring.base).toNat / 16 = 0 := by
        rw [h.link.parameter, h.ring]
        simp
      rw [if_pos h.link.type, if_pos h.link.toggles, hzero, hccs, Bool.not_not]
      exact .follow hpos hmod
  · rw [if_pos hc]
    exact .stop hc

theorem concat_prefix {read : List Trb} (h : read <+: entries)
    (hget : entries[read.length]? = some trb) : read ++ [trb] <+: entries := by
  obtain ⟨rest, rfl⟩ := h
  rw [getElem?_append_right le_rfl, Nat.sub_self] at hget
  cases rest with
  | nil => cases hget
  | cons first rest =>
    cases hget
    exact ⟨rest, by simp⟩

theorem Inv.consume (h : Inv m base s) : Inv m base s.consume := by
  have hlook := h.look
  generalize s.consume = after at hlook
  cases hlook with
  | stop _ => exact h
  | follow hpos hmod => exact { h with place := .inl ⟨hmod.symm, rfl⟩ }
  | take hpos hccs hget hphase =>
    have hlen {trb : Trb} : (s.read ++ [trb]).length = s.read.length + 1 := by simp
    exact { h with
        phase := by
          rw [hlen]
          exact hphase
        place := by
          rw [hlen, succ_mod h.pos, lapCycle_succ h.pos, hpos, hccs]
          split_ifs with hend
          · exact .inr ⟨hend, by omega, rfl, (Bool.not_not _).symm⟩
          · exact .inl ⟨rfl, rfl⟩
        read := concat_prefix h.read hget
        room := by
          have := h.room
          dsimp only
          rw [hlen]
          omega }

/-- A controller that has still to follow the link has a free slot behind it. -/
def LinkRoom (m : ℕ) (s : Machine) : Prop := s.pos = m → s.pushed.length < s.read.length + m

theorem LinkRoom.consume (h : Inv m base s) (hl : LinkRoom m s) : LinkRoom m s.consume := by
  have hlook := h.look
  have hroom := h.room
  have hm := h.pos
  generalize s.consume = after at hlook
  cases hlook with
  | stop _ => exact hl
  | follow _ _ =>
    intro hpos
    change 0 = m at hpos
    omega
  | take _ _ _ _ =>
    intro _
    rw [length_append, length_singleton]
    change s.pushed.length < _
    omega

theorem roomPastLink_room (hs : s.RoomPastLink) : s.Room := by
  unfold Machine.RoomPastLink at hs
  unfold Machine.Room
  omega

theorem Inv.linkRoom_push (h : Inv m base s) (hroom : s.RoomPastLink) (request : Request) :
    LinkRoom m (s.push request) := by
  have hsize : s.ring.size - 1 = m := by rw [h.ring]; rfl
  unfold Machine.RoomPastLink Machine.unread at hroom
  rw [hsize] at hroom
  unfold Machine.push LinkRoom
  rw [h.ring, ringPush_eq h.pos]
  intro hpos
  rw [if_pos hpos] at hroom
  simp only [length_append, length_singleton]
  omega

/-! ### Runs -/

theorem inv_run (h : Inv m base s) (hl : Legal Machine.Room s acts) : Inv m base (s.run acts) := by
  induction acts generalizing s with
  | nil => exact h
  | cons act acts ih =>
    obtain ⟨hact, hrest⟩ := hl
    apply ih _ hrest
    cases act with
    | push request => exact h.push hact.1 hact.2 request
    | store => exact h.store
    | consume => exact h.consume

theorem inv_run_past_link (h : Inv m base s) (hk : LinkRoom m s)
    (hl : Legal Machine.RoomPastLink s acts) :
    Inv m base (s.run acts) ∧ LinkRoom m (s.run acts) := by
  induction acts generalizing s with
  | nil => exact ⟨h, hk⟩
  | cons act acts ih =>
    obtain ⟨hact, hrest⟩ := hl
    cases act with
    | push request =>
      have hroom := roomPastLink_room hact.2
      exact ih (h.push hact.1 hroom request) (h.linkRoom_push hact.2 request) hrest
    | store =>
      have hk' : LinkRoom m s.store := by
        unfold Machine.store
        cases s.pending <;> exact hk
      exact ih h.store hk' hrest
    | consume => exact ih h.consume (.consume h hk) hrest

theorem Inv.not_stopped (h : Inv m base s) (hk : LinkRoom m s) (hidle : s.pending = [])
    (hlt : s.read.length < s.pushed.length) : (s.mem s.pos).cycle = s.ccs := by
  have hroom := h.room
  have hphase := h.phase
  rw [hidle] at hphase
  generalize hnil : ([] : List (ℕ × Field)) = pending at hphase
  cases hphase with
  | body _ _ _ _ hf _ => cases hf <;> cases hnil
  | link _ _ _ hf => cases hf <;> cases hnil
  | idle hl hlink =>
    rcases h.place with ⟨hpos, hccs⟩ | ⟨hpos, hread, hmod, hccs⟩
    · rw [hpos, hccs]
      exact (hl.cycle_eq_iff hlt.le hroom).mpr hlt
    · -- the controller stands at the link of the lap before the one being written
      have hfull := hk hpos
      have hdvd := Nat.dvd_of_mod_eq_zero hmod
      have hle := Nat.le_of_dvd hread hdvd
      have hlap : lapCycle m s.pushed.length = lapCycle m s.read.length := by
        apply lapCycle_congr
        obtain ⟨k, hk⟩ := hdvd
        rw [hk, Nat.mul_div_cancel_left _ h.pos]
        apply Nat.div_eq_of_lt_le
        · rw [Nat.mul_comm]
          omega
        · rw [Nat.succ_mul, Nat.mul_comm]
          omega
      rw [hpos, hccs, hlink (by omega), hlap]

theorem consume_reads_all (n : ℕ) (h : Inv m base s) (hk : LinkRoom m s) (hidle : s.pending = [])
    (hn : s.unread = 0 ∨ 2 * s.unread + (if s.pos = m then 1 else 0) ≤ n) :
    (Machine.consume^[n] s).read = s.pushed := by
  unfold Machine.unread at hn
  induction n generalizing s with
  | zero =>
    have hread := h.read.length_le
    exact h.read.eq_of_length (by omega)
  | succ n ih =>
    rw [iterate_succ_apply]
    have h' := h.consume
    have hk' := LinkRoom.consume h hk
    have hlook := h.look
    have hm := h.pos
    generalize s.consume = after at hlook h' hk'
    cases hlook with
    | stop hstop =>
      have hall : ¬ s.read.length < s.pushed.length := fun hlt =>
        hstop (h.not_stopped hk hidle hlt)
      exact ih h hk hidle (by omega)
    | follow hpos _ =>
      apply ih h' hk' hidle
      rw [if_pos hpos] at hn
      change s.pushed.length - s.read.length = 0 ∨
        2 * (s.pushed.length - s.read.length) + (if 0 = m then 1 else 0) ≤ n
      rw [if_neg (by omega)]
      omega
    | take _ _ hget _ =>
      apply ih h' hk' hidle
      rw [length_append, length_singleton]
      dsimp only
      split_ifs at hn ⊢ <;> omega

end Steps

/-- For every ring size, in every interleaving of the stores of pushes with the looks of the
controller: what it has read is an initial part of what has been pushed, as long as a push finds
fewer than `size - 1` TRBs unread. If a link that the controller has not followed yet counts as
unread too, it reads everything: with no push in progress, twice as many looks as there are unread
TRBs, and one for the link, bring it to the end. -/
theorem controller_reads_pushes (base : BitVec 64) (size : ℕ) (hsize : 2 ≤ size) :
    (∀ acts, Legal Machine.Room (.start base size) acts →
      ((Machine.start base size).run acts).read <+: ((Machine.start base size).run acts).pushed) ∧
    ∀ acts, Legal Machine.RoomPastLink (.start base size) acts →
      ((Machine.start base size).run acts).pending = [] →
      ∀ n, 2 * ((Machine.start base size).run acts).unread + 1 ≤ n →
        (Machine.consume^[n] ((Machine.start base size).run acts)).read =
          ((Machine.start base size).run acts).pushed := by
  have hstart : Inv (size - 1) base (.start base size) := inv_start size hsize
  constructor
  · intro acts hl
    exact (inv_run hstart hl).read
  · intro acts hl hidle n hn
    have hk : LinkRoom (size - 1) (.start base size) := by
      intro hpos
      change 0 = size - 1 at hpos
      omega
    obtain ⟨h, hk'⟩ := inv_run_past_link hstart hk hl
    apply consume_reads_all n h hk' hidle
    right
    split_ifs <;> omega

def normalRequest (status : BitVec 32) : Request where
  trb := ⟨0x8000, status, trbType 1⟩
  noCycle := show (trbType 1).getLsbD 0 = false by decide
  noLink := show trbGetType (trbType 1) ≠ trbLink by decide

/-- Three pushes with all their stores: one lap of a ring of four slots. -/
def pushLap : List Act :=
  [.push (normalRequest 1), .store, .store, .store, .push (normalRequest 2), .store, .store, .store,
    .push (normalRequest 3)] ++ replicate 6 .store

theorem controller_reads_pushes_two_laps :
    let acts := pushLap ++ replicate 4 .consume ++ pushLap
    let s := (Machine.start 0x1000 4).run acts
    (Legal Machine.RoomPastLink (.start 0x1000 4) acts ∧ s.pending = [] ∧ s.unread = 3) ∧
      s.read <+: s.pushed ∧ (Machine.consume^[7] s).read = s.pushed := by
  intro acts s
  have hl : Legal Machine.RoomPastLink (.start 0x1000 4) acts := by decide +kernel
  have hl' : Legal Machine.Room (.start 0x1000 4) acts := by decide +kernel
  have hidle : s.pending = [] := by decide +kernel
  have hunread : s.unread = 3 := by decide +kernel
  have hlooks : 2 * s.unread + 1 ≤ 7 := by omega
  have h := controller_reads_pushes 0x1000 4 (by decide)
  exact ⟨⟨hl, hidle, hunread⟩, h.1 acts hl', h.2 acts hl hidle 7 hlooks⟩

/-- The controller reads a lap and rests at the link. A full lap is pushed before it looks again, each
push with fewer than three TRBs unread; the last push turns the bit of the link, so the controller
stops there and the lap stays unread. -/
theorem link_rewritten_before_followed :
    let acts := pushLap ++ replicate 3 .consume ++ pushLap
    let s := (Machine.start 0x1000 4).run acts
    Legal Machine.Room (.start 0x1000 4) acts ∧ s.pending = [] ∧ s.consume = s ∧
      s.read.length = 3 ∧ s.pushed.length = 6 := by
  intro acts s
  have hstop : (s.mem s.pos).cycle ≠ s.ccs := by decide +kernel
  exact ⟨by decide +kernel, by decide +kernel, if_pos hstop, by decide +kernel, by decide +kernel⟩

end Xhci
