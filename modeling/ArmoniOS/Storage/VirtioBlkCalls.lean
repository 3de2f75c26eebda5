import ArmoniOS.Storage.VirtioBlk

/-!
When a successful call of the block driver has been served.

Nothing matches a completion to the request of the call that sees it, so a request that is still open
when its call gives up is mistaken for the next one. Runs in which every call starts with all earlier
requests completed and noticed, and no read gives up before its request is completed, are safe.
-/
namespace VirtioBlk

open ByteBlock IndexRing List

def Machine.Quiet (s : Machine) : Prop :=
  s.mem.availIdx = s.mem.usedIdx ∧ s.mem.usedIdx = s.lastUsed
deriving Decidable

def Pc.isIdle : Pc → Bool
  | .idle _ => true
  | _ => false

def Pc.abandonsRead : Pc → Bool
  | .poll call spins => decide (pollLimit ≤ spins) && !call.write
  | _ => false

/-- A call starts quietly, and a read gives up only if its request is completed. -/
def Allowed (s : Machine) : Act → Prop
  | .call _ => s.pc.isIdle = true → s.Quiet
  | .drive => s.pc.abandonsRead = true → s.mem.usedIdx = s.mem.availIdx
  | _ => True

instance (s : Machine) : ∀ act, Decidable (Allowed s act)
  | .call _ => inferInstanceAs (Decidable (s.pc.isIdle = true → s.Quiet))
  | .drive =>
    inferInstanceAs (Decidable (s.pc.abandonsRead = true → s.mem.usedIdx = s.mem.availIdx))
  | .fill _ _ => isTrue trivial
  | .device _ => isTrue trivial

def Legal : Machine → List Act → Prop
  | _, [] => True
  | s, act :: acts => Allowed s act ∧ Legal (s.act act) acts

instance legalDecidable : ∀ s acts, Decidable (Legal s acts)
  | _, [] => isTrue trivial
  | s, act :: acts =>
    have := legalDecidable (s.act act) acts
    inferInstanceAs (Decidable (Allowed s act ∧ Legal (s.act act) acts))

def Machine.reading (s : Machine) : Option ℕ :=
  match s.pc with
  | .setup call _ | .poll call _ | .take call | .finish call =>
    if call.write then none else some call.buffer
  | .idle _ => none

/-- Every success is the success of the call's own request, a successful read has the sector, and the
device writes the buffer of the read in progress only. -/
structure Conforms (s : Machine) : Prop where
  success : ∀ ret ∈ s.returns, ret.result = 0 →
    s.completions[ret.number]? =
      some ⟨ret.call.type, ret.call.sector, .buffer ret.call.buffer, blkSOk⟩
  data : ∀ ret ∈ s.returns, ret.result = 0 → ret.call.write = false → ret.data = ret.onDisk
  buffers : ∀ act b, (s.device act).mem.buffers b ≠ s.mem.buffers b → s.reading = some b

/-! ### The invariant -/

/-- The shared memory describes the request of a call as number `n`. -/
structure Chain (call : Call) (n : ℕ) (mem : Mem) : Prop where
  type : mem.type = call.type
  sector : mem.sector = call.sector
  header : mem.desc 0 = headerDesc
  data : mem.desc 1 = dataDesc call
  ring : mem.availRing (n % queueSize) = 0

def workOf (call : Call) (status : Option UInt8) : Work :=
  ⟨call.type, call.sector, dataDesc call, status⟩

/-- The status byte is the one of this request, and a read that is OK has its data. -/
structure Served (call : Call) (status : UInt8) (s : Machine) : Prop where
  byte : s.mem.status = status
  data : status = blkSOk → call.write = false → s.mem.buffers call.buffer = s.disk call.sector

structure Calm (s : Machine) : Prop where
  completed : s.completions.length = s.submitted
  work : s.work = none
  taken : s.takenIdx = word s.submitted

inductive Open (call : Call) (s : Machine) : Prop
  | waiting (hw : s.work = none) (ht : s.takenIdx = word (s.submitted - 1))
      (hc : Chain call (s.submitted - 1) s.mem)
  | working (hw : s.work = some (workOf call none)) (ht : s.takenIdx = word s.submitted)
  | finished (status : UInt8) (hw : s.work = some (workOf call (some status)))
      (ht : s.takenIdx = word s.submitted) (hs : Served call status s)

structure Outstanding (call : Call) (s : Machine) : Prop where
  completed : s.completions.length + 1 = s.submitted
  progress : Open call s

structure Settled (call : Call) (s : Machine) : Prop where
  calm : Calm s
  served : ∃ status, s.completions[s.submitted - 1]? =
    some ⟨call.type, call.sector, .buffer call.buffer, status⟩ ∧ Served call status s

/-- Where the request of the current call stands, with `last` completions noticed. -/
def At (last : ℕ) (s : Machine) : Pc → Prop
  | .idle _ => (s.submitted = last ∧ Calm s) ∨
      (s.submitted = last + 1 ∧ ((∃ call, call.write = true ∧ Outstanding call s) ∨ Calm s))
  | .setup call stores => s.submitted = last ∧ Calm s ∧
      Chain call s.submitted (stores.foldl Mem.store s.mem) ∧
      ∀ store ∈ stores, ∀ value, store ≠ .availIdx value
  | .poll call _ => s.submitted = last + 1 ∧ (Outstanding call s ∨ Settled call s)
  | .take call => s.submitted = last + 1 ∧ Settled call s
  | .finish call => s.submitted = last ∧ 0 < s.submitted ∧ Settled call s

structure Inv (last : ℕ) (s : Machine) : Prop where
  availIdx : s.mem.availIdx = word s.submitted
  usedIdx : s.mem.usedIdx = word s.completions.length
  lastUsed : s.lastUsed = word last
  place : At last s s.pc
  success : ∀ ret ∈ s.returns, ret.result = 0 →
    s.completions[ret.number]? =
      some ⟨ret.call.type, ret.call.sector, .buffer ret.call.buffer, blkSOk⟩
  data : ∀ ret ∈ s.returns, ret.result = 0 → ret.call.write = false → ret.data = ret.onDisk

theorem Inv.at_pc {s : Machine} {last : ℕ} {pc : Pc} (h : Inv last s) (hpc : s.pc = pc) : At last s pc :=
  hpc ▸ h.place

theorem inv_start (disk buffers : ℕ → Sector) : Inv 0 (.start disk buffers) where
  availIdx := rfl
  usedIdx := rfl
  lastUsed := rfl
  place := .inl ⟨rfl, rfl, rfl, rfl⟩
  success ret hret := by cases hret
  data ret hret := by cases hret

section Steps
variable {s : Machine} {last : ℕ} {call : Call}

/-! ### Device steps -/

theorem Calm.device (h : Calm s) (hidx : s.mem.availIdx = word s.submitted) (act : DeviceAct) :
    s.device act = s := by
  cases act with
  | fetch =>
    apply if_neg
    rintro ⟨-, hne⟩
    exact hne (h.taken.trans hidx.symm)
  | transfer data => simp only [Machine.device, Machine.transfer, h.work]
  | complete status => simp only [Machine.device, Machine.complete, h.work]
  | publish => simp only [Machine.device, Machine.publish, h.work]

theorem workOf_target (call : Call) (status : Option UInt8) :
    (workOf call status).target = if call.write then none else some call.buffer := by
  unfold Work.target workOf dataDesc
  cases call.write <;> simp [descFNext, descFWrite]

theorem complete_working (hw : s.work = some (workOf call none)) (status : UInt8) :
    (s.complete status).work = some (workOf call (some status)) ∧
      Served call status (s.complete status) := by
  unfold Machine.complete
  simp only [hw]
  rw [if_pos (show (workOf call none).status = none from rfl)]
  refine ⟨rfl, ⟨rfl, ?_⟩⟩
  intro hok hread
  have htype : (workOf call none).type = blkTIn := by simp [workOf, Call.type, hread]
  have htarget : (workOf call none).target = some call.buffer := by
    rw [workOf_target, hread]
    rfl
  have hin : status = blkSOk ∧ (workOf call none).type = blkTIn := ⟨hok, htype⟩
  have hout : ¬ (status = blkSOk ∧ (workOf call none).type = blkTOut) := by
    rw [htype]
    rintro ⟨-, hne⟩
    cases hne
  simp only [if_pos hin, htarget, Mem.setBuffer, Function.update_self]
  have haddr : (workOf call none).data.addr = .buffer call.buffer := rfl
  simp only [haddr, if_neg hout]
  rfl

theorem complete_counts (s : Machine) (status : UInt8) :
    (s.complete status).completions = s.completions ∧
      (s.complete status).submitted = s.submitted ∧ (s.complete status).takenIdx = s.takenIdx := by
  unfold Machine.complete
  repeat' split
  all_goals exact ⟨rfl, rfl, rfl⟩

/-- What every device step leaves alone, and that the used index counts the completions. -/
structure DeviceFrame (s s' : Machine) : Prop where
  pc : s'.pc = s.pc
  lastUsed : s'.lastUsed = s.lastUsed
  submitted : s'.submitted = s.submitted
  returns : s'.returns = s.returns
  availIdx : s'.mem.availIdx = s.mem.availIdx
  completions : s.completions <+: s'.completions
  usedIdx : s.mem.usedIdx = word s.completions.length →
    s'.mem.usedIdx = word s'.completions.length

@[simp] theorem setBuffer_availIdx (mem : Mem) (target : Option ℕ) (data : Sector) :
    (mem.setBuffer target data).availIdx = mem.availIdx := by
  cases target <;> rfl

@[simp] theorem setBuffer_usedIdx (mem : Mem) (target : Option ℕ) (data : Sector) :
    (mem.setBuffer target data).usedIdx = mem.usedIdx := by
  cases target <;> rfl

theorem device_frame (s : Machine) (act : DeviceAct) : DeviceFrame s (s.device act) := by
  cases act <;>
    simp only [Machine.device, Machine.fetch, Machine.transfer, Machine.complete, Machine.publish] <;>
    repeat' split
  all_goals
    constructor
    all_goals simp_all
  -- what is left is the count after `publish`
  exact fun _ => word_succ _

theorem Outstanding.device (h : Outstanding call s) (hidx : s.mem.availIdx = word s.submitted)
    (act : DeviceAct) : Outstanding call (s.device act) ∨ Settled call (s.device act) := by
  have hcount := h.completed
  have hn : 0 < s.submitted := by omega
  cases h.progress with
  | waiting hw ht hc =>
    left
    cases act with
    | fetch =>
      have hne : s.takenIdx ≠ s.mem.availIdx := by
        rw [ht, hidx, ne_eq, word_eq_iff (Nat.sub_le _ _) (by omega)]
        omega
      have hslot : s.takenIdx.toNat % queueSize = (s.submitted - 1) % queueSize := by
        rw [ht]
        exact word_toNat_mod (by decide) _
      have hnext : s.takenIdx + 1 = word s.submitted := by
        rw [ht, word_succ, Nat.sub_add_cancel hn]
      rw [Machine.device, Machine.fetch, if_pos ⟨hw, hne⟩]
      simp only [hslot, hc.ring, hc.header, hnext]
      simp only [headerDesc, if_true, hc.type, hc.sector, hc.data]
      exact ⟨hcount, .working rfl rfl⟩
    | transfer data => simpa only [Machine.device, Machine.transfer, hw] using h
    | complete status => simpa only [Machine.device, Machine.complete, hw] using h
    | publish => simpa only [Machine.device, Machine.publish, hw] using h
  | working hw ht =>
    left
    cases act with
    | fetch => simpa only [Machine.device, Machine.fetch, hw, reduceCtorEq, false_and, if_false]
        using h
    | transfer data =>
      simp only [Machine.device, Machine.transfer, hw]
      exact ⟨hcount, .working rfl ht⟩
    | complete status =>
      obtain ⟨hwork, hserved⟩ := complete_working hw status
      obtain ⟨hcompletions, hsubmitted, htaken⟩ := complete_counts s status
      refine ⟨?_, .finished status hwork ?_ hserved⟩
      · change (s.complete status).completions.length + 1 = (s.complete status).submitted
        rw [hcompletions, hsubmitted]
        exact hcount
      · change (s.complete status).takenIdx = word (s.complete status).submitted
        rw [hsubmitted, htaken]
        exact ht
    | publish => simpa only [Machine.device, Machine.publish, hw, workOf] using h
  | finished status hw ht hs =>
    cases act with
    | fetch =>
      left
      simpa only [Machine.device, Machine.fetch, hw, reduceCtorEq, false_and, if_false] using h
    | transfer data =>
      left
      simpa only [Machine.device, Machine.transfer, hw, workOf, reduceCtorEq, if_false] using h
    | complete status =>
      left
      simpa only [Machine.device, Machine.complete, hw, workOf, reduceCtorEq, if_false] using h
    | publish =>
      right
      have hpub : s.publish = { s with
            work := none
            mem := { s.mem with usedIdx := s.mem.usedIdx + 1 }
            completions := s.completions ++
              [⟨call.type, call.sector, .buffer call.buffer, status⟩] } := by
        simp only [Machine.publish, hw, workOf]
        rfl
      change Settled call s.publish
      rw [hpub]
      have hlen : s.submitted - 1 = s.completions.length := by omega
      refine ⟨⟨by simp only [length_append, length_singleton]; exact hcount, rfl, ht⟩,
        status, ?_, ⟨hs.byte, hs.data⟩⟩
      simp only [hlen]
      exact getElem?_concat_length

theorem Settled.device (h : Settled call s) (hidx : s.mem.availIdx = word s.submitted)
    (act : DeviceAct) : s.device act = s := h.calm.device hidx act

theorem At.device (h : At last s s.pc) (hidx : s.mem.availIdx = word s.submitted)
    (act : DeviceAct) : At last (s.device act) s.pc := by
  have hframe := device_frame s act
  generalize s.pc = pc at h ⊢
  cases pc with
  | idle result =>
    rcases h with ⟨hn, hcalm⟩ | ⟨hn, ⟨call, hwrite, hopen⟩ | hcalm⟩
    · rw [hcalm.device hidx act]
      exact .inl ⟨hn, hcalm⟩
    · right
      refine ⟨hframe.submitted.trans hn, ?_⟩
      rcases hopen.device hidx act with hopen' | hsettled
      · exact .inl ⟨call, hwrite, hopen'⟩
      · exact .inr hsettled.calm
    · rw [hcalm.device hidx act]
      exact .inr ⟨hn, .inr hcalm⟩
  | setup call stores =>
    rw [h.2.1.device hidx act]
    exact h
  | poll call spins =>
    obtain ⟨hn, hopen | hsettled⟩ := h
    · exact ⟨hframe.submitted.trans hn, hopen.device hidx act⟩
    · rw [hsettled.device hidx act]
      exact ⟨hn, .inr hsettled⟩
  | take call =>
    rw [h.2.device hidx act]
    exact h
  | finish call =>
    rw [h.2.2.device hidx act]
    exact h

theorem getElem?_of_prefix {α : Type} {l l' : List α} {i : ℕ} {v : α} (h : l <+: l')
    (hi : l[i]? = some v) : l'[i]? = some v := by
  obtain ⟨rest, rfl⟩ := h
  rw [List.getElem?_append_left (List.getElem?_eq_some_iff.mp hi).1]
  exact hi

theorem Inv.device (h : Inv last s) (act : DeviceAct) : Inv last (s.device act) := by
  have hframe := device_frame s act
  exact {
      availIdx := by rw [hframe.availIdx, hframe.submitted]; exact h.availIdx
      usedIdx := hframe.usedIdx h.usedIdx
      lastUsed := hframe.lastUsed.trans h.lastUsed
      place := by rw [hframe.pc]; exact h.place.device h.availIdx act
      success := by
        intro ret hret hok
        rw [hframe.returns] at hret
        exact getElem?_of_prefix hframe.completions (h.success ret hret hok)
      data := by rw [hframe.returns]; exact h.data }

theorem setBuffer_changed {mem : Mem} {target : Option ℕ} {data : Sector} {b : ℕ}
    (h : (mem.setBuffer target data).buffers b ≠ mem.buffers b) : target = some b := by
  cases target with
  | none => exact absurd rfl h
  | some id =>
    by_contra hne
    apply h
    exact Function.update_of_ne (fun heq => hne (congrArg some heq.symm)) ..

theorem device_changed {act : DeviceAct} {b : ℕ}
    (h : (s.device act).mem.buffers b ≠ s.mem.buffers b) :
    ∃ work, s.work = some work ∧ work.status = none ∧ work.target = some b := by
  cases act <;>
    simp only [Machine.device, Machine.fetch, Machine.transfer, Machine.complete,
      Machine.publish] at h <;>
    repeat' split at h
  all_goals
    first
    | exact absurd rfl h
    | exact ⟨_, ‹_›, ‹_›, setBuffer_changed h⟩

theorem Outstanding.target (h : Outstanding call s) {work : Work} (hw : s.work = some work)
    (hopen : work.status = none) :
    work.target = if call.write then none else some call.buffer := by
  cases h.progress with
  | waiting hw' _ _ => rw [hw] at hw'; cases hw'
  | working hw' _ =>
    rw [hw, Option.some.injEq] at hw'
    rw [hw', workOf_target]
  | finished status hw' _ _ =>
    rw [hw, Option.some.injEq] at hw'
    rw [hw'] at hopen
    cases hopen

theorem Inv.device_buffers (h : Inv last s) (act : DeviceAct) (b : ℕ)
    (hb : (s.device act).mem.buffers b ≠ s.mem.buffers b) : s.reading = some b := by
  obtain ⟨work, hw, hopen, htarget⟩ := device_changed hb
  have hplace := h.place
  have hcalm : ¬ Calm s := fun hcalm => by
    have hnone := hcalm.work
    rw [hw] at hnone
    cases hnone
  unfold Machine.reading
  generalize s.pc = pc at hplace ⊢
  cases pc with
  | idle result =>
    rcases hplace with ⟨-, hc⟩ | ⟨-, ⟨call, hwrite, hout⟩ | hc⟩
    · exact absurd hc hcalm
    · have hnone := hout.target hw hopen
      rw [htarget, hwrite] at hnone
      cases hnone
    · exact absurd hc hcalm
  | setup call stores => exact absurd hplace.2.1 hcalm
  | poll call spins =>
    obtain ⟨-, hout | hsettled⟩ := hplace
    · exact (hout.target hw hopen).symm.trans htarget
    · exact absurd hsettled.calm hcalm
  | take call => exact absurd hplace.2.calm hcalm
  | finish call => exact absurd hplace.2.2.calm hcalm

/-! ### Driver steps -/

theorem describe_chain (call : Call) (n : ℕ) (mem : Mem) :
    Chain call n ((describe call (word n)).foldl Mem.store mem) := by
  have hslot : (word n).toNat % queueSize = n % queueSize := word_toNat_mod (by decide) n
  refine ⟨rfl, rfl, ?_, ?_, ?_⟩
  · simp [describe, Mem.store]
  · simp [describe, Mem.store]
  · simp [describe, Mem.store, hslot]

theorem Inv.begin (h : Inv last s) (hallowed : Allowed s (.call call)) : Inv last (s.call call) := by
  unfold Machine.call
  cases hpc : s.pc with
  | idle result =>
    have hquiet : s.Quiet := hallowed (by rw [hpc]; rfl)
    obtain ⟨hn, hcalm⟩ : s.submitted = last ∧ Calm s := by
      rcases h.at_pc hpc with hcalm | ⟨hn, -⟩
      · exact hcalm
      · have heq := hquiet.1.trans hquiet.2
        rw [h.availIdx, h.lastUsed, hn, eq_comm, word_eq_iff (by omega) (by omega)] at heq
        omega
    rw [h.availIdx]
    exact { h with
      place := by
        refine ⟨hn, ⟨hcalm.completed, hcalm.work, hcalm.taken⟩, describe_chain call _ _, ?_⟩
        intro store hstore value heq
        subst heq
        simp [describe] at hstore }
  | _ => exact h

structure SameDevice (s s' : Machine) : Prop where
  mem : s'.mem = s.mem
  work : s'.work = s.work
  takenIdx : s'.takenIdx = s.takenIdx
  disk : s'.disk = s.disk
  submitted : s'.submitted = s.submitted
  completions : s'.completions = s.completions

section Same
variable {s' : Machine}

theorem Calm.same (h : Calm s) (e : SameDevice s s') : Calm s' := by
  cases s'
  obtain ⟨rfl, rfl, rfl, rfl, rfl, rfl⟩ := e
  exact ⟨h.completed, h.work, h.taken⟩

theorem Outstanding.same (h : Outstanding call s) (e : SameDevice s s') : Outstanding call s' := by
  cases s'
  obtain ⟨rfl, rfl, rfl, rfl, rfl, rfl⟩ := e
  refine ⟨h.completed, ?_⟩
  cases h.progress with
  | waiting hw ht hc => exact .waiting hw ht hc
  | working hw ht => exact .working hw ht
  | finished status hw ht hs => exact .finished status hw ht ⟨hs.byte, hs.data⟩

theorem Settled.same (h : Settled call s) (e : SameDevice s s') : Settled call s' := by
  have hcalm := h.calm.same e
  cases s'
  obtain ⟨rfl, rfl, rfl, rfl, rfl, rfl⟩ := e
  obtain ⟨-, status, hget, hs⟩ := h
  exact ⟨hcalm, status, hget, ⟨hs.byte, hs.data⟩⟩

end Same

theorem Inv.fill (h : Inv last s) (buffer : ℕ) (data : Sector) : Inv last (s.fill buffer data) := by
  unfold Machine.fill
  cases hpc : s.pc with
  | idle result =>
    refine { h with place := ?_ }
    rcases h.at_pc hpc with ⟨hn, hcalm⟩ | ⟨hn, ⟨call, hwrite, hout⟩ | hcalm⟩
    · exact .inl ⟨hn, ⟨hcalm.completed, hcalm.work, hcalm.taken⟩⟩
    · -- an open request of an earlier write does not depend on the buffer
      refine .inr ⟨hn, .inl ⟨call, hwrite, hout.completed, ?_⟩⟩
      cases hout.progress with
      | waiting hw ht hc => exact .waiting hw ht ⟨hc.type, hc.sector, hc.header, hc.data, hc.ring⟩
      | working hw ht => exact .working hw ht
      | finished status hw ht hs =>
        refine .finished status hw ht ⟨hs.byte, ?_⟩
        intro _ hread
        rw [hwrite] at hread
        cases hread
    · exact .inr ⟨hn, .inr ⟨hcalm.completed, hcalm.work, hcalm.taken⟩⟩
  | _ => exact h

theorem Inv.setup {stores : List Store} {store : Store} (h : Inv last s)
    (hpc : s.pc = .setup call (store :: stores)) :
    Inv last { s with pc := .setup call stores, mem := s.mem.store store } := by
  obtain ⟨hn, hcalm, hchain, hno⟩ := h.at_pc hpc
  obtain ⟨havail, hused⟩ : (s.mem.store store).availIdx = s.mem.availIdx ∧
      (s.mem.store store).usedIdx = s.mem.usedIdx := by
    cases store with
    | availIdx value => exact absurd rfl (hno _ mem_cons_self value)
    | _ => exact ⟨rfl, rfl⟩
  exact { h with
    availIdx := havail.trans h.availIdx
    usedIdx := hused.trans h.usedIdx
    place := ⟨hn, ⟨hcalm.completed, hcalm.work, hcalm.taken⟩, hchain,
      fun store' hstore' => hno store' (mem_cons_of_mem _ hstore')⟩ }

theorem Inv.submit (h : Inv last s) (hpc : s.pc = .setup call []) : Inv last { s with
        pc := .poll call 0
        mem := s.mem.store (.availIdx (s.mem.availIdx + 1))
        submitted := s.submitted + 1 } := by
  obtain ⟨hn, hcalm, hchain, -⟩ := h.at_pc hpc
  exact { h with
    availIdx := by
      change s.mem.availIdx + 1 = _
      rw [h.availIdx, word_succ]
    place := by
      refine ⟨congrArg (· + 1) hn, .inl ⟨congrArg (· + 1) hcalm.completed, ?_⟩⟩
      exact .waiting hcalm.work hcalm.taken
        ⟨hchain.type, hchain.sector, hchain.header, hchain.data, hchain.ring⟩ }

theorem Inv.ret {result : ℤ} (h : Inv last s) (hplace : At last s (.idle result))
    (hok : result = 0 → s.completions[s.submitted - 1]? =
        some ⟨call.type, call.sector, .buffer call.buffer, blkSOk⟩ ∧
      (call.write = false → s.mem.buffers call.buffer = s.disk call.sector)) :
    Inv last (s.ret call result) where
  availIdx := h.availIdx
  usedIdx := h.usedIdx
  lastUsed := h.lastUsed
  place := by
    have e : SameDevice s (s.ret call result) := ⟨rfl, rfl, rfl, rfl, rfl, rfl⟩
    rcases hplace with ⟨hn, hcalm⟩ | ⟨hn, ⟨call', hwrite, hout⟩ | hcalm⟩
    · exact .inl ⟨hn, hcalm.same e⟩
    · exact .inr ⟨hn, .inl ⟨call', hwrite, hout.same e⟩⟩
    · exact .inr ⟨hn, .inr (hcalm.same e)⟩
  success := by
    intro ret hret hzero
    rcases mem_append.mp hret with hold | hnew
    · exact h.success ret hold hzero
    · rw [mem_singleton.mp hnew] at hzero ⊢
      exact (hok hzero).1
  data := by
    intro ret hret hzero hread
    rcases mem_append.mp hret with hold | hnew
    · exact h.data ret hold hzero hread
    · rw [mem_singleton.mp hnew] at hzero hread ⊢
      exact (hok hzero).2 hread

theorem Inv.usedIdx_of_outstanding (h : Inv last s) (hn : s.submitted = last + 1)
    (hout : Outstanding call s) :
    s.mem.usedIdx = s.lastUsed ∧ s.mem.usedIdx ≠ s.mem.availIdx := by
  have hcount := hout.completed
  have hlast : s.completions.length = last := by omega
  rw [h.usedIdx, h.lastUsed, h.availIdx, hlast]
  refine ⟨rfl, ?_⟩
  rw [ne_eq, word_eq_iff (by omega) (by omega)]
  omega

theorem Inv.poll {spins : ℕ} (h : Inv last s) (hpc : s.pc = .poll call spins)
    (hallowed : Allowed s .drive) : Inv last s.drive := by
  obtain ⟨hn, hrequest⟩ := h.at_pc hpc
  unfold Machine.drive
  simp only [hpc]
  by_cases hlimit : pollLimit ≤ spins
  · rw [if_pos hlimit]
    apply h.ret
    · refine .inr ⟨hn, ?_⟩
      rcases hrequest with hout | hsettled
      · left
        refine ⟨call, ?_, hout⟩
        by_contra hread
        rw [Bool.not_eq_true] at hread
        apply (h.usedIdx_of_outstanding hn hout).2
        apply hallowed
        rw [hpc]
        simp [Pc.abandonsRead, hlimit, hread]
      · exact .inr hsettled.calm
    · intro hzero
      cases hzero
  · rw [if_neg hlimit]
    by_cases hsame : s.mem.usedIdx = s.lastUsed
    · rw [if_neg (not_not.mpr hsame)]
      have e : SameDevice s { s with pc := .poll call (spins + 1) } := ⟨rfl, rfl, rfl, rfl, rfl, rfl⟩
      refine { h with place := ⟨hn, ?_⟩ }
      rcases hrequest with hout | hsettled
      · exact .inl (hout.same e)
      · exact .inr (hsettled.same e)
    · rw [if_pos hsame]
      rcases hrequest with hout | hsettled
      · exact absurd (h.usedIdx_of_outstanding hn hout).1 hsame
      · exact { h with place := ⟨hn, hsettled.same ⟨rfl, rfl, rfl, rfl, rfl, rfl⟩⟩ }

theorem Inv.take (h : Inv last s) (hpc : s.pc = .take call) :
    Inv s.submitted { s with pc := .finish call, lastUsed := s.mem.usedIdx } := by
  obtain ⟨hn, hsettled⟩ := h.at_pc hpc
  exact { h with
    lastUsed := by
      rw [h.usedIdx, hsettled.calm.completed]
    place := ⟨rfl, by change 0 < s.submitted; omega, hsettled.same ⟨rfl, rfl, rfl, rfl, rfl, rfl⟩⟩ }

theorem Inv.finish (h : Inv last s) (hpc : s.pc = .finish call) :
    Inv last (s.ret call (if s.mem.status = blkSOk then 0 else -3)) := by
  obtain ⟨hn, -, hcalm, status, hget, hs⟩ := h.at_pc hpc
  apply h.ret (.inl ⟨hn, hcalm⟩)
  intro hzero
  by_cases hok : s.mem.status = blkSOk
  · have hstatus := hs.byte.symm.trans hok
    exact ⟨hstatus ▸ hget, hs.data hstatus⟩
  · rw [if_neg hok] at hzero
    cases hzero

theorem Inv.drive (h : Inv last s) (hallowed : Allowed s .drive) : ∃ last', Inv last' s.drive := by
  cases hpc : s.pc with
  | idle result => exact ⟨last, by simpa only [Machine.drive, hpc] using h⟩
  | setup call stores =>
    cases stores with
    | nil => exact ⟨last, by simpa only [Machine.drive, hpc] using h.submit hpc⟩
    | cons store stores => exact ⟨last, by simpa only [Machine.drive, hpc] using h.setup hpc⟩
  | poll call spins => exact ⟨last, h.poll hpc hallowed⟩
  | take call => exact ⟨s.submitted, by simpa only [Machine.drive, hpc] using h.take hpc⟩
  | finish call => exact ⟨last, by simpa only [Machine.drive, hpc] using h.finish hpc⟩

theorem Inv.act (h : Inv last s) {act : Act} (hallowed : Allowed s act) :
    ∃ last', Inv last' (s.act act) := by
  cases act with
  | call call => exact ⟨last, h.begin hallowed⟩
  | fill buffer data => exact ⟨last, h.fill buffer data⟩
  | drive => exact h.drive hallowed
  | device act => exact ⟨last, h.device act⟩

theorem inv_run (h : Inv last s) {acts : List Act} (hl : Legal s acts) :
    ∃ last', Inv last' (s.run acts) := by
  induction acts generalizing s last with
  | nil => exact ⟨last, h⟩
  | cons act acts ih =>
    obtain ⟨last', h'⟩ := h.act hl.1
    exact ih h' hl.2

end Steps

/-- In every run whose calls start quietly and whose reads do not give up early. -/
theorem quiet_calls_conform (disk buffers : ℕ → Sector) (acts : List Act)
    (hl : Legal (.start disk buffers) acts) : Conforms ((Machine.start disk buffers).run acts) := by
  obtain ⟨last, h⟩ := inv_run (inv_start disk buffers) hl
  exact ⟨h.success, h.data, h.device_buffers⟩

def serve (status : UInt8) : List Act :=
  [.device .fetch, .device (.complete status), .device .publish]

def submitCall (call : Call) : List Act := .call call :: replicate 8 .drive

/-- Sector `n` of this disk is filled with the byte `n`. -/
def numberedDisk (n : ℕ) : Sector := fun _ => UInt8.ofNat n

theorem quiet_calls_conform_read :
    let acts := submitCall ⟨false, 7, 1⟩ ++ serve blkSOk ++ replicate 3 .drive
    let s := (Machine.start numberedDisk fun _ => Block.zero).run acts
    Legal (.start numberedDisk fun _ => Block.zero) acts ∧ Conforms s ∧
      s.returns.map (fun ret => (ret.result, ret.data.get 0)) = [(0, 7)] := by
  intro acts s
  have hl : Legal (.start numberedDisk fun _ => Block.zero) acts := by decide +kernel
  exact ⟨hl, quiet_calls_conform _ _ acts hl, by decide +kernel⟩

theorem run_append (s : Machine) (acts more : List Act) :
    s.run (acts ++ more) = (s.run acts).run more := foldl_append

theorem run_polls (call : Call) (n spins : ℕ) {s : Machine} (hpc : s.pc = .poll call spins)
    (hsame : s.mem.usedIdx = s.lastUsed) (hn : spins + n ≤ pollLimit) :
    s.run (replicate n .drive) = { s with pc := .poll call (spins + n) } := by
  induction n generalizing s spins with
  | zero =>
    rw [Nat.add_zero, ← hpc]
    rfl
  | succ n ih =>
    have hdrive : s.drive = { s with pc := .poll call (spins + 1) } := by
      unfold Machine.drive
      simp only [hpc]
      rw [if_neg (by omega), if_neg (not_not.mpr hsame)]
    have hrest := ih (spins + 1) (s := { s with pc := .poll call (spins + 1) }) rfl hsame (by omega)
    rw [show spins + 1 + n = spins + (n + 1) by omega] at hrest
    change s.drive.run (replicate n .drive) = _
    rw [hdrive, hrest]

/-- The write of sector 1 gives up while the device works on it. The device completes it during the
read of sector 7 that follows. -/
def lateWrite : List Act := submitCall ⟨true, 1, 0⟩ ++ [.device .fetch]

def lateRead : List Act :=
  .drive :: submitCall ⟨false, 7, 1⟩ ++ [.device (.complete blkSOk), .device .publish] ++
    replicate 3 .drive

/-- The read returns success with the completion of the write: its own request, number 1, is not
completed, and its buffer has not got the sector. The device writes the buffer when the call has
returned. -/
theorem late_completion_ends_next_call :
    let s := (Machine.start numberedDisk fun _ => Block.zero).run
      (lateWrite ++ replicate pollLimit .drive ++ lateRead)
    s.returns.map (fun ret => (ret.result, ret.number, ret.data.get 0, ret.onDisk.get 0)) =
        [(-2, 0, 0, 1), (0, 1, 0, 7)] ∧
      s.completions = [⟨blkTOut, 1, .buffer 0, blkSOk⟩] ∧ s.reading = none ∧
      ((s.fetch.device (.complete blkSOk)).mem.buffers 1).get 0 = 7 ∧
      (s.fetch.mem.buffers 1).get 0 = 0 := by
  have hpolls := run_polls ⟨true, 1, 0⟩ pollLimit 0
    (s := (Machine.start numberedDisk fun _ => Block.zero).run lateWrite) rfl rfl (by omega)
  rw [run_append, run_append, hpolls]
  decide +kernel

end VirtioBlk
