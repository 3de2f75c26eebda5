import ArmoniOS.Net.VirtioNetReceive
import ArmoniOS.Net.VirtioNetTransmit

/-!
The two queues together, in every interleaving of device steps with receives and sends: no frame and
no receive descriptor is lost or duplicated, and the transmit buffer is left alone while the device
owns it.
-/
namespace VirtioNet

open IndexRing List

/-! ### Runs -/

structure Inv (s : Machine) : Prop where
  rx : ∃ offered taken used, RxInv s.pc s.rx offered taken used
  tx : ∃ submitted completed last, TxInv s.pc s.tx submitted completed last

theorem inv_start (rxBuf : ℕ → ℕ → UInt8) (txBuf : ℕ → UInt8) : Inv (.start rxBuf txBuf) :=
  ⟨⟨_, _, _, rxInv_start rxBuf txBuf⟩, ⟨0, 0, 0, rfl, rfl, rfl, le_rfl, le_rfl, rfl, trivial⟩⟩

variable {pc : Pc} {offered : List ℕ} {taken : ℕ} {used : List (ℕ × ℕ)}

section Run
variable {s : Machine}

def Pc.OutsideRecv (pc : Pc) : Prop := pc.sending = true ∨ ∃ result, pc = .idle result

theorem Tx.step_outsideRecv (tx : Tx) (h : pc.sending = true) : (tx.step pc).1.OutsideRecv := by
  cases pc with
  | sendTest data =>
    change Pc.OutsideRecv (if tx.pending then .idle (-2) else .sendFill data 0)
    split_ifs
    · exact .inr ⟨_, rfl⟩
    · exact .inl rfl
  | sendReclaim data =>
    change Pc.OutsideRecv (if tx.usedIdx ≠ tx.lastUsed then .sendTake data else .sendTest data)
    split_ifs <;> exact .inl rfl
  | sendFill data pos =>
    by_cases hmore : pos < hdrSize + data.length
    · simp only [Tx.step, if_pos hmore]
      exact .inl rfl
    · simp only [Tx.step, if_neg hmore]
      exact .inl rfl
  | sendPoll spins =>
    change Pc.OutsideRecv (if pollLimit ≤ spins then .idle (-2)
      else if tx.usedIdx ≠ tx.lastUsed then .sendPollTake else .sendPoll (spins + 1))
    split_ifs
    · exact .inr ⟨_, rfl⟩
    · exact .inl rfl
    · exact .inl rfl
  | sendTake _ | sendDesc _ | sendRing | sendIdx | sendMark => exact .inl rfl
  | sendPollTake => exact .inr ⟨_, rfl⟩
  | _ => cases h

theorem Rx.step_not_sending (rx : Rx) (h : pc.sending = false) :
    (rx.step pc).1.sending = false := by
  cases pc with
  | recvCheck maxLen =>
    change Pc.sending (if rx.usedIdx = rx.lastUsed then .idle 0 else .recvId maxLen) = false
    split_ifs <;> rfl
  | recvId maxLen =>
    change Pc.sending (if queueSize ≤ (rx.usedRing rx.slot).1 % 2 ^ 16 then .recvSkip
      else .recvLen maxLen ((rx.usedRing rx.slot).1 % 2 ^ 16)) = false
    split_ifs <;> rfl
  | recvCopy maxLen desc copyLen copied =>
    change Pc.sending (if copied.length < copyLen then .recvCopy maxLen desc copyLen
      (copied ++ [rx.buf desc (hdrSize + copied.length)]) else .recvDesc maxLen desc copied) = false
    split_ifs <;> rfl
  | _ => first | rfl | cases h

theorem RxInv.elsewhere {pc' : Pc} {rx : Rx} (h : RxInv pc rx offered taken used)
    (hpc : pc.OutsideRecv) (hpc' : pc'.OutsideRecv) : RxInv pc' rx offered taken used := by
  have hout {pc : Pc} (hpc : pc.OutsideRecv) : pc.back = 0 ∧ pc.ringed = false ∧ At rx used pc := by
    rcases hpc with hs | ⟨result, rfl⟩
    · cases pc <;> first | exact ⟨rfl, rfl, trivial⟩ | cases hs
    · exact ⟨rfl, rfl, trivial⟩
  obtain ⟨hback, hringed, -⟩ := hout hpc
  obtain ⟨hback', hringed', hat⟩ := hout hpc'
  exact h.move (hback'.trans hback.symm) (hringed'.trans hringed.symm) hat

theorem TxInv.elsewhere {pc' : Pc} {tx : Tx} {submitted completed last : ℕ}
    (h : TxInv pc tx submitted completed last) (hpc : pc.sending = false)
    (hpc' : pc'.sending = false) : TxInv pc' tx submitted completed last := by
  have hout {pc : Pc} (hpc : pc.sending = false) :
      pc.marking = false ∧ TxAt tx completed last pc := by
    cases pc <;> first | exact ⟨rfl, trivial⟩ | cases hpc
  obtain ⟨hmark, -⟩ := hout hpc
  obtain ⟨hmark', hat⟩ := hout hpc'
  exact h.move (hmark'.trans hmark.symm) hat

theorem Inv.drive (h : Inv s) : Inv s.drive := by
  obtain ⟨offered, taken, used, hrx⟩ := h.rx
  obtain ⟨submitted, completed, last, htx⟩ := h.tx
  unfold Machine.drive
  split_ifs with hs
  · obtain ⟨submitted', last', htx'⟩ := htx.step
    have hrx' := hrx.elsewhere (.inl hs) (s.tx.step_outsideRecv hs)
    exact ⟨⟨offered, taken, used, hrx'⟩, ⟨submitted', completed, last', htx'⟩⟩
  · rw [Bool.not_eq_true] at hs
    obtain ⟨offered', hrx'⟩ := hrx.step
    have htx' := htx.elsewhere hs (s.rx.step_not_sending hs)
    exact ⟨⟨offered', taken, used, hrx'⟩, ⟨submitted, completed, last, htx'⟩⟩

theorem Inv.call (h : Inv s) (call : Call) : Inv (s.call call) := by
  obtain ⟨offered, taken, used, hrx⟩ := h.rx
  obtain ⟨submitted, completed, last, htx⟩ := h.tx
  unfold Machine.call
  split
  · rename_i result hpc
    rw [hpc] at hrx htx
    cases call with
    | recv maxLen =>
      exact ⟨⟨offered, taken, used, hrx.move rfl rfl trivial⟩,
        ⟨submitted, completed, last, htx.elsewhere rfl rfl⟩⟩
    | send data =>
      dsimp only
      split_ifs
      · exact ⟨⟨offered, taken, used, hrx.move rfl rfl trivial⟩,
          ⟨submitted, completed, last, htx.move rfl trivial⟩⟩
      · exact ⟨⟨offered, taken, used, hrx.move rfl rfl trivial⟩,
          ⟨submitted, completed, last, htx.move rfl trivial⟩⟩
  · exact h

theorem Inv.act (h : Inv s) (act : Act) : Inv (s.act act) := by
  cases act with
  | call call => exact h.call call
  | drive => exact h.drive
  | device act =>
    obtain ⟨offered, taken, used, hrx⟩ := h.rx
    obtain ⟨submitted, completed, last, htx⟩ := h.tx
    obtain ⟨taken', used', hrx'⟩ := hrx.device act
    obtain ⟨completed', htx'⟩ := htx.device act
    exact ⟨⟨offered, taken', used', hrx'⟩, ⟨submitted, completed', last, htx'⟩⟩

theorem inv_run (h : Inv s) (acts : List Act) : Inv (s.run acts) := by
  induction acts generalizing s with
  | nil => exact h
  | cons act acts ih => exact ih (h.act act)

end Run

/-! ### What the rings show -/

theorem range_map_congr {α : Type} {f g : ℕ → α} {n : ℕ} (h : ∀ i < n, f i = g i) :
    (range n).map f = (range n).map g :=
  map_congr_left fun i hi => h i (mem_range.mp hi)

theorem word_add_slot (n i : ℕ) : ((word n).toNat + i) % queueSize = (n + i) % queueSize := by
  rw [Nat.add_mod, word_slot, ← Nat.add_mod]

theorem RxInv.available_eq {rx : Rx} (h : RxInv pc rx offered taken used) :
    rx.available = offered.drop taken := by
  have hroom := h.offered_room
  have hle := h.taken_le
  unfold Rx.available
  rw [h.availIdx, h.takenIdx, word_sub hle (by split_ifs at hroom <;> omega),
    ← h.availRing.read hle hroom]
  apply range_map_congr
  intro i _
  rw [word_add_slot]

section
variable {s : Machine} (h : RxInv s.pc s.rx offered taken used)
include h

theorem RxInv.readIdx_eq : s.readIdx = word (s.rx.returned.length + s.pc.back) := by
  have hlast := h.lastUsed
  unfold Machine.readIdx
  cases s.pc with
  | recvLast _ _ =>
    dsimp only [Pc.back]
    rw [hlast, word_succ]
  | _ => exact hlast

theorem RxInv.unread_eq :
    s.unread = (used.drop (s.rx.returned.length + s.pc.back)).map Prod.fst := by
  have hroom := h.used_room
  have hle := h.read_le
  unfold Machine.unread
  rw [h.readIdx_eq, h.usedIdx, word_sub hle (by split_ifs at hroom <;> omega),
    ← h.usedRing.read hle hroom, map_map]
  apply range_map_congr
  intro i _
  rw [word_add_slot]
  rfl

end

/-! ### A receive that finds a frame returns it -/

def Pc.left : Pc → ℕ
  | .recvId _ => frameSize + 8
  | .recvLen _ _ => frameSize + 7
  | .recvCopy _ _ copyLen copied => copyLen - copied.length + 5
  | .recvDesc _ _ _ => 4
  | .recvRing _ _ _ => 3
  | .recvIdx _ _ _ => 2
  | .recvLast _ _ => 1
  | _ => 0

/-- A step of such a receive: nearer to the end, or the end with one more frame returned. -/
def Nearer (s s' : Machine) : Prop :=
  (0 < s'.pc.left ∧ s'.pc.left < s.pc.left ∧ s'.rx.returned.length = s.rx.returned.length) ∨
    ((∃ result, s'.pc = .idle result) ∧ s'.rx.returned.length = s.rx.returned.length + 1)

theorem drive_of_not_sending (rx : Rx) (tx : Tx) (h : pc.sending = false) :
    Machine.drive ⟨pc, rx, tx⟩ = ⟨(rx.step pc).1, (rx.step pc).2, tx⟩ := by
  unfold Machine.drive
  rw [h]
  rfl

variable {s : Machine}

theorem Inv.nearer (h : Inv s) (hleft : 0 < s.pc.left) : Nearer s s.drive := by
  obtain ⟨offered, taken, used, hrx⟩ := h.rx
  obtain ⟨pc, rx, tx⟩ := s
  cases pc with
  | recvId maxLen =>
    have hplace := hrx.readId.place
    have hstep : rx.step (.recvId maxLen) =
        (if queueSize ≤ (rx.usedRing rx.slot).1 % 2 ^ 16 then .recvSkip
          else .recvLen maxLen ((rx.usedRing rx.slot).1 % 2 ^ 16), rx) := rfl
    rw [drive_of_not_sending rx tx rfl]
    rw [hstep] at hplace ⊢
    by_cases hbad : queueSize ≤ (rx.usedRing rx.slot).1 % 2 ^ 16
    · rw [if_pos hbad] at hplace
      exact hplace.elim
    · rw [if_neg hbad]
      exact .inl ⟨Nat.succ_pos _, Nat.lt_succ_self _, rfl⟩
  | recvLen maxLen desc =>
    have hle : copyLength (rx.usedRing rx.slot).2 maxLen ≤ frameSize := by
      rw [copyLength_eq]
      exact min_le_left _ _
    refine .inl ⟨Nat.succ_pos _, ?_, rfl⟩
    change copyLength (rx.usedRing rx.slot).2 maxLen - 0 + 5 < frameSize + 7
    omega
  | recvCopy maxLen desc copyLen copied =>
    have hstep : rx.step (.recvCopy maxLen desc copyLen copied) =
        (if copied.length < copyLen then .recvCopy maxLen desc copyLen
          (copied ++ [rx.buf desc (hdrSize + copied.length)]) else .recvDesc maxLen desc copied,
        rx) := rfl
    rw [drive_of_not_sending rx tx rfl, hstep]
    left
    split_ifs with hmore
    · refine ⟨Nat.succ_pos _, ?_, rfl⟩
      change copyLen - (copied ++ [_]).length + 5 < copyLen - copied.length + 5
      rw [length_append, length_singleton]
      omega
    · refine ⟨Nat.succ_pos _, ?_, rfl⟩
      change 4 < copyLen - copied.length + 5
      omega
  | recvDesc maxLen desc copied => exact .inl ⟨Nat.succ_pos _, Nat.lt_succ_self _, rfl⟩
  | recvRing maxLen desc copied => exact .inl ⟨Nat.succ_pos _, Nat.lt_succ_self _, rfl⟩
  | recvIdx maxLen desc copied => exact .inl ⟨Nat.succ_pos _, Nat.lt_succ_self _, rfl⟩
  | recvLast maxLen copied => exact .inr ⟨⟨_, rfl⟩, length_append⟩
  | _ => cases hleft

theorem Inv.recv_ends (h : Inv s) (hleft : 0 < s.pc.left) :
    ∃ n result, (Machine.drive^[n] s).pc = .idle result ∧
      (Machine.drive^[n] s).rx.returned.length = s.rx.returned.length + 1 := by
  induction hn : s.pc.left using Nat.strong_induction_on generalizing s with
  | _ k ih =>
    rcases h.nearer hleft with ⟨hpos, hlt, hret⟩ | ⟨⟨result, hpc⟩, hret⟩
    · obtain ⟨n, result, hpc, hlen⟩ := ih _ (hn ▸ hlt) h.drive hpos rfl
      exact ⟨n + 1, result, hpc, hlen.trans (by rw [hret])⟩
    · exact ⟨1, result, hpc, hret⟩

/-! ### The queues -/

structure Conforms (s : Machine) : Prop where
  /-- The receives have returned an initial part of the frames that the device has written, each
  one once and in order, cut to the limit of the caller or of a frame. -/
  frames : List.Forall₂ Delivered (s.rx.written.take s.rx.returned.length) s.rx.returned
  delivers : ∀ result maxLen, s.pc = .idle result → s.rx.returned.length < s.rx.written.length →
    ∃ n result', (Machine.drive^[n] (s.call (.recv maxLen))).pc = .idle result' ∧
      (Machine.drive^[n] (s.call (.recv maxLen))).rx.returned.length = s.rx.returned.length + 1
  /-- The descriptors are shared out without loss and without duplicates. -/
  partition : (s.rx.available ++ s.rx.held ++ s.unread).Perm (range queueSize)
  /-- No step touches the transmit buffer or its descriptor while the device owns it. -/
  transmit : s.tx.Owned → ∀ act, (s.act act).tx.buf = s.tx.buf ∧ (s.act act).tx.desc = s.tx.desc

theorem Inv.delivers (h : Inv s) {result : ℤ} (maxLen : ℕ) (hidle : s.pc = .idle result)
    (hlt : s.rx.returned.length < s.rx.written.length) :
    ∃ n result', (Machine.drive^[n] (s.call (.recv maxLen))).pc = .idle result' ∧
      (Machine.drive^[n] (s.call (.recv maxLen))).rx.returned.length =
        s.rx.returned.length + 1 := by
  obtain ⟨offered, taken, used, hrx⟩ := h.rx
  have hne : ¬ s.rx.usedIdx = s.rx.lastUsed := by
    rw [hrx.usedIdx_eq_iff (by rw [hidle]; rfl)]
    omega
  have hcall : s.call (.recv maxLen) = { s with pc := .recvCheck maxLen } := by
    simp only [Machine.call, hidle]
  have hfirst : (s.call (.recv maxLen)).drive = { s with pc := .recvId maxLen } := by
    rw [hcall]
    simp [Machine.drive, Pc.sending, Rx.step, hne]
  have hinv := (h.call (.recv maxLen)).drive
  have hleft : 0 < (s.call (.recv maxLen)).drive.pc.left := by
    rw [hfirst]
    exact Nat.succ_pos _
  obtain ⟨n, result', hpc, hlen⟩ := hinv.recv_ends hleft
  refine ⟨n + 1, result', hpc, ?_⟩
  rw [Function.iterate_succ_apply, hlen, hfirst]

/-- The send steps that write the buffer or the descriptor are the ones with nothing pending. -/
theorem Inv.transmit (h : Inv s) (howned : s.tx.Owned) (act : Act) :
    (s.act act).tx.buf = s.tx.buf ∧ (s.act act).tx.desc = s.tx.desc := by
  obtain ⟨submitted, completed, last, htx⟩ := h.tx
  cases act with
  | call call =>
    change (s.call call).tx.buf = _ ∧ (s.call call).tx.desc = _
    unfold Machine.call
    cases s.pc with
    | idle _ => cases call <;> exact ⟨rfl, rfl⟩
    | _ => exact ⟨rfl, rfl⟩
  | device act =>
    cases act with
    | transmit =>
      change (s.tx.device .transmit).buf = _ ∧ (s.tx.device .transmit).desc = _
      unfold Tx.device
      rw [if_pos howned]
      exact ⟨rfl, rfl⟩
    | _ => exact ⟨rfl, rfl⟩
  | drive =>
    change s.drive.tx.buf = _ ∧ s.drive.tx.desc = _
    unfold Machine.drive
    split_ifs with hs
    · have hplace := htx.place
      have hfree := htx.not_owned
      cases hpc : s.pc with
      | sendFill data pos =>
        rw [hpc] at hplace hfree
        exact absurd howned (hfree hplace rfl)
      | sendDesc data =>
        rw [hpc] at hplace hfree
        exact absurd howned (hfree hplace rfl)
      | _ => exact ⟨rfl, rfl⟩
    · exact ⟨rfl, rfl⟩

/-- In every interleaving of device steps with receives and sends. -/
theorem queues_conform (rxBuf : ℕ → ℕ → UInt8) (txBuf : ℕ → UInt8) (acts : List Act) :
    Conforms ((Machine.start rxBuf txBuf).run acts) := by
  have h := inv_run (inv_start rxBuf txBuf) acts
  obtain ⟨offered, taken, used, hrx⟩ := h.rx
  constructor
  · exact hrx.frames
  · intro result maxLen hidle hlt
    exact h.delivers maxLen hidle hlt
  · rw [hrx.available_eq, hrx.unread_eq]
    exact hrx.parts
  · exact h.transmit

end VirtioNet
