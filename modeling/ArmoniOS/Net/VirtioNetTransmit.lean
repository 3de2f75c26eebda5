import ArmoniOS.Net.VirtioNet

/-!
The transmit queue of the network driver, with its one buffer: at most one descriptor is submitted
and not reclaimed, also when sends time out.
-/
namespace VirtioNet

open IndexRing

/-- The driver has submitted the descriptor and not set `g_tx_pending` yet. -/
def Pc.marking : Pc → Bool
  | .sendMark => true
  | _ => false

/-- What a send knows at each of its accesses: behind a used index that showed a completion, and
while it fills the buffer and submits it. -/
def TxAt (tx : Tx) (completed last : ℕ) : Pc → Prop
  | .sendTake _ | .sendPollTake => last < completed
  | .sendFill _ _ | .sendDesc _ | .sendRing | .sendIdx | .sendMark => tx.pending = false
  | _ => True

/-- After `last` reclaimed descriptors at most one more is submitted, and then `g_tx_pending` says
so. -/
structure TxInv (pc : Pc) (tx : Tx) (submitted completed last : ℕ) : Prop where
  availIdx : tx.availIdx = word submitted
  usedIdx : tx.usedIdx = word completed
  lastUsed : tx.lastUsed = word last
  last_le : last ≤ completed
  completed_le : completed ≤ submitted
  submitted_eq : submitted = last + (if tx.pending || pc.marking then 1 else 0)
  place : TxAt tx completed last pc

section Tx
variable {pc : Pc} {tx : Tx} {submitted completed last : ℕ}

section
variable (h : TxInv pc tx submitted completed last)
include h

theorem TxInv.bound : submitted ≤ last + 1 := by
  have := h.submitted_eq
  split_ifs at this <;> omega

theorem TxInv.owned_iff : tx.Owned ↔ completed < submitted := by
  have hbound := h.bound
  have hlast := h.last_le
  have hle := h.completed_le
  unfold Tx.Owned
  rw [h.usedIdx, h.availIdx, ne_eq, word_eq_iff hle (by omega)]
  omega

theorem TxInv.completion_iff : tx.usedIdx ≠ tx.lastUsed ↔ last < completed := by
  have hbound := h.bound
  have hlast := h.last_le
  have hle := h.completed_le
  rw [h.usedIdx, h.lastUsed, ne_comm, ne_eq, word_eq_iff hlast (by omega)]
  omega

theorem TxInv.not_owned (hp : tx.pending = false) (hm : pc.marking = false) : ¬ tx.Owned := by
  have hlast := h.last_le
  have heq := h.submitted_eq
  rw [hp, hm] at heq
  rw [h.owned_iff]
  simp only [Bool.or_self, Bool.false_eq_true, if_false] at heq
  omega

theorem TxInv.device (act : DeviceAct) :
    ∃ completed', TxInv pc (tx.device act) submitted completed' last := by
  cases act with
  | transmit =>
    unfold Tx.device
    split_ifs with howned
    · rw [h.owned_iff] at howned
      have hlast := h.last_le
      have hplace := h.place
      exact ⟨completed + 1, { h with
        usedIdx := by dsimp only; rw [h.usedIdx, word_succ]
        last_le := by omega
        completed_le := howned
        place := by
          cases pc with
          | sendTake _ => exact Nat.lt_succ_of_lt hplace
          | sendPollTake => exact Nat.lt_succ_of_lt hplace
          | _ => exact hplace }⟩
    · exact ⟨completed, h⟩
  | _ => exact ⟨completed, h⟩

theorem TxInv.move {pc' : Pc} (hm : pc'.marking = pc.marking) (hat : TxAt tx completed last pc') :
    TxInv pc' tx submitted completed last :=
  { h with submitted_eq := hm ▸ h.submitted_eq, place := hat }

theorem TxInv.reclaim {pc' : Pc} (hlast : last < completed) (hm : pc'.marking = false)
    (hat : TxAt { tx with lastUsed := tx.usedIdx, pending := false } completed completed pc') :
    TxInv pc' { tx with lastUsed := tx.usedIdx, pending := false } submitted completed
      completed where
  availIdx := h.availIdx
  usedIdx := h.usedIdx
  lastUsed := h.usedIdx
  last_le := le_rfl
  completed_le := h.completed_le
  submitted_eq := by
    have hbound := h.bound
    have hle := h.completed_le
    simp only [hm, Bool.or_self, Bool.false_eq_true, if_false]
    omega
  place := hat

end

theorem TxInv.submit (h : TxInv .sendIdx tx submitted completed last) :
    TxInv .sendMark { tx with availIdx := tx.availIdx + 1 } (submitted + 1) completed last where
  availIdx := by
    rw [h.availIdx, word_succ]
  usedIdx := h.usedIdx
  lastUsed := h.lastUsed
  last_le := h.last_le
  completed_le := h.completed_le.trans (Nat.le_succ _)
  submitted_eq := by
    have heq := h.submitted_eq
    rw [show tx.pending = false from h.place] at heq
    simp only [Pc.marking, Bool.or_true, if_true]
    simp only [Pc.marking, Bool.or_self, Bool.false_eq_true, if_false] at heq
    omega
  place := h.place

theorem TxInv.step (h : TxInv pc tx submitted completed last) :
    ∃ submitted' last', TxInv (tx.step pc).1 (tx.step pc).2 submitted' completed last' := by
  cases pc with
  | sendReclaim data =>
    refine ⟨submitted, last, ?_⟩
    change TxInv (if tx.usedIdx ≠ tx.lastUsed then .sendTake data else .sendTest data) tx _ _ _
    split_ifs with hne
    · exact h.move rfl (h.completion_iff.mp hne)
    · exact h.move rfl trivial
  | sendTake data => exact ⟨submitted, completed, h.reclaim h.place rfl trivial⟩
  | sendTest data =>
    refine ⟨submitted, last, ?_⟩
    change TxInv (if tx.pending then .idle (-2) else .sendFill data 0) tx _ _ _
    split_ifs with hpending
    · exact h.move rfl trivial
    · exact h.move rfl (Bool.eq_false_iff.mpr hpending)
  | sendFill data pos =>
    refine ⟨submitted, last, ?_⟩
    by_cases hmore : pos < hdrSize + data.length
    · simp only [Tx.step, if_pos hmore]
      exact { h with place := h.place }
    · simp only [Tx.step, if_neg hmore]
      exact h.move rfl h.place
  | sendDesc data => exact ⟨submitted, last, { h with place := h.place }⟩
  | sendRing => exact ⟨submitted, last, { h with place := h.place }⟩
  | sendIdx => exact ⟨submitted + 1, last, h.submit⟩
  | sendMark =>
    have heq := h.submitted_eq
    rw [show tx.pending = false from h.place] at heq
    exact ⟨submitted, last, { h with submitted_eq := heq, place := trivial }⟩
  | sendPoll spins =>
    refine ⟨submitted, last, ?_⟩
    change TxInv (if pollLimit ≤ spins then .idle (-2)
      else if tx.usedIdx ≠ tx.lastUsed then .sendPollTake else .sendPoll (spins + 1)) tx _ _ _
    split_ifs with hlimit hne
    · exact h.move rfl trivial
    · exact h.move rfl (h.completion_iff.mp hne)
    · exact h.move rfl trivial
  | sendPollTake => exact ⟨submitted, completed, h.reclaim h.place rfl trivial⟩
  | _ => exact ⟨submitted, last, h⟩

end Tx

end VirtioNet
