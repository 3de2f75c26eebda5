import ArmoniOS.Net.VirtioNet

/-!
The receive queue of the network driver: an invariant that every step of a receive and of the device
keeps.

The rings are described by what has gone through them: the descriptors offered so far, how many of
them the device has taken, and the entries it has returned.
-/
namespace VirtioNet

open ByteBlock IndexRing Function List

/-! ### Three shares of the descriptors -/

def Parts (available held unread : List ℕ) : Prop :=
  (available ++ held ++ unread).Perm (range queueSize)

section Parts
variable {available held unread : List ℕ} {x : ℕ}

theorem Parts.take (h : Parts (x :: available) held unread) :
    Parts available (held ++ [x]) unread := by
  apply List.Perm.trans _ h
  rw [perm_iff_count]
  simp only [count_append, count_cons, count_nil]
  omega

theorem Parts.finish (h : Parts available held unread) (hx : x ∈ held) :
    Parts available (held.erase x) (unread ++ [x]) := by
  apply List.Perm.trans _ h
  have hheld := (perm_iff_count.mp (perm_cons_erase hx))
  rw [perm_iff_count]
  intro y
  have hy := hheld y
  simp only [count_append, count_cons, count_nil] at hy ⊢
  omega

theorem Parts.recycle (h : Parts available held (x :: unread)) :
    Parts (available ++ [x]) held unread := by
  apply List.Perm.trans _ h
  rw [perm_iff_count]
  simp only [count_append, count_cons, count_nil]
  omega

section
variable (h : Parts available held unread)
include h

theorem Parts.length : available.length + held.length + unread.length = queueSize := by
  have hlen := List.Perm.length_eq h
  simpa only [length_append, length_range] using hlen

theorem Parts.held_lt (hx : x ∈ held) : x < queueSize := by
  have hmem := (List.Perm.mem_iff h (a := x)).mp (by simp [hx])
  exact mem_range.mp hmem

theorem Parts.unread_lt (hx : x ∈ unread) : x < queueSize := by
  have hmem := (List.Perm.mem_iff h (a := x)).mp (by simp [hx])
  exact mem_range.mp hmem

theorem Parts.unread_notMem_held (hx : x ∈ unread) : x ∉ held := by
  have hnodup := (List.Perm.nodup_iff h).mpr nodup_range
  intro hh
  exact (nodup_append'.mp hnodup).2.2 (mem_append_right _ hh) hx

end

end Parts

/-! ### The receive queue -/

def Delivered (frame : List UInt8) (result : ℕ × List UInt8) : Prop :=
  result.2 = (frame.take result.1).take frameSize

theorem copyLength_eq (len maxLen : ℕ) :
    copyLength len maxLen = min frameSize (min maxLen (len - hdrSize)) := by
  unfold copyLength
  dsimp only
  split_ifs <;> omega

theorem window_take (f : ℕ → UInt8) (o k l : ℕ) : (window f o k).take l = window f o (min l k) := by
  apply ext_getElem
  · simp
  · simp [window]

/-- Descriptors handed back by the receive in progress and not counted in `last_used_idx`. -/
def Pc.back : Pc → ℕ
  | .recvLast _ _ => 1
  | _ => 0

/-- The slot of the available ring that is next in turn has been overwritten. -/
def Pc.ringed : Pc → Bool
  | .recvIdx _ _ _ => true
  | _ => false

def At (rx : Rx) (used : List (ℕ × ℕ)) : Pc → Prop
  | .recvId _ => rx.returned.length < used.length
  | .recvSkip => False
  | .recvLen _ desc => ∃ len, used[rx.returned.length]? = some (desc, len)
  | .recvCopy maxLen desc copyLen copied => ∃ len, used[rx.returned.length]? = some (desc, len) ∧
      copyLen = copyLength len maxLen ∧ copied.length ≤ copyLen ∧
      copied = window (rx.buf desc) hdrSize copied.length
  | .recvDesc maxLen desc copied | .recvRing maxLen desc copied =>
      ∃ len, used[rx.returned.length]? = some (desc, len) ∧
        copied = window (rx.buf desc) hdrSize (copyLength len maxLen)
  | .recvIdx maxLen desc copied => (∃ len, used[rx.returned.length]? = some (desc, len) ∧
      copied = window (rx.buf desc) hdrSize (copyLength len maxLen)) ∧
      rx.availRing (rx.availIdx.toNat % queueSize) = desc
  | .recvLast maxLen copied => ∃ frame, rx.written[rx.returned.length]? = some frame ∧
      Delivered frame (maxLen, copied)
  | _ => True

structure RxInv (pc : Pc) (rx : Rx) (offered : List ℕ) (taken : ℕ) (used : List (ℕ × ℕ)) :
    Prop where
  desc : ∀ i < queueSize, rx.desc i = rxDescriptor i
  availIdx : rx.availIdx = word offered.length
  takenIdx : rx.takenIdx = word taken
  usedIdx : rx.usedIdx = word used.length
  lastUsed : rx.lastUsed = word rx.returned.length
  taken_le : taken ≤ offered.length
  offered_length : offered.length = queueSize + (rx.returned.length + pc.back)
  written_length : rx.written.length = used.length
  read_le : rx.returned.length + pc.back ≤ used.length
  parts : Parts (offered.drop taken) rx.held
    ((used.drop (rx.returned.length + pc.back)).map Prod.fst)
  availRing : Recent queueSize (if pc.ringed then 15 else 16) rx.availRing offered
  usedRing : Recent queueSize (if rx.posted.isSome then 15 else 16) rx.usedRing used
  posted : ∀ e, rx.posted = some e →
    e.1 ∈ rx.held ∧ rx.usedRing (used.length % queueSize) = e
  contents : ∀ n e, used[n]? = some e → rx.returned.length + pc.back ≤ n →
    rx.written[n]? = some (payload (rx.buf e.1) e.2)
  frames : List.Forall₂ Delivered (rx.written.take rx.returned.length) rx.returned
  place : At rx used pc

theorem word_slot (n : ℕ) : (word n).toNat % queueSize = n % queueSize :=
  word_toNat_mod (by decide) n

variable {maxLen desc : ℕ} {copied : List UInt8}

section Rx
variable {pc : Pc} {rx : Rx} {offered : List ℕ} {taken : ℕ} {used : List (ℕ × ℕ)}

theorem rxInv_start (rxBuf : ℕ → ℕ → UInt8) (txBuf : ℕ → UInt8) :
    RxInv (Machine.start rxBuf txBuf).pc (Machine.start rxBuf txBuf).rx (range queueSize) 0 []
    where
  desc _ _ := rfl
  availIdx := rfl
  takenIdx := rfl
  usedIdx := rfl
  lastUsed := rfl
  taken_le := Nat.zero_le _
  offered_length := by simp [Machine.start, Pc.back]
  written_length := rfl
  read_le := le_rfl
  parts := by
    unfold Parts
    simp [Machine.start]
  availRing n v hn _ := by
    obtain ⟨hlt, rfl⟩ := List.getElem?_eq_some_iff.mp hn
    rw [length_range] at hlt
    rw [Nat.mod_eq_of_lt hlt]
    simp [Machine.start]
  usedRing n v hn _ := by simp at hn
  posted e he := by cases he
  contents n e hn _ := by simp at hn
  frames := List.Forall₂.nil
  place := trivial

section
variable (h : RxInv pc rx offered taken used)
include h

theorem RxInv.shares : offered.length - taken + rx.held.length +
      (used.length - (rx.returned.length + pc.back)) = queueSize := by
  have hlen := h.parts.length
  simpa only [length_drop, length_map] using hlen

theorem RxInv.unread {n : ℕ} {e : ℕ × ℕ} (hn : used[n]? = some e)
    (hle : rx.returned.length + pc.back ≤ n) : e.1 < queueSize ∧ e.1 ∉ rx.held := by
  have hmem : e.1 ∈ (used.drop (rx.returned.length + pc.back)).map Prod.fst := by
    apply mem_map_of_mem
    apply mem_of_getElem?
    rw [getElem?_drop, Nat.add_sub_cancel' hle]
    exact hn
  exact ⟨h.parts.unread_lt hmem, h.parts.unread_notMem_held hmem⟩

theorem RxInv.offered_room : offered.length ≤ taken + (if pc.ringed then 15 else 16) := by
  have hshares := h.shares
  have hplace := h.place
  unfold queueSize at hshares
  cases pc with
  | recvIdx maxLen desc copied =>
    obtain ⟨⟨len, hget, -⟩, -⟩ := hplace
    have hlt := (List.getElem?_eq_some_iff.mp hget).1
    simp only [Pc.ringed, if_true]
    simp only [Pc.back] at hshares
    omega
  | _ =>
    simp only [Pc.ringed, Bool.false_eq_true, if_false]
    omega

/-- The unread entries are all in the used ring, and it has room for one that is posted. -/
theorem RxInv.used_room :
    used.length ≤ rx.returned.length + pc.back + (if rx.posted.isSome then 15 else 16) := by
  have hshares := h.shares
  unfold queueSize at hshares
  cases hp : rx.posted with
  | none =>
    simp only [Option.isSome_none, Bool.false_eq_true, if_false]
    omega
  | some e =>
    have hheld := length_pos_of_mem (h.posted e hp).1
    simp only [Option.isSome_some, if_true]
    omega

end

theorem At.mono {rx' : Rx} {used' : List (ℕ × ℕ)} (h : At rx used pc)
    (hret : rx'.returned = rx.returned) (hring : rx'.availRing = rx.availRing)
    (hidx : rx'.availIdx = rx.availIdx) (hused : used <+: used')
    (hwritten : rx.written <+: rx'.written)
    (hbuf : pc.back = 0 → ∀ desc len, used[rx.returned.length]? = some (desc, len) →
      rx'.buf desc = rx.buf desc) : At rx' used' pc := by
  have hget {e : ℕ × ℕ} (he : used[rx.returned.length]? = some e) :
      used'[rx.returned.length]? = some e := by
    obtain ⟨rest, rfl⟩ := hused
    rw [List.getElem?_append_left (List.getElem?_eq_some_iff.mp he).1]
    exact he
  cases pc with
  | recvId maxLen =>
    change rx'.returned.length < used'.length
    rw [hret]
    exact h.trans_le hused.length_le
  | recvSkip => exact h
  | recvLen maxLen desc =>
    obtain ⟨len, he⟩ := h
    exact ⟨len, hret ▸ hget he⟩
  | recvCopy maxLen desc copyLen copied =>
    obtain ⟨len, he, hlen, hle, hcopied⟩ := h
    exact ⟨len, hret ▸ hget he, hlen, hle, by rw [hbuf rfl desc len he]; exact hcopied⟩
  | recvDesc maxLen desc copied =>
    obtain ⟨len, he, hcopied⟩ := h
    exact ⟨len, hret ▸ hget he, by rw [hbuf rfl desc len he]; exact hcopied⟩
  | recvRing maxLen desc copied =>
    obtain ⟨len, he, hcopied⟩ := h
    exact ⟨len, hret ▸ hget he, by rw [hbuf rfl desc len he]; exact hcopied⟩
  | recvIdx maxLen desc copied =>
    obtain ⟨⟨len, he, hcopied⟩, hslot⟩ := h
    refine ⟨⟨len, hret ▸ hget he, by rw [hbuf rfl desc len he]; exact hcopied⟩, ?_⟩
    rw [hring, hidx]
    exact hslot
  | recvLast maxLen copied =>
    obtain ⟨frame, hframe, hd⟩ := h
    refine ⟨frame, ?_, hd⟩
    obtain ⟨rest, hrest⟩ := hwritten
    rw [hret, ← hrest, List.getElem?_append_left (List.getElem?_eq_some_iff.mp hframe).1]
    exact hframe
  | _ => trivial

/-! #### Device steps -/

section
variable (h : RxInv pc rx offered taken used)
include h

theorem RxInv.take : ∃ taken', RxInv pc rx.take offered taken' used := by
  unfold Rx.take
  have hroom := h.offered_room
  have hle := h.taken_le
  split_ifs with heq
  · exact ⟨taken, h⟩
  rw [h.takenIdx, h.availIdx, word_eq_iff hle (by split_ifs at hroom <;> omega)] at heq
  have hlt : taken < offered.length := by omega
  have hslot : rx.availRing (rx.takenIdx.toNat % queueSize) = offered[taken] := by
    rw [h.takenIdx, word_slot]
    exact h.availRing taken _ (getElem?_eq_getElem hlt) hroom
  refine ⟨taken + 1, { h with
    takenIdx := by dsimp only; rw [h.takenIdx, word_succ]
    taken_le := hlt
    parts := ?_
    posted := ?_
    place := h.place.mono rfl rfl rfl (prefix_refl _) (prefix_refl _)
      fun _ _ _ _ => rfl }⟩
  · have hparts := h.parts
    rw [drop_eq_getElem_cons hlt] at hparts
    rw [hslot]
    exact hparts.take
  · intro e he
    obtain ⟨hheld, hused⟩ := h.posted e he
    exact ⟨mem_append_left _ hheld, hused⟩

theorem RxInv.write (desc pos : ℕ) (byte : UInt8) :
    RxInv pc (rx.write desc pos byte) offered taken used := by
  unfold Rx.write
  split_ifs with hguard
  · have hdesc := h.desc desc (h.parts.held_lt hguard.1)
    -- the buffers of unread frames are not the device's
    have hbuf {n : ℕ} {e : ℕ × ℕ} (hn : used[n]? = some e)
        (hle : rx.returned.length + pc.back ≤ n) :
        update rx.buf (rx.desc desc).addr
          (update (rx.buf (rx.desc desc).addr) pos byte) e.1 = rx.buf e.1 := by
      apply update_of_ne
      rw [hdesc]
      intro heq
      apply (h.unread hn hle).2
      rw [heq]
      exact hguard.1
    exact { h with
      contents := by
        intro n e hn hle
        dsimp only
        rw [hbuf hn hle]
        exact h.contents n e hn hle
      place := by
        refine h.place.mono rfl rfl rfl (prefix_refl _) (prefix_refl _) ?_
        intro hback d len he
        apply hbuf he
        omega }
  · exact h

theorem RxInv.post (desc len : ℕ) : RxInv pc (rx.post desc len) offered taken used := by
  unfold Rx.post
  split_ifs with hguard
  · obtain ⟨hnone, hheld, -⟩ := hguard
    have hslot : rx.usedIdx.toNat % queueSize = used.length % queueSize := by
      rw [h.usedIdx, word_slot]
    exact { h with
      usedRing := by
        have hring := h.usedRing
        rw [hnone] at hring
        rw [hslot]
        exact .overwrite (w := 15) (hring.narrow (by simp)) (by decide) _
      posted := by
        intro e he
        cases he
        dsimp only
        rw [hslot, update_self]
        exact ⟨hheld, rfl⟩
      place := h.place.mono rfl rfl rfl (prefix_refl _) (prefix_refl _)
        fun _ _ _ _ => rfl }
  · exact h

theorem RxInv.publish : ∃ used', RxInv pc rx.publish offered taken used' := by
  unfold Rx.publish
  cases hp : rx.posted with
  | none => exact ⟨used, h⟩
  | some e =>
    obtain ⟨desc, len⟩ := e
    obtain ⟨hheld, hslot⟩ := h.posted _ hp
    have hdesc := h.desc desc (h.parts.held_lt hheld)
    have hread := h.read_le
    have hlen := h.written_length
    refine ⟨used ++ [(desc, len)], { h with
      usedIdx := by
        rw [h.usedIdx, word_succ, length_append, length_singleton]
      written_length := by simp [h.written_length]
      read_le := by
        rw [length_append, length_singleton]
        dsimp only
        omega
      parts := ?_
      usedRing := ?_
      posted := fun e he => by cases he
      contents := ?_
      frames := ?_
      place := h.place.mono rfl rfl rfl (prefix_append _ _) (prefix_append _ _)
        fun _ _ _ _ => rfl }⟩
    · rw [drop_append_of_le_length hread, map_append]
      exact h.parts.finish hheld
    · have hring := h.usedRing
      rw [hp] at hring
      have hpub := hring.publish
      rw [hslot] at hpub
      exact hpub
    · intro n e hn hle
      rcases Nat.lt_or_ge n used.length with hlt | hge
      · rw [getElem?_append_left hlt] at hn
        rw [getElem?_append_left (by omega)]
        exact h.contents n e hn hle
      · have hn' := (List.getElem?_eq_some_iff.mp hn).1
        rw [length_append, length_singleton] at hn'
        have heq : n = used.length := by omega
        subst heq
        rw [getElem?_append_right le_rfl, Nat.sub_self] at hn
        cases hn
        rw [getElem?_append_right hlen.le, hlen, Nat.sub_self, hdesc]
        rfl
    · dsimp only
      rw [take_append_of_le_length (by omega)]
      exact h.frames

theorem RxInv.device (act : DeviceAct) :
    ∃ taken' used', RxInv pc (rx.device act) offered taken' used' := by
  cases act with
  | take =>
    obtain ⟨taken', h'⟩ := h.take
    exact ⟨taken', used, h'⟩
  | write desc pos byte => exact ⟨taken, used, h.write desc pos byte⟩
  | post desc len => exact ⟨taken, used, h.post desc len⟩
  | publish =>
    obtain ⟨used', h'⟩ := h.publish
    exact ⟨taken, used', h'⟩
  | transmit => exact ⟨taken, used, h⟩

end

/-! #### Driver steps -/

section
variable (h : RxInv pc rx offered taken used)
include h

theorem RxInv.move {pc' : Pc} (hback : pc'.back = pc.back) (hringed : pc'.ringed = pc.ringed)
    (hat : At rx used pc') : RxInv pc' rx offered taken used :=
  { h with
    offered_length := hback ▸ h.offered_length
    read_le := hback ▸ h.read_le
    parts := hback ▸ h.parts
    availRing := hringed ▸ h.availRing
    contents := hback ▸ h.contents
    place := hat }

theorem RxInv.usedIdx_eq_iff (hback : pc.back = 0) :
    rx.usedIdx = rx.lastUsed ↔ rx.returned.length = rx.written.length := by
  have hroom := h.used_room
  have hread := h.read_le
  rw [h.usedIdx, h.lastUsed, h.written_length, eq_comm,
    word_eq_iff (by omega) (by split_ifs at hroom <;> omega)]

theorem RxInv.entry (hback : pc.back = 0) (hlt : rx.returned.length < used.length) :
    used[rx.returned.length]? = some (rx.usedRing rx.slot) := by
  have hroom := h.used_room
  have hget := getElem?_eq_getElem hlt
  unfold Rx.slot
  rw [h.lastUsed, word_slot, h.usedRing _ _ hget (by omega)]
  exact hget

end

theorem RxInv.check (h : RxInv (.recvCheck maxLen) rx offered taken used) :
    RxInv (rx.step (.recvCheck maxLen)).1 rx offered taken used := by
  have hiff := h.usedIdx_eq_iff rfl
  have hread := h.read_le
  have hlen := h.written_length
  change RxInv (if rx.usedIdx = rx.lastUsed then .idle 0 else .recvId maxLen) rx _ _ _
  split_ifs with heq
  · exact h.move rfl rfl trivial
  · refine h.move rfl rfl ?_
    have hne : rx.returned.length ≠ rx.written.length := fun h' => heq (hiff.mpr h')
    change rx.returned.length < used.length
    omega

theorem RxInv.readId (h : RxInv (.recvId maxLen) rx offered taken used) :
    RxInv (rx.step (.recvId maxLen)).1 rx offered taken used := by
  have hget := h.entry rfl h.place
  have hlt := (h.unread hget (by simp [Pc.back])).1
  have hmod : (rx.usedRing rx.slot).1 % 2 ^ 16 = (rx.usedRing rx.slot).1 :=
    Nat.mod_eq_of_lt (by unfold queueSize at hlt; omega)
  change RxInv (if queueSize ≤ (rx.usedRing rx.slot).1 % 2 ^ 16 then .recvSkip
    else .recvLen maxLen ((rx.usedRing rx.slot).1 % 2 ^ 16)) rx _ _ _
  rw [hmod, if_neg (by omega)]
  exact h.move rfl rfl ⟨_, hget⟩

theorem RxInv.readLen (h : RxInv (.recvLen maxLen desc) rx offered taken used) :
    RxInv (rx.step (.recvLen maxLen desc)).1 rx offered taken used := by
  obtain ⟨len, hget⟩ := h.place
  have hentry := h.entry rfl (List.getElem?_eq_some_iff.mp hget).1
  rw [hget, Option.some.injEq] at hentry
  refine h.move rfl rfl ?_
  refine ⟨len, hget, ?_, Nat.zero_le _, rfl⟩
  rw [← hentry]

theorem RxInv.copy {copyLen : ℕ}
    (h : RxInv (.recvCopy maxLen desc copyLen copied) rx offered taken used) :
    RxInv (rx.step (.recvCopy maxLen desc copyLen copied)).1 rx offered taken used := by
  obtain ⟨len, hget, hlen, hle, hcopied⟩ := h.place
  change RxInv (if copied.length < copyLen then .recvCopy maxLen desc copyLen
    (copied ++ [rx.buf desc (hdrSize + copied.length)]) else .recvDesc maxLen desc copied) rx _ _ _
  split_ifs with hmore
  · refine h.move rfl rfl ?_
    refine ⟨len, hget, hlen, by simp; omega, ?_⟩
    rw [length_append, length_singleton, window_add, ← hcopied]
    rfl
  · refine h.move rfl rfl ?_
    refine ⟨len, hget, ?_⟩
    rw [← hlen, ← show copied.length = copyLen by omega]
    exact hcopied

theorem RxInv.rewriteDesc (h : RxInv (.recvDesc maxLen desc copied) rx offered taken used) :
    RxInv (.recvRing maxLen desc copied)
      { rx with desc := update rx.desc desc (rxDescriptor desc) } offered taken used := by
  have hmoved := h.move rfl rfl h.place
  exact { hmoved with
    desc := by
      intro i hi
      dsimp only
      rw [update_apply]
      split_ifs with heq
      · rw [heq]
      · exact h.desc i hi
    place := h.place }

theorem RxInv.ring (h : RxInv (.recvRing maxLen desc copied) rx offered taken used) :
    RxInv (.recvIdx maxLen desc copied)
      { rx with availRing := update rx.availRing (rx.availIdx.toNat % queueSize) desc }
      offered taken used := by
  have hslot : rx.availIdx.toNat % queueSize = offered.length % queueSize := by
    rw [h.availIdx, word_slot]
  exact { h with
    availRing := by
      rw [hslot]
      exact .overwrite (w := 15) (h.availRing.narrow (by simp [Pc.ringed])) (by decide) _
    place := by
      refine ⟨h.place, ?_⟩
      exact update_self .. }

theorem RxInv.handBack (h : RxInv (.recvIdx maxLen desc copied) rx offered taken used) :
    RxInv (.recvLast maxLen copied) { rx with availIdx := rx.availIdx + 1 } (offered ++ [desc])
      taken used := by
  obtain ⟨⟨len, hget, hcopied⟩, hslot⟩ := h.place
  have hlt := (List.getElem?_eq_some_iff.mp hget).1
  have hlen := h.offered_length
  rw [h.availIdx, word_slot] at hslot
  exact { h with
    availIdx := by
      rw [h.availIdx, word_succ, length_append, length_singleton]
    taken_le := by
      rw [length_append]
      exact h.taken_le.trans (Nat.le_add_right _ _)
    offered_length := by
      rw [length_append, length_singleton, hlen]
      rfl
    read_le := hlt
    parts := by
      have hparts := h.parts
      simp only [Pc.back, Nat.add_zero] at hparts
      obtain ⟨hlt', heq⟩ := List.getElem?_eq_some_iff.mp hget
      rw [drop_eq_getElem_cons hlt', heq, map_cons] at hparts
      rw [drop_append_of_le_length h.taken_le]
      exact hparts.recycle
    availRing := by
      have hpub := h.availRing.publish
      rw [hslot] at hpub
      exact hpub
    contents := by
      intro n e hn hle
      simp only [Pc.back] at hle
      exact h.contents n e hn (by simp only [Pc.back]; omega)
    place := by
      refine ⟨_, h.contents _ _ hget (by simp [Pc.back]), ?_⟩
      unfold Delivered payload
      rw [hcopied, window_take, window_take, copyLength_eq] }

theorem RxInv.return (h : RxInv (.recvLast maxLen copied) rx offered taken used) :
    RxInv (.idle copied.length) { rx with
        lastUsed := rx.lastUsed + 1
        returned := rx.returned ++ [(maxLen, copied)] } offered taken used := by
  obtain ⟨frame, hframe, hdelivered⟩ := h.place
  have hcount : (rx.returned ++ [(maxLen, copied)]).length + Pc.back (.idle copied.length) =
      rx.returned.length + Pc.back (.recvLast maxLen copied) := by
    simp [Pc.back]
  exact {
      desc := h.desc
      availIdx := h.availIdx
      takenIdx := h.takenIdx
      usedIdx := h.usedIdx
      lastUsed := by
        rw [h.lastUsed, word_succ, length_append, length_singleton]
      taken_le := h.taken_le
      offered_length := hcount ▸ h.offered_length
      written_length := h.written_length
      read_le := hcount ▸ h.read_le
      parts := hcount ▸ h.parts
      availRing := h.availRing
      usedRing := h.usedRing
      posted := h.posted
      contents := hcount ▸ h.contents
      frames := by
        rw [length_append, length_singleton, take_add_one, hframe]
        exact rel_append h.frames (List.Forall₂.cons hdelivered List.Forall₂.nil)
      place := trivial }

theorem RxInv.step (h : RxInv pc rx offered taken used) :
    ∃ offered', RxInv (rx.step pc).1 (rx.step pc).2 offered' taken used := by
  cases pc with
  | recvCheck maxLen => exact ⟨offered, h.check⟩
  | recvId maxLen => exact ⟨offered, h.readId⟩
  | recvLen maxLen desc => exact ⟨offered, h.readLen⟩
  | recvCopy maxLen desc copyLen copied => exact ⟨offered, h.copy⟩
  | recvDesc maxLen desc copied => exact ⟨offered, h.rewriteDesc⟩
  | recvRing maxLen desc copied => exact ⟨offered, h.ring⟩
  | recvIdx maxLen desc copied => exact ⟨offered ++ [desc], h.handBack⟩
  | recvLast maxLen copied => exact ⟨offered, h.return⟩
  | recvSkip => exact h.place.elim
  | _ => exact ⟨offered, h⟩

end Rx

end VirtioNet
