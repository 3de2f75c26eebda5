import ArmoniOS.Usb.Hid

/-! When a key is released. The driver marks a key that is missing from a report and releases it if it
is still missing from the next one; the mark has to be taken back by every report that contains the
key, and a call that returns early does not get to all of them. -/
namespace Usb

open List

variable {i : Fin 6} {is : List (Fin 6)} {out : List KeyEvent} {e : KeyEvent}

variable {s : KeySlot} {modifiers : UInt8} {k : Fin 6}

section Pending
variable {dev : Keyboard} {report : KeyboardReport} {outLen : ℕ}

def Keyboard.Missing (dev : Keyboard) (report : KeyboardReport) : Prop :=
  ∀ i, (dev i).pending = true →
    (dev i).key ≠ hidKeyNone ∧ keyInReport report (dev i).key = false

/-- The release of the slot is pending and the key is missing again, so that an event is written. -/
def KeySlot.due (report : KeyboardReport) (s : KeySlot) : Bool :=
  s.key ≠ hidKeyNone ∧ keyInReport report s.key = false ∧ s.pending = true ∧ s.value ≠ 0

theorem Keyboard.missing_set {dev : Keyboard}
    (hs : s.pending = true → s.key ≠ hidKeyNone ∧ keyInReport report s.key = false)
    (h : ∀ j ≠ i, (dev j).pending = true → (dev j).key ≠ hidKeyNone ∧ keyInReport report (dev j).key = false) :
    (dev.set i s).Missing report := by
  intro j
  by_cases hj : j = i
  · subst hj
    simpa using hs
  · rw [Keyboard.set_of_ne hj]
    exact h j hj

theorem mem_release_cases (hpending : ¬ (dev i).pending = false)
    (hin : ¬ keyInReport report (dev i).key = true)
    (h : e ∈ out ++ (dev i).release ∨ ∃ j ∈ i :: is, (dev j).pending = true ∧ keyInReport report (dev j).key = false ∧ (dev j).key = e.usage) :
    e ∈ out ∨ ∃ j ∈ i :: is, (dev j).pending = true ∧ keyInReport report (dev j).key = false ∧
      (dev j).key = e.usage := by
  rcases h with h | hslot
  · rcases mem_append.mp h with hmem | hmem
    · exact .inl hmem
    · unfold KeySlot.release at hmem
      split_ifs at hmem with hv
      · rw [mem_singleton.mp hmem]
        exact .inr ⟨i, mem_cons_self, by simpa using hpending, by simpa using hin, rfl⟩
      · simp at hmem
  · exact .inr hslot

/-- A release comes from a slot whose release was pending and whose key is missing again. -/
theorem releaseKeys_mem (hnodup : is.Nodup) (h : e ∈ (releaseKeys report outLen is dev out).2.1) :
    e ∈ out ∨ ∃ i ∈ is, (dev i).pending = true ∧ keyInReport report (dev i).key = false ∧
      (dev i).key = e.usage := by
  induction is generalizing dev out with
  | nil => exact .inl h
  | cons i is ih =>
    obtain ⟨hi, hnodup⟩ := nodup_cons.mp hnodup
    -- the later slots are as they were when the loop started
    have hrest (s : KeySlot) (out' : List KeyEvent)
        (h' : e ∈ (releaseKeys report outLen is (dev.set i s) out').2.1) :
        e ∈ out' ∨ ∃ j ∈ i :: is, (dev j).pending = true ∧
          keyInReport report (dev j).key = false ∧ (dev j).key = e.usage := by
      rcases ih hnodup h' with hmem | ⟨j, hj, hslot⟩
      · exact .inl hmem
      · have hji : j ≠ i := fun h => hi (h ▸ hj)
        rw [Keyboard.set_of_ne hji] at hslot
        exact .inr ⟨j, mem_cons_of_mem _ hj, hslot⟩
    have hself : dev = dev.set i (dev i) := by simp [Keyboard.set]
    unfold releaseKeys at h
    split_ifs at h with hkey hin hpending hret
    · rw [hself] at h
      exact hrest _ _ h
    · exact hrest _ _ h
    · exact hrest _ _ h
    · exact mem_release_cases hpending hin (.inl h)
    · exact mem_release_cases hpending hin (hrest _ _ h)

theorem pressKeys_mem {keys : List UInt8}
    (h : e ∈ (pressKeys modifiers outLen keys dev out).2) : e ∈ out ∨ e.pressed = true := by
  induction keys generalizing dev out with
  | nil => exact .inl h
  | cons cur rest ih =>
    have hpress {key : BitVec 32} (h : e ∈ out ++ [⟨cur, true, key⟩] ∨ e.pressed = true) :
        e ∈ out ∨ e.pressed = true := by
      rcases h with h | h
      · rcases mem_append.mp h with hmem | hmem
        · exact .inl hmem
        · exact .inr (by rw [mem_singleton.mp hmem])
      · exact .inr h
    unfold pressKeys at h
    by_cases hcur : cur = hidKeyNone
    · rw [if_pos hcur] at h
      exact ih h
    rw [if_neg hcur] at h
    cases hseen : keySlot dev cur with
    | some i =>
      rw [hseen] at h
      exact ih h
    | none =>
      cases hempty : emptyKeySlot dev with
      | none =>
        rw [hseen, hempty] at h
        exact ih h
      | some i =>
        rw [hseen, hempty] at h
        dsimp only at h
        split_ifs at h with hkey hret
        · exact hpress (.inl h)
        · exact hpress (ih h)
        · exact ih h

theorem release_mem (h : e ∈ (usbHidKeyboardReport dev report outLen).2) (hrel : e.pressed = false) :
    ∃ i, (dev i).pending = true ∧ keyInReport report (dev i).key = false ∧
      (dev i).key = e.usage := by
  have hmem : e ∈ (releaseKeys report outLen (finRange 6) dev []).2.1 := by
    unfold usbHidKeyboardReport at h
    split_ifs at h with h0
    · simp at h
    · dsimp only at h
      split_ifs at h with hret
      · exact h
      · rcases pressKeys_mem h with hmem | hpress
        · exact hmem
        · rw [hrel] at hpress
          exact absurd hpress (by decide)
  rcases releaseKeys_mem (nodup_finRange 6) hmem with hnil | ⟨i, -, hslot⟩
  · simp at hnil
  · exact ⟨i, hslot⟩

/-- The slots of `is` before `i` whose releases the first loop writes. -/
def dueBefore (dev : Keyboard) (report : KeyboardReport) (is : List (Fin 6)) (i : Fin 6) : ℕ :=
  (is.takeWhile (· ≠ i)).countP fun j => (dev j).due report

theorem dueBefore_cons (is : List (Fin 6)) (hne : k ≠ i) : dueBefore dev report (k :: is) i =
      (if (dev k).due report then 1 else 0) + dueBefore dev report is i := by
  unfold dueBefore
  rw [takeWhile_cons_of_pos (by simpa using hne), countP_cons]
  omega

theorem dueBefore_set (hk : k ∉ is) (s : KeySlot) (i : Fin 6) :
    dueBefore (dev.set k s) report is i = dueBefore dev report is i := by
  apply countP_congr
  intro j hj
  have hjk : j ≠ k := fun h => hk (h ▸ (takeWhile_sublist _).subset hj)
  rw [Keyboard.set_of_ne hjk]

theorem release_length_of_due (hkey : s.key ≠ hidKeyNone)
    (hin : keyInReport report s.key = false) (hpending : s.pending = true) :
    s.release.length = if s.due report then 1 else 0 := by
  unfold KeySlot.release KeySlot.due
  by_cases hv : s.value = 0
  · simp [hv]
  · rw [if_pos hv, if_pos (by simp only [decide_eq_true_eq]; exact ⟨hkey, hin, hpending, hv⟩)]
    rfl

/-- The first loop sets every slot right that it reaches, and a slot that it does not reach is right
already if no pending key of the report lies behind the last event that fits. -/
theorem releaseKeys_missing (hnodup : is.Nodup)
    (hclean : ∀ i, (dev i).pending = true → (dev i).key ≠ hidKeyNone)
    (hdone : ∀ i ∉ is, (dev i).pending = true → keyInReport report (dev i).key = false)
    (hreach : ∀ i ∈ is, (dev i).pending = true → keyInReport report (dev i).key = true → out.length + dueBefore dev report is i < outLen) :
    (releaseKeys report outLen is dev out).1.Missing report := by
  induction is generalizing dev out with
  | nil => exact fun i hp => ⟨hclean i hp, hdone i (by simp) hp⟩
  | cons k is ih =>
    obtain ⟨hk, hnodup⟩ := nodup_cons.mp hnodup
    have hself : dev = dev.set k (dev k) := by simp [Keyboard.set]
    -- going on with slot `k` set to `s`
    have hgo (s : KeySlot) (out' : List KeyEvent)
        (hs : s.pending = true → s.key ≠ hidKeyNone ∧ keyInReport report s.key = false)
        (hlen : out'.length ≤ out.length + if (dev k).due report then 1 else 0) :
        (releaseKeys report outLen is (dev.set k s) out').1.Missing report := by
      apply ih hnodup
      · intro i
        by_cases hik : i = k
        · subst hik
          simpa using fun hp => (hs hp).1
        · rw [Keyboard.set_of_ne hik]
          exact hclean i
      · intro i hi
        by_cases hik : i = k
        · subst hik
          simpa using fun hp => (hs hp).2
        · rw [Keyboard.set_of_ne hik]
          exact hdone i (by simp [hik, hi])
      · intro i hi hp hin
        have hik : i ≠ k := fun h => hk (h ▸ hi)
        rw [Keyboard.set_of_ne hik] at hp hin
        have := hreach i (mem_cons_of_mem _ hi) hp hin
        rw [dueBefore_cons is hik.symm] at this
        rw [dueBefore_set hk]
        omega
    unfold releaseKeys
    split_ifs with hkey hin hpending hret
    · rw [hself]
      exact hgo _ _ (fun hp => absurd hkey (hclean k hp)) (Nat.le_add_right _ _)
    · exact hgo _ _ (by simp) (Nat.le_add_right _ _)
    · exact hgo _ _ (fun _ => ⟨hkey, by simpa using hin⟩) (Nat.le_add_right _ _)
    · -- the function returns here: no later slot may be wrong
      have hlen := release_length_of_due hkey (by simpa using hin) (by simpa using hpending)
      apply Keyboard.missing_set
      · simp [KeySlot.empty]
      · intro i hik hp
        refine ⟨hclean i hp, ?_⟩
        by_cases hi : i ∈ is
        · by_contra hin'
          have := hreach i (mem_cons_of_mem _ hi) hp (by simpa using hin')
          rw [dueBefore_cons is hik.symm] at this
          rw [length_append] at hret
          omega
        · exact hdone i (by simp [hik, hi]) hp
    · have hlen := release_length_of_due hkey (by simpa using hin) (by simpa using hpending)
      apply hgo _ _ (by simp [KeySlot.empty])
      rw [length_append, hlen]

theorem pressKeys_missing (keys : List UInt8) (h : dev.Missing report) :
    (pressKeys modifiers outLen keys dev out).1.Missing report := by
  induction keys generalizing dev out with
  | nil => exact h
  | cons cur rest ih =>
    unfold pressKeys
    split_ifs with hcur
    · exact ih h
    cases keySlot dev cur with
    | some i => exact ih (Keyboard.missing_set (by simp) fun j _ => h j)
    | none =>
      cases emptyKeySlot dev with
      | none => exact ih h
      | some i =>
        have hset (key : BitVec 32) : (dev.set i ⟨cur, key, false⟩).Missing report :=
          Keyboard.missing_set (by simp) fun j _ => h j
        dsimp only
        split_ifs with hkey hret
        · exact hset _
        · exact ih (hset _)
        · exact ih (hset _)

end Pending

variable {c : ReportCall}

section Runs

/-- One call of `usb_hid_keyboard_report`. -/
structure ReportCall where
  report : KeyboardReport
  outLen : ℕ

def Keyboard.step (dev : Keyboard) (c : ReportCall) : Keyboard × List KeyEvent :=
  usbHidKeyboardReport dev c.report c.outLen

def Keyboard.run (dev : Keyboard) : List ReportCall → Keyboard × List KeyEvent
  | [] => (dev, [])
  | c :: cs => (((dev.step c).1.run cs).1, (dev.step c).2 ++ ((dev.step c).1.run cs).2)

/-- No pending key that the report contains lies behind the release with which the output is full. -/
def ReportCall.Reaches (dev : Keyboard) (c : ReportCall) : Prop :=
  ∀ i, (dev i).pending = true → keyInReport c.report (dev i).key = true →
    dueBefore dev c.report (finRange 6) i < c.outLen

/-- Every call of a run meets the condition in the state in which it is made. -/
def Keyboard.Reaches (dev : Keyboard) : List ReportCall → Prop
  | [] => True
  | c :: cs => c.Reaches dev ∧ (dev.step c).1.Reaches cs

theorem ReportCall.reaches_of_six (h : 6 ≤ c.outLen) (dev : Keyboard) : c.Reaches dev := by
  have hbefore : ∀ i : Fin 6, ((finRange 6).takeWhile (· ≠ i)).length < 6 := by decide
  intro i _ _
  have hshort := hbefore i
  have hcount := countP_le_length (p := fun j => (dev j).due c.report)
    (l := (finRange 6).takeWhile (· ≠ i))
  unfold dueBefore
  omega

variable {dev : Keyboard}

theorem changes_run (dev : Keyboard) (cs : List ReportCall) :
    Changes dev (dev.run cs).2 (dev.run cs).1 := by
  have htrans {d d' d'' : Keyboard} {es es' : List KeyEvent} (h : Changes d es d')
      (h' : Changes d' es' d'') : Changes d (es ++ es') d'' := by
    induction h' with
    | refl => simpa using h
    | tail _ hstep ih =>
      rw [← append_assoc]
      exact ih.tail hstep
  induction cs generalizing dev with
  | nil => exact .refl
  | cons c cs ih => exact htrans (usbHidKeyboardReport_changes dev c.report c.outLen) (ih _)

section
variable (hclean : ∀ i, (dev i).pending = true → (dev i).key ≠ hidKeyNone)
include hclean

/-- A call that meets the condition leaves only keys pending that its report does not contain. -/
theorem missing_step (hc : c.Reaches dev) : (dev.step c).1.Missing c.report := by
  have hrel : (releaseKeys c.report c.outLen (finRange 6) dev []).1.Missing c.report := by
    apply releaseKeys_missing (nodup_finRange 6) hclean
    · intro i hi
      exact absurd (mem_finRange i) hi
    · intro i _ hp hin
      simpa using hc i hp hin
  unfold Keyboard.step usbHidKeyboardReport
  split_ifs with h0
  · intro i hp
    refine ⟨hclean i hp, ?_⟩
    by_contra hin
    have := hc i hp (by simpa using hin)
    omega
  · dsimp only
    split_ifs with hret
    · exact hrel
    · exact pressKeys_missing _ hrel

theorem missing_run {cs : List ReportCall} (hcs : dev.Reaches cs) (c : ReportCall)
    (hlast : cs.getLast? = some c) : (dev.run cs).1.Missing c.report := by
  induction cs generalizing dev with
  | nil => simp at hlast
  | cons c' cs ih =>
    have hstep := missing_step hclean hcs.1
    cases cs with
    | nil =>
      obtain rfl : c' = c := by simpa using hlast
      exact hstep
    | cons c'' cs => exact ih (fun i hp => (hstep i hp).1) hcs.2 (by simpa using hlast)

end

/-- After any calls, and for the next one: the events of every key alternate between press and
release, each release with the value of its press; the remembered keys are different; no more events
are written than fit. If every call before reached its pending keys, a release is only written for a
key that is missing from this report and from the one before. -/
theorem key_events_alternate (calls : List ReportCall) (c : ReportCall) :
    let dev := (Keyboard.init.run calls).1
    (∀ u ≠ hidKeyNone, Alternates (eventsOf u (Keyboard.init.run calls).2)) ∧
    dev.Distinct ∧
    (dev.step c).2.length ≤ c.outLen ∧
    (Keyboard.init.Reaches calls → ∀ e ∈ (dev.step c).2, e.pressed = false →
      keyInReport c.report e.usage = false ∧
      ∃ previous, calls.getLast? = some previous ∧
        keyInReport previous.report e.usage = false) := by
  intro dev
  have hinit : Keyboard.init.Distinct := fun i j h => absurd rfl h
  have hchanges := changes_run Keyboard.init calls
  refine ⟨?_, hchanges.distinct hinit, usbHidKeyboardReport_length dev c.report c.outLen, ?_⟩
  · intro u hu
    have hheld : Keyboard.init.held u = 0 := held_eq_zero fun _ h => hu h.symm
    have hfollow := hchanges.follow hinit hu
    rw [hheld] at hfollow
    unfold Alternates
    rw [hfollow]
    rfl
  · intro hreaches e he hrel
    obtain ⟨i, hpending, hin, husage⟩ := release_mem he hrel
    rw [← husage]
    refine ⟨hin, ?_⟩
    cases hlast : calls.getLast? with
    | none =>
      rw [getLast?_eq_none_iff] at hlast
      have hdev : dev = Keyboard.init := by simp [dev, hlast, Keyboard.run]
      rw [hdev] at hpending
      exact absurd hpending (by simp [Keyboard.init, KeySlot.empty])
    | some previous =>
      have hclean (i : Fin 6) (hp : (Keyboard.init i).pending = true) :
          (Keyboard.init i).key ≠ hidKeyNone := by
        simp [Keyboard.init, KeySlot.empty] at hp
      exact ⟨previous, rfl, (missing_run hclean hreaches previous hlast i hpending).2⟩

def reportOf (keys : List UInt8) : KeyboardReport := ⟨0, fun i => keys.getD i 0⟩

/-- The letter a goes down and comes up again over two empty reports. -/
theorem key_events_alternate_letter :
    let calls : List ReportCall := [⟨reportOf [4], 8⟩, ⟨reportOf [], 8⟩]
    let dev := (Keyboard.init.run calls).1
    (dev.step ⟨reportOf [], 8⟩).2 = [⟨4, false, 97⟩] ∧
      keyInReport (reportOf []) 4 = false ∧ Alternates (eventsOf 4 (Keyboard.init.run calls).2) := by
  intro calls dev
  have h := key_events_alternate calls ⟨reportOf [], 8⟩
  have hevents : (dev.step ⟨reportOf [], 8⟩).2 = [⟨4, false, 97⟩] := by decide +kernel
  have hreaches : Keyboard.init.Reaches calls :=
    ⟨ReportCall.reaches_of_six (by decide) _, ReportCall.reaches_of_six (by decide) _, trivial⟩
  refine ⟨hevents, ?_, h.1 4 (by decide)⟩
  exact (h.2.2.2 hreaches ⟨4, false, 97⟩ (by rw [hevents]; simp) rfl).1

/-- The letters a and b are down and both missing once; then a is missing again while b is back, in a
call whose output has room for one event. The next report without b releases b, although b was in the
report before. -/
theorem full_output_releases_too_early :
    let previous : ReportCall := ⟨reportOf [5], 1⟩
    let calls : List ReportCall := [⟨reportOf [4, 5], 8⟩, ⟨reportOf [], 8⟩, previous]
    let dev := (Keyboard.init.run calls).1
    ⟨5, false, 98⟩ ∈ (dev.step ⟨reportOf [], 8⟩).2 ∧ calls.getLast?.isSome ∧
      keyInReport previous.report 5 = true := by
  decide +kernel

end Runs
end Usb
