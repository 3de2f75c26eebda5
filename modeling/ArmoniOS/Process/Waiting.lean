import ArmoniOS.Process.Scheduling

/-! Zombies and their parents. Parent links are pids, looked up in the table; a history next to the
table says which process really created which. -/
namespace Process
open Exec Pmm Vmm Function List

/-- The event is a call of `sys_wait`. -/
def Event.IsWait : Event → Prop
  | .trap (.syscall _) frame => frame.x 8 = sysWaitNumber
  | _ => False

instance : (e : Event) → Decidable e.IsWait
  | .trap (.syscall _) _ => inferInstanceAs (Decidable (_ = _))
  | .trap (.irq _) _ | .trap (.fault _) _ | .boot _ | .back => inferInstanceAs (Decidable False)

/-- What the step leaves in `x0` of the process that made it. -/
def System.reply (s : System) : Event → Option (BitVec 64)
  | .trap t frame => (t.withPid s.nextSpawnPid).reply s.kernel frame
  | _ => none

def System.newPid (s : System) : Event → ℕ
  | .trap _ _ => s.nextSpawnPid
  | _ => panelBootPid

def System.creatorPid (s : System) : ℕ :=
  match s.kernel.current with
  | some c => (s.kernel.lives c).pid
  | none => 0

/-- The step reaches `process_alloc(g_next_spawn_pid++)`. -/
def Event.Allocates : Event → Prop
  | .trap t frame => t.allocates frame
  | _ => False

instance : (e : Event) → Decidable e.Allocates
  | .trap t frame => inferInstanceAs (Decidable (t.allocates frame))
  | .boot _ | .back => inferInstanceAs (Decidable False)

/-- What a step can do to the process in slot `j`. -/
inductive SlotStep (s : System) (e : Event) (j : Fin 16) : Life → Prop
  | kept : SlotStep s e j (s.kernel.lives j)
  | moved (state : ProcessState) (halive : (s.kernel.lives j).Alive)
      (hstate : state = .ready ∨ state = .running) :
      SlotStep s e j { s.kernel.lives j with state := state }
  | exited (code : BitVec 64) (halive : (s.kernel.lives j).Alive) :
      SlotStep s e j ((s.kernel.lives j).exit code)
  | waited (c : Fin 16) (t : Trap) (frame : Frame) (he : e = .trap t frame) (hwait : e.IsWait)
      (hpid : (frame.x 0).toNat = (s.kernel.lives j).pid) (hc : s.kernel.current = some c)
      (halive : (s.kernel.lives c).Alive) (hzombie : (s.kernel.lives j).state = .zombie)
      (hparent : (s.kernel.lives j).parentPid = (s.kernel.lives c).pid)
      (hreply : s.reply e = some (s.kernel.lives j).exitCode) : SlotStep s e j unusedLife
  | reclaimed (hnot : ¬ e.IsWait) (horphaned : s.kernel.lives.Orphaned j) :
      SlotStep s e j unusedLife
  | born (l : Life) (hnot : ¬ e.IsWait) (hdead : ¬ (s.kernel.lives j).Alive)
      (horphaned : (s.kernel.lives j).state = .zombie → s.kernel.lives.Orphaned j)
      (hcreates : e.Allocates ∨ s.mode = .kernel) (hlife : l.Alive) (hpid : l.pid = s.newPid e)
      (hparent : l.parentPid = s.creatorPid) (hself : l.pid ≠ l.parentPid) : SlotStep s e j l

variable {l : Life} {panel : Fin 16}

section Slots
variable {s : System} {c j : Fin 16} {t : Trap} {frame : Frame} {L' : Lives}

variable {e : Event}

theorem slotStep_update {i : Fin 16} {L : Lives} (hi : SlotStep s e i l) (hj : SlotStep s e j (L j)) :
    SlotStep s e j (update L i l j) := by
  by_cases hji : j = i
  · subst hji
    rw [update_self]
    exact hi
  · rw [update_of_ne hji]
    exact hj

theorem slotStep_reclaim (hnot : ¬ e.IsWait) (j : Fin 16) :
    SlotStep s e j (s.kernel.lives.reclaim j) := by
  by_cases ho : s.kernel.lives.Orphaned j
  · rw [reclaim_of_orphaned ho]
    exact .reclaimed hnot ho
  · rw [reclaim_of_not_orphaned ho]
    exact .kept

theorem slotStep_switch {next : Fin 16} (hnext : s.kernel.lives.NextReady c next)
    (hc : SlotStep s e c l) (j : Fin 16) :
    SlotStep s e j (update (update s.kernel.lives c l) next
      { s.kernel.lives next with state := .running } j) := by
  have halive : (s.kernel.lives next).Alive := by
    constructor <;> rw [hnext.ready] <;> simp
  apply slotStep_update
  · exact .moved .running halive (.inr rfl)
  · exact slotStep_update hc .kept

theorem slotStep_called {out : Outside} {value : BitVec 64} (hc : s.kernel.current = some c)
    (hr : (s.kernel.lives c).state = .running)
    (hreply : s.reply (.trap (.syscall out) frame) = some value)
    (hcall : Called { out with load := { out.load with pid := s.nextSpawnPid } } frame.x
      s.kernel.lives c value L') (j : Fin 16) :
    SlotStep s (.trap (.syscall out) frame) j (L' j) := by
  have halive := Life.alive_of_running hr
  have hspawn (hcall : frame.x 8 = sysSpawnNumber ∨ frame.x 8 = sysSpawnArgvNumber) :
      ¬ (Event.trap (.syscall out) frame).IsWait := by
    intro hwait
    rcases hcall with hcall | hcall <;> rw [show frame.x 8 = sysWaitNumber from hwait] at hcall <;>
      cases hcall
  cases hcall with
  | same => exact .kept
  | waited i hnumber hpid hzombie hparent =>
    apply slotStep_update _ .kept
    exact .waited c _ frame rfl hnumber hpid hc halive hzombie hparent hreply
  | killed i hi => exact slotStep_update (.exited userKillExitCode hi) .kept
  | reclaimed _ hnumber => exact slotStep_reclaim (hspawn hnumber) j
  | spawned i hnumber hrefused hresolved hfree hpid hfresh =>
    apply slotStep_update _ (slotStep_reclaim (hspawn hnumber) j)
    have hself : s.nextSpawnPid ≠ (s.kernel.lives c).pid := by
      have hcaller := hfresh c
      rw [reclaim_of_not_orphaned (not_orphaned_of_alive halive)] at hcaller
      exact (hcaller halive.1).symm
    have hdead : ¬ (s.kernel.lives i).Alive := by
      intro hi
      rw [reclaim_of_not_orphaned (not_orphaned_of_alive hi)] at hfree
      exact hi.1 hfree
    have horphaned (hz : (s.kernel.lives i).state = .zombie) : s.kernel.lives.Orphaned i := by
      by_contra ho
      rw [reclaim_of_not_orphaned ho, hz] at hfree
      cases hfree
    exact .born _ (hspawn hnumber) hdead horphaned
      (.inl ⟨hnumber, hrefused, hresolved⟩) ⟨by simp, by simp⟩ rfl (by rw [System.creatorPid, hc])
      hself

theorem step_trap (hmode : s.mode = .user panel) (t : Trap) (frame : Frame) :
    (s.step (.trap t frame)).kernel = ((t.withPid s.nextSpawnPid).handle s.kernel frame).2 := by
  unfold System.step
  rw [hmode]
  dsimp only
  split <;> rfl

theorem System.Ok.slots_trap (h : s.Ok) (t : Trap) (frame : Frame) (j : Fin 16) :
    SlotStep s (.trap t frame) j ((s.step (.trap t frame)).kernel.lives j) := by
  cases hmode : s.mode with
  | kernel =>
    simp only [System.step, hmode]
    exact .kept
  | returned panel =>
    simp only [System.step, hmode]
    exact .kept
  | user panel =>
    obtain ⟨c, hc, hr⟩ := h.user panel hmode
    obtain ⟨houtcome, -⟩ := Trap.settles h.lives hc hr (t.withPid s.nextSpawnPid) frame
    have halive := Life.alive_of_running hr
    rw [step_trap hmode t frame]
    generalize ((t.withPid s.nextSpawnPid).handle s.kernel frame).2.lives = L' at houtcome ⊢
    generalize (t.withPid s.nextSpawnPid).ending s.kernel frame = ending at houtcome
    cases houtcome with
    | stays => exact .kept
    | called ht hreply hcall =>
      cases t with
      | syscall out =>
        obtain rfl := Trap.syscall.inj ht
        exact slotStep_called hc hr hreply hcall j
      | irq spurious => cases ht
      | fault out => cases ht
    | preempted next hnext =>
      exact slotStep_switch hnext (.moved .ready halive (.inl rfl)) j
    | exited code next hnext => exact slotStep_switch hnext (.exited code halive) j
    | left code => exact slotStep_update (.exited code halive) .kept

theorem System.Ok.slots (h : s.Ok) (e : Event) (j : Fin 16) :
    SlotStep s e j ((s.step e).kernel.lives j) := by
  cases e with
  | trap t frame => exact h.slots_trap t frame j
  | boot load =>
    cases hmode : s.mode with
    | user panel =>
      simp only [System.step, hmode]
      exact .kept
    | returned panel =>
      simp only [System.step, hmode]
      exact .kept
    | kernel =>
      obtain ⟨hnone, hunused⟩ := h.idle hmode
      have hkept : SlotStep s (.boot load) j unusedLife := by
        rw [← h.lives.idle j (hunused j)]
        exact .kept
      simp only [System.step, hmode]
      rcases panelBoot_cases h hmode load with ⟨-, -, hlives⟩ | ⟨i, -, -, hlives⟩
      · rw [hlives]
        exact hkept
      · rw [hlives]
        apply slotStep_update _ hkept
        have hcreator : s.creatorPid = 0 := by
          unfold System.creatorPid
          rw [hnone]
        refine .born _ id ?_ ?_ (.inr hmode) ⟨by simp, by simp⟩ rfl hcreator.symm (by decide)
        · exact fun halive => halive.1 (hunused i)
        · intro hz
          cases (hunused i).symm.trans hz
  | back =>
    cases hmode : s.mode with
    | kernel =>
      simp only [System.step, hmode]
      exact .kept
    | user panel =>
      simp only [System.step, hmode]
      exact .kept
    | returned panel =>
      obtain ⟨c, hc, hz, hdead⟩ := h.returned panel hmode
      simp only [System.step, hmode]
      rw [(panelReturn_idle h.lives hc hz hdead panel).2]
      rcases hdead j with hj | hj
      · rw [← h.lives.idle j hj]
        exact .kept
      · exact .reclaimed id (orphaned_of_dead hdead hj)

end Slots

/-! ### Histories -/

/-- The system with its history. A process is known by the time of its creation: `serial` is that of
the process in a slot, `parent` that of the process which created it, `0` for none. `exits` holds the
exit codes with which the process became a zombie, `waits` what calls of `sys_wait` for it returned;
both start anew with a new process. -/
structure Chronicle where
  system : System
  time : ℕ
  serial : Fin 16 → ℕ
  parent : Fin 16 → ℕ
  exits : Fin 16 → List (BitVec 64)
  waits : Fin 16 → List (BitVec 64)

def Born (l l' : Life) : Prop := ¬ l.Alive ∧ l'.Alive
deriving Decidable

/-- The exits of the process in a slot, after a step from `l` to `l'`. -/
def nextExits (l l' : Life) (exits : List (BitVec 64)) : List (BitVec 64) :=
  if Born l l' then []
  else if l.Alive ∧ l'.state = .zombie then exits ++ [l'.exitCode]
  else exits

def nextWaits (e : Event) (reply : Option (BitVec 64)) (l l' : Life) (waits : List (BitVec 64)) :
    List (BitVec 64) :=
  if Born l l' then []
  else if e.IsWait ∧ l.state = .zombie ∧ l'.state = .unused then waits ++ reply.toList
  else waits

/-- A process that has not exited has no records; a zombie has exited once; what is waited for is
the code of that exit, once. -/
structure Recorded (l : Life) (exits waits : List (BitVec 64)) : Prop where
  alive : l.Alive → exits = [] ∧ waits = []
  zombie : l.state = .zombie → exits = [l.exitCode] ∧ waits = []
  ended : exits.length ≤ 1 ∧ waits <+: exits

def Chronicle.lives (h : Chronicle) : Lives := h.system.kernel.lives

def Chronicle.creator (h : Chronicle) : ℕ :=
  match h.system.kernel.current with
  | some c => h.serial c
  | none => 0

def Chronicle.step (h : Chronicle) (e : Event) : Chronicle :=
  let system := h.system.step e
  let L := h.lives
  let L' := system.kernel.lives
  { system := system
    time := h.time + 1
    serial := fun i => if Born (L i) (L' i) then h.time + 1 else h.serial i
    parent := fun i => if Born (L i) (L' i) then h.creator else h.parent i
    exits := fun i => nextExits (L i) (L' i) (h.exits i)
    waits := fun i => nextWaits e (h.system.reply e) (L i) (L' i) (h.waits i) }

def Chronicle.start (mm : Memory) : Chronicle :=
  ⟨System.start mm, 0, fun _ => 0, fun _ => 0, fun _ => [], fun _ => []⟩

def Chronicle.run (h : Chronicle) (events : List Event) : Chronicle := events.foldl Chronicle.step h

/-- The pid of a new process is not the parent pid of a process that is there already. -/
def System.Unclaimed (s : System) (e : Event) : Prop :=
  e.Allocates → ∀ i, (s.kernel.procs i).state ≠ .unused →
    (s.kernel.procs i).parentPid ≠ s.nextSpawnPid
deriving Decidable

def System.AllUnclaimed : System → List Event → Prop
  | _, [] => True
  | s, e :: events => s.Unclaimed e ∧ (s.step e).AllUnclaimed events

instance : (s : System) → (events : List Event) → Decidable (s.AllUnclaimed events)
  | _, [] => inferInstanceAs (Decidable True)
  | s, e :: events =>
      have : Decidable ((s.step e).AllUnclaimed events) := instDecidableAllUnclaimed (s.step e) events
      inferInstanceAs (Decidable (_ ∧ _))

/-- Serials identify the processes, and the links by pid are the true ones. -/
structure Chronicle.Ok (h : Chronicle) : Prop where
  system : h.system.Ok
  serial_pos : ∀ i, (h.lives i).state ≠ .unused → 0 < h.serial i
  serial_le : ∀ i, (h.lives i).state ≠ .unused → h.serial i ≤ h.time
  serial_inj : ∀ i j, (h.lives i).state ≠ .unused → (h.lives j).state ≠ .unused →
    h.serial i = h.serial j → i = j
  parent_le : ∀ i, (h.lives i).state ≠ .unused → h.parent i ≤ h.time
  link : ∀ i j, (h.lives i).state ≠ .unused → (h.lives j).state ≠ .unused →
    (h.serial j = h.parent i ↔ (h.lives j).pid = (h.lives i).parentPid)
  records : ∀ i, Recorded (h.lives i) (h.exits i) (h.waits i)

theorem Chronicle.start_ok (mm : Memory) : (Chronicle.start mm).Ok where
  system := System.start_ok mm
  serial_pos i hi := absurd rfl hi
  serial_le i hi := absurd rfl hi
  serial_inj i _ hi := absurd rfl hi
  parent_le i hi := absurd rfl hi
  link i _ hi := absurd rfl hi
  records i := ⟨fun hi => absurd rfl hi.1, fun hi => (by cases hi), by simp [start], prefix_rfl⟩

variable {c : Fin 16}

theorem System.Ok.current_live {s : System} (h : s.Ok) (hc : s.kernel.current = some c) :
    (s.kernel.lives c).state ≠ .unused := by
  intro hunused
  cases hmode : s.mode with
  | kernel => cases (h.idle hmode).1.symm.trans hc
  | user panel =>
    obtain ⟨c', hc', hr⟩ := h.user panel hmode
    obtain rfl : c = c' := Option.some.inj (hc.symm.trans hc')
    cases hunused.symm.trans hr
  | returned panel =>
    obtain ⟨c', hc', hz, -⟩ := h.returned panel hmode
    obtain rfl : c = c' := Option.some.inj (hc.symm.trans hc')
    cases hunused.symm.trans hz

section Chronicles
variable {h : Chronicle} {e : Event} {i j : Fin 16}

theorem not_born (l : Life) : ¬ Born l l := fun hborn => hborn.1 hborn.2

theorem SlotStep.live_cases {s : System} (hstep : SlotStep s e i l) (hlive : l.state ≠ .unused) :
    Born (s.kernel.lives i) l ∧ (e.Allocates ∨ s.mode = .kernel) ∧
        l.pid = s.newPid e ∧ l.parentPid = s.creatorPid ∧ l.pid ≠ l.parentPid ∨
      ¬ Born (s.kernel.lives i) l ∧ (s.kernel.lives i).state ≠ .unused ∧
        l.pid = (s.kernel.lives i).pid ∧ l.parentPid = (s.kernel.lives i).parentPid := by
  cases hstep with
  | kept => exact .inr ⟨not_born _, hlive, rfl, rfl⟩
  | moved state halive => exact .inr ⟨fun hborn => hborn.1 halive, halive.1, rfl, rfl⟩
  | exited code halive => exact .inr ⟨fun hborn => hborn.1 halive, halive.1, rfl, rfl⟩
  | waited => exact absurd rfl hlive
  | reclaimed => exact absurd rfl hlive
  | born _ _ hdead _ hcreates hlife hpid hparent hself =>
    exact .inl ⟨⟨hdead, hlife⟩, hcreates, hpid, hparent, hself⟩

theorem Chronicle.Ok.born_unique (hok : h.Ok) (hi : Born (h.lives i) ((h.step e).lives i))
    (hj : Born (h.lives j) ((h.step e).lives j)) : i = j := by
  have hpid (m : Fin 16) (hm : Born (h.lives m) ((h.step e).lives m)) :
      ((h.step e).lives m).pid = h.system.newPid e := by
    rcases (hok.system.slots e m).live_cases hm.2.1 with ⟨-, -, hpid, -⟩ | ⟨hnot, -⟩
    · exact hpid
    · exact absurd hm hnot
  apply (hok.system.step e).lives.pid_inj i j hi.2.1 hj.2.1
  exact (hpid i hi).trans (hpid j hj).symm

theorem step_old (hnot : ¬ Born (h.lives i) ((h.step e).lives i)) :
    (h.step e).serial i = h.serial i ∧ (h.step e).parent i = h.parent i := ⟨if_neg hnot, if_neg hnot⟩

theorem step_born (hborn : Born (h.lives i) ((h.step e).lives i)) :
    (h.step e).serial i = h.time + 1 ∧ (h.step e).parent i = h.creator :=
  ⟨if_pos hborn, if_pos hborn⟩

theorem Chronicle.Ok.creator_le (hok : h.Ok) : h.creator ≤ h.time := by
  unfold Chronicle.creator
  cases hcurrent : h.system.kernel.current with
  | none => exact Nat.zero_le _
  | some c =>
    exact hok.serial_le c (hok.system.current_live hcurrent)

theorem Chronicle.Ok.creator_link (hok : h.Ok) (hj : (h.lives j).state ≠ .unused) :
    h.serial j = h.creator ↔ (h.lives j).pid = h.system.creatorPid := by
  unfold Chronicle.creator System.creatorPid
  cases hcurrent : h.system.kernel.current with
  | none =>
    have hserial := hok.serial_pos j hj
    have hpid := hok.system.lives.pid_ne j hj
    exact iff_of_false hserial.ne' hpid
  | some c =>
    have hc := hok.system.current_live hcurrent
    constructor
    · intro heq
      rw [hok.serial_inj j c hj hc heq]
      rfl
    · intro heq
      rw [hok.system.lives.pid_inj j c hj hc heq]

theorem Chronicle.Ok.step_link (hok : h.Ok) (hfree : h.system.Unclaimed e)
    (hi : ((h.step e).lives i).state ≠ .unused) (hj : ((h.step e).lives j).state ≠ .unused) :
    (h.step e).serial j = (h.step e).parent i ↔
      ((h.step e).lives j).pid = ((h.step e).lives i).parentPid := by
  have hcreator := hok.creator_le
  rcases (hok.system.slots e i).live_cases hi with
    ⟨hborn, hcreates, hpid, hparent, hself⟩ | ⟨hold, hlive, hpid, hparent⟩
  · obtain ⟨-, hparent'⟩ := step_born hborn
    rcases (hok.system.slots e j).live_cases hj with
      ⟨hbornj, -⟩ | ⟨holdj, hlivej, hpidj, -⟩
    · obtain rfl := hok.born_unique hborn hbornj
      rw [(step_born hborn).1, hparent']
      exact iff_of_false (by omega) hself
    · rw [(step_old holdj).1, hparent', hok.creator_link hlivej]
      exact Eq.congr hpidj.symm hparent.symm
  · rw [(step_old hold).2]
    rcases (hok.system.slots e j).live_cases hj with
      ⟨hbornj, hcreates, hpidj, -⟩ | ⟨holdj, hlivej, hpidj, -⟩
    · rw [(step_born hbornj).1]
      have hle := hok.parent_le i hlive
      refine iff_of_false (by omega) fun heq => ?_
      rcases hcreates with halloc | hmode
      · apply hfree halloc i hlive
        have hnew : h.system.newPid e = h.system.nextSpawnPid := by
          cases e with
          | trap t frame => rfl
          | boot load => cases halloc
          | back => cases halloc
        rw [← hnew]
        exact (hpidj.symm.trans (heq.trans hparent)).symm
      · exact hlive ((hok.system.idle hmode).2 i)
    · rw [(step_old holdj).1, hok.link i j hlive hlivej]
      exact Eq.congr hpidj.symm hparent.symm

theorem nextExits_self (l : Life) (exits : List (BitVec 64)) : nextExits l l exits = exits := by
  rw [nextExits, if_neg (not_born l), if_neg fun hexit => hexit.1.2 hexit.2]

theorem nextWaits_self (reply : Option (BitVec 64)) (l : Life) (waits : List (BitVec 64)) :
    nextWaits e reply l l waits = waits := by
  rw [nextWaits, if_neg (not_born l), if_neg]
  rintro ⟨-, hz, hu⟩
  cases hz.symm.trans hu

theorem SlotStep.recorded {s : System} {exits waits : List (BitVec 64)} (hstep : SlotStep s e i l)
    (hrecorded : Recorded (s.kernel.lives i) exits waits) :
    Recorded l (nextExits (s.kernel.lives i) l exits)
      (nextWaits e (s.reply e) (s.kernel.lives i) l waits) := by
  cases hstep with
  | kept =>
    rw [nextExits_self, nextWaits_self]
    exact hrecorded
  | moved state halive hstate =>
    obtain ⟨rfl, rfl⟩ := hrecorded.alive halive
    have hlive : state ≠ .zombie := by rcases hstate with rfl | rfl <;> simp
    rw [nextExits, nextWaits, if_neg fun hborn => hborn.1 halive, if_neg fun hexit => hlive hexit.2,
      if_neg fun hborn => hborn.1 halive, if_neg fun hwait => halive.2 hwait.2.1]
    exact ⟨fun _ => ⟨rfl, rfl⟩, fun hz => absurd hz hlive, by simp, prefix_rfl⟩
  | exited code halive =>
    obtain ⟨rfl, rfl⟩ := hrecorded.alive halive
    rw [nextExits, nextWaits, if_neg fun hborn => hborn.1 halive, if_pos ⟨halive, rfl⟩,
      if_neg fun hborn => hborn.1 halive, if_neg fun hwait => halive.2 hwait.2.1]
    exact ⟨fun ha => absurd rfl ha.2, fun _ => ⟨rfl, rfl⟩, by simp, nil_prefix⟩
  | waited c t frame he hwait hpid hc halive hzombie hparent hreply =>
    obtain ⟨rfl, rfl⟩ := hrecorded.zombie hzombie
    rw [nextExits, nextWaits, if_neg fun hborn => hborn.2.1 rfl, if_neg fun hexit => hexit.1.2 hzombie,
      if_neg fun hborn => hborn.2.1 rfl, if_pos ⟨hwait, hzombie, rfl⟩, hreply]
    exact ⟨fun ha => absurd rfl ha.1, fun hz => (by cases hz), by simp, prefix_rfl⟩
  | reclaimed hnot horphaned =>
    obtain ⟨rfl, rfl⟩ := hrecorded.zombie horphaned.1
    rw [nextExits, nextWaits, if_neg fun hborn => hborn.2.1 rfl, if_neg fun hexit => hexit.1.2 horphaned.1,
      if_neg fun hborn => hborn.2.1 rfl, if_neg fun hwait => hnot hwait.1]
    exact ⟨fun ha => absurd rfl ha.1, fun hz => (by cases hz), by simp, nil_prefix⟩
  | born _ _ hdead _ _ hlife =>
    rw [nextExits, nextWaits, if_pos ⟨hdead, hlife⟩, if_pos ⟨hdead, hlife⟩]
    exact ⟨fun _ => ⟨rfl, rfl⟩, fun hz => absurd hz hlife.2, by simp, prefix_rfl⟩

theorem Chronicle.Ok.step (hok : h.Ok) (hfree : h.system.Unclaimed e) : (h.step e).Ok where
  system := hok.system.step e
  serial_pos i hi := by
    rcases (hok.system.slots e i).live_cases hi with ⟨hborn, -⟩ | ⟨hold, hlive, -⟩
    · rw [(step_born hborn).1]
      exact Nat.succ_pos _
    · rw [(step_old hold).1]
      exact hok.serial_pos i hlive
  serial_le i hi := by
    change _ ≤ h.time + 1
    rcases (hok.system.slots e i).live_cases hi with ⟨hborn, -⟩ | ⟨hold, hlive, -⟩
    · rw [(step_born hborn).1]
    · rw [(step_old hold).1]
      exact (hok.serial_le i hlive).trans (Nat.le_succ _)
  serial_inj i j hi hj heq := by
    rcases (hok.system.slots e i).live_cases hi with ⟨hborn, -⟩ | ⟨hold, hlive, -⟩ <;>
      rcases (hok.system.slots e j).live_cases hj with ⟨hbornj, -⟩ | ⟨holdj, hlivej, -⟩
    · exact hok.born_unique hborn hbornj
    · rw [(step_born hborn).1, (step_old holdj).1] at heq
      have hle := hok.serial_le j hlivej
      omega
    · rw [(step_born hbornj).1, (step_old hold).1] at heq
      have hle := hok.serial_le i hlive
      omega
    · rw [(step_old hold).1, (step_old holdj).1] at heq
      exact hok.serial_inj i j hlive hlivej heq
  parent_le i hi := by
    rcases (hok.system.slots e i).live_cases hi with ⟨hborn, -⟩ | ⟨hold, hlive, -⟩
    · rw [(step_born hborn).2]
      exact hok.creator_le.trans (Nat.le_succ _)
    · rw [(step_old hold).2]
      exact (hok.parent_le i hlive).trans (Nat.le_succ _)
  link _ _ hi hj := hok.step_link hfree hi hj
  records i := (hok.system.slots e i).recorded (hok.records i)

theorem Chronicle.Ok.run (events : List Event) {h : Chronicle} (hok : h.Ok)
    (hfree : h.system.AllUnclaimed events) : (h.run events).Ok := by
  induction events generalizing h with
  | nil => exact hok
  | cons e events ih => exact ih (hok.step hfree.1) hfree.2

end Chronicles

/-- The parent of the process in slot `i` is in slot `j` and has not exited. -/
def Chronicle.ParentAt (h : Chronicle) (i j : Fin 16) : Prop :=
  (h.lives j).Alive ∧ h.serial j = h.parent i
deriving Decidable

/-- In a run in which every pid that is given out is unclaimed: while its parent has not exited, a
zombie stays as it is until that parent waits for it and gets its exit code; every process exits at
most once and is waited for at most once, with the code of its exit; and `process_reclaim_zombies`
releases every zombie without such a parent. -/
theorem zombies_waited_or_reclaimed (mm : Memory) (events : List Event)
    (hfree : (System.start mm).AllUnclaimed events) :
    let h := (Chronicle.start mm).run events
    (∀ e i j, (h.lives i).state = .zombie → h.ParentAt i j →
      (h.step e).lives i = h.lives i ∧ (h.step e).serial i = h.serial i ∨
      (h.step e).lives i = unusedLife ∧ h.system.kernel.current = some j ∧
        h.system.reply e = some (h.lives i).exitCode ∧
        ∃ out frame, e = .trap (.syscall out) frame ∧ frame.x 8 = sysWaitNumber ∧
          (frame.x 0).toNat = (h.lives i).pid) ∧
    (∀ i, (h.exits i).length ≤ 1 ∧ h.waits i <+: h.exits i ∧
      ((h.lives i).state = .zombie → h.exits i = [(h.lives i).exitCode] ∧ h.waits i = [])) ∧
    (∀ i, (h.lives i).state = .zombie → (¬ ∃ j, h.ParentAt i j) →
      ((processReclaimZombies h.system.kernel).procs i).state = .unused) := by
  intro h
  have hok : h.Ok := (Chronicle.start_ok mm).run events hfree
  refine ⟨fun e i j hz hparent => ?_, fun i => ?_, fun i hz hnone => ?_⟩
  · have hlive : (h.lives i).state ≠ .unused := by simp [hz]
    have hpid := (hok.link i j hlive hparent.1.1).1 hparent.2
    have horphaned : ¬ h.lives.Orphaned i := fun ho => ho.2 ⟨j, hparent.1, hpid⟩
    have hslot := hok.system.slots e i
    change SlotStep h.system e i ((h.step e).lives i) at hslot
    have hserial (hdead : ¬ ((h.step e).lives i).Alive) : (h.step e).serial i = h.serial i :=
      if_neg fun hborn => hdead hborn.2
    generalize (h.step e).lives i = l at hslot hserial
    cases hslot with
    | kept => exact .inl ⟨rfl, hserial fun halive => halive.2 hz⟩
    | moved state halive => exact absurd hz halive.2
    | exited code halive => exact absurd hz halive.2
    | waited c t frame he hwait hx0 hc halive _ hlink hreply =>
      have hcj : c = j := hok.system.lives.pid_inj c j halive.1 hparent.1.1 (hlink.symm.trans hpid.symm)
      refine .inr ⟨rfl, hcj ▸ hc, hreply, ?_⟩
      subst he
      cases t with
      | syscall out => exact ⟨out, frame, rfl, hwait, hx0⟩
      | irq spurious => cases hwait
      | fault out => cases hwait
    | reclaimed _ ho => exact absurd ho horphaned
    | born _ _ _ ho => exact absurd (ho hz) horphaned
  · have hrecords := hok.records i
    exact ⟨hrecords.ended.1, hrecords.ended.2, hrecords.zombie⟩
  · have hlive : (h.lives i).state ≠ .unused := by simp [hz]
    have horphaned : h.lives.Orphaned i := by
      refine ⟨hz, ?_⟩
      rintro ⟨j, halive, hpid⟩
      exact hnone ⟨j, halive, (hok.link i j hlive halive.1).2 hpid⟩
    rw [← lives_state, lives_reclaim hok.system.lives]
    exact congrArg Life.state (reclaim_of_orphaned horphaned)

def childExits : List Event :=
  [.boot readyLoad, callEvent sysSpawnNumber 0, callEvent sysYieldNumber 0, callEvent sysExitNumber 7]

theorem zombies_waited_or_reclaimed_child :
    let h := (Chronicle.start noMemory).run childExits
    (System.start noMemory).AllUnclaimed childExits ∧ (h.lives 1).state = .zombie ∧
      h.ParentAt 1 0 ∧ h.exits 1 = [7] ∧
      ∀ e, (h.step e).lives 1 = h.lives 1 ∧ (h.step e).serial 1 = h.serial 1 ∨
        (h.step e).lives 1 = unusedLife ∧ h.system.kernel.current = some 0 ∧
          h.system.reply e = some (h.lives 1).exitCode ∧
          ∃ out frame, e = .trap (.syscall out) frame ∧ frame.x 8 = sysWaitNumber ∧
            (frame.x 0).toNat = (h.lives 1).pid := by
  have hfree : (System.start noMemory).AllUnclaimed childExits := by decide +kernel
  obtain ⟨hstep, -, -⟩ := zombies_waited_or_reclaimed noMemory childExits hfree
  exact ⟨hfree, by decide +kernel, by decide +kernel, by decide +kernel,
    fun e => hstep e 1 0 (by decide +kernel) (by decide +kernel)⟩

/-! ### A pid that comes back

`g_next_spawn_pid` wraps at `2 ^ 32`, and every attempt to spawn takes one pid, also when the
program cannot be loaded. -/

theorem put_self (k : Kernel) (i : Fin 16) : k.put i (k.procs i) = k := by
  unfold Kernel.put
  rw [update_eq_self]

variable {k : Kernel}

theorem reclaim_nobody (h : ∀ i, (k.procs i).state ≠ .zombie) : processReclaimZombies k = k := by
  unfold processReclaimZombies
  induction finRange 16 with
  | nil => rfl
  | cons i slots ih =>
    rw [foldl_cons, reclaimSlot, if_pos (.inl (h i))]
    exact ih

/-- A process that spawns a program that cannot be loaded, over and over. -/
def failingFrame : Frame := callFrame sysSpawnNumber (BitVec.ofInt 64 errNoent)

def failingOut (mm : Memory) (pid : ℕ) : Outside :=
  ⟨0, 0, none, true, ⟨pid, mm, [], 0, [], 0, 0, 0, false, false, 0, 0⟩⟩

/-- The running process has the saved context of a failed spawn, and there are no zombies. -/
structure Retries (k : Kernel) (c : Fin 16) : Prop where
  current : k.current = some c
  live : (k.procs c).state ≠ .unused
  saved : processSaveContext (k.procs c) failingFrame = k.procs c
  zombie : ∀ i, (k.procs i).state ≠ .zombie
  unused : ∀ i, (k.procs i).state = .unused → k.procs i = unusedSlot

theorem Retries.handle (h : Retries k c) (pid : ℕ) :
    (syscallDispatch (failingOut k.mm pid) k failingFrame).2 = k := by
  have hsave : saveCurrent k failingFrame = k := by
    rw [saveCurrent_eq h.current, h.saved, put_self]
  have hcall : syscallCall (failingOut k.mm pid) k k.current failingFrame.x =
      (BitVec.ofInt 64 errNoent, k) := by
    have hspawn : appSpawnVfs (failingOut k.mm pid) k = (none, k) := by
      simp only [appSpawnVfs, failingOut, reclaim_nobody h.zombie, not_true, if_false]
      rcases processAlloc_cases k pid with heq | ⟨i, hi, -, -, heq⟩
      · rw [heq]
      · have hidle : (k.procs i).state = .unused := by simpa using hi
        have hne : c ≠ i := by
          rintro rfl
          exact h.live hidle
        rw [heq]
        simp [processRelease, processFreeResources, Kernel.clearCurrent, Kernel.freePages, Kernel.put,
          Pcb.ownedPages, h.current, hne, ← h.unused i hidle]
        rw [← h.current]
    unfold syscallCall sysSpawn
    rw [hspawn]
    rfl
  have hframe : failingFrame.setX0 (BitVec.ofInt 64 errNoent) = failingFrame := by
    unfold Frame.setX0
    congr 1
    exact update_eq_self 0 failingFrame.x
  have hself : { k.procs c with
      regs := update (k.procs c).regs 0 (failingFrame.x 0)
      pc := failingFrame.elr, pstate := failingFrame.spsr, sp := failingFrame.spEl0 } =
      k.procs c := by
    have hregs : (k.procs c).regs = failingFrame.x := by
      rw [← h.saved]
      rfl
    rw [hregs, update_eq_self]
    exact h.saved
  unfold syscallDispatch syscallBody
  rw [hsave, if_neg (by decide), if_neg (by decide), hcall]
  dsimp only
  rw [hframe]
  unfold writeBack
  rw [h.current]
  dsimp only
  rw [hself, put_self]

theorem saveContext_self {p : Pcb} {frame : Frame} (hx : ∀ n, p.regs n = frame.x n)
    (hpc : p.pc = frame.elr) (hpstate : p.pstate = frame.spsr) (hsp : p.sp = frame.spEl0) :
    processSaveContext p frame = p := by
  unfold processSaveContext
  rw [← hpc, ← hpstate, ← hsp, ← funext hx]

def failingEvent (mm : Memory) : Event := .trap (.syscall (failingOut mm 0)) failingFrame

def Chronicle.later (h : Chronicle) (pid time : ℕ) : Chronicle :=
  { h with system := { h.system with nextSpawnPid := pid }, time := time }

theorem step_failing {h : Chronicle} (hk : Retries h.system.kernel c)
    (hmode : h.system.mode = .user panel) :
    h.step (failingEvent h.system.kernel.mm) =
      h.later ((h.system.nextSpawnPid + 1) % 2 ^ 32) (h.time + 1) := by
  obtain ⟨⟨k, pid, mode⟩, time, serial, parent, exits, waits⟩ := h
  obtain rfl := hmode
  have hsystem : System.step ⟨k, pid, .user panel⟩ (failingEvent k.mm) =
      ⟨k, (pid + 1) % 2 ^ 32, .user panel⟩ := by
    have hhandle : ((Trap.syscall (failingOut k.mm pid)).handle k failingFrame).2 = k := hk.handle pid
    have halloc : (Trap.syscall (failingOut k.mm pid)).allocates failingFrame :=
      ⟨.inl rfl, rfl, rfl⟩
    change System.mk ((Trap.syscall (failingOut k.mm pid)).handle k failingFrame).2
      (if (Trap.syscall (failingOut k.mm pid)).allocates failingFrame then (pid + 1) % 2 ^ 32 else pid)
      (.user panel) = _
    rw [hhandle, if_pos halloc]
  unfold Chronicle.step
  simp only [hsystem, Chronicle.lives, not_born, if_false, nextExits_self, nextWaits_self]
  rfl

theorem run_append (h : Chronicle) (events events' : List Event) :
    h.run (events ++ events') = (h.run events).run events' := foldl_append

theorem run_failing (n : ℕ) {h : Chronicle} (hk : Retries h.system.kernel c)
    (hmode : h.system.mode = .user panel) (hpid : h.system.nextSpawnPid < 2 ^ 32) :
    h.run (replicate n (failingEvent h.system.kernel.mm)) =
      h.later ((h.system.nextSpawnPid + n) % 2 ^ 32) (h.time + n) := by
  induction n generalizing h with
  | zero =>
    rw [Nat.add_zero, Nat.add_zero, Nat.mod_eq_of_lt hpid]
    rfl
  | succ n ih =>
    have hrest := @ih (h.later ((h.system.nextSpawnPid + 1) % 2 ^ 32) (h.time + 1)) hk hmode
      (Nat.mod_lt _ (by decide))
    have hpid' : ((h.system.nextSpawnPid + 1) % 2 ^ 32 + n) % 2 ^ 32 =
        (h.system.nextSpawnPid + (n + 1)) % 2 ^ 32 := by omega
    have htime : h.time + 1 + n = h.time + (n + 1) := by omega
    rw [replicate_succ, Chronicle.run, foldl_cons, step_failing hk hmode, ← hpid', ← htime]
    exact hrest

def orphanEvents : List Event :=
  [.boot readyLoad, callEvent sysSpawnNumber 0, callEvent sysYieldNumber 0,
    callEvent sysSpawnNumber 0, callEvent sysExitNumber 0, callEvent sysYieldNumber 0,
    callEvent sysWaitNumber 2, failingEvent noMemory]

def orphanState : Chronicle := (Chronicle.start noMemory).run orphanEvents

theorem orphanState_retries : Retries orphanState.system.kernel 0 where
  current := by decide +kernel
  live := by decide +kernel
  saved := saveContext_self (by decide +kernel) (by decide +kernel) (by decide +kernel)
    (by decide +kernel)
  zombie := by decide +kernel
  unused := by decide +kernel

/-- Attempts to spawn until the counter is at `2` again, the pid of the orphan's parent; then a new
process gets that pid and the orphan is killed. -/
def reuseEvents : List Event :=
  orphanEvents ++ replicate (2 ^ 32 - 3) (failingEvent orphanState.system.kernel.mm) ++
    [callEvent sysSpawnNumber 0, callEvent sysKillNumber 3]

/-- The parent of the process in slot 2 is gone, and yet it is not reclaimed. -/
theorem reused_parent_pid_keeps_zombie :
    let h := (Chronicle.start noMemory).run reuseEvents
    (h.lives 2).state = .zombie ∧ (¬ ∃ j, h.ParentAt 2 j) ∧
      ((processReclaimZombies h.system.kernel).procs 2).state = .zombie := by
  have hpid : orphanState.system.nextSpawnPid = 5 := by decide +kernel
  have hmode : orphanState.system.mode = .user 0 := by decide +kernel
  have hfail := run_failing (2 ^ 32 - 3) orphanState_retries hmode (by rw [hpid]; decide)
  have hrun : (Chronicle.start noMemory).run reuseEvents =
      (orphanState.later 2 (orphanState.time + (2 ^ 32 - 3))).run
        [callEvent sysSpawnNumber 0, callEvent sysKillNumber 3] := by
    have hwrap : (orphanState.system.nextSpawnPid + (2 ^ 32 - 3)) % 2 ^ 32 = 2 := by
      rw [hpid]
      decide
    have horphan : (Chronicle.start noMemory).run orphanEvents = orphanState := rfl
    rw [reuseEvents, run_append, run_append, horphan, hfail, hwrap]
  rw [hrun]
  decide +kernel

end Process
