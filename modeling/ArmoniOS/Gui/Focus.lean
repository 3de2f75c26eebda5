import ArmoniOS.Gui.Steps

/-! The focus and the drag name windows by their slot. They name the right ones as long as no step gives the
window that has the focus the title of the panel, and none destroys the window that is dragged: the policy
for the panel does not look at the focus, and `gui_destroy_window` does not look at the drag. -/
namespace Gui
open Desktop

/-- The focus and the drag are on windows of theirs, and serial numbers tell the windows apart. -/
structure Roles.Ok (r : Roles) : Prop where
  focus : r.FocusOk
  drag : ∀ i ∈ r.drag, (r.tags i).used = true ∧ (r.tags i).serial = r.dragSerial
  young : ∀ i, (r.tags i).used = true → (r.tags i).serial < r.births
  distinct : ∀ i j, (r.tags i).used = true → (r.tags j).used = true →
    (r.tags i).serial = (r.tags j).serial → i = j

section Change
variable {r r' : Roles} {i : Fin maxWindows} {t : Tag}

theorem Roles.Ok.opened (h : r.Ok) (hi : (r.tags i).used = false) (z : ℕ) (flags : BitVec 32) :
    { r.setTag i ⟨true, z, flags, r.births⟩ with
      nextZ := r.nextZ + 1, births := r.births + 1 }.Ok := by
  have hne {j : Fin maxWindows} (hj : (r.tags j).used = true) : j ≠ i := by
    rintro rfl
    rw [hi] at hj
    cases hj
  constructor
  · intro j hj
    have hfocus := h.focus j hj
    simpa only [r.setTag_apply, if_neg (hne hfocus.1)] using hfocus
  · intro j hj
    have hdrag := h.drag j hj
    simp only [r.setTag_apply, if_neg (hne hdrag.1)]
    exact hdrag
  · intro j hj
    simp only [r.setTag_apply] at hj ⊢
    split at hj
    next heq => simp [heq]
    next hji =>
      rw [if_neg hji]
      exact Nat.lt_succ_of_lt (h.young j hj)
  · intro j k hj hk hserial
    simp only [r.setTag_apply] at hj hk hserial
    split at hj <;> split at hk
    next hji hki => rw [hji, hki]
    next hji hki =>
      rw [if_pos hji, if_neg hki] at hserial
      exact absurd hserial (h.young k hk).ne'
    next hji hki =>
      rw [if_neg hji, if_pos hki] at hserial
      exact absurd hserial (h.young j hj).ne
    next hji hki =>
      rw [if_neg hji, if_neg hki] at hserial
      exact h.distinct j k hj hk hserial

theorem Roles.Ok.setTag {focused : Option (Fin maxWindows)} {nextZ : ℕ} (h : r.Ok)
    (hserial : t.serial = (r.tags i).serial) (hused : t.used = true → (r.tags i).used = true)
    (hfocus : { r.setTag i t with focused }.FocusOk) (hdrag : r.drag = some i → t.used = true) :
    { r.setTag i t with focused, nextZ }.Ok := by
  have hsame (j : Fin maxWindows) : ((r.setTag i t).tags j).serial = (r.tags j).serial := by
    rw [r.setTag_apply]
    split
    next hji => rw [hji, hserial]
    · rfl
  have hwas (j : Fin maxWindows) (hj : ((r.setTag i t).tags j).used = true) :
      (r.tags j).used = true := by
    rw [r.setTag_apply] at hj
    split at hj
    next hji =>
      rw [hji]
      exact hused hj
    · exact hj
  constructor
  · exact hfocus
  · intro j hj
    obtain ⟨hjused, hjserial⟩ := h.drag j hj
    refine ⟨?_, (hsame j).trans hjserial⟩
    rw [r.setTag_apply]
    split
    next hji =>
      subst hji
      exact hdrag hj
    · exact hjused
  · intro j hj
    rw [show _ = (r.tags j).serial from hsame j]
    exact h.young j (hwas j hj)
  · intro j k hj hk hjk
    exact h.distinct j k (hwas j hj) (hwas k hk) ((hsame j).symm.trans (hjk.trans (hsame k)))

theorem Roles.Ok.change (h : r.Ok) (hchange : Roles.Change True r r') : r'.Ok := by
  cases hchange with
  | opened i flags hi => exact h.opened hi _ _
  | closed i focused hi hdrag hfocus =>
    refine h.setTag rfl (fun _ => hi) ?_ ?_
    · intro j hj
      have hkeep : j ≠ i ∧ (r.tags j).Focusable := by
        rcases hfocus with ⟨rfl, hne⟩ | hfocus
        · refine ⟨?_, h.focus j hj⟩
          rintro rfl
          exact hne hj
        · exact hfocus j hj
      simpa only [r.setTag_apply, if_neg hkeep.1] using hkeep.2
    · intro hj
      exact absurd hj (hdrag trivial)
  | flagged i flags focused hi hfocus =>
    refine h.setTag rfl (fun _ => hi) ?_ ?_
    · rcases hfocus with ⟨rfl, hflags⟩ | hfocus
      · intro j hj
        have hold := h.focus j hj
        simp only [r.setTag_apply]
        split
        next hji =>
          subst hji
          exact ⟨hi, hflags trivial hj hold.2⟩
        · exact hold
      · exact hfocus
    · intro _
      exact hi
  | raised i hi =>
    refine h.setTag rfl (fun _ => hi) ?_ ?_
    · intro j hj
      have hold := h.focus j hj
      simp only [r.setTag_apply]
      split
      next hji =>
        subst hji
        exact hold
      · exact hold
    · intro _
      exact hi
  | focused focused hfocus => exact ⟨hfocus, h.drag, h.young, h.distinct⟩
  | grabbed i hi =>
    refine ⟨h.focus, fun j hj => ?_, h.young, h.distinct⟩
    obtain rfl := Option.some.inj hj
    exact ⟨hi, rfl⟩
  | released => exact ⟨h.focus, by simp, h.young, h.distinct⟩

end Change

/-- The step leaves the flags of the window that has the focus, and the window that is dragged. -/
def Op.Spares (d : Desktop) (op : Op) : Prop := op.SparesFocused d ∧ op.SparesDragged d

theorem init_rolesOk (s : Screen) : (init s).roles.Ok := by
  constructor
  · intro i hi
    cases hi
  · intro i hi
    cases hi
  · intro i hi
    cases hi
  · intro i j hi
    cases hi

/-- In every run whose steps spare the focus and the drag: the focus is on no window or on a window in use
without the flag against it, the drag is on no window or on the window on which it was started, and no
two windows in use have the same number. -/
theorem focus_and_drag_name_windows (s : Screen) (ops : List Op)
    (hops : (init s).Meets Op.Spares ops) :
    let d := (init s).run ops
    (∀ i ∈ d.focused, (d.windows i).used = true ∧ (d.windows i).flags &&& windowNoFocus = 0) ∧
    (∀ i ∈ d.drag, (d.windows i).used = true ∧ (d.windows i).serial = d.dragSerial) ∧
    ∀ i j, (d.windows i).used = true → (d.windows j).used = true →
      (d.windows i).serial = (d.windows j).serial → i = j := by
  intro d
  have hok : d.roles.Ok := by
    refine run_induction (P := fun d => d.roles.Ok) ?_ hops (init_rolesOk s)
    intro d op hspares hok
    have hdoes : d.Does True (fun _ _ => True) (d.step op) :=
      does_step (fun _ => hspares.2) (fun _ => hspares.1) (op.bars_true d)
    have hsteps := hdoes.roles
    generalize (d.step op).roles = r at hsteps ⊢
    induction hsteps with
    | refl => exact hok
    | tail _ hchange ih => exact ih.change hchange
  exact ⟨hok.focus, hok.drag, hok.distinct⟩

/-- A window that is dragged, while another one becomes a panel and is destroyed. -/
theorem focus_and_drag_name_windows_dragged :
    let ops : List Op := [.create 1 0 0 4 4 0 0 [], .input false ⟨0, .mouseButton 0 1⟩,
      .create 2 0 0 2 2 0 0 [], .setTitle 1 panelTitle, .input false ⟨1, .mouseMove 1 1⟩, .destroy 1]
    let d := (init tinyScreen).run ops
    (init tinyScreen).Meets Op.Spares ops ∧ d.focused = some 0 ∧ d.drag = some 0 ∧
    (d.windows 0).used = true ∧ (d.windows 0).flags &&& windowNoFocus = 0 ∧
    (d.windows 0).serial = d.dragSerial ∧ (d.windows 0).x = 1 := by
  intro ops d
  have hpress : Op.SparesDragged ((init tinyScreen).run (ops.take 1))
      (.input false ⟨0, .mouseButton 0 1⟩) := by
    unfold Op.SparesDragged
    decide +kernel
  have hmove : Op.SparesDragged ((init tinyScreen).run (ops.take 4))
      (.input false ⟨1, .mouseMove 1 1⟩) := by
    intro i hi
    cases hi
  have htitle : Op.SparesFocused ((init tinyScreen).run (ops.take 3)) (.setTitle 1 panelTitle) := by
    unfold Op.SparesFocused
    decide +kernel
  have hdestroy : Op.SparesDragged ((init tinyScreen).run (ops.take 5)) (.destroy 1) := by
    unfold Op.SparesDragged
    decide +kernel
  have hops : (init tinyScreen).Meets Op.Spares ops :=
    ⟨⟨trivial, trivial⟩, ⟨trivial, hpress⟩, ⟨trivial, trivial⟩, ⟨htitle, trivial⟩, ⟨trivial, hmove⟩,
      ⟨trivial, hdestroy⟩, trivial⟩
  have hfocused : d.focused = some 0 := by decide +kernel
  have hdrag : d.drag = some 0 := by decide +kernel
  obtain ⟨hfocus, hdragged, -⟩ := focus_and_drag_name_windows tinyScreen ops hops
  exact ⟨hops, hfocused, hdrag, (hfocus 0 hfocused).1, (hfocus 0 hfocused).2, (hdragged 0 hdrag).2,
    by decide +kernel⟩

/-- A window that has the focus gets the title of the panel and keeps the focus. A window that is dragged is
destroyed, another one gets its slot, and the next move of the mouse drags that one. -/
theorem panel_keeps_focus_and_drag_outlives_window :
    let panel := (init tinyScreen).run [.create 1 0 0 4 4 0 0 [], .setTitle 0 panelTitle]
    let reused := (init tinyScreen).run [.create 1 0 0 4 4 0 0 [],
      .input false ⟨0, .mouseButton 0 1⟩, .destroy 0, .create 2 0 0 2 2 0 0 []]
    let moved := reused.step (.input false ⟨1, .mouseMove 1 1⟩)
    (panel.focused = some 0 ∧ (panel.windows 0).flags &&& windowNoFocus ≠ 0) ∧
    (reused.drag = some 0 ∧ (reused.windows 0).used = true ∧
      (reused.windows 0).serial ≠ reused.dragSerial) ∧
    (reused.windows 0).x = 0 ∧ (moved.windows 0).x = 1 := by
  decide +kernel

end Gui
