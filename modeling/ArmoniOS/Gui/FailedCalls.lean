import ArmoniOS.Gui.Steps

/-! What a window call that returns an error leaves behind. -/
namespace Gui
open Function

/-- The window call returns an error; its result is that of `Desktop.step`. -/
def Op.Fails (d : Desktop) : Op → Prop
  | .create ownerPid x y w h bgColor borderColor title =>
      (guiCreateWindowForPid ownerPid x y w h bgColor borderColor title d).1 = none
  | .destroy id => (guiDestroyWindow id d).1 = false
  | .move id x y => (guiMoveWindow id x y d).1 = false
  | .resize alloc id x y w h => (guiResizeWindow alloc id x y w h d).1 = false
  | .setTitle id title => (guiWindowSetTitleInternal id title d).1 = false
  | .setTitleBar id titleH => (guiWindowSetTitleBarInternal id titleH d).1 = false
  | .setFlags id flags => (guiWindowSetFlagsInternal id flags d).1 = false
  | .drawText alloc id x y text color => (guiWindowDrawText alloc id x y text color d).1 = false
  | .drawRect alloc id x y w h color => (guiWindowDrawRect alloc id x y w h color d).1 = false
  | .clear alloc id color => (guiWindowClear alloc id color d).1 = false
  | .registerRegion id slot x y w h shape =>
      (guiRegisterCursorRegion id slot x y w h shape d).1 = false
  | _ => False

/-- A resize that gets past its arguments would show the cursor as it is shown now. -/
def Op.KeepsShape (d : Desktop) : Op → Prop
  | .resize _ id x y w h =>
      ¬ (w < 2 ∨ h < 2 ∨ guiRectFitsFramebuffer d.screen x y w h = false) → ∀ i ∈ d.lookup id,
        (guiRefreshCursorShape (d.setWindow i { d.windows i with x, y, w, h })).cursor.shape =
          d.cursor.shape
  | _ => True

instance (d : Desktop) (op : Op) : Decidable (op.Fails d) := by
  cases op <;> unfold Op.Fails <;> infer_instance

instance (d : Desktop) (op : Op) : Decidable (op.KeepsShape d) := by
  cases op <;> unfold Op.KeepsShape <;> infer_instance

section Calls
variable {d : Desktop}

theorem withBacking_failed {alloc : Alloc} {id : ℕ}
    {paint : Fin maxWindows → Window → Desktop → Desktop}
    (h : (withBacking alloc id paint d).1 = false) : (withBacking alloc id paint d).2 = d := by
  unfold withBacking at h ⊢
  split at h
  · rfl
  · split at h
    · rfl
    · cases h

-- the window goes back as it was, the cursor shape of the refresh stays
theorem setWindow_back_iff (i : Fin maxWindows) (w : Window) :
    (guiRefreshCursorShape (d.setWindow i w)).setWindow i (d.windows i) = d ↔
      (guiRefreshCursorShape (d.setWindow i w)).cursor.shape = d.cursor.shape := by
  constructor
  · exact congrArg fun d : Desktop => d.cursor.shape
  · intro hshape
    have hback : d.setWindow i (d.windows i) = d := by simp [Desktop.setWindow]
    have hcursor : (guiRefreshCursorShape (d.setWindow i w)).cursor = d.cursor :=
      congrArg (fun shape => { d.cursor with shape }) hshape
    rw [setWindow_setWindow, hback, hcursor]

theorem resize_failed {alloc : Alloc} {id x y w h : ℕ}
    (hfail : (guiResizeWindow alloc id x y w h d).1 = false) :
    (guiResizeWindow alloc id x y w h d).2 = d ↔ (Op.resize alloc id x y w h).KeepsShape d := by
  simp only [guiResizeWindow, Op.KeepsShape] at hfail ⊢
  split at hfail
  next hargs => simp only [hargs, if_true, not_true, false_implies]
  next hargs =>
    simp only [hargs, if_false, not_false_eq_true, true_implies]
    cases hi : d.lookup id with
    | none => simp
    | some i =>
      simp only [hi] at hfail
      split_ifs at hfail with hsame
      simp only [hsame, if_false]
      split at hfail
      · simpa only [Option.mem_def, Option.some.injEq, forall_eq'] using setWindow_back_iff i _
      · cases hfail

end Calls

theorem failed_call_unchanged_iff (d : Desktop) (op : Op) (hfail : op.Fails d) :
    d.step op = d ↔ op.KeepsShape d := by
  cases op with
  | resize alloc id x y w h => exact resize_failed hfail
  | drawText | clear => exact iff_of_true (withBacking_failed hfail) trivial
  | drawRect =>
    refine iff_of_true ?_ trivial
    simp only [Op.Fails, Desktop.step, guiWindowDrawRect] at hfail ⊢
    split_ifs at hfail ⊢
    · rfl
    · exact withBacking_failed hfail
  | create | destroy | move | setTitle | setTitleBar | setFlags | registerRegion =>
    refine iff_of_true ?_ trivial
    revert hfail
    simp only [Op.Fails, Desktop.step, guiCreateWindowForPid, guiDestroyWindow, guiMoveWindow,
      guiWindowSetTitleInternal, guiWindowSetTitleBarInternal, guiWindowSetFlagsInternal,
      guiRegisterCursorRegion]
    repeat' split
    all_goals intro hfail; first | rfl | cases hfail
  | _ => exact hfail.elim

theorem failed_call_unchanged_arrow :
    let d := (Desktop.init tinyScreen).run [.create 1 0 0 4 4 0 0 []]
    d.step (.resize none 0 0 0 3 3) = d :=
  (failed_call_unchanged_iff _ _ (by decide +kernel)).mpr (by decide +kernel)

-- the title bar reaches the cursor, which the smaller window does not
theorem failed_resize_changes_cursor :
    let d := (Desktop.init tinyScreen).run [.create 1 0 0 4 4 0 0 [0x41], .setTitleBar 0 3]
    let op : Op := .resize none 0 0 0 2 4
    op.Fails d ∧ d.cursor.shape = .hand ∧ (d.step op).cursor.shape = .arrow := by
  decide +kernel

end Gui
