import ArmoniOS.Gui.Changes
import ArmoniOS.Lib.Selection

/-! Each operation of the desktop, and each input event, does what `Desktop.Does` says. -/
namespace Gui
open Desktop

open Function Option
open Relation (ReflTransGen)
open Selection (Selects)

variable {alloc : Alloc} {w' : Window}

variable {id h n size : ℕ} {s : Screen} {hit : Fin maxWindows}

section Does
variable {safe : Prop} {bar : Frame → ℕ → Prop} {d : Desktop} {i : Fin maxWindows} {w : Window}

/-! ### Focus -/

theorem guiFocusWindowEnsure_eq (d : Desktop) : ∃ focused : Option (Fin maxWindows),
    (guiFocusWindowEnsure d).2 = { d with focused } ∧ ∀ i ∈ focused, (d.windows i).Focusable := by
  unfold guiFocusWindowEnsure
  split
  next hex =>
    obtain ⟨i, hi, hfocus⟩ := hex
    refine ⟨d.focused, rfl, fun j hj => ?_⟩
    rw [mem_unique hj hi]
    exact hfocus
  · split
    next i hfind =>
      refine ⟨some i, rfl, fun j hj => ?_⟩
      obtain rfl := some.inj hj
      simpa using List.find?_some hfind
    · exact ⟨none, rfl, by simp⟩

theorem does_focusEnsure (d : Desktop) : d.Does safe bar (guiFocusWindowEnsure d).2 := by
  obtain ⟨focused, heq, hfocus⟩ := guiFocusWindowEnsure_eq d
  rw [heq]
  exact ⟨rfl, .of_eq rfl, fun _ _ => .refl, .single (.focused d.roles focused hfocus)⟩

theorem Desktop.lookup_eq_some (h : d.lookup id = some i) : (d.windows i).used = true := by
  unfold lookup at h
  split at h
  · split at h
    · cases h
      assumption
    · cases h
  · cases h

theorem does_raise {focused : Option (Fin maxWindows)} (hi : (d.windows i).used = true)
    (hframe : w.frame = (d.windows i).frame)
    (htag : w.tag = { (d.windows i).tag with z := d.nextZ % 2 ^ 32 })
    (hfocus : focused = d.focused ∨ focused = some i ∧ (d.windows i).Focusable) :
    d.Does safe bar { d.setWindow i w with nextZ := d.nextZ + 1, focused } := by
  refine Does.update (w := w) rfl rfl ?_ ?_
  · intro _
    rw [hframe]
  · change ReflTransGen _ _ { (d.setWindow i w).roles with nextZ := d.nextZ + 1, focused }
    rw [d.roles_setWindow, htag]
    have hup : Roles.Change safe d.roles _ := .raised d.roles i hi
    rcases hfocus with rfl | ⟨rfl, hfocus⟩
    · exact .single hup
    · apply (ReflTransGen.single hup).tail
      apply Roles.Change.focused
      intro j hj
      obtain rfl := some.inj hj
      simp only [Roles.setTag, update_self]
      exact hfocus

theorem does_focusSlot (hi : (d.windows i).used = true) : d.Does safe bar (focusSlot i d) := by
  unfold focusSlot
  dsimp only
  split
  · exact does_damageAdd ..
  next hflags =>
    have hraise : d.Does safe bar _ := does_raise (w := { d.windows i with z := d.nextZ % 2 ^ 32 })
      hi rfl rfl (.inr ⟨rfl, hi, not_not.1 hflags⟩)
    have hshape := hraise.trans (does_refresh _)
    refine Does.trans ?_ (does_damageAdd ..)
    split
    · exact hshape
    · split
      · exact hshape.trans (does_damageAdd ..)
      · exact hshape

variable (id : ℕ)

theorem does_focus (d : Desktop) : d.Does safe bar (guiFocusWindow id d).2 := by
  unfold guiFocusWindow
  split
  · exact .refl d
  next i hi => exact does_focusSlot (d.lookup_eq_some hi)

/-! ### Windows come and go -/

theorem fits_of_not {x y w : ℕ}
    (hfit : ¬ (w < 2 ∨ h < 2 ∨ guiRectFitsFramebuffer s x y w h = false)) :
    2 ≤ w ∧ 2 ≤ h ∧ x + w ≤ s.width ∧ y + h ≤ s.height := by
  simp only [guiRectFitsFramebuffer, decide_eq_false_iff_not, not_or, not_not] at hfit
  omega

theorem guiApplyBuiltinPolicy_frame (w : Window) : (guiApplyBuiltinPolicy w).frame = w.frame := by
  unfold guiApplyBuiltinPolicy
  split <;> rfl

theorem guiApplyBuiltinPolicy_tag (w : Window) :
    (guiApplyBuiltinPolicy w).tag = { w.tag with flags := (guiApplyBuiltinPolicy w).flags } := by
  unfold guiApplyBuiltinPolicy
  split <;> rfl

theorem does_create (ownerPid : BitVec 32) (x y w h : ℕ) (bgColor borderColor : Color)
    (title : List UInt8) (d : Desktop) :
    d.Does safe bar (guiCreateWindowForPid ownerPid x y w h bgColor borderColor title d).2 := by
  unfold guiCreateWindowForPid
  split
  · exact .refl d
  next hfit =>
    obtain ⟨hw, hh, hx, hy⟩ := fits_of_not hfit
    split
    · exact .refl d
    next i hfind =>
      have hi : (d.windows i).used = false := by simpa using List.find?_some hfind
      generalize hnew : newWindow (d.windows i) ownerPid x y w h bgColor borderColor title
        (d.nextZ % 2 ^ 32) d.births = window
      have hframe : window.frame = ⟨true, x, y, w, h, 0, none⟩ := by
        rw [← hnew]
        exact guiApplyBuiltinPolicy_frame _
      have htag : window.tag = ⟨true, d.nextZ % 2 ^ 32, window.flags, d.births⟩ := by
        rw [← hnew]
        exact guiApplyBuiltinPolicy_tag _
      refine Does.trans ?_ ((does_refresh _).trans (does_damageAdd ..))
      refine Does.update (w := window) rfl rfl ?_ ?_
      · intro _
        rw [hframe]
        exact .single (.opened _ hw hh hx hy)
      · change ReflTransGen _ _ { (d.setWindow i window).roles with
          nextZ := d.nextZ + 1
          births := d.births + 1
          focused := if d.focused = none ∧ window.Focusable then some i else d.focused }
        rw [d.roles_setWindow, htag]
        have hopen : Roles.Change safe d.roles _ := .opened d.roles i window.flags hi
        split
        next hfocus =>
          apply (ReflTransGen.single hopen).tail
          apply Roles.Change.focused
          intro j hj
          obtain rfl := some.inj hj
          simp only [Roles.setTag, update_self]
          exact ⟨rfl, hfocus.2.2⟩
        · exact .single hopen

theorem clearedWindow_frame (w : Window) : (clearedWindow w).frame = ⟨false, 0, 0, 0, 0, 0, none⟩ := by
  have hfree : (guiWindowFreeBacking w).backing = none := by
    unfold guiWindowFreeBacking
    split
    · rfl
    next h => simpa using h
  unfold clearedWindow guiWindowSetTitle Window.frame
  simp only [hfree, map_none]

theorem clearedWindow_tag (w : Window) : (clearedWindow w).tag = ⟨false, 0, 0, w.tag.serial⟩ := by
  unfold clearedWindow guiWindowFreeBacking
  split <;> rfl

theorem refocus_eq (i : Fin maxWindows) (d : Desktop) : ∃ focused : Option (Fin maxWindows),
    (if d.focused = some i then (guiFocusWindowEnsure { d with focused := none }).2 else d) =
      { d with focused } ∧
    (focused = d.focused ∧ d.focused ≠ some i ∨ ∀ j ∈ focused, (d.windows j).Focusable) := by
  split
  · obtain ⟨focused, heq, hfocus⟩ := guiFocusWindowEnsure_eq { d with focused := none }
    exact ⟨focused, heq, .inr hfocus⟩
  next hne => exact ⟨d.focused, rfl, .inl ⟨rfl, hne⟩⟩

theorem does_destroySlot (hi : (d.windows i).used = true) (hdrag : safe → d.drag ≠ some i) :
    d.Does safe bar (destroySlot i d) := by
  unfold destroySlot
  refine Does.trans ?_ ((does_refresh _).trans (does_damageAdd ..))
  obtain ⟨focused, heq, hfocus⟩ := refocus_eq i (d.setWindow i (clearedWindow (d.windows i)))
  rw [heq]
  refine Does.update (w := clearedWindow (d.windows i)) rfl rfl ?_ ?_
  · intro _
    rw [clearedWindow_frame]
    exact .single (.closed _)
  · change ReflTransGen _ _ { (d.setWindow i (clearedWindow (d.windows i))).roles with focused }
    rw [d.roles_setWindow, clearedWindow_tag]
    apply ReflTransGen.single
    apply Roles.Change.closed d.roles i focused hi hdrag
    rcases hfocus with hkeep | hfocus
    · exact .inl hkeep
    · right
      intro j hj
      have hjfocus := hfocus j hj
      simp only [setWindow, update_apply] at hjfocus
      split at hjfocus
      · have hunused : (clearedWindow (d.windows i)).used = false :=
          congrArg Tag.used (clearedWindow_tag (d.windows i))
        rw [hjfocus.1] at hunused
        cases hunused
      next hne => exact ⟨hne, hjfocus⟩

theorem does_destroy (d : Desktop) (hdrag : safe → ∀ i ∈ d.lookup id, d.drag ≠ some i) :
    d.Does safe bar (guiDestroyWindow id d).2 := by
  unfold guiDestroyWindow
  split
  · exact .refl d
  next i hi => exact does_destroySlot (d.lookup_eq_some hi) fun hsafe => hdrag hsafe i hi

theorem destroySlot_windows (i : Fin maxWindows) (d : Desktop) : (destroySlot i d).drag = d.drag ∧
    (destroySlot i d).windows = update d.windows i (clearedWindow (d.windows i)) := by
  unfold destroySlot
  dsimp only
  obtain ⟨focused, heq, -⟩ := refocus_eq i (d.setWindow i (clearedWindow (d.windows i)))
  rw [heq]
  exact ⟨rfl, rfl⟩

/-- The windows of a process are closed one after another; the others stay as they are. -/
theorem does_destroyOwned (pid : BitVec 32) (slots : List (Fin maxWindows)) (d : Desktop)
    (hdrag : safe → ∀ i, (d.windows i).used = true → (d.windows i).ownerPid = pid → d.drag ≠ some i) :
    d.Does safe bar (slots.foldl (destroyIfOwned pid) d) := by
  induction slots generalizing d with
  | nil => exact .refl d
  | cons i slots ih =>
    rw [List.foldl_cons]
    unfold destroyIfOwned
    split
    next howned =>
      have hslot : d.Does safe bar (destroySlot i d) :=
        does_destroySlot howned.1 fun hsafe => hdrag hsafe i howned.1 howned.2
      apply hslot.trans
      apply ih
      intro hsafe j hused howner
      obtain ⟨hkeep, hwindows⟩ := destroySlot_windows i d
      rw [hkeep]
      rw [hwindows, update_apply] at hused howner
      split at hused
      · have hunused := congrArg Tag.used (clearedWindow_tag (d.windows i))
        rw [show (clearedWindow (d.windows i)).tag.used = true from hused] at hunused
        cases hunused
      next hne =>
        rw [if_neg hne] at howner
        exact hdrag hsafe j hused howner
    · exact ih d hdrag

/-! ### Titles, flags and places -/

theorem does_setTitle (title : List UInt8) (d : Desktop)
    (hpanel : safe → ∀ i ∈ d.lookup id, d.focused = some i → (guiWindowSetTitle (d.windows i) title).title ≠ panelTitle) :
    d.Does safe bar (guiWindowSetTitleInternal id title d).2 := by
  unfold guiWindowSetTitleInternal
  split
  · exact .refl d
  next i hi =>
    dsimp only
    generalize hnew : guiApplyBuiltinPolicy (guiWindowSetTitle (d.windows i) title) = window
    have hset : d.Does safe bar (d.setWindow i window) := by
      refine Does.update (w := window) rfl rfl ?_ ?_
      · intro _
        rw [← hnew, guiApplyBuiltinPolicy_frame]
        exact .refl
      · have htag : window.tag = { (d.windows i).tag with flags := window.flags } := by
          rw [← hnew]
          exact guiApplyBuiltinPolicy_tag _
        rw [d.roles_setWindow, htag]
        apply ReflTransGen.single
        apply Roles.Change.flagged d.roles i window.flags d.focused (d.lookup_eq_some hi)
        -- A title other than the panel's leaves the flags.
        refine .inl ⟨rfl, fun hsafe hfocused hflags => ?_⟩
        rw [← hnew]
        unfold guiApplyBuiltinPolicy
        rw [if_neg fun h => hpanel hsafe i hi hfocused h.2]
        exact hflags
    have hshape := hset.trans (does_refresh _)
    split
    · exact hshape.trans (does_damageAdd ..)
    · exact hshape

theorem does_setTitleBar (id titleH : ℕ) (d : Desktop)
    (hbar : ∀ i ∈ d.lookup id, bar (d.windows i).frame titleH) :
    d.Does safe bar (guiWindowSetTitleBarInternal id titleH d).2 := by
  unfold guiWindowSetTitleBarInternal
  split
  · exact .refl d
  next i hi =>
    dsimp only
    split
    · exact .refl d
    next hh =>
      have hset : d.Does safe bar (d.setWindow i { d.windows i with titleH }) :=
        .setWindow rfl fun _ => .single (.barred _ (not_le.1 hh) (hbar i hi))
      exact hset.trans ((does_refresh _).trans (does_damageAdd ..))

theorem does_setFlags (flags : BitVec 32) (d : Desktop) :
    d.Does safe bar (guiWindowSetFlagsInternal id flags d).2 := by
  unfold guiWindowSetFlagsInternal
  split
  · exact .refl d
  next i hi =>
    dsimp only
    have hused := d.lookup_eq_some hi
    have hset : d.Does safe bar
        (if flags &&& windowNoFocus ≠ 0 ∧ (d.setWindow i { d.windows i with flags }).focused = some i
          then (guiFocusWindowEnsure { d.setWindow i { d.windows i with flags } with focused := none }).2
          else d.setWindow i { d.windows i with flags }) := by
      split
      · obtain ⟨focused, heq, hfocus⟩ := guiFocusWindowEnsure_eq
          { d.setWindow i { d.windows i with flags } with focused := none }
        rw [heq]
        refine Does.update (w := { d.windows i with flags }) rfl rfl (fun _ => .refl) ?_
        change ReflTransGen _ _ { (d.setWindow i { d.windows i with flags }).roles with focused }
        rw [d.roles_setWindow]
        apply ReflTransGen.single
        apply Roles.Change.flagged d.roles i flags focused hused
        right
        intro j hj
        have hroles := d.roles_setWindow i { d.windows i with flags }
        exact (congrArg (fun r : Roles => (r.tags j).Focusable) hroles).mp (hfocus j hj)
      next hkeep =>
        refine Does.update (w := { d.windows i with flags }) rfl rfl (fun _ => .refl) ?_
        rw [d.roles_setWindow]
        apply ReflTransGen.single
        apply Roles.Change.flagged d.roles i flags d.focused hused
        refine .inl ⟨rfl, fun _ hfocused _ => ?_⟩
        by_contra hno
        exact hkeep ⟨hno, hfocused⟩
    split
    · exact hset.trans ((does_refresh _).trans (does_damageAdd ..))
    · exact hset

theorem does_move (id x y : ℕ) (d : Desktop) : d.Does safe bar (guiMoveWindow id x y d).2 := by
  unfold guiMoveWindow
  split
  · exact .refl d
  next hon =>
    split
    · exact .refl d
    next i hi =>
      have hset : d.Does safe bar (d.setWindow i { d.windows i with x, y }) :=
        .place (fun _ => by omega) (fun _ => by omega)
      exact hset.trans ((does_refresh _).trans (does_damageAdd ..))

/-! ### Backing buffers -/

theorem guiWindowBackingSize_eq (h : guiWindowBackingSize w = some n) :
    n = w.frame.needed ∧ w.titleH < w.h := by
  unfold guiWindowBackingSize at h
  split at h
  · cases h
  · split at h
    · cases h
    next hcontent =>
      rw [contentH_eq] at hcontent h
      dsimp only at h
      split at h
      · cases h
      · cases h
        exact ⟨rfl, by omega⟩

def Window.Backs (w w' : Window) : Prop :=
  w'.tag = w.tag ∧ w.titleH < w.h ∧
    ∃ capacity, w.frame.needed ≤ capacity ∧ w'.frame = { w.frame with capacity := some capacity }

theorem backs_alloc (hsize : guiWindowBackingSize w = some n)
    (h : guiWindowAllocBacking alloc n w = some w') : w.Backs w' := by
  obtain ⟨rfl, ht⟩ := guiWindowBackingSize_eq hsize
  unfold guiWindowAllocBacking at h
  split at h
  · cases h
  · cases h
    exact ⟨rfl, ht, _, le_rfl, rfl⟩

theorem backs_ensure (h : guiWindowEnsureBacking alloc w = some w') : w.Backs w' := by
  unfold guiWindowEnsureBacking at h
  split at h
  · cases h
  next n hsize =>
    split at h
    next b hb =>
      split at h
      next hle =>
        cases h
        obtain ⟨rfl, ht⟩ := guiWindowBackingSize_eq hsize
        refine ⟨rfl, ht, b.capacity, hle, ?_⟩
        simp only [Window.frame, hb, map_some]
      · exact backs_alloc hsize h
    · exact backs_alloc hsize h

theorem backs_reset (h : guiWindowResetBacking alloc w = some w') : w.Backs w' := by
  unfold guiWindowResetBacking at h
  split at h
  · cases h
  next n hsize =>
    split at h
    next b hb =>
      split at h
      next hle =>
        cases h
        obtain ⟨rfl, ht⟩ := guiWindowBackingSize_eq hsize
        exact ⟨rfl, ht, b.capacity, hle, rfl⟩
      · exact backs_alloc hsize h
    · exact backs_alloc hsize h

theorem guiWindowPushEvent_frame (w : Window) (type : EventType) (data1 data2 : ℤ) :
    (guiWindowPushEvent w type data1 data2).frame = w.frame := by
  unfold guiWindowPushEvent
  split <;> rfl

theorem guiWindowPushEvent_tag (w : Window) (type : EventType) (data1 data2 : ℤ) :
    (guiWindowPushEvent w type data1 data2).tag = w.tag := by
  unfold guiWindowPushEvent
  split <;> rfl

theorem setWindow_setWindow (d : Desktop) (i : Fin maxWindows) (w w' : Window) :
    (guiRefreshCursorShape (d.setWindow i w)).setWindow i w' =
      { d.setWindow i w' with cursor := (guiRefreshCursorShape (d.setWindow i w)).cursor } := by
  unfold guiRefreshCursorShape setWindow
  simp only [update_idem]

variable (alloc : Alloc)

theorem does_resize (id x y w h : ℕ) (d : Desktop) :
    d.Does safe bar (guiResizeWindow alloc id x y w h d).2 := by
  unfold guiResizeWindow
  split
  · exact .refl d
  next hfit =>
    obtain ⟨hw, hh, hx, hy⟩ := fits_of_not hfit
    split
    · exact .refl d
    next i hi =>
      dsimp only
      split
      next hsame =>
        obtain ⟨rfl, rfl⟩ := hsame
        have hset : d.Does safe bar (d.setWindow i { d.windows i with x, y }) :=
          .place (fun _ => by omega) (fun _ => by omega)
        exact hset.trans ((does_refresh _).trans (does_damageAdd ..))
      · split
        · rw [setWindow_setWindow]
          have hback : d.Does safe bar (d.setWindow i (d.windows i)) := .keep rfl rfl
          exact hback.trans (.view rfl rfl rfl)
        next window hreset =>
          rw [setWindow_setWindow]
          obtain ⟨htag, ht, capacity, hc, hframe⟩ := backs_reset hreset
          have hset : d.Does safe bar (d.setWindow i (guiWindowPushEvent window .resize w h)) := by
            apply Does.setWindow
            · rw [guiWindowPushEvent_tag, htag]
              rfl
            · intro _
              rw [guiWindowPushEvent_frame, hframe]
              exact .single (.resized _ hw hh hx hy ht hc)
          exact hset.trans (.view rfl rfl rfl)

theorem does_withBacking {paint : Fin maxWindows → Window → Desktop → Desktop} {d : Desktop}
    (hpaint : ∀ (i : Fin maxWindows) (w : Window), (d.setWindow i w).Does safe bar (paint i w (d.setWindow i w))) :
    d.Does safe bar (withBacking alloc id paint d).2 := by
  unfold withBacking
  split
  · exact .refl d
  next i hi =>
    split
    · exact .refl d
    next window hensure =>
      obtain ⟨htag, -, capacity, hc, hframe⟩ := backs_ensure hensure
      have hset : d.Does safe bar (d.setWindow i { window with ownerDrawn := true }) := by
        refine Does.setWindow htag ?_
        intro _
        rw [show ({ window with ownerDrawn := true } : Window).frame = _ from hframe]
        exact .single (.backed _ hc)
      exact hset.trans (hpaint i _)

theorem does_paint (i : Fin maxWindows) (w : Window) (d : Desktop) (strokes : Strokes)
    (x y width h : ℤ) : (d.setWindow i w).Does safe bar
      (((d.setWindow i w).setWindow i (w.draw strokes)).damageAdd x y width h) := by
  have heq : (d.setWindow i w).windows i = w := update_self ..
  refine Does.trans (.keep ?_ ?_) (does_damageAdd ..)
  · rw [heq]
    rfl
  · rw [heq]
    unfold Window.frame Window.draw
    cases w.backing <;> rfl

theorem does_drawText (id : ℕ) (x y : ℤ) (text : List UInt8) (color : Color) (d : Desktop) :
    d.Does safe bar (guiWindowDrawText alloc id x y text color d).2 := by
  apply does_withBacking
  intro i w
  dsimp only
  split
  · exact .refl _
  · exact does_paint ..

theorem does_drawRect (id : ℕ) (x y : ℤ) (w h : ℕ) (color : Color) (d : Desktop) :
    d.Does safe bar (guiWindowDrawRect alloc id x y w h color d).2 := by
  unfold guiWindowDrawRect
  split
  · exact .refl d
  · split
    · exact .refl d
    · apply does_withBacking
      intro i w
      dsimp only
      split
      · exact .refl _
      · exact does_paint ..

/-! ### Minimise and restore -/

theorem does_minimize (d : Desktop) : d.Does safe bar (guiWindowMinimize id d).2 := by
  unfold guiWindowMinimize
  split
  · exact .refl d
  next i hi =>
    dsimp only
    split
    · exact .refl d
    · refine Does.trans (.keep ?_ ?_) (does_requestRedraw _)
      · rw [guiWindowPushEvent_tag]
        rfl
      · rw [guiWindowPushEvent_frame]
        rfl

theorem does_restore (d : Desktop) : d.Does safe bar (guiWindowRestore id d).2 := by
  unfold guiWindowRestore
  split
  · exact .refl d
  next i hi =>
    dsimp only
    split
    · refine Does.trans (does_raise (d.lookup_eq_some hi) ?_ ?_ ?_) (does_requestRedraw _)
      · rw [guiWindowPushEvent_frame]
        rfl
      · rw [guiWindowPushEvent_tag]
        rfl
      · split
        next hfocus => exact .inr ⟨rfl, hfocus⟩
        · exact .inl rfl
    · exact .refl d

/-! ### Cursor and input -/

theorem does_setRegion (i : Fin maxWindows) (slot : Fin maxCursorRegions) (region : CursorRegion)
    (d : Desktop) : d.Does safe bar (setRegion i slot region d) := by
  unfold setRegion
  dsimp only
  have hset : d.Does safe bar (d.setWindow i { d.windows i with
      cursorRegions := update (d.windows i).cursorRegions slot region }) := .keep rfl rfl
  split
  · exact hset.trans (does_refresh _)
  · exact hset

theorem does_registerRegion (id slot : ℕ) (x y : ℤ) (w h : ℕ) (shape : BitVec 32) (d : Desktop) :
    d.Does safe bar (guiRegisterCursorRegion id slot x y w h shape d).2 := by
  unfold guiRegisterCursorRegion
  split
  · split
    · exact .refl d
    · split
      · exact does_setRegion ..
      · split
        · exact .refl d
        · split
          · exact .refl d
          · exact does_setRegion ..
  · exact .refl d

theorem does_setCursorShape (shape : BitVec 32) (d : Desktop) :
    d.Does safe bar (guiSetCursorShape shape d).2 := by
  unfold guiSetCursorShape
  split
  · exact .refl d
  · exact .view rfl rfl rfl

theorem does_popEvent (d : Desktop) : d.Does safe bar (guiWindowPopEvent id d) := by
  unfold guiWindowPopEvent
  split
  · exact .refl d
  · exact .keep rfl rfl

theorem clampCursor_mem (hsize : 0 < size) (x : ℤ) :
    0 ≤ clampCursor size x ∧ clampCursor size x < size := by
  unfold clampCursor
  dsimp only
  split <;> split <;> omega

theorem does_setCursor (x y : ℤ) (d : Desktop) : d.Does safe bar (guiSetCursor x y d) := by
  have hx := clampCursor_mem d.screen.width_pos x
  have hy := clampCursor_mem d.screen.height_pos y
  refine ⟨rfl, fun hp => ?_, fun _ _ => .refl, .refl⟩
  exact ⟨hx.1, hx.2, hy.1, hy.2, hp.offX, hp.offY⟩

theorem does_dragUpdate (d : Desktop) :
    d.Does safe bar (guiDragUpdate d.cursor.x d.cursor.y d) := by
  unfold guiDragUpdate
  split
  · exact .refl d
  next i hi =>
    dsimp only
    split
    · have hset : d.Does safe bar (d.setWindow i { d.windows i with
          x := (max (d.cursor.x - d.dragOffX) 0).toNat
          y := (max (d.cursor.y - d.dragOffY) 0).toNat }) := by
        apply Does.place
        · intro hp
          have := hp.x_nonneg
          have := hp.x_lt
          have := hp.offX
          omega
        · intro hp
          have := hp.y_nonneg
          have := hp.y_lt
          have := hp.offY
          omega
      exact hset.trans (.view rfl rfl rfl)
    · exact ⟨rfl, .of_eq rfl, fun _ _ => .refl, .single (.released d.roles)⟩

/-- The window is seen at the point, unless another one is on top. -/
def Desktop.HitAt (d : Desktop) (x y : ℤ) (i : Fin maxWindows) : Prop :=
  (d.windows i).minimized = false ∧ (d.windows i).Contains x y

theorem hitStep_selects (d : Desktop) (x y : ℤ) :
    Selects (hitStep d x y) (d.HitAt x y) fun b j => (d.windows j).z ≤ (d.windows b).z where
  source best i b hb := by
    unfold hitStep at hb
    split_ifs at hb with hmin hcontains
    · exact .inl hb
    · have hi : d.HitAt x y i := ⟨by simpa using hmin, hcontains⟩
      split at hb
      · exact .inr ⟨(some.inj hb).symm, hi⟩
      · split_ifs at hb
        · exact .inr ⟨(some.inj hb).symm, hi⟩
        · exact .inl hb
    · exact .inl hb
  best best i j hj := by
    unfold hitStep
    split_ifs with hmin hcontains
    · exact ⟨j, hj.resolve_right fun ⟨_, hi⟩ => by simp [hi.1] at hmin, le_rfl⟩
    · split
      · rcases hj with hj | ⟨rfl, -⟩
        · cases hj
        · exact ⟨j, rfl, le_rfl⟩
      next b =>
        split_ifs with hle
        · rcases hj with hj | ⟨rfl, -⟩
          · exact ⟨i, rfl, some.inj hj ▸ hle⟩
          · exact ⟨j, rfl, le_rfl⟩
        · rcases hj with hj | ⟨rfl, -⟩
          · exact ⟨j, hj, le_rfl⟩
          · exact ⟨b, rfl, (not_le.mp hle).le⟩
    · exact ⟨j, hj.resolve_right fun ⟨_, hi⟩ => hcontains hi.2, le_rfl⟩

theorem guiHitTest_spec (d : Desktop) (x y : ℤ) : (∀ hit ∈ guiHitTest d x y, d.HitAt x y hit ∧
        ∀ j, d.HitAt x y j → (d.windows j).z ≤ (d.windows hit).z) ∧
      (guiHitTest d x y = none → ∀ j, ¬ d.HitAt x y j) :=
  (hitStep_selects d x y).all (fun _ => le_rfl) (fun h h' => h'.trans h) List.mem_finRange

theorem guiHitTest_contains {x y : ℤ} (h : guiHitTest d x y = some hit) :
    (d.windows hit).Contains x y := ((guiHitTest_spec d x y).1 hit h).1.2

theorem does_cursorButton (button pressed : BitVec 32) (d : Desktop) :
    d.Does safe bar (guiCursorButton button pressed d) := by
  unfold guiCursorButton
  split
  · exact .refl d
  · dsimp only
    have hmask (mask : BitVec 8) : d.Does safe bar { d with cursor.buttonsMask := mask } :=
      .view rfl rfl rfl
    split
    · exact hmask _
    · split
      next hit hhit => exact (hmask _).trans (does_focusSlot (guiHitTest_contains hhit).1)
      · apply (hmask _).trans
        exact ⟨rfl, .of_eq rfl, fun _ _ => .refl, .single (.focused _ none (by simp))⟩

theorem does_dragStart (hcontains : (d.windows i).Contains d.cursor.x d.cursor.y) : d.Does safe bar
      (guiDragStart i (d.cursor.x - (d.windows i).x) (d.cursor.y - (d.windows i).y) d) := by
  unfold guiDragStart
  dsimp only
  split
  · exact .refl d
  · split
    · exact .refl d
    · refine ⟨rfl, fun hp => ?_, fun _ _ => .refl, .single (.grabbed d.roles i hcontains.1)⟩
      obtain ⟨-, hx, -, hy, -⟩ := hcontains
      exact ⟨hp.x_nonneg, hp.x_lt, hp.y_nonneg, hp.y_lt, by dsimp only; omega, by dsimp only; omega⟩

theorem does_press {ownerDead : Bool} (hcontains : (d.windows hit).Contains d.cursor.x d.cursor.y)
    (hdrag : safe → guiHitTestDecoration (d.windows hit) d.cursor.x d.cursor.y = some .close →
      (d.windows hit).ownerPid ≠ noOwner → ownerDead = true → d.drag ≠ some hit) :
    d.Does safe bar (pressWindow ownerDead hit d) := by
  unfold pressWindow
  dsimp only
  split
  next hclose =>
    split
    next hdead =>
      apply does_destroy
      intro hsafe i hi
      have hslot : hit = i := by
        unfold lookup at hi
        rw [dif_pos hit.isLt, if_pos hcontains.1] at hi
        exact some.inj hi
      subst hslot
      exact hdrag hsafe hclose hdead.1 hdead.2
    · exact does_pushEvent ..
  · exact does_minimize ..
  · exact does_pushEvent ..
  · exact (does_dragStart hcontains).trans (does_pushEvent ..)

theorem does_key (type : EventType) (key : ℤ) (d : Desktop) : d.Does safe bar (match d.focused with
    | some i => d.pushEvent i type key 0
    | none => d) := by
  split
  · exact does_pushEvent ..
  · exact .refl d

end Does

/-! ### Steps and runs -/

/-- The window that a press on its close button destroys, since its owner is dead. -/
def pressDestroys (ownerDead : Bool) (event : Input.InputEvent) (d : Desktop) : Option (Fin maxWindows) :=
  match event.data with
  | .mouseButton button pressed =>
    let d := guiCursorButton button pressed d
    if button = 0 ∧ pressed ≠ 0 then
      (guiHitTest d d.cursor.x d.cursor.y).filter fun hit =>
        guiHitTestDecoration (d.windows hit) d.cursor.x d.cursor.y = some .close ∧
          (d.windows hit).ownerPid ≠ noOwner ∧ ownerDead = true
    else none
  | _ => none

def Op.SparesDragged (d : Desktop) : Op → Prop
  | .destroy id => ∀ i ∈ d.lookup id, d.drag ≠ some i
  | .destroyForPid pid => pid ≠ noOwner →
      ∀ i, (d.windows i).used = true → (d.windows i).ownerPid = pid → d.drag ≠ some i
  | .input ownerDead event => ∀ i ∈ pressDestroys ownerDead event d, d.drag ≠ some i
  | _ => True

/-- The step does not give the window that has the focus the title of the panel. -/
def Op.SparesFocused (d : Desktop) : Op → Prop
  | .setTitle id title => ∀ i ∈ d.lookup id, d.focused = some i →
      (guiWindowSetTitle (d.windows i) title).title ≠ panelTitle
  | _ => True

/-- A title bar is only set to heights that `bar` allows. -/
def Op.Bars (bar : Frame → ℕ → Prop) (d : Desktop) : Op → Prop
  | .setTitleBar id titleH => ∀ i ∈ d.lookup id, bar (d.windows i).frame titleH
  | _ => True

variable {C : Desktop → Op → Prop} {ops : List Op}

section Step
variable {safe : Prop} {bar : Frame → ℕ → Prop} {d : Desktop} {op : Op}

/-- The window that is dragged, and where the cursor is. -/
def Desktop.hand (d : Desktop) : Option (Fin maxWindows) × ℤ × ℤ := (d.drag, d.cursor.x, d.cursor.y)

theorem focusSlot_hand (i : Fin maxWindows) (d : Desktop) : (focusSlot i d).hand = d.hand := by
  unfold focusSlot
  dsimp only
  split
  · rfl
  · split
    · rfl
    · split <;> rfl

theorem guiCursorButton_hand (button pressed : BitVec 32) (d : Desktop) :
    (guiCursorButton button pressed d).hand = d.hand := by
  unfold guiCursorButton
  split
  · rfl
  · dsimp only
    split
    · rfl
    · split
      · exact focusSlot_hand ..
      · rfl

theorem does_input (ownerDead : Bool) (event : Input.InputEvent) (d : Desktop)
    (hdrag : safe → ∀ i ∈ pressDestroys ownerDead event d, d.drag ≠ some i) :
    d.Does safe bar (guiHandleDesktopInput ownerDead event d) := by
  unfold guiHandleDesktopInput
  unfold pressDestroys at hdrag
  split
  next dx dy _ =>
    have hmove : d.Does safe bar (guiCursorMove dx dy d) := does_setCursor ..
    have hmoved := hmove.trans (does_dragUpdate _)
    dsimp only
    unfold dispatchMouseMove
    split
    · exact hmoved
    · exact hmoved.trans (does_pushEvent ..)
  next button pressed hdata =>
    rw [hdata] at hdrag
    have hbutton : d.Does safe bar (guiCursorButton button pressed d) := does_cursorButton ..
    dsimp only at hdrag ⊢
    split
    next hleft =>
      split
      next hpressed =>
        split
        next hit hhit =>
          apply hbutton.trans
          apply does_press (guiHitTest_contains hhit)
          intro hsafe hclose howner hdead
          rw [show (guiCursorButton _ _ d).drag = d.drag from congrArg Prod.fst (guiCursorButton_hand ..)]
          apply hdrag hsafe
          rw [if_pos ⟨hleft, hpressed⟩, hhit]
          simp [hclose, howner, hdead]
        · exact hbutton
      · exact hbutton.trans ⟨rfl, .of_eq rfl, fun _ _ => .refl, .single (.released _)⟩
    · exact hbutton
  · exact (does_focusEnsure d).trans (does_key ..)
  · exact does_key ..

theorem does_step (hdrag : safe → op.SparesDragged d) (hfocus : safe → op.SparesFocused d)
    (hbar : op.Bars bar d) : d.Does safe bar (d.step op) := by
  cases op with
  | create => exact does_create ..
  | destroy id => exact does_destroy id d hdrag
  | destroyForPid pid =>
    change d.Does safe bar (if pid = noOwner then d else _)
    split
    · exact .refl d
    next hpid => exact does_destroyOwned pid _ d fun hsafe => hdrag hsafe hpid
  | setTitle id title => exact does_setTitle id title d hfocus
  | setTitleBar id titleH => exact does_setTitleBar id titleH d hbar
  | setFlags => exact does_setFlags ..
  | move => exact does_move ..
  | resize => exact does_resize ..
  | minimize => exact does_minimize ..
  | restore => exact does_restore ..
  | focus => exact does_focus ..
  | focusEnsure => exact does_focusEnsure d
  | drawText => exact does_drawText ..
  | drawRect => exact does_drawRect ..
  | clear => exact does_withBacking _ _ fun _ _ => does_paint ..
  | setCursorShape => exact does_setCursorShape ..
  | registerRegion => exact does_registerRegion ..
  | popEvent => exact does_popEvent ..
  | input ownerDead event => exact does_input ownerDead event d hdrag
  | damage => exact does_damageAdd ..
  | requestRedraw => exact does_requestRedraw d
  | redrawn => exact .view rfl rfl rfl

def Desktop.Meets (C : Desktop → Op → Prop) : Desktop → List Op → Prop
  | _, [] => True
  | d, op :: ops => C d op ∧ Meets C (d.step op) ops

theorem Desktop.meets_of_forall (h : ∀ d op, C d op) (d : Desktop)
    (ops : List Op) : d.Meets C ops := by
  induction ops generalizing d with
  | nil => trivial
  | cons op ops ih => exact ⟨h d op, ih _⟩

theorem Op.bars_true (d : Desktop) (op : Op) : op.Bars (fun _ _ => True) d := by
  cases op <;> simp [Op.Bars]

theorem Desktop.run_induction {P : Desktop → Prop}
    (hstep : ∀ d op, C d op → P d → P (d.step op)) (hmeets : d.Meets C ops) (h : P d) : P (d.run ops) := by
  induction ops generalizing d with
  | nil => exact h
  | cons op ops ih => exact ih hmeets.2 (hstep d op hmeets.1 h)

def tinyScreen : Screen := ⟨4, 4, by decide, by decide, by decide, by decide⟩

theorem init_pointerOk (s : Screen) : (init s).PointerOk := by
  have hw := s.width_pos
  have hh := s.height_pos
  constructor <;> simp only [init] <;> omega

/-- The pointer is where it can be after every run, and what every change of a frame keeps holds of all
frames. -/
theorem frames_run {bar : Frame → ℕ → Prop} {P : Frame → Prop}
    (hP : ∀ f f', Frame.Change s bar f f' → P f → P f') (hempty : P Window.empty.frame)
    (hmeets : (init s).Meets (fun d op => op.Bars bar d) ops) :
    let d := (init s).run ops
    d.screen = s ∧ d.PointerOk ∧ ∀ i, P (d.windows i).frame := by
  refine run_induction (P := fun d => d.screen = s ∧ d.PointerOk ∧ ∀ i, P (d.windows i).frame)
    ?_ hmeets ⟨rfl, init_pointerOk s, fun _ => hempty⟩
  intro d op hbar ⟨hscreen, hpointer, hframes⟩
  have hdoes := does_step False.elim False.elim hbar
  refine ⟨hdoes.screen.trans hscreen, hdoes.pointer hpointer, fun i => ?_⟩
  have hsteps := hdoes.frames hpointer i
  rw [hscreen] at hsteps
  generalize ((d.step op).windows i).frame = f at hsteps ⊢
  induction hsteps with
  | refl => exact hframes i
  | tail _ hchange ih => exact hP _ _ hchange ih

end Step
end Gui
