import ArmoniOS.Gui.Input

/-! What a step of the desktop can do, said once for all invariants: the changes of the frame of one
window, the changes of the roles of the windows (use, stacking, focus, drag), and where the pointer can
be. -/
namespace Gui

open Function
open Relation (ReflTransGen)

/-! ### Frames -/

/-- The box of a window, its title bar and the bytes of its backing buffer. -/
structure Frame where
  used : Bool
  x : ℕ
  y : ℕ
  w : ℕ
  h : ℕ
  titleH : ℕ
  capacity : Option ℕ
  deriving DecidableEq

def Window.frame (w : Window) : Frame :=
  ⟨w.used, w.x, w.y, w.w, w.h, w.titleH, w.backing.map Backing.capacity⟩

def Frame.needed (f : Frame) : ℕ := f.w * (f.h - f.titleH) * 4

/-- The changes of a frame. `bar` says which heights a title bar can be set to. -/
inductive Frame.Change (s : Screen) (bar : Frame → ℕ → Prop) : Frame → Frame → Prop
  | opened (f : Frame) {x y w h : ℕ} (hw : 2 ≤ w) (hh : 2 ≤ h) (hx : x + w ≤ s.width)
      (hy : y + h ≤ s.height) : Change s bar f ⟨true, x, y, w, h, 0, none⟩
  | closed (f : Frame) : Change s bar f ⟨false, 0, 0, 0, 0, 0, none⟩
  | barred (f : Frame) {titleH : ℕ} (hh : titleH < f.h) (hbar : bar f titleH) :
      Change s bar f { f with titleH }
  | placed (f : Frame) {x y : ℕ} (hx : x < s.width) (hy : y < s.height) : Change s bar f { f with x, y }
  | resized (f : Frame) {x y w h capacity : ℕ} (hw : 2 ≤ w) (hh : 2 ≤ h) (hx : x + w ≤ s.width)
      (hy : y + h ≤ s.height) (ht : f.titleH < h) (hc : w * (h - f.titleH) * 4 ≤ capacity) :
      Change s bar f { f with x, y, w, h, capacity := some capacity }
  | backed (f : Frame) {capacity : ℕ} (hc : f.needed ≤ capacity) :
      Change s bar f { f with capacity := some capacity }

/-! ### Roles -/

structure Tag where
  used : Bool
  z : ℕ
  flags : BitVec 32
  serial : ℕ
  deriving DecidableEq

def Window.tag (w : Window) : Tag := ⟨w.used, w.z, w.flags, w.serial⟩

def Tag.Focusable (t : Tag) : Prop := t.used = true ∧ t.flags &&& windowNoFocus = 0

structure Roles where
  tags : Fin maxWindows → Tag
  focused : Option (Fin maxWindows)
  drag : Option (Fin maxWindows)
  nextZ : ℕ
  births : ℕ
  dragSerial : ℕ

def Desktop.roles (d : Desktop) : Roles :=
  ⟨fun i => (d.windows i).tag, d.focused, d.drag, d.nextZ, d.births, d.dragSerial⟩

def Roles.FocusOk (r : Roles) : Prop := ∀ i ∈ r.focused, (r.tags i).Focusable

def Roles.setTag (r : Roles) (i : Fin maxWindows) (t : Tag) : Roles :=
  { r with tags := update r.tags i t }

theorem Roles.setTag_apply (r : Roles) (i j : Fin maxWindows) (t : Tag) :
    (r.setTag i t).tags j = if j = i then t else r.tags j := update_apply ..

/-- The changes of the roles. Under `safe` no window that is dragged is closed, and no window that has the
focus gets the flag against it without a new choice of the focus. -/
inductive Roles.Change (safe : Prop) : Roles → Roles → Prop
  | opened (r : Roles) (i : Fin maxWindows) (flags : BitVec 32) (hi : (r.tags i).used = false) :
      Change safe r { r.setTag i ⟨true, r.nextZ % 2 ^ 32, flags, r.births⟩ with
        nextZ := r.nextZ + 1, births := r.births + 1 }
  | closed (r : Roles) (i : Fin maxWindows) (focused : Option (Fin maxWindows))
      (hi : (r.tags i).used = true) (hdrag : safe → r.drag ≠ some i)
      (hfocus : focused = r.focused ∧ r.focused ≠ some i ∨
        ∀ j ∈ focused, j ≠ i ∧ (r.tags j).Focusable) :
      Change safe r { r.setTag i ⟨false, 0, 0, (r.tags i).serial⟩ with focused }
  | flagged (r : Roles) (i : Fin maxWindows) (flags : BitVec 32) (focused : Option (Fin maxWindows))
      (hi : (r.tags i).used = true)
      (hfocus : focused = r.focused ∧ (safe → r.focused = some i →
          (r.tags i).flags &&& windowNoFocus = 0 → flags &&& windowNoFocus = 0) ∨
        { r.setTag i { r.tags i with flags } with focused }.FocusOk) :
      Change safe r { r.setTag i { r.tags i with flags } with focused }
  | raised (r : Roles) (i : Fin maxWindows) (hi : (r.tags i).used = true) :
      Change safe r { r.setTag i { r.tags i with z := r.nextZ % 2 ^ 32 } with nextZ := r.nextZ + 1 }
  | focused (r : Roles) (focused : Option (Fin maxWindows)) (h : ∀ i ∈ focused, (r.tags i).Focusable) :
      Change safe r { r with focused }
  | grabbed (r : Roles) (i : Fin maxWindows) (hi : (r.tags i).used = true) :
      Change safe r { r with drag := some i, dragSerial := (r.tags i).serial }
  | released (r : Roles) : Change safe r { r with drag := none }

/-! ### The pointer -/

/-- The cursor is on the screen, and a window is dragged at a point right of and below its corner. -/
structure Desktop.PointerOk (d : Desktop) : Prop where
  x_nonneg : 0 ≤ d.cursor.x
  x_lt : d.cursor.x < d.screen.width
  y_nonneg : 0 ≤ d.cursor.y
  y_lt : d.cursor.y < d.screen.height
  offX : 0 ≤ d.dragOffX
  offY : 0 ≤ d.dragOffY

def Desktop.pointer (d : Desktop) : Screen × ℤ × ℤ × ℤ × ℤ :=
  (d.screen, d.cursor.x, d.cursor.y, d.dragOffX, d.dragOffY)

theorem Desktop.PointerOk.of_eq {d d' : Desktop} (heq : d'.pointer = d.pointer) (h : d.PointerOk) :
    d'.PointerOk := by
  simp only [Desktop.pointer, Prod.mk.injEq] at heq
  obtain ⟨hscreen, hx, hy, hoffX, hoffY⟩ := heq
  constructor
  · rw [hx]; exact h.x_nonneg
  · rw [hx, hscreen]; exact h.x_lt
  · rw [hy]; exact h.y_nonneg
  · rw [hy, hscreen]; exact h.y_lt
  · rw [hoffX]; exact h.offX
  · rw [hoffY]; exact h.offY

structure Desktop.Does (safe : Prop) (bar : Frame → ℕ → Prop) (d d' : Desktop) : Prop where
  screen : d'.screen = d.screen
  pointer : d.PointerOk → d'.PointerOk
  frames : d.PointerOk → ∀ i, ReflTransGen (Frame.Change d.screen bar) (d.windows i).frame
    (d'.windows i).frame
  roles : ReflTransGen (Roles.Change safe) d.roles d'.roles

section Does
variable {safe : Prop} {bar : Frame → ℕ → Prop} {d d' d'' : Desktop} {i : Fin maxWindows} {w : Window}

theorem Desktop.Does.refl (d : Desktop) : d.Does safe bar d := ⟨rfl, id, fun _ _ => .refl, .refl⟩

theorem Desktop.Does.trans (h : d.Does safe bar d') (h' : d'.Does safe bar d'') : d.Does safe bar d'' where
  screen := h'.screen.trans h.screen
  pointer hp := h'.pointer (h.pointer hp)
  frames hp i := by
    have hnext := h'.frames (h.pointer hp) i
    rw [h.screen] at hnext
    exact (h.frames hp i).trans hnext
  roles := h.roles.trans h'.roles

theorem Desktop.Does.update (hpointer : d'.pointer = d.pointer)
    (hwindows : d'.windows = update d.windows i w)
    (hframe : d.PointerOk → ReflTransGen (Frame.Change d.screen bar) (d.windows i).frame w.frame)
    (hroles : ReflTransGen (Roles.Change safe) d.roles d'.roles) : d.Does safe bar d' where
  screen := congrArg Prod.fst hpointer
  pointer := .of_eq hpointer
  frames hp j := by
    rw [hwindows, update_apply]
    split
    next hj =>
      subst hj
      exact hframe hp
    · exact .refl
  roles := hroles

theorem Desktop.Does.view (hpointer : d'.pointer = d.pointer) (hwindows : d'.windows = d.windows)
    (hroles : d'.roles = d.roles) : d.Does safe bar d' where
  screen := congrArg Prod.fst hpointer
  pointer := .of_eq hpointer
  frames _ j := by rw [hwindows]
  roles := by rw [hroles]

theorem Desktop.roles_setWindow (d : Desktop) (i : Fin maxWindows) (w : Window) :
    (d.setWindow i w).roles = d.roles.setTag i w.tag := by
  have htags : (fun j => ((d.setWindow i w).windows j).tag) = update d.roles.tags i w.tag := by
    funext j
    unfold Desktop.setWindow
    dsimp only
    rw [update_apply, update_apply]
    split <;> rfl
  unfold Desktop.roles Roles.setTag
  rw [htags]
  rfl

theorem Desktop.Does.setWindow (htag : w.tag = (d.windows i).tag)
    (hframe : d.PointerOk → ReflTransGen (Frame.Change d.screen bar) (d.windows i).frame w.frame) :
    d.Does safe bar (d.setWindow i w) := by
  have hroles : (d.setWindow i w).roles = d.roles := by
    rw [d.roles_setWindow, htag]
    unfold Roles.setTag
    rw [show (d.windows i).tag = d.roles.tags i from rfl, update_eq_self]
  exact .update rfl rfl hframe (by rw [hroles])

theorem Desktop.Does.keep (htag : w.tag = (d.windows i).tag) (hframe : w.frame = (d.windows i).frame) :
    d.Does safe bar (d.setWindow i w) :=
  Does.setWindow htag fun _ => by rw [hframe]

theorem Desktop.Does.place {x y : ℕ} (hx : d.PointerOk → x < d.screen.width)
    (hy : d.PointerOk → y < d.screen.height) :
    d.Does safe bar (d.setWindow i { d.windows i with x, y }) :=
  Does.setWindow rfl fun hp => .single (.placed (d.windows i).frame (hx hp) (hy hp))

theorem does_refresh (d : Desktop) : d.Does safe bar (guiRefreshCursorShape d) := .view rfl rfl rfl

theorem does_damageAdd (d : Desktop) (x y w h : ℤ) : d.Does safe bar (d.damageAdd x y w h) :=
  .view rfl rfl rfl

theorem does_requestRedraw (d : Desktop) : d.Does safe bar (guiRequestRedraw d) := .view rfl rfl rfl

theorem does_pushEvent (d : Desktop) (i : Fin maxWindows) (type : EventType) (data1 data2 : ℤ) :
    d.Does safe bar (d.pushEvent i type data1 data2) := by
  apply Desktop.Does.keep
  · unfold guiWindowPushEvent
    split <;> rfl
  · unfold guiWindowPushEvent
    split <;> rfl

end Does
end Gui
