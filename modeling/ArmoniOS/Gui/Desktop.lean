import ArmoniOS.Gui.Damage
import ArmoniOS.Gui.Events
import ArmoniOS.Gui.Framebuffer

/-! The desktop of `gui.h`: a pool of sixteen windows, the cursor and the damage. Sizes and positions of
windows are numbers below the size of the framebuffer, so that they are the same as `uint32_t` and as
`int32_t`. -/
namespace Gui
open StoreLog

def maxWindows : ℕ := 16

instance neZeroMaxWindows : NeZero maxWindows := ⟨by decide⟩

def cursorW : ℕ := 16
def cursorH : ℕ := 16
def titleLen : ℕ := 32
def maxCursorRegions : ℕ := 8

def noOwner : BitVec 32 := 0xffffffff

def windowNoFocus : BitVec 32 := 1 <<< 0
def windowNoDrag : BitVec 32 := 1 <<< 1
def windowSkipTaskbar : BitVec 32 := 1 <<< 2
def windowDock : BitVec 32 := 1 <<< 3

inductive CursorShape where
  | arrow
  | hand
  deriving DecidableEq

structure CursorRegion where
  x : ℤ
  y : ℤ
  w : ℤ
  h : ℤ
  shape : CursorShape
  used : Bool
  deriving DecidableEq

def CursorRegion.unused : CursorRegion := ⟨0, 0, 0, 0, .arrow, false⟩

/-- A backing buffer: the bytes that were allocated, and the pixels in memory from its start on. -/
structure Backing where
  capacity : ℕ
  pixels : ℕ → Color

/-- `gui_window_t`. The serial number tells apart the windows that use a slot one after another; no
function reads it. -/
structure Window where
  x : ℕ
  y : ℕ
  w : ℕ
  h : ℕ
  bgColor : Color
  borderColor : Color
  ownerPid : BitVec 32
  z : ℕ
  flags : BitVec 32
  titleH : ℕ
  title : List UInt8
  events : EventRing
  used : Bool
  ownerDrawn : Bool
  minimized : Bool
  backing : Option Backing
  cursorRegions : Fin maxCursorRegions → CursorRegion
  serial : ℕ

structure Cursor where
  x : ℤ
  y : ℤ
  prevX : ℤ
  prevY : ℤ
  buttonsMask : BitVec 8
  visible : Bool
  shape : CursorShape
  deriving DecidableEq

/-- `gui_desktop_t` of the active GUI. `GUI_NO_WINDOW` is `none`. The stacking counter goes on counting where
`next_z` wraps; the windows get it modulo `2 ^ 32`. `births` numbers the windows and `dragSerial` is the
number of the window on which the drag was started; no function reads them. -/
structure Desktop where
  screen : Screen
  backgroundColor : Color
  focused : Option (Fin maxWindows)
  nextZ : ℕ
  drag : Option (Fin maxWindows)
  dragOffX : ℤ
  dragOffY : ℤ
  windows : Fin maxWindows → Window
  cursor : Cursor
  damage : Damage
  births : ℕ
  dragSerial : ℕ

def Screen.fb (s : Screen) : Fb := ⟨s.width, s.height⟩

def Window.empty : Window where
  x := 0
  y := 0
  w := 0
  h := 0
  bgColor := 0
  borderColor := 0
  ownerPid := noOwner
  z := 0
  flags := 0
  titleH := 0
  title := []
  events := EventRing.empty
  used := false
  ownerDrawn := false
  minimized := false
  backing := none
  cursorRegions := fun _ => CursorRegion.unused
  serial := 0

/-- The desktop as `gui_init_for_framebuffer` leaves it. -/
def Desktop.init (screen : Screen) : Desktop where
  screen := screen
  backgroundColor := 0xff202428
  focused := none
  nextZ := 1
  drag := none
  dragOffX := 0
  dragOffY := 0
  windows := fun _ => Window.empty
  cursor := ⟨(screen.width / 2 : ℕ), (screen.height / 2 : ℕ), (screen.width / 2 : ℕ),
    (screen.height / 2 : ℕ), 0, true, .arrow⟩
  damage := ⟨[], false, false⟩
  births := 0
  dragSerial := 0

def Desktop.setWindow (d : Desktop) (i : Fin maxWindows) (w : Window) : Desktop :=
  { d with windows := Function.update d.windows i w }

def Desktop.damageAdd (d : Desktop) (x y w h : ℤ) : Desktop :=
  { d with damage := guiDamageAdd d.screen d.damage x y w h }

/-- `gui_request_redraw` while the GUI is active. -/
def guiRequestRedraw (d : Desktop) : Desktop := { d with damage := guiDamageAddFull d.damage }

def Desktop.lookup (d : Desktop) (id : ℕ) : Option (Fin maxWindows) :=
  if h : id < maxWindows then if (d.windows ⟨id, h⟩).used then some ⟨id, h⟩ else none else none

/-! ### Hit test and the shape of the cursor -/

def Window.Contains (w : Window) (x y : ℤ) : Prop :=
  w.used = true ∧ (w.x : ℤ) ≤ x ∧ x < w.x + w.w ∧ (w.y : ℤ) ≤ y ∧ y < w.y + w.h
deriving Decidable

/-- One step of the loop of `gui_hit_test`; `best_z` is the `z` of the best window so far. -/
def hitStep (d : Desktop) (x y : ℤ) (best : Option (Fin maxWindows)) (i : Fin maxWindows) :
    Option (Fin maxWindows) :=
  if (d.windows i).minimized then best
  else if (d.windows i).Contains x y then
    match best with
    | none => some i
    | some b => if (d.windows b).z ≤ (d.windows i).z then some i else some b
  else best

def guiHitTest (d : Desktop) (x y : ℤ) : Option (Fin maxWindows) :=
  (List.finRange maxWindows).foldl (hitStep d x y) none

def CursorRegion.Contains (r : CursorRegion) (contentX contentY : ℤ) : Prop :=
  0 < r.w ∧ 0 < r.h ∧ r.x ≤ contentX ∧ contentX < r.x + r.w ∧ r.y ≤ contentY ∧ contentY < r.y + r.h
deriving Decidable

/-- The shape that the window asks for at a position of the cursor inside it. -/
def Window.cursorShape (w : Window) (cursorX cursorY : ℤ) : CursorShape :=
  let contentX := cursorX - w.x
  let contentY := cursorY - (w.y + w.titleH)
  match (List.finRange maxCursorRegions).find? fun i =>
      (w.cursorRegions i).used && decide ((w.cursorRegions i).Contains contentX contentY) with
  | some i => (w.cursorRegions i).shape
  | none =>
    if 0 < w.titleH ∧ w.title ≠ [] ∧ (w.y : ℤ) ≤ cursorY ∧ cursorY < w.y + w.titleH then .hand
    else .arrow

def guiRefreshCursorShape (d : Desktop) : Desktop :=
  { d with cursor.shape := match guiHitTest d d.cursor.x d.cursor.y with
      | none => .arrow
      | some hit => (d.windows hit).cursorShape d.cursor.x d.cursor.y }

/-! ### Backing buffers -/

def Window.contentH (w : Window) : ℕ := if w.titleH < w.h then w.h - w.titleH else 0

theorem contentH_eq (w : Window) : w.contentH = w.h - w.titleH := by
  unfold Window.contentH
  split <;> omega

/-- The size of `gui_window_backing_fb`; its rows are as long as the window is wide. -/
def guiWindowBackingFb (w : Window) : Fb := ⟨w.w, w.contentH⟩

/-- Stores into a framebuffer in memory, with rows of `stride` pixels. -/
def Backing.draw (b : Backing) (stride : ℕ) (strokes : Strokes) : Backing :=
  { b with pixels := write b.pixels (strokes.map fun e => (e.1.2 * stride + e.1.1, e.2)) }

def guiWindowBackingSize (w : Window) : Option ℕ :=
  if w.w = 0 ∨ w.h = 0 then none
  else if w.contentH = 0 then none
  else
    let bytes := w.w * w.contentH * 4
    if 2 ^ 32 - 1 < bytes then none else some bytes

def Window.fillBacking (w : Window) (b : Backing) : Backing :=
  b.draw w.w (fbFillrect (guiWindowBackingFb w) 0 0 w.w w.contentH w.bgColor)

/-- The memory that `kmalloc` finds, or its failure. -/
abbrev Alloc := Option (ℕ → Color)

def guiWindowAllocBacking (alloc : Alloc) (needed : ℕ) (w : Window) : Option Window :=
  match alloc with
  | none => none
  | some memory => some { w with backing := some (w.fillBacking ⟨needed, memory⟩) }

def guiWindowEnsureBacking (alloc : Alloc) (w : Window) : Option Window :=
  match guiWindowBackingSize w with
  | none => none
  | some needed =>
    match w.backing with
    | some b => if needed ≤ b.capacity then some w else guiWindowAllocBacking alloc needed w
    | none => guiWindowAllocBacking alloc needed w

def guiWindowResetBacking (alloc : Alloc) (w : Window) : Option Window :=
  match guiWindowBackingSize w with
  | none => none
  | some needed =>
    match w.backing with
    | some b =>
      if needed ≤ b.capacity then some { w with backing := some (w.fillBacking b) }
      else guiWindowAllocBacking alloc needed w
    | none => guiWindowAllocBacking alloc needed w

def guiWindowFreeBacking (w : Window) : Window :=
  if w.backing.isSome then { w with backing := none, ownerDrawn := false } else w

/-- `gui_window_push_event`. -/
def guiWindowPushEvent (w : Window) (type : EventType) (data1 data2 : ℤ) : Window :=
  if w.used then { w with events := w.events.push type data1 data2 } else w

end Gui
