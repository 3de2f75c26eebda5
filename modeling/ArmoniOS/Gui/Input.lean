import ArmoniOS.Gui.Pool
import ArmoniOS.Input.Queue

/-! The cursor, dragging and the input events of the desktop, from `gui_cursor.c` and `gui_input.c`, and
the runs of all operations. -/
namespace Gui
open Input (InputEvent EventData)

def cursorRegionDelete : BitVec 32 := 0xffffffff

/-- `GUI_CURSOR_ARROW` and `GUI_CURSOR_HAND`. -/
def CursorShape.ofBits (shape : BitVec 32) : Option CursorShape :=
  if shape = 0 then some .arrow else if shape = 1 then some .hand else none

def guiSetCursorShape (shape : BitVec 32) (d : Desktop) : Bool × Desktop :=
  match CursorShape.ofBits shape with
  | none => (false, d)
  | some shape => (true, { d with cursor.shape := shape })

/-- A region is stored in its slot, and the shape of the cursor follows if the window has the focus. -/
def setRegion (i : Fin maxWindows) (slot : Fin maxCursorRegions) (region : CursorRegion) (d : Desktop) :
    Desktop :=
  let window := d.windows i
  let d := d.setWindow i
    { window with cursorRegions := Function.update window.cursorRegions slot region }
  if d.focused = some i then guiRefreshCursorShape d else d

def guiRegisterCursorRegion (id slot : ℕ) (x y : ℤ) (w h : ℕ) (shape : BitVec 32) (d : Desktop) :
    Bool × Desktop :=
  if hslot : slot < maxCursorRegions then
    match d.lookup id with
    | none => (false, d)
    | some i =>
      if shape = cursorRegionDelete then (true, setRegion i ⟨slot, hslot⟩ CursorRegion.unused d)
      else
        match CursorShape.ofBits shape with
        | none => (false, d)
        | some shape =>
          if w = 0 ∨ h = 0 ∨ 2 ^ 31 - 1 < w ∨ 2 ^ 31 - 1 < h then (false, d)
          else (true, setRegion i ⟨slot, hslot⟩ ⟨x, y, w, h, shape, true⟩ d)
  else (false, d)

def clampCursor (size : ℕ) (x : ℤ) : ℤ :=
  let x := if x < 0 then 0 else x
  if (size : ℤ) ≤ x then size - 1 else x

def guiSetCursor (x y : ℤ) (d : Desktop) : Desktop :=
  let x := clampCursor d.screen.width x
  let y := clampCursor d.screen.height y
  let prevX := d.cursor.x
  let prevY := d.cursor.y
  let d := guiRefreshCursorShape { d with cursor := { d.cursor with prevX, prevY, x, y } }
  (d.damageAdd prevX prevY cursorW cursorH).damageAdd x y cursorW cursorH

def guiCursorMove (dx dy : ℤ) (d : Desktop) : Desktop :=
  guiSetCursor (d.cursor.x + dx) (d.cursor.y + dy) d

/-- `gui_drag_start` on a slot that is in use. -/
def guiDragStart (i : Fin maxWindows) (offX offY : ℤ) (d : Desktop) : Desktop :=
  let window := d.windows i
  if window.flags &&& windowNoDrag ≠ 0 then d
  else if 0 < window.titleH ∧ (offY < 0 ∨ (window.titleH : ℤ) ≤ offY) then d
  else { d with drag := some i, dragOffX := offX, dragOffY := offY, dragSerial := window.serial }

def guiDragUpdate (cursorX cursorY : ℤ) (d : Desktop) : Desktop :=
  match d.drag with
  | none => d
  | some i =>
    let window := d.windows i
    if window.used then
      let newX := max (cursorX - d.dragOffX) 0
      let newY := max (cursorY - d.dragOffY) 0
      let d := guiRefreshCursorShape
        (d.setWindow i { window with x := newX.toNat, y := newY.toNat })
      damageMoved window.x window.y window.w window.h newX newY window.w window.h d
    else { d with drag := none }

def guiDragEnd (d : Desktop) : Desktop := { d with drag := none }

def guiCursorButton (button pressed : BitVec 32) (d : Desktop) : Desktop :=
  if 2 < button then d
  else
    let mask : BitVec 8 := 1 <<< button.toNat
    let d := { d with cursor.buttonsMask :=
      if pressed ≠ 0 then d.cursor.buttonsMask ||| mask else d.cursor.buttonsMask &&& ~~~mask }
    if button ≠ 0 ∨ pressed = 0 then d
    else
      match guiHitTest d d.cursor.x d.cursor.y with
      | some hit => focusSlot hit d
      | none => { d with focused := none }

/-! ### The buttons of the title bar -/

def closeBtnW : ℕ := 14
def closeBtnPad : ℕ := 2
def closeBtnMinTitleH : ℕ := 10

structure Box where
  x : ℕ
  y : ℕ
  w : ℕ
  h : ℕ
  deriving DecidableEq

def Box.Contains (b : Box) (x y : ℤ) : Prop :=
  (b.x : ℤ) ≤ x ∧ x < b.x + b.w ∧ (b.y : ℤ) ≤ y ∧ y < b.y + b.h
deriving Decidable

/-- The rightmost button, in a window that is at least `minW` of the width of a button wide. -/
def rightmostBox (w : Window) (minW : ℕ → ℕ) : Option Box :=
  if w.used = false ∨ w.titleH = 0 ∨ w.title = [] ∨ w.titleH < closeBtnMinTitleH then none
  else
    let bh := w.titleH - 2 * closeBtnPad
    if bh < 4 then none
    else
      let bw := if bh < closeBtnW then bh else closeBtnW
      if w.w < minW bw then none
      else some ⟨w.x + w.w - bw - closeBtnPad, w.y + closeBtnPad, bw, bh⟩

def guiCloseBoxRect (w : Window) : Option Box := rightmostBox w fun bw => bw + 2 * closeBtnPad

def guiMinMaxBtnRow (w : Window) : Option Box := rightmostBox w fun bw => 3 * bw + 4 * closeBtnPad

def guiMinimizeButtonRect (w : Window) : Option Box :=
  (guiMinMaxBtnRow w).map fun b => { b with x := b.x - 2 * b.w - 2 * closeBtnPad }

def guiMaximizeButtonRect (w : Window) : Option Box :=
  (guiMinMaxBtnRow w).map fun b => { b with x := b.x - b.w - closeBtnPad }

inductive DecorationSlot where
  | minimize
  | maximize
  | close
  deriving DecidableEq

def decorationRect (w : Window) : DecorationSlot → Option Box
  | .minimize => guiMinimizeButtonRect w
  | .maximize => guiMaximizeButtonRect w
  | .close => guiCloseBoxRect w

def guiHitTestDecoration (w : Window) (x y : ℤ) : Option DecorationSlot :=
  [DecorationSlot.minimize, .maximize, .close].find? fun slot =>
    decide (∃ b ∈ decorationRect w slot, b.Contains x y)

/-! ### Input events -/

def Desktop.pushEvent (d : Desktop) (i : Fin maxWindows) (type : EventType) (data1 data2 : ℤ) :
    Desktop :=
  d.setWindow i (guiWindowPushEvent (d.windows i) type data1 data2)

/-- `gui_dispatch_input` for a mouse move, which is the only event it is called with. -/
def dispatchMouseMove (d : Desktop) : Desktop :=
  match guiHitTest d d.cursor.x d.cursor.y with
  | none => d
  | some hit => d.pushEvent hit .mouseMove d.cursor.x d.cursor.y

/-- A press of the left button on the window under the cursor. `ownerDead` says that the process that owns
it is gone or a zombie. -/
def pressWindow (ownerDead : Bool) (hit : Fin maxWindows) (d : Desktop) : Desktop :=
  let window := d.windows hit
  match guiHitTestDecoration window d.cursor.x d.cursor.y with
  | some .close =>
    if window.ownerPid ≠ noOwner ∧ ownerDead = true then (guiDestroyWindow hit d).2
    else d.pushEvent hit .close 0 0
  | some .minimize => (guiWindowMinimize hit d).2
  | some .maximize => d.pushEvent hit .maximize 0 0
  | none =>
    let d := guiDragStart hit (d.cursor.x - window.x) (d.cursor.y - window.y) d
    d.pushEvent hit .mouseClick d.cursor.x d.cursor.y

def guiHandleDesktopInput (ownerDead : Bool) (event : InputEvent) (d : Desktop) : Desktop :=
  match event.data with
  | .mouseMove dx dy =>
    let d := guiCursorMove dx dy d
    dispatchMouseMove (guiDragUpdate d.cursor.x d.cursor.y d)
  | .mouseButton button pressed =>
    let d := guiCursorButton button pressed d
    if button = 0 then
      if pressed ≠ 0 then
        match guiHitTest d d.cursor.x d.cursor.y with
        | some hit => pressWindow ownerDead hit d
        | none => d
      else guiDragEnd d
    else d
  | .keyPress key =>
    let d := (guiFocusWindowEnsure d).2
    match d.focused with
    | some i => d.pushEvent i .keyPress key.toInt 0
    | none => d
  | .keyRelease key =>
    match d.focused with
    | some i => d.pushEvent i .keyRelease key.toInt 0
    | none => d

/-! ### Runs -/

/-- The operations on the desktop, with what the rest of the kernel answers to them: the memory found by
`kmalloc`, and whether the owner of a window is dead. -/
inductive Op where
  | create (ownerPid : BitVec 32) (x y w h : ℕ) (bgColor borderColor : Color) (title : List UInt8)
  | destroy (id : ℕ)
  | destroyForPid (pid : BitVec 32)
  | setTitle (id : ℕ) (title : List UInt8)
  | setTitleBar (id titleH : ℕ)
  | setFlags (id : ℕ) (flags : BitVec 32)
  | move (id x y : ℕ)
  | resize (alloc : Alloc) (id x y w h : ℕ)
  | minimize (id : ℕ)
  | restore (id : ℕ)
  | focus (id : ℕ)
  | focusEnsure
  | drawText (alloc : Alloc) (id : ℕ) (x y : ℤ) (text : List UInt8) (color : Color)
  | drawRect (alloc : Alloc) (id : ℕ) (x y : ℤ) (w h : ℕ) (color : Color)
  | clear (alloc : Alloc) (id : ℕ) (color : Color)
  | setCursorShape (shape : BitVec 32)
  | registerRegion (id slot : ℕ) (x y : ℤ) (w h : ℕ) (shape : BitVec 32)
  | popEvent (id : ℕ)
  | input (ownerDead : Bool) (event : InputEvent)
  | damage (x y w h : ℤ)
  | requestRedraw
  | redrawn

/-- `gui_window_pop_event` by `sys_window_event`. -/
def guiWindowPopEvent (id : ℕ) (d : Desktop) : Desktop :=
  match d.lookup id with
  | none => d
  | some i => d.setWindow i { d.windows i with events := (d.windows i).events.pop.2 }

def Desktop.step (d : Desktop) : Op → Desktop
  | .create ownerPid x y w h bgColor borderColor title =>
      (guiCreateWindowForPid ownerPid x y w h bgColor borderColor title d).2
  | .destroy id => (guiDestroyWindow id d).2
  | .destroyForPid pid => guiDestroyWindowsForPid pid d
  | .setTitle id title => (guiWindowSetTitleInternal id title d).2
  | .setTitleBar id titleH => (guiWindowSetTitleBarInternal id titleH d).2
  | .setFlags id flags => (guiWindowSetFlagsInternal id flags d).2
  | .move id x y => (guiMoveWindow id x y d).2
  | .resize alloc id x y w h => (guiResizeWindow alloc id x y w h d).2
  | .minimize id => (guiWindowMinimize id d).2
  | .restore id => (guiWindowRestore id d).2
  | .focus id => (guiFocusWindow id d).2
  | .focusEnsure => (guiFocusWindowEnsure d).2
  | .drawText alloc id x y text color => (guiWindowDrawText alloc id x y text color d).2
  | .drawRect alloc id x y w h color => (guiWindowDrawRect alloc id x y w h color d).2
  | .clear alloc id color => (guiWindowClear alloc id color d).2
  | .setCursorShape shape => (guiSetCursorShape shape d).2
  | .registerRegion id slot x y w h shape => (guiRegisterCursorRegion id slot x y w h shape d).2
  | .popEvent id => guiWindowPopEvent id d
  | .input ownerDead event => guiHandleDesktopInput ownerDead event d
  | .damage x y w h => d.damageAdd x y w h
  | .requestRedraw => guiRequestRedraw d
  | .redrawn => { d with damage := guiClearDirty d.damage }

def Desktop.run (d : Desktop) (ops : List Op) : Desktop := ops.foldl Desktop.step d

end Gui
