import ArmoniOS.Gui.Desktop

/-! The window operations of `gui_pool.c`, and the drawing calls of `gui_compositor.c` that paint into the
backing buffer of a window. The status is `true` where the code returns 0. -/
namespace Gui

/-- The bytes of `"panel"`. -/
def panelTitle : List UInt8 := [0x70, 0x61, 0x6e, 0x65, 0x6c]

def guiRectFitsFramebuffer (s : Screen) (x y w h : ℕ) : Bool :=
  decide (w ≠ 0 ∧ h ≠ 0 ∧ x < s.width ∧ y < s.height ∧ w ≤ s.width - x ∧ h ≤ s.height - y)

def guiApplyBuiltinPolicy (w : Window) : Window :=
  if w.used = true ∧ w.title = panelTitle then
    { w with flags := w.flags ||| (windowDock ||| windowNoFocus ||| windowNoDrag ||| windowSkipTaskbar) }
  else w

def guiWindowSetTitle (w : Window) (title : List UInt8) : Window :=
  { w with title := (title.takeWhile (· ≠ 0)).take (titleLen - 1) }

def Window.Focusable (w : Window) : Prop := w.used = true ∧ w.flags &&& windowNoFocus = 0
deriving Decidable

def guiFocusWindowEnsure (d : Desktop) : Bool × Desktop :=
  if ∃ i ∈ d.focused, (d.windows i).Focusable then (true, d)
  else
    match (List.finRange maxWindows).find? fun i => decide (d.windows i).Focusable with
    | some i => (true, { d with focused := some i })
    | none => (false, { d with focused := none })

/-- A window in the slot of `old`, whose events stay in their slots. -/
def newWindow (old : Window) (ownerPid : BitVec 32) (x y w h : ℕ) (bgColor borderColor : Color)
    (title : List UInt8) (z serial : ℕ) : Window :=
  guiApplyBuiltinPolicy (guiWindowSetTitle
    { x, y, w, h, bgColor, borderColor, ownerPid, z, serial
      flags := 0
      titleH := 0
      title := []
      events := old.events.reset
      used := true
      ownerDrawn := false
      minimized := false
      backing := none
      cursorRegions := fun _ => CursorRegion.unused } title)

def guiCreateWindowForPid (ownerPid : BitVec 32) (x y w h : ℕ) (bgColor borderColor : Color)
    (title : List UInt8) (d : Desktop) : Option (Fin maxWindows) × Desktop :=
  if w < 2 ∨ h < 2 ∨ guiRectFitsFramebuffer d.screen x y w h = false then (none, d)
  else
    match (List.finRange maxWindows).find? fun i => !(d.windows i).used with
    | none => (none, d)
    | some i =>
      let window := newWindow (d.windows i) ownerPid x y w h bgColor borderColor title
        (d.nextZ % 2 ^ 32) d.births
      let d := { d.setWindow i window with
        nextZ := d.nextZ + 1
        births := d.births + 1
        focused := if d.focused = none ∧ window.Focusable then some i else d.focused }
      (some i, (guiRefreshCursorShape d).damageAdd x y w h)

/-- What `gui_destroy_window` leaves in the slot. -/
def clearedWindow (w : Window) : Window :=
  guiWindowSetTitle
    { guiWindowFreeBacking w with
      x := 0
      y := 0
      w := 0
      h := 0
      bgColor := 0
      borderColor := 0
      ownerPid := noOwner
      z := 0
      flags := 0
      titleH := 0
      events := w.events.reset
      used := false
      ownerDrawn := false
      cursorRegions := fun _ => CursorRegion.unused } []

/-- `gui_destroy_window` on a slot that is in use. -/
def destroySlot (i : Fin maxWindows) (d : Desktop) : Desktop :=
  let window := d.windows i
  let d := d.setWindow i (clearedWindow window)
  let d := if d.focused = some i then (guiFocusWindowEnsure { d with focused := none }).2 else d
  (guiRefreshCursorShape d).damageAdd window.x window.y window.w window.h

def guiDestroyWindow (id : ℕ) (d : Desktop) : Bool × Desktop :=
  match d.lookup id with
  | none => (false, d)
  | some i => (true, destroySlot i d)

/-- One step of the loop of `gui_destroy_windows_for_pid`, from the last slot to the first. -/
def destroyIfOwned (pid : BitVec 32) (d : Desktop) (i : Fin maxWindows) : Desktop :=
  if (d.windows i).used = true ∧ (d.windows i).ownerPid = pid then destroySlot i d else d

def guiDestroyWindowsForPid (pid : BitVec 32) (d : Desktop) : Desktop :=
  if pid = noOwner then d
  else (List.finRange maxWindows).reverse.foldl (destroyIfOwned pid) d

def guiWindowSetTitleInternal (id : ℕ) (title : List UInt8) (d : Desktop) : Bool × Desktop :=
  match d.lookup id with
  | none => (false, d)
  | some i =>
    let window := guiApplyBuiltinPolicy (guiWindowSetTitle (d.windows i) title)
    let d := guiRefreshCursorShape (d.setWindow i window)
    (true, if 0 < window.titleH then d.damageAdd window.x window.y window.w window.titleH else d)

def guiWindowSetTitleBarInternal (id titleH : ℕ) (d : Desktop) : Bool × Desktop :=
  match d.lookup id with
  | none => (false, d)
  | some i =>
    let window := d.windows i
    if window.h ≤ titleH then (false, d)
    else
      let d := guiRefreshCursorShape (d.setWindow i { window with titleH })
      (true, d.damageAdd window.x window.y window.w window.h)

def guiWindowSetFlagsInternal (id : ℕ) (flags : BitVec 32) (d : Desktop) : Bool × Desktop :=
  match d.lookup id with
  | none => (false, d)
  | some i =>
    let window := d.windows i
    let d := d.setWindow i { window with flags }
    let d := if flags &&& windowNoFocus ≠ 0 ∧ d.focused = some i
      then (guiFocusWindowEnsure { d with focused := none }).2 else d
    if (window.flags ^^^ flags) &&& (windowNoFocus ||| windowNoDrag ||| windowDock) ≠ 0 then
      (true, (guiRefreshCursorShape d).damageAdd window.x window.y window.w window.h)
    else (true, d)

def damageMoved (oldX oldY oldW oldH newX newY newW newH : ℤ) (d : Desktop) : Desktop :=
  let ux0 := min oldX newX
  let uy0 := min oldY newY
  let ux1 := max (oldX + oldW) (newX + newW)
  let uy1 := max (oldY + oldH) (newY + newH)
  d.damageAdd ux0 uy0 (ux1 - ux0) (uy1 - uy0)

def guiMoveWindow (id x y : ℕ) (d : Desktop) : Bool × Desktop :=
  if d.screen.width ≤ x ∨ d.screen.height ≤ y then (false, d)
  else
    match d.lookup id with
    | none => (false, d)
    | some i =>
      let window := d.windows i
      let d := guiRefreshCursorShape (d.setWindow i { window with x, y })
      (true, damageMoved window.x window.y window.w window.h x y window.w window.h d)

def guiResizeWindow (alloc : Alloc) (id x y w h : ℕ) (d : Desktop) : Bool × Desktop :=
  if w < 2 ∨ h < 2 ∨ guiRectFitsFramebuffer d.screen x y w h = false then (false, d)
  else
    match d.lookup id with
    | none => (false, d)
    | some i =>
      let old := d.windows i
      let resized := { old with x, y, w, h }
      let d := guiRefreshCursorShape (d.setWindow i resized)
      if old.w = w ∧ old.h = h then (true, damageMoved old.x old.y old.w old.h x y w h d)
      else
        match guiWindowResetBacking alloc resized with
        | none => (false, d.setWindow i old)
        | some window =>
          let d := d.setWindow i (guiWindowPushEvent window .resize w h)
          (true, damageMoved old.x old.y old.w old.h x y w h d)

def guiWindowMinimize (id : ℕ) (d : Desktop) : Bool × Desktop :=
  match d.lookup id with
  | none => (false, d)
  | some i =>
    let window := d.windows i
    if window.minimized then (false, d)
    else (true, guiRequestRedraw
      (d.setWindow i (guiWindowPushEvent { window with minimized := true } .minimize 0 0)))

def guiWindowRestore (id : ℕ) (d : Desktop) : Bool × Desktop :=
  match d.lookup id with
  | none => (false, d)
  | some i =>
    let window := d.windows i
    if window.minimized then
      let raised := { window with minimized := false, z := d.nextZ % 2 ^ 32 }
      (true, guiRequestRedraw { d.setWindow i (guiWindowPushEvent raised .maximize 0 0) with
        nextZ := d.nextZ + 1
        focused := if window.Focusable then some i else d.focused })
    else (false, d)

/-- `gui_focus_window` on a slot that is in use. -/
def focusSlot (i : Fin maxWindows) (d : Desktop) : Desktop :=
  let window := d.windows i
  if window.flags &&& windowNoFocus ≠ 0 then d.damageAdd window.x window.y window.w window.h
  else
    let prev := d.focused
    let d := guiRefreshCursorShape { d.setWindow i { window with z := d.nextZ % 2 ^ 32 } with
      focused := some i
      nextZ := d.nextZ + 1 }
    let d := match prev with
      | none => d
      | some p =>
        let old := d.windows p
        if old.used then d.damageAdd old.x old.y old.w old.h else d
    d.damageAdd window.x window.y window.w window.h

def guiFocusWindow (id : ℕ) (d : Desktop) : Bool × Desktop :=
  match d.lookup id with
  | none => (false, d)
  | some i => (true, focusSlot i d)

/-! ### Drawing into a window -/

def Window.draw (w : Window) (strokes : Strokes) : Window :=
  { w with backing := w.backing.map fun b => b.draw w.w strokes }

/-- A drawing call on a window that is in use: the buffer is there, or is made, before `paint` gets the
window and the desktop. -/
def withBacking (alloc : Alloc) (id : ℕ) (paint : Fin maxWindows → Window → Desktop → Desktop)
    (d : Desktop) : Bool × Desktop :=
  match d.lookup id with
  | none => (false, d)
  | some i =>
    match guiWindowEnsureBacking alloc (d.windows i) with
    | none => (false, d)
    | some window =>
      let window := { window with ownerDrawn := true }
      (true, paint i window (d.setWindow i window))

def guiWindowDrawText (alloc : Alloc) (id : ℕ) (x y : ℤ) (text : List UInt8) (color : Color)
    (d : Desktop) : Bool × Desktop :=
  withBacking alloc id (fun i window d =>
    let contentH := window.contentH
    let x := (max x 0).toNat
    let y := (max y 0).toNat
    if window.w ≤ x ∨ contentH ≤ y then d
    else
      let d := d.setWindow i (window.draw (fontDrawText (guiWindowBackingFb window) x y text color))
      let dw : ℤ := min (fontTextWidth text : ℤ) (window.w - x)
      let dh : ℤ := min (fontGlyphHeight : ℤ) (contentH - y)
      d.damageAdd (window.x + x) (window.y + window.titleH + y) dw dh) d

def guiWindowDrawRect (alloc : Alloc) (id : ℕ) (x y : ℤ) (w h : ℕ) (color : Color) (d : Desktop) :
    Bool × Desktop :=
  if (d.lookup id).isNone then (false, d)
  else if w = 0 ∨ h = 0 then (true, d)
  else withBacking alloc id (fun i window d =>
    let x0 := max x 0
    let y0 := max y 0
    let x1 := min (x + w) window.w
    let y1 := min (y + h) window.contentH
    if x1 ≤ x0 ∨ y1 ≤ y0 then d
    else
      let d := d.setWindow i (window.draw (fbFillrect (guiWindowBackingFb window)
        x0.toNat y0.toNat (x1 - x0).toNat (y1 - y0).toNat color))
      d.damageAdd (window.x + x0) (window.y + window.titleH + y0) (x1 - x0) (y1 - y0)) d

def guiWindowClear (alloc : Alloc) (id : ℕ) (color : Color) (d : Desktop) : Bool × Desktop :=
  withBacking alloc id (fun i window d =>
    let d := d.setWindow i (window.draw (fbFillrect (guiWindowBackingFb window)
      0 0 window.w window.contentH color))
    d.damageAdd window.x (window.y + window.titleH) window.w window.contentH) d

end Gui
