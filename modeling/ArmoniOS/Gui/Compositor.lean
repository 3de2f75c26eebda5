import ArmoniOS.Gui.Input
import ArmoniOS.Lib.GridLine

/-! The compositor of `gui_compositor.c`: the painter of the whole framebuffer, and the painter of the
damaged rectangles. Signed coordinates are those of `int32_t`; the casts to `uint32_t` are of numbers that
are not negative, since clips and the cursor lie on the screen. -/
namespace Gui
open StoreLog List

/-! ### Colours and the cursor -/

def channel (color : Color) (shift : ℕ) : ℕ := ((color >>> shift) &&& 0xff).toNat

/-- One channel between `top` and `bottom`. The division rounds towards zero. -/
def blendChannel (top bottom num denom : ℕ) : Color :=
  BitVec.ofInt 32 (top + (((bottom : ℤ) - top) * num).tdiv denom)

def guiBlendColor (top bottom : Color) (num denom : ℕ) : Color :=
  if denom = 0 then top
  else if denom ≤ num then
    (top &&& 0xff000000) ||| (BitVec.ofNat 32 (channel bottom 16) <<< 16) |||
      (BitVec.ofNat 32 (channel bottom 8) <<< 8) ||| BitVec.ofNat 32 (channel bottom 0)
  else
    (top &&& 0xff000000) |||
      (blendChannel (channel top 16) (channel bottom 16) num denom <<< 16) |||
      (blendChannel (channel top 8) (channel bottom 8) num denom <<< 8) |||
      blendChannel (channel top 0) (channel bottom 0) num denom

/-- `g_cursor`: 1 is the outline and 2 the inside. -/
def cursorArrow : List (List ℕ) :=
  [[1, 0, 0, 0, 0, 0, 0, 0, 0, 0, 0, 0, 0, 0, 0, 0],
   [1, 1, 0, 0, 0, 0, 0, 0, 0, 0, 0, 0, 0, 0, 0, 0],
   [1, 2, 1, 0, 0, 0, 0, 0, 0, 0, 0, 0, 0, 0, 0, 0],
   [1, 2, 2, 1, 0, 0, 0, 0, 0, 0, 0, 0, 0, 0, 0, 0],
   [1, 2, 2, 2, 1, 0, 0, 0, 0, 0, 0, 0, 0, 0, 0, 0],
   [1, 2, 2, 2, 2, 1, 0, 0, 0, 0, 0, 0, 0, 0, 0, 0],
   [1, 2, 2, 2, 2, 2, 1, 0, 0, 0, 0, 0, 0, 0, 0, 0],
   [1, 2, 2, 2, 2, 2, 2, 1, 0, 0, 0, 0, 0, 0, 0, 0],
   [1, 2, 2, 2, 2, 2, 2, 2, 1, 0, 0, 0, 0, 0, 0, 0],
   [1, 2, 2, 2, 2, 2, 2, 2, 2, 1, 0, 0, 0, 0, 0, 0],
   [1, 2, 2, 2, 2, 2, 2, 2, 2, 2, 1, 0, 0, 0, 0, 0],
   [1, 2, 2, 2, 1, 1, 1, 1, 1, 1, 1, 0, 0, 0, 0, 0],
   [1, 2, 1, 0, 1, 1, 1, 0, 0, 1, 1, 0, 0, 0, 0, 0],
   [1, 1, 0, 0, 0, 1, 1, 0, 0, 0, 1, 1, 0, 0, 0, 0],
   [0, 0, 0, 0, 0, 1, 1, 0, 0, 0, 0, 1, 1, 0, 0, 0],
   [0, 0, 0, 0, 0, 0, 1, 1, 0, 0, 0, 0, 1, 0, 0, 0]]

/-- `g_cursor_hand`. -/
def cursorHand : List (List ℕ) :=
  [[0, 0, 0, 0, 1, 1, 0, 0, 0, 0, 0, 0, 0, 0, 0, 0],
   [0, 0, 0, 1, 2, 2, 1, 0, 0, 0, 0, 0, 0, 0, 0, 0],
   [0, 0, 0, 1, 2, 2, 1, 0, 0, 0, 0, 0, 0, 0, 0, 0],
   [0, 0, 0, 1, 2, 2, 1, 0, 1, 1, 0, 0, 0, 0, 0, 0],
   [0, 0, 0, 1, 2, 2, 1, 1, 2, 2, 1, 0, 0, 0, 0, 0],
   [0, 0, 0, 1, 2, 2, 1, 2, 2, 2, 1, 1, 0, 0, 0, 0],
   [0, 0, 0, 1, 2, 2, 1, 2, 2, 2, 1, 2, 1, 0, 0, 0],
   [0, 0, 1, 1, 2, 2, 1, 2, 2, 2, 1, 2, 1, 0, 0, 0],
   [0, 1, 2, 2, 2, 2, 2, 2, 2, 2, 1, 2, 1, 0, 0, 0],
   [0, 1, 2, 2, 2, 2, 2, 2, 2, 2, 2, 2, 1, 0, 0, 0],
   [0, 0, 1, 2, 2, 2, 2, 2, 2, 2, 2, 1, 0, 0, 0, 0],
   [0, 0, 1, 2, 2, 2, 2, 2, 2, 2, 2, 1, 0, 0, 0, 0],
   [0, 0, 0, 1, 2, 2, 2, 2, 2, 2, 1, 0, 0, 0, 0, 0],
   [0, 0, 0, 1, 2, 2, 2, 2, 2, 2, 1, 0, 0, 0, 0, 0],
   [0, 0, 0, 0, 1, 2, 2, 2, 2, 1, 0, 0, 0, 0, 0, 0],
   [0, 0, 0, 0, 1, 1, 1, 1, 1, 1, 0, 0, 0, 0, 0, 0]]

def cursorBitmap : CursorShape → ℕ → ℕ → ℕ
  | .hand, row, col => (cursorHand.getD row []).getD col 0
  | .arrow, row, col => (cursorArrow.getD row []).getD col 0

def guiDrawCursor (fb : Fb) (x y : ℤ) (shape : CursorShape) : Strokes :=
  (range cursorH).flatMap fun row => (range cursorW).flatMap fun col =>
    if cursorBitmap shape row col = 0 then []
    else fbPutpixel fb (x + col).toNat (y + row).toNat
      (if cursorBitmap shape row col = 1 then 0xff101010 else 0xffe0e0e0)

/-! ### Drawing inside a clip -/

def guiFillrectClipped (fb : Fb) (x y w h : ℤ) (clip : Clip) (color : Color) : Strokes :=
  if w ≤ 0 ∨ h ≤ 0 then []
  else
    let x0 := max x clip.x0
    let y0 := max y clip.y0
    let x1 := min (x + w) clip.x1
    let y1 := min (y + h) clip.y1
    if x1 ≤ x0 ∨ y1 ≤ y0 then []
    else fbFillrect fb x0.toNat y0.toNat (x1 - x0).toNat (y1 - y0).toNat color

def guiPutpixelClipped (fb : Fb) (x y : ℤ) (clip : Clip) (color : Color) : Strokes :=
  if x < clip.x0 ∨ clip.x1 ≤ x ∨ y < clip.y0 ∨ clip.y1 ≤ y ∨ x < 0 ∨ y < 0 then []
  else fbPutpixel fb x.toNat y.toNat color

/-- The loop that puts a pixel at each point of the line; it ends at `(x1, y1)` (`GridLine.points_spec`). -/
def guiDrawLineClipped (fb : Fb) (x0 y0 x1 y1 : ℤ) (clip : Clip) (color : Color) : Strokes :=
  (GridLine.points x0 y0 x1 y1).flatMap fun p => guiPutpixelClipped fb p.1 p.2 clip color

def guiDrawRectClipped (fb : Fb) (x y w h : ℤ) (clip : Clip) (color : Color) : Strokes :=
  if w ≤ 0 ∨ h ≤ 0 then []
  else
    guiFillrectClipped fb x y w 1 clip color ++
    (if 1 < h then guiFillrectClipped fb x (y + h - 1) w 1 clip color else []) ++
    if 2 < h then
      guiFillrectClipped fb x (y + 1) 1 (h - 2) clip color ++
      if 1 < w then guiFillrectClipped fb (x + w - 1) (y + 1) 1 (h - 2) clip color else []
    else []

def guiBlitClipped (dstX dstY : ℤ) (src : ℕ → Color) (srcW srcH : ℕ) (clip : Clip) : Strokes :=
  if srcW = 0 ∨ srcH = 0 then []
  else
    let x0 := max dstX clip.x0
    let y0 := max dstY clip.y0
    let x1 := min (dstX + srcW) clip.x1
    let y1 := min (dstY + srcH) clip.y1
    if x1 ≤ x0 ∨ y1 ≤ y0 then []
    else
      let srcOffX := (x0 - dstX).toNat
      let srcOffY := (y0 - dstY).toNat
      rectStrokes x0.toNat y0.toNat (x1 - x0).toNat (y1 - y0).toNat fun row col =>
        src ((srcOffY + row) * srcW + srcOffX + col)

/-! ### Windows -/

def titleTextY (w : Window) : ℕ :=
  w.y + if fontGlyphHeight < w.titleH then (w.titleH - fontGlyphHeight) / 2 else 0

def minimizeButton (fb : Fb) (w : Window) (focused : Bool) (clip : Clip) : Strokes :=
  match guiMinimizeButtonRect w with
  | none => []
  | some b =>
    guiFillrectClipped fb b.x b.y b.w b.h clip (if focused then 0xffa0a8b8 else 0xff586070) ++
    guiFillrectClipped fb (b.x + 2) (b.y + b.h - 3) (b.w - 4) 1 clip 0xfff0f4f8

def maximizeButton (fb : Fb) (w : Window) (focused : Bool) (clip : Clip) : Strokes :=
  match guiMaximizeButtonRect w with
  | none => []
  | some b =>
    guiFillrectClipped fb b.x b.y b.w b.h clip (if focused then 0xffa0a8b8 else 0xff586070) ++
    guiDrawRectClipped fb (b.x + 2) (b.y + 2) (b.w - 4) (b.h - 4) clip 0xfff0f4f8

def closeButton (fb : Fb) (w : Window) (focused : Bool) (clip : Clip) : Strokes :=
  match guiCloseBoxRect w with
  | none => []
  | some b =>
    guiFillrectClipped fb b.x b.y b.w b.h clip (if focused then 0xffe04a4a else 0xff8a3030) ++
    guiDrawLineClipped fb (b.x + 2) (b.y + 2) (b.x + b.w - 3) (b.y + b.h - 3) clip 0xfff8f8f8 ++
    guiDrawLineClipped fb (b.x + b.w - 3) (b.y + 2) (b.x + 2) (b.y + b.h - 3) clip 0xfff8f8f8

def titleText (fb : Fb) (w : Window) (clip : Clip) : Strokes :=
  if clip.x0 < w.x + w.w ∧ w.x + 2 < clip.x1 ∧ clip.y0 < titleTextY w + fontGlyphHeight ∧
      titleTextY w < clip.y1
  then fontDrawTextRectClipped fb (w.x + 2) (titleTextY w) w.titleH clip w.title 0xfff0f4f8 else []

def guiDrawWindowTitle (fb : Fb) (w : Window) (focused : Bool) (border : Color) (clip : Clip) :
    Strokes :=
  if w.titleH = 0 ∨ w.title = [] then []
  else
    guiFillrectClipped fb w.x w.y w.w w.titleH clip (guiBlendColor border 0xff000000 2 3) ++
    guiFillrectClipped fb w.x (w.y + w.titleH - 1) w.w 1 clip border ++
    titleText fb w clip ++ minimizeButton fb w focused clip ++ maximizeButton fb w focused clip ++
    closeButton fb w focused clip

def Window.border (w : Window) (focused : Bool) : Color :=
  if focused = true ∧ w.flags &&& windowNoFocus = 0 then 0xffe0e8f0 else w.borderColor

def Window.shown (w : Window) : Option Backing := if w.ownerDrawn then w.backing else none

/-- The content or the background, in the painter of the whole framebuffer. -/
def drawContent (fb : Fb) (w : Window) (border : Color) : Strokes :=
  match w.shown with
  | some b => fbBlit fb w.x (w.y + w.titleH) b.pixels w.w w.contentH
  | none =>
    fbFillrect fb w.x w.y w.w w.h border ++
    if 2 < w.w ∧ 2 < w.h then fbFillrect fb (w.x + 1) (w.y + 1) (w.w - 2) (w.h - 2) w.bgColor else []

def drawFrame (fb : Fb) (w : Window) (border : Color) : Strokes :=
  fbFillrect fb w.x w.y w.w 1 border ++
  (if 1 < w.h then fbFillrect fb w.x (w.y + w.h - 1) w.w 1 border else []) ++
  if 2 < w.h then
    fbFillrect fb w.x (w.y + 1) 1 (w.h - 2) border ++
    if 1 < w.w then fbFillrect fb (w.x + w.w - 1) (w.y + 1) 1 (w.h - 2) border else []
  else []

def Fb.clip (fb : Fb) : Clip := ⟨0, 0, fb.width, fb.height⟩

def guiDrawWindow (fb : Fb) (focused : Bool) (w : Window) : Strokes :=
  if w.used = false ∨ w.minimized = true then []
  else
    let border := w.border focused
    drawContent fb w border ++ drawFrame fb w border ++ guiDrawWindowTitle fb w focused border fb.clip

/-- The content or the background, in the painter of the damaged rectangles. -/
def drawContentClipped (fb : Fb) (w : Window) (border : Color) (clip : Clip) : Strokes :=
  match w.shown with
  | some b => guiBlitClipped w.x (w.y + w.titleH) b.pixels w.w w.contentH clip
  | none =>
    guiFillrectClipped fb w.x w.y w.w w.h clip border ++
    if 2 < w.w ∧ 2 < w.h
    then guiFillrectClipped fb (w.x + 1) (w.y + 1) (w.w - 2 : ℕ) (w.h - 2 : ℕ) clip w.bgColor else []

def drawFrameClipped (fb : Fb) (w : Window) (border : Color) (clip : Clip) : Strokes :=
  guiFillrectClipped fb w.x w.y w.w 1 clip border ++
  (if 1 < w.h then guiFillrectClipped fb w.x (w.y + w.h - 1) w.w 1 clip border else []) ++
  if 2 < w.h then
    guiFillrectClipped fb w.x (w.y + 1) 1 (w.h - 2 : ℕ) clip border ++
    if 1 < w.w
    then guiFillrectClipped fb (w.x + w.w - 1) (w.y + 1) 1 (w.h - 2 : ℕ) clip border else []
  else []

def guiRectsOverlap (ax ay aw ah bx by' bw bh : ℤ) : Prop :=
  bx < ax + aw ∧ ax < bx + bw ∧ by' < ay + ah ∧ ay < by' + bh
deriving Decidable

def guiDrawWindowClipped (fb : Fb) (focused : Bool) (w : Window) (clip : Clip) : Strokes :=
  if w.used = false ∨ w.minimized = true then []
  else if guiRectsOverlap w.x w.y w.w w.h clip.x0 clip.y0 (clip.x1 - clip.x0) (clip.y1 - clip.y0) then
    let border := w.border focused
    drawContentClipped fb w border clip ++ drawFrameClipped fb w border clip ++
    if 0 < w.titleH ∧ clip.y0 < w.y + w.titleH ∧ w.y < clip.y1
    then guiDrawWindowTitle fb w focused border clip else []
  else []

/-! ### The two painters -/

/-- One step of the loop of `gui_next_window_at_or_after`. -/
def nextAtStep (d : Desktop) (row x : ℕ) (best : Option (Fin maxWindows)) (i : Fin maxWindows) :
    Option (Fin maxWindows) :=
  let w := d.windows i
  let bestX := match best with
    | none => 2 ^ 32 - 1
    | some b => (d.windows b).x
  if w.used = false ∨ w.minimized = true then best
  else if row < w.y ∨ w.y + w.h ≤ row then best
  else if w.x + w.w ≤ x then best
  else if x ≤ w.x ∧ w.x < bestX then some i else best

def guiNextWindowAtOrAfter (d : Desktop) (row x : ℕ) : Option (Fin maxWindows) :=
  (finRange maxWindows).foldl (nextAtStep d row x) none

/-- One step of the loop of `gui_next_window_above_z`. -/
def nextAboveStep (d : Desktop) (minZ : ℕ) (best : Option (Fin maxWindows)) (i : Fin maxWindows) :
    Option (Fin maxWindows) :=
  let w := d.windows i
  let bestZ := match best with
    | none => 2 ^ 32 - 1
    | some b => (d.windows b).z
  if w.used = false ∨ w.minimized = true ∨ w.z ≤ minZ then best
  else if w.z < bestZ then some i else best

def guiNextWindowAboveZ (d : Desktop) (minZ : ℕ) : Option (Fin maxWindows) :=
  (finRange maxWindows).foldl (nextAboveStep d minZ) none

/-- The windows in the order in which both painters draw them, from `lastZ` on. -/
def windowsAbove (d : Desktop) : ℕ → ℕ → List (Fin maxWindows)
  | 0, _ => []
  | n + 1, lastZ =>
    match guiNextWindowAboveZ d lastZ with
    | none => []
    | some i => i :: windowsAbove d n (d.windows i).z

def drawOrder (d : Desktop) : List (Fin maxWindows) := windowsAbove d maxWindows 0

def gradientColor (d : Desktop) (row : ℕ) : Color :=
  guiBlendColor d.backgroundColor (guiBlendColor d.backgroundColor 0xff000000 3 4) row
    (d.screen.height - 1)

/-- The background of a row from `x` on, without the spans of the windows. -/
def gradientRow (d : Desktop) (row : ℕ) : ℕ → ℕ → Strokes
  | 0, _ => []
  | n + 1, x =>
    if x < d.screen.width then
      match guiNextWindowAtOrAfter d row x with
      | none => fbFillrect d.screen.fb x row (d.screen.width - x) 1 (gradientColor d row)
      | some i =>
        let w := d.windows i
        (if x < w.x then fbFillrect d.screen.fb x row (w.x - x) 1 (gradientColor d row) else []) ++
        gradientRow d row n (w.x + w.w)
    else []

def gradientRows (d : Desktop) : Strokes :=
  (range d.screen.height).flatMap fun row => gradientRow d row (d.screen.width + 1) 0

def drawCursor (d : Desktop) : Strokes :=
  if d.cursor.visible then guiDrawCursor d.screen.fb d.cursor.x d.cursor.y d.cursor.shape else []

def drawFull (d : Desktop) : Strokes :=
  gradientRows d ++
  ((drawOrder d).flatMap fun i => guiDrawWindow d.screen.fb (d.focused = some i) (d.windows i)) ++
  drawCursor d

def Rect.clip (r : Rect) (s : Screen) : Clip :=
  ⟨max r.x 0, max r.y 0, min (r.x + r.w) s.w, min (r.y + r.h) s.h⟩

def gradientClipped (d : Desktop) (clip : Clip) : Strokes :=
  (range (clip.y1 - clip.y0).toNat).flatMap fun k =>
    let row := clip.y0.toNat + k
    fbFillrect d.screen.fb clip.x0.toNat row (clip.x1 - clip.x0).toNat 1 (gradientColor d row)

/-- A window of the painter of a damaged rectangle; windows beside it are skipped. -/
def drawWindowInRect (d : Desktop) (clip : Clip) (i : Fin maxWindows) : Strokes :=
  let w := d.windows i
  if clip.x0 < w.x + w.w ∧ w.x < clip.x1 ∧ clip.y0 < w.y + w.h ∧ w.y < clip.y1
  then guiDrawWindowClipped d.screen.fb (d.focused = some i) w clip else []

def drawCursorInRect (d : Desktop) (clip : Clip) : Strokes :=
  let c := d.cursor
  if clip.x0 < c.x + cursorW ∧ c.x < clip.x1 ∧ clip.y0 < c.y + cursorH ∧ c.y < clip.y1
  then drawCursor d else []

def drawDamaged (d : Desktop) (r : Rect) : Strokes :=
  let clip := r.clip d.screen
  if clip.x1 ≤ clip.x0 ∨ clip.y1 ≤ clip.y0 then []
  else
    gradientClipped d clip ++ (drawOrder d).flatMap (drawWindowInRect d clip) ++
    drawCursorInRect d clip

def guiDraw (d : Desktop) : Strokes :=
  if d.damage.full then drawFull d else d.damage.rects.flatMap (drawDamaged d)

/-! ### What the loops depend on -/

section Congr
variable {d d' : Desktop}

theorem drawOrder_congr (hz : ∀ i, (d'.windows i).z = (d.windows i).z)
    (hnext : ∀ minZ, guiNextWindowAboveZ d' minZ = guiNextWindowAboveZ d minZ) :
    drawOrder d' = drawOrder d := by
  have habove (n lastZ : ℕ) : windowsAbove d' n lastZ = windowsAbove d n lastZ := by
    induction n generalizing lastZ with
    | zero => rfl
    | succ n ih =>
      unfold windowsAbove
      rw [hnext]
      split
      · rfl
      · rw [ih, hz]
  exact habove maxWindows 0

theorem gradientRows_congr (hscreen : d'.screen = d.screen)
    (hcolor : d'.backgroundColor = d.backgroundColor)
    (hspan : ∀ i, (d'.windows i).x = (d.windows i).x ∧ (d'.windows i).w = (d.windows i).w)
    (hnext : ∀ row x, guiNextWindowAtOrAfter d' row x = guiNextWindowAtOrAfter d row x) :
    gradientRows d' = gradientRows d := by
  have hrow (row n x : ℕ) : gradientRow d' row n x = gradientRow d row n x := by
    induction n generalizing x with
    | zero => rfl
    | succ n ih =>
      unfold gradientRow gradientColor
      rw [hnext, hscreen, hcolor]
      split
      · split
        · rfl
        next i _ =>
          dsimp only
          rw [ih, (hspan i).1, (hspan i).2]
      · rfl
  unfold gradientRows
  simp only [hrow, hscreen]

end Congr

end Gui
