import ArmoniOS.Lib.StoreLog
import Mathlib

/-! Drawing into a framebuffer, from `fb.c` and `font.c`. None of the functions reads a pixel, so that each
is the sequence of its stores. Coordinates are those of `uint32_t`. -/
namespace Gui
open StoreLog List

abbrev Color := BitVec 32

/-- The stores of a drawing function at pixels `(x, y)`. -/
abbrev Strokes := Log (ℕ × ℕ) Color

/-- `fb->width` and `fb->height` of a framebuffer that has pixels. -/
structure Fb where
  width : ℕ
  height : ℕ
  deriving DecidableEq

def Fb.Has (fb : Fb) (p : ℕ × ℕ) : Prop := p.1 < fb.width ∧ p.2 < fb.height
deriving Decidable

def fbPutpixel (fb : Fb) (x y : ℕ) (color : Color) : Strokes :=
  if fb.width ≤ x ∨ fb.height ≤ y then [] else [((x, y), color)]

def rectStrokes (x y w h : ℕ) (color : ℕ → ℕ → Color) : Strokes :=
  (range h).flatMap fun row => (range w).map fun col => ((x + col, y + row), color row col)

def fbFillrect (fb : Fb) (x y w h : ℕ) (color : Color) : Strokes :=
  if w = 0 ∨ h = 0 ∨ fb.width ≤ x ∨ fb.height ≤ y then []
  else
    let w := if fb.width - x < w then fb.width - x else w
    let h := if fb.height - y < h then fb.height - y else h
    rectStrokes x y w h fun _ _ => color

/-- The source has rows of `w` pixels, also where the rectangle is cut at the edge. -/
def fbBlit (fb : Fb) (dstX dstY : ℕ) (src : ℕ → Color) (w h : ℕ) : Strokes :=
  if w = 0 ∨ h = 0 ∨ fb.width ≤ dstX ∨ fb.height ≤ dstY then []
  else
    let srcStride := w
    let w := if fb.width - dstX < w then fb.width - dstX else w
    let h := if fb.height - dstY < h then fb.height - dstY else h
    rectStrokes dstX dstY w h fun row col => src (row * srcStride + col)

/-! ### Text -/

def fontGlyphWidth : ℕ := 8
def fontGlyphHeight : ℕ := 8
def fontCharWidth : ℕ := 8
def fontLineHeight : ℕ := 10

/-- `g_font_glyphs`, the eight rows of a glyph from the highest byte to the lowest. -/
def fontGlyphs : List ℕ :=
  [0x0000000000000000, 0x1818181818001800, 0x6C6C280000000000, 0x6CFE6C6CFE6C0000,
   0x187EC07E06FC1800, 0xC6CC183066C60000, 0x386C3876DCCC7600, 0x1818300000000000,
   0x0C18303030180C00, 0x30180C0C0C183000, 0x00663CFF3C660000, 0x0018187E18180000,
   0x0000000018183000, 0x0000007E00000000, 0x0000000000181800, 0x060C183060C08000,
   0x7CC6CEDEF6E67C00, 0x1838181818187E00, 0x7CC6061C3066FE00, 0x7CC6063C06C67C00,
   0x1C3C6CCCFE0C1E00, 0xFEC0C0FC06C67C00, 0x3860C0FCC6C67C00, 0xFEC60C1830303000,
   0x7CC6C67CC6C67C00, 0x7CC6C67E060C7800, 0x0018180018180000, 0x0018180018183000,
   0x060C1830180C0600, 0x00007E007E000000, 0x6030180C18306000, 0x7CC60C1818001800,
   0x7CC6C6DEDCC07C00, 0x386CC6C6FEC6C600, 0xFCC6C6FCC6C6FC00, 0x7CC6C0C0C0C67C00,
   0xF8CCC6C6C6CCF800, 0xFEC0C0F8C0C0FE00, 0xFEC0C0F8C0C0C000, 0x7CC6C0DEC6C67E00,
   0xC6C6C6FEC6C6C600, 0x7E18181818187E00, 0x1E0C0C0C0CCC7800, 0xC6CCD8F0D8CCC600,
   0xC0C0C0C0C0C0FE00, 0xC6EEFEFED6C6C600, 0xC6E6F6DECEC6C600, 0x7CC6C6C6C6C67C00,
   0xFCC6C6FCC0C0C000, 0x7CC6C6C6D6CC7600, 0xFCC6C6FCD8CCC600, 0x7CC6C07C06C67C00,
   0xFFDB181818181800, 0xC6C6C6C6C6C67C00, 0xC6C6C6C66C381000, 0xC6C6C6D6D6D66C00,
   0xC6C66C386CC6C600, 0xC6C6C66C38101000, 0xFE060C183060FE00, 0x3C30303030303C00,
   0xC06030180C060200, 0x3C0C0C0C0C0C3C00, 0x10386CC600000000, 0x00000000000000FF,
   0x30180C0000000000, 0x00007C067EC67E00, 0xC0C0FCC6C6C6FC00, 0x00007CC6C0C67C00,
   0x06067EC6C6C67E00, 0x00007CC6FEC07C00, 0x3C6660F860606000, 0x00007EC6C67E067C,
   0xC0C0FCC6C6C6C600, 0x1800381818183C00, 0x06000E0606C6C67C, 0xC0C0C6CCF8CCC600,
   0x3818181818183C00, 0x0000CCFEFED6D600, 0x0000FCC6C6C6C600, 0x00007CC6C6C67C00,
   0x0000FCC6C6C6FCC0, 0x00007EC6C6C67E06, 0x0000FCC6C0C0C000, 0x00007EC07C06FC00,
   0x3030FC3030361C00, 0x0000C6C6C6C67E00, 0x0000C6C6C66C3800, 0x0000C6D6D6FE6C00,
   0x0000C66C386CC600, 0x0000C6C6C67E067C, 0x0000FE0C3860FE00, 0x0E18187018180E00,
   0x1818181818181800, 0x7018180E18187000, 0x76DC000000000000]

/-- `font_glyph`: bytes outside `0x20` to `0x7e` are blank. -/
def fontGlyph (ch : UInt8) : Option ℕ :=
  if ch.toNat < 0x20 ∨ 0x7e < ch.toNat then none else fontGlyphs[ch.toNat - 0x20]?

/-- The pixel of a glyph is set; the highest bit of a row is on the left. -/
def glyphBit (glyph row col : ℕ) : Bool := glyph.testBit (8 * (7 - row) + (7 - col))

def fontDrawChar (fb : Fb) (x y : ℕ) (ch : UInt8) (color : Color) : Strokes :=
  match fontGlyph ch with
  | none => []
  | some glyph =>
    (range fontGlyphHeight).flatMap fun row => (range fontGlyphWidth).flatMap fun col =>
      if glyphBit glyph row col then fbPutpixel fb (x + col) (y + row) color else []

def newline : UInt8 := 0x0a

/-- The loop of `font_draw_text`, with the place of the next character. -/
def drawTextFrom (fb : Fb) (x : ℕ) (color : Color) (cursorX cursorY : ℕ) : List UInt8 → Strokes
  | [] => []
  | ch :: text =>
    if ch = newline then drawTextFrom fb x color x (cursorY + fontLineHeight) text
    else fontDrawChar fb cursorX cursorY ch color ++
      drawTextFrom fb x color (cursorX + fontCharWidth) cursorY text

def fontDrawText (fb : Fb) (x y : ℕ) (text : List UInt8) (color : Color) : Strokes :=
  drawTextFrom fb x color x y text

/-- The loop of `font_text_width`, with the widest line so far and the width of the current one. -/
def textWidthFrom (widest run : ℕ) : List UInt8 → ℕ
  | [] => max widest run
  | ch :: text =>
    if ch = newline then textWidthFrom (max widest run) 0 text
    else textWidthFrom widest (run + fontCharWidth) text

def fontTextWidth (text : List UInt8) : ℕ := textWidthFrom 0 0 text

/-- The rectangle that a drawing function is clipped to, from `cx0`, `cy0` to before `cx1`, `cy1`. -/
structure Clip where
  x0 : ℤ
  y0 : ℤ
  x1 : ℤ
  y1 : ℤ
  deriving DecidableEq

def Clip.Has (clip : Clip) (p : ℕ × ℕ) : Prop :=
  clip.x0 ≤ p.1 ∧ (p.1 : ℤ) < clip.x1 ∧ clip.y0 ≤ p.2 ∧ (p.2 : ℤ) < clip.y1
deriving Decidable

/-- One row of a character of `font_draw_text_rect_clipped`. -/
def drawRowClipped (fb : Fb) (clip : Clip) (color : Color) (glyph row x y : ℕ) : Strokes :=
  if (y : ℤ) < clip.y0 ∨ clip.y1 ≤ (y : ℤ) then []
  else (range fontGlyphWidth).flatMap fun col =>
    if glyphBit glyph row col = true ∧ clip.x0 ≤ ((x + col : ℕ) : ℤ) ∧ ((x + col : ℕ) : ℤ) < clip.x1
    then fbPutpixel fb (x + col) y color else []

/-- A character of `font_draw_text_rect_clipped`. Rows from `maxH` below `y` on are not drawn. -/
def drawCharClipped (fb : Fb) (clip : Clip) (y maxH : ℕ) (color : Color) (cursorX cursorY : ℕ)
    (ch : UInt8) : Strokes :=
  match fontGlyph ch with
  | none => []
  | some glyph =>
    (range fontGlyphHeight).flatMap fun row =>
      if maxH ≤ cursorY + row - y then []
      else drawRowClipped fb clip color glyph row cursorX (cursorY + row)

def drawTextClippedFrom (fb : Fb) (clip : Clip) (x y maxH : ℕ) (color : Color)
    (cursorX cursorY : ℕ) : List UInt8 → Strokes
  | [] => []
  | ch :: text =>
    if ch = newline then
      if maxH ≤ cursorY + fontLineHeight - y then []
      else drawTextClippedFrom fb clip x y maxH color x (cursorY + fontLineHeight) text
    else drawCharClipped fb clip y maxH color cursorX cursorY ch ++
      drawTextClippedFrom fb clip x y maxH color (cursorX + fontCharWidth) cursorY text

def fontDrawTextRectClipped (fb : Fb) (x y maxH : ℕ) (clip : Clip) (text : List UInt8)
    (color : Color) : Strokes :=
  if maxH = 0 ∨ clip.x1 ≤ clip.x0 ∨ clip.y1 ≤ clip.y0 then []
  else drawTextClippedFrom fb clip x y maxH color x y text

/-! ### What is drawn -/

section Specs
variable {fb : Fb} {x y w h px py : ℕ} {color : Color}

theorem last_rectStrokes (f : ℕ → ℕ → Color) : last (px, py) (rectStrokes x y w h f) =
      if x ≤ px ∧ px < x + w ∧ y ≤ py ∧ py < y + h then some (f (py - y) (px - x)) else none := by
  have hval : ∀ e ∈ rectStrokes x y w h f, e.2 = (fun p : ℕ × ℕ => f (p.2 - y) (p.1 - x)) e.1 := by
    intro e he
    simp only [rectStrokes, mem_flatMap, mem_map] at he
    obtain ⟨row, -, col, -, rfl⟩ := he
    simp
  have hdom : (∃ e ∈ rectStrokes x y w h f, e.1 = (px, py)) ↔
      x ≤ px ∧ px < x + w ∧ y ≤ py ∧ py < y + h := by
    simp only [rectStrokes, mem_flatMap, mem_map, mem_range]
    constructor
    · rintro ⟨_, ⟨row, hrow, col, hcol, rfl⟩, hp⟩
      simp only [Prod.mk.injEq] at hp
      omega
    · intro hp
      refine ⟨_, ⟨py - y, by omega, px - x, by omega, rfl⟩, ?_⟩
      simp only [Prod.mk.injEq]
      omega
  exact last_eq_ite (f := fun p : ℕ × ℕ => f (p.2 - y) (p.1 - x)) hval hdom

theorem cut_eq_min (limit pos len : ℕ) :
    (if limit - pos < len then limit - pos else len) = min (limit - pos) len := by
  split <;> omega

theorem last_fbFillrect : last (px, py) (fbFillrect fb x y w h color) =
    if fb.Has (px, py) ∧ x ≤ px ∧ px < x + w ∧ y ≤ py ∧ py < y + h then some color else none := by
  unfold fbFillrect Fb.Has
  split
  · rw [last_nil, if_neg (by omega)]
  · rw [last_rectStrokes, cut_eq_min, cut_eq_min]
    exact if_congr (by omega) rfl rfl

theorem last_fbBlit (src : ℕ → Color) : last (px, py) (fbBlit fb x y src w h) =
    if fb.Has (px, py) ∧ x ≤ px ∧ px < x + w ∧ y ≤ py ∧ py < y + h
    then some (src ((py - y) * w + (px - x))) else none := by
  unfold fbBlit Fb.Has
  split
  · rw [last_nil, if_neg (by omega)]
  · rw [last_rectStrokes, cut_eq_min, cut_eq_min]
    exact if_congr (by omega) rfl rfl

end Specs

end Gui
