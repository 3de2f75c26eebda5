import ArmoniOS.Gui.Compositor

/-! The clipped drawing functions store what the others do inside the clip, and nothing outside; and what is
drawn of a window lies in its box. -/
namespace Gui
open StoreLog List

structure Clip.On (clip : Clip) (fb : Fb) : Prop where
  x0 : 0 ≤ clip.x0
  y0 : 0 ≤ clip.y0
  x : clip.x0 < clip.x1
  y : clip.y0 < clip.y1
  x1 : clip.x1 ≤ fb.width
  y1 : clip.y1 ≤ fb.height

variable {x y glyph row maxH cursorX cursorY : ℕ} {h x0 y0 x1 y1 X Y W H : ℤ}

section Clipped
variable {fb : Fb} {clip : Clip} {color : Color} {px py : ℕ}

theorem Clip.On.whole (hclip : clip.On fb) : fb.clip.On fb := by
  obtain ⟨hx0, hy0, hx, hy, hx1, hy1⟩ := hclip
  constructor <;> simp only [Fb.clip] <;> omega

theorem Clip.On.has (hclip : clip.On fb) {p : ℕ × ℕ} (hp : clip.Has p) : fb.clip.Has p := by
  obtain ⟨hx0, hy0, hx, hy, hx1, hy1⟩ := hclip
  unfold Clip.Has Fb.clip at *
  dsimp only
  omega

theorem Clip.On.fbHas (hclip : clip.On fb) {p : ℕ × ℕ} (hp : clip.Has p) : fb.Has p := by
  obtain ⟨hx0, hy0, hx, hy, hx1, hy1⟩ := hclip
  unfold Clip.Has at hp
  unfold Fb.Has
  omega

theorem last_fbPutpixel (x y : ℕ) : last (px, py) (fbPutpixel fb x y color) =
    if fb.Has (px, py) ∧ x = px ∧ y = py then some color else none := by
  unfold fbPutpixel Fb.Has
  split
  next hout => rw [last_nil, if_neg (by omega)]
  · exact if_congr (by simp only [Prod.mk.injEq]; omega) rfl rfl

theorem last_fillrectClipped (hclip : clip.On fb) (x y w h : ℤ) :
    last (px, py) (guiFillrectClipped fb x y w h clip color) =
      if clip.Has (px, py) ∧ x ≤ px ∧ px < x + w ∧ y ≤ py ∧ py < y + h then some color else none := by
  obtain ⟨hx0, hy0, hx, hy, hx1, hy1⟩ := hclip
  unfold guiFillrectClipped Clip.Has
  dsimp only
  split
  · rw [last_nil, if_neg (by omega)]
  · split
    · rw [last_nil, if_neg (by omega)]
    · rw [last_fbFillrect]
      exact if_congr (by unfold Fb.Has; dsimp only; omega) rfl rfl

theorem last_putpixelClipped (hclip : clip.On fb) (x y : ℤ) :
    last (px, py) (guiPutpixelClipped fb x y clip color) =
      if clip.Has (px, py) ∧ x = px ∧ y = py then some color else none := by
  obtain ⟨hx0, hy0, hx, hy, hx1, hy1⟩ := hclip
  unfold guiPutpixelClipped Clip.Has
  split
  · rw [last_nil, if_neg (by dsimp only; omega)]
  · rw [last_fbPutpixel]
    exact if_congr (by unfold Fb.Has; dsimp only; omega) rfl rfl

theorem last_blitClipped (hclip : clip.On fb) (x y : ℕ) (src : ℕ → Color) (w h : ℕ) :
    last (px, py) (guiBlitClipped x y src w h clip) =
      if clip.Has (px, py) ∧ x ≤ px ∧ px < x + w ∧ y ≤ py ∧ py < y + h
      then some (src ((py - y) * w + (px - x))) else none := by
  obtain ⟨hx0, hy0, hx, hy, hx1, hy1⟩ := hclip
  unfold guiBlitClipped Clip.Has
  dsimp only
  split
  · rw [last_nil, if_neg (by omega)]
  · split
    · rw [last_nil, if_neg (by omega)]
    · rw [last_rectStrokes]
      by_cases hp : (clip.x0 ≤ px ∧ (px : ℤ) < clip.x1 ∧ clip.y0 ≤ py ∧ (py : ℤ) < clip.y1) ∧
          x ≤ px ∧ px < x + w ∧ y ≤ py ∧ py < y + h
      · rw [if_pos hp, if_pos (by omega)]
        congr 2
        rw [Nat.add_assoc]
        congr 1
        · congr 1
          omega
        · omega
      · rw [if_neg hp, if_neg (by omega)]

/-! ### Inside the clip -/

theorem restricts_of_last {f g : Strokes} {P Q : ℕ × ℕ → Prop} [DecidablePred P] [DecidablePred Q]
    {c : ℕ × ℕ → Color} (hf : ∀ p, last p f = if clip.Has p ∧ P p then some (c p) else none)
    (hg : ∀ p, last p g = if Q p then some (c p) else none) (h : ∀ p, clip.Has p → (P p ↔ Q p)) :
    Restricts clip.Has f g := by
  constructor
  intro p
  rw [hf, hg]
  by_cases hp : clip.Has p
  · rw [if_pos hp]
    exact if_congr (by rw [← h p hp, and_iff_right hp]) rfl rfl
  · rw [if_neg hp, if_neg fun hand => hp hand.1]

section
variable (hclip : clip.On fb)
include hclip

theorem restricts_fillrect {x y w : ℤ} : Restricts clip.Has
    (guiFillrectClipped fb x y w h clip color) (guiFillrectClipped fb x y w h fb.clip color) :=
  restricts_of_last (fun _ => last_fillrectClipped hclip ..)
    (fun _ => last_fillrectClipped hclip.whole ..) fun _ hp => (and_iff_right (hclip.has hp)).symm

theorem restricts_line : Restricts clip.Has
    (guiDrawLineClipped fb x0 y0 x1 y1 clip color) (guiDrawLineClipped fb x0 y0 x1 y1 fb.clip color) :=
  .flatMap fun _ _ => restricts_of_last (fun _ => last_putpixelClipped hclip ..)
    (fun _ => last_putpixelClipped hclip.whole ..) fun _ hp => (and_iff_right (hclip.has hp)).symm

theorem restricts_rect {x y w : ℤ} : Restricts clip.Has
    (guiDrawRectClipped fb x y w h clip color) (guiDrawRectClipped fb x y w h fb.clip color) := by
  have hnil : Restricts clip.Has ([] : Strokes) [] := .nil (by simp)
  apply Restricts.ite (fun _ => hnil)
  intro _
  apply Restricts.append
  · apply (restricts_fillrect hclip).append
    exact .ite (fun _ => restricts_fillrect hclip) (fun _ => hnil)
  · apply Restricts.ite _ (fun _ => hnil)
    intro _
    apply (restricts_fillrect hclip).append
    exact .ite (fun _ => restricts_fillrect hclip) (fun _ => hnil)

theorem restricts_fill {w h : ℕ} (hX : X = x) (hY : Y = y) (hW : W = w) (hH : H = h) :
    Restricts clip.Has (guiFillrectClipped fb X Y W H clip color) (fbFillrect fb x y w h color) := by
  refine restricts_of_last (fun _ => last_fillrectClipped hclip ..) (fun _ => last_fbFillrect ..)
    fun p hp => ?_
  simp only [hclip.fbHas hp, true_and]
  omega

theorem restricts_blit (x y : ℕ) (src : ℕ → Color) (w h : ℕ) :
    Restricts clip.Has (guiBlitClipped x y src w h clip) (fbBlit fb x y src w h) := by
  refine restricts_of_last (fun _ => last_blitClipped hclip ..) (fun _ => last_fbBlit ..)
    fun p hp => ?_
  simp only [hclip.fbHas hp, true_and]

end

/-! ### Text -/

variable {e : (ℕ × ℕ) × Color}

theorem mem_fbPutpixel (he : e ∈ fbPutpixel fb x y color) : fb.Has e.1 ∧ e.1 = (x, y) := by
  unfold fbPutpixel at he
  split at he
  · cases he
  next hin =>
    rw [mem_singleton.1 he]
    have hx : x < fb.width := by omega
    have hy : y < fb.height := by omega
    exact ⟨⟨hx, hy⟩, rfl⟩

theorem mem_drawRowClipped (he : e ∈ drawRowClipped fb clip color glyph row x y) :
    fb.Has e.1 ∧ x ≤ e.1.1 ∧ e.1.1 < x + fontGlyphWidth ∧ e.1.2 = y := by
  unfold drawRowClipped at he
  split at he
  · cases he
  · obtain ⟨col, hcol, he⟩ := mem_flatMap.1 he
    have hcol := mem_range.1 hcol
    split at he
    · obtain ⟨hfb, hpixel⟩ := mem_fbPutpixel he
      refine ⟨hfb, ?_⟩
      rw [hpixel]
      omega
    · cases he

section
variable (hclip : clip.On fb)
include hclip

theorem restricts_row (glyph row x y : ℕ) : Restricts clip.Has
    (drawRowClipped fb clip color glyph row x y) (drawRowClipped fb fb.clip color glyph row x y) := by
  by_cases hy : (y : ℤ) < clip.y0 ∨ clip.y1 ≤ (y : ℤ)
  · rw [drawRowClipped, if_pos hy]
    apply Restricts.nil
    intro e he hin
    obtain ⟨-, -, -, hrow⟩ := mem_drawRowClipped he
    unfold Clip.Has at hin
    omega
  · have hfb : ¬ ((y : ℤ) < fb.clip.y0 ∨ fb.clip.y1 ≤ (y : ℤ)) := by
      have := hclip.y1
      simp only [Fb.clip]
      omega
    rw [drawRowClipped, drawRowClipped, if_neg hy, if_neg hfb]
    apply Restricts.flatMap
    intro col _
    -- A pixel is drawn in both, or in none, or its column is outside the clip.
    by_cases hx : clip.x0 ≤ ((x + col : ℕ) : ℤ) ∧ ((x + col : ℕ) : ℤ) < clip.x1
    · have hxfb : fb.clip.x0 ≤ ((x + col : ℕ) : ℤ) ∧ ((x + col : ℕ) : ℤ) < fb.clip.x1 := by
        have := hclip.x1
        simp only [Fb.clip]
        omega
      simp only [hx, hxfb, and_true]
      apply Restricts.ite
      · intro _
        apply Restricts.self
        intro e he
        rw [(mem_fbPutpixel he).2]
        unfold Clip.Has
        omega
      · intro _
        exact .nil (by simp)
    · rw [if_neg fun hand => hx hand.2]
      apply Restricts.nil
      intro e he hin
      split at he
      · rw [(mem_fbPutpixel he).2] at hin
        exact hx ⟨hin.1, hin.2.1⟩
      · cases he

theorem restricts_char (y maxH cursorX cursorY : ℕ) (ch : UInt8) :
    Restricts clip.Has (drawCharClipped fb clip y maxH color cursorX cursorY ch)
      (drawCharClipped fb fb.clip y maxH color cursorX cursorY ch) := by
  unfold drawCharClipped
  split
  · exact .nil (by simp)
  · apply Restricts.flatMap
    intro row _
    exact .ite (fun _ => .nil (by simp)) (fun _ => restricts_row hclip ..)

theorem restricts_textFrom (x y maxH cursorX cursorY : ℕ) (text : List UInt8) :
    Restricts clip.Has (drawTextClippedFrom fb clip x y maxH color cursorX cursorY text)
      (drawTextClippedFrom fb fb.clip x y maxH color cursorX cursorY text) := by
  induction text generalizing cursorX cursorY with
  | nil => exact .nil (by simp [drawTextClippedFrom])
  | cons ch text ih =>
    apply Restricts.ite
    · intro _
      exact .ite (fun _ => .nil (by simp)) (fun _ => ih ..)
    · intro _
      exact (restricts_char hclip y maxH cursorX cursorY ch).append (ih ..)

theorem restricts_text (x y maxH : ℕ) (text : List UInt8) : Restricts clip.Has
    (fontDrawTextRectClipped fb x y maxH clip text color)
    (fontDrawTextRectClipped fb x y maxH fb.clip text color) := by
  have hx := hclip.x
  have hy := hclip.y
  have hwhole := hclip.whole
  have hwx := hwhole.x
  have hwy := hwhole.y
  unfold fontDrawTextRectClipped
  by_cases hmax : maxH = 0
  · rw [if_pos (.inl hmax), if_pos (.inl hmax)]
    exact .nil (by simp)
  · rw [if_neg (by omega), if_neg (by omega)]
    exact restricts_textFrom hclip ..

end

/-- A text without a newline is one line of characters, cut at the height of the bar. -/
theorem mem_textFrom {text : List UInt8} (hline : newline ∉ text) (hy : y ≤ cursorY)
    (he : e ∈ drawTextClippedFrom fb clip x y maxH color cursorX cursorY text) :
    fb.Has e.1 ∧ cursorX ≤ e.1.1 ∧ e.1.1 < cursorX + fontCharWidth * text.length ∧
      cursorY ≤ e.1.2 ∧ e.1.2 < cursorY + fontGlyphHeight ∧ e.1.2 < y + maxH := by
  induction text generalizing cursorX with
  | nil => cases he
  | cons ch text ih =>
    simp only [mem_cons, not_or] at hline
    rw [drawTextClippedFrom, if_neg (Ne.symm hline.1), mem_append] at he
    have hlen : fontCharWidth * (ch :: text).length = fontCharWidth + fontCharWidth * text.length := by
      rw [length_cons]
      ring
    rcases he with he | he
    · unfold drawCharClipped at he
      split at he
      · cases he
      · obtain ⟨row, hrow, he⟩ := mem_flatMap.1 he
        have hrow := mem_range.1 hrow
        split at he
        · cases he
        · obtain ⟨hfb, hx0, hx1, hrow'⟩ := mem_drawRowClipped he
          have hwidth : fontGlyphWidth = fontCharWidth := rfl
          refine ⟨hfb, hx0, by omega, by omega, by omega, by omega⟩
    · obtain ⟨hfb, hx0, hx1, hrest⟩ := ih hline.2 he
      exact ⟨hfb, by omega, by omega, hrest⟩

/-! ### Where the pixels are -/

section Mem
variable {e : (ℕ × ℕ) × Color}

theorem mem_fillrectClipped (hclip : clip.On fb) {x y w : ℤ}
    (he : e ∈ guiFillrectClipped fb x y w h clip color) :
    x ≤ e.1.1 ∧ e.1.1 < x + w ∧ y ≤ e.1.2 ∧ e.1.2 < y + h :=
  (mem_of_last_eq_ite (f := fun _ => color) (fun _ => last_fillrectClipped hclip x y w h) he).2

theorem mem_fbFillrect {w h : ℕ} (he : e ∈ fbFillrect fb x y w h color) :
    x ≤ e.1.1 ∧ e.1.1 < x + w ∧ y ≤ e.1.2 ∧ e.1.2 < y + h :=
  (mem_of_last_eq_ite (f := fun _ => color) (fun _ => last_fbFillrect) he).2

theorem mem_fbBlit {w h : ℕ} {src : ℕ → Color} (he : e ∈ fbBlit fb x y src w h) :
    x ≤ e.1.1 ∧ e.1.1 < x + w ∧ y ≤ e.1.2 ∧ e.1.2 < y + h :=
  (mem_of_last_eq_ite (f := fun p : ℕ × ℕ => src ((p.2 - y) * w + (p.1 - x))) (fun _ => last_fbBlit src) he).2

theorem mem_lineClipped (hclip : clip.On fb)
    (he : e ∈ guiDrawLineClipped fb x0 y0 x1 y1 clip color) :
    (min x0 x1 ≤ e.1.1 ∧ e.1.1 ≤ max x0 x1) ∧ min y0 y1 ≤ e.1.2 ∧ e.1.2 ≤ max y0 y1 := by
  obtain ⟨q, hq, he⟩ := mem_flatMap.1 he
  have hpixel := mem_of_last_eq_ite
    (fun _ => last_putpixelClipped hclip q.1 q.2) he
  rw [← hpixel.2.1, ← hpixel.2.2]
  exact (GridLine.points_spec x0 y0 x1 y1).2 q hq

theorem mem_rectClipped (hclip : clip.On fb) {x y w : ℤ}
    (he : e ∈ guiDrawRectClipped fb x y w h clip color) :
    x ≤ e.1.1 ∧ e.1.1 < x + w ∧ y ≤ e.1.2 ∧ e.1.2 < y + h := by
  unfold guiDrawRectClipped at he
  split at he
  · cases he
  · simp only [mem_append] at he
    rcases he with (he | he) | he
    · have := mem_fillrectClipped hclip he
      omega
    · split at he
      · have := mem_fillrectClipped hclip he
        omega
      · cases he
    · split at he
      · simp only [mem_append] at he
        rcases he with he | he
        · have := mem_fillrectClipped hclip he
          omega
        · split at he
          · have := mem_fillrectClipped hclip he
            omega
          · cases he
      · cases he

end Mem
end Clipped

/-! ### Title bars -/

def Window.Bar (w : Window) (p : ℕ × ℕ) : Prop :=
  w.x ≤ p.1 ∧ p.1 < w.x + w.w ∧ w.y ≤ p.2 ∧ p.2 < w.y + w.titleH

def Window.Box (w : Window) (p : ℕ × ℕ) : Prop :=
  w.x ≤ p.1 ∧ p.1 < w.x + w.w ∧ w.y ≤ p.2 ∧ p.2 < w.y + w.h

/-- The title is one line that ends inside the window, or at the right edge of the framebuffer. -/
def Window.TitleFits (fb : Fb) (w : Window) : Prop :=
  w.titleH ≠ 0 → newline ∉ w.title ∧
    (2 + fontCharWidth * w.title.length ≤ w.w ∨ fb.width ≤ w.x + w.w)

section Title
variable {fb : Fb} {clip : Clip} {w : Window} {focused : Bool} {border : Color} {b : Box}
  {e : (ℕ × ℕ) × Color}

structure Box.In (b : Box) (w : Window) : Prop where
  left : w.x ≤ b.x
  right : b.x + b.w ≤ w.x + w.w
  top : w.y ≤ b.y
  bottom : b.y + b.h ≤ w.y + w.titleH
  width : 4 ≤ b.w
  height : 4 ≤ b.h

theorem rightmostBox_spec {minW : ℕ → ℕ} (h : rightmostBox w minW = some b) :
    b.x = w.x + w.w - b.w - closeBtnPad ∧ b.y = w.y + closeBtnPad ∧ b.h + 2 * closeBtnPad = w.titleH ∧
      4 ≤ b.w ∧ 4 ≤ b.h ∧ minW b.w ≤ w.w := by
  unfold rightmostBox at h
  split at h
  · cases h
  · dsimp only at h
    split at h
    · cases h
    next hbh =>
      generalize hbw : (if w.titleH - 2 * closeBtnPad < closeBtnW then w.titleH - 2 * closeBtnPad
        else closeBtnW) = bw at h
      have hfour : 4 ≤ bw := by
        rw [← hbw]
        unfold closeBtnW at *
        split <;> omega
      split at h
      · cases h
      next hw =>
        cases h
        refine ⟨rfl, rfl, ?_, hfour, not_lt.1 hbh, not_lt.1 hw⟩
        dsimp only
        omega

theorem closeBox_in (h : guiCloseBoxRect w = some b) : b.In w := by
  obtain ⟨hx, hy, hh, hw4, hh4, hw⟩ := rightmostBox_spec h
  constructor <;> omega

theorem buttonBox_in (h : guiMinimizeButtonRect w = some b ∨ guiMaximizeButtonRect w = some b) :
    b.In w := by
  rcases h with h | h
  all_goals
    obtain ⟨row, hrow, rfl⟩ := Option.map_eq_some_iff.1 h
    obtain ⟨hx, hy, hh, hw4, hh4, hw⟩ := rightmostBox_spec hrow
    constructor <;> dsimp only <;> omega

theorem mem_minimizeButton (hclip : clip.On fb) (he : e ∈ minimizeButton fb w focused clip) :
    w.Bar e.1 := by
  unfold minimizeButton at he
  split at he
  · cases he
  next b hb =>
    obtain ⟨hl, hr, ht, hb, hw, hh⟩ := buttonBox_in (.inl hb)
    unfold Window.Bar
    rcases mem_append.1 he with he | he
    · have := mem_fillrectClipped hclip he
      omega
    · have := mem_fillrectClipped hclip he
      omega

theorem mem_maximizeButton (hclip : clip.On fb) (he : e ∈ maximizeButton fb w focused clip) :
    w.Bar e.1 := by
  unfold maximizeButton at he
  split at he
  · cases he
  next b hb =>
    obtain ⟨hl, hr, ht, hb, hw, hh⟩ := buttonBox_in (.inr hb)
    unfold Window.Bar
    rcases mem_append.1 he with he | he
    · have := mem_fillrectClipped hclip he
      omega
    · have := mem_rectClipped hclip he
      omega

theorem mem_closeButton (hclip : clip.On fb) (he : e ∈ closeButton fb w focused clip) : w.Bar e.1 := by
  unfold closeButton at he
  split at he
  · cases he
  next b hb =>
    obtain ⟨hl, hr, ht, hb, hw, hh⟩ := closeBox_in hb
    unfold Window.Bar
    simp only [mem_append] at he
    rcases he with (he | he) | he
    · have := mem_fillrectClipped hclip he
      omega
    · have := mem_lineClipped hclip he
      omega
    · have := mem_lineClipped hclip he
      omega

theorem titleTextY_le (w : Window) : w.y ≤ titleTextY w ∧
    (titleTextY w + fontGlyphHeight ≤ w.y + w.titleH ∨ titleTextY w = w.y) := by
  unfold titleTextY fontGlyphHeight
  split <;> omega

theorem mem_text (hfits : w.TitleFits fb) (hbar : w.titleH ≠ 0)
    (he : e ∈ fontDrawTextRectClipped fb (w.x + 2) (titleTextY w) w.titleH clip w.title border) :
    w.Bar e.1 ∧ w.x + 2 ≤ e.1.1 ∧ titleTextY w ≤ e.1.2 ∧ e.1.2 < titleTextY w + fontGlyphHeight := by
  obtain ⟨hline, hright⟩ := hfits hbar
  unfold fontDrawTextRectClipped at he
  split at he
  · cases he
  · obtain ⟨hfb, hx0, hx1, hy0, hy1, hmax⟩ := mem_textFrom hline le_rfl he
    have hy := titleTextY_le w
    have hwidth := hfb.1
    unfold Window.Bar
    omega

theorem mem_title (hclip : clip.On fb) (hfits : w.TitleFits fb)
    (he : e ∈ guiDrawWindowTitle fb w focused border clip) : w.Bar e.1 := by
  unfold guiDrawWindowTitle at he
  split at he
  · cases he
  next hbar =>
    simp only [mem_append] at he
    rcases he with ((((he | he) | he) | he) | he) | he
    · have := mem_fillrectClipped hclip he
      unfold Window.Bar
      omega
    · have := mem_fillrectClipped hclip he
      unfold Window.Bar
      omega
    · unfold titleText at he
      split at he
      · exact (mem_text hfits (by tauto) he).1
      · cases he
    · exact mem_minimizeButton hclip he
    · exact mem_maximizeButton hclip he
    · exact mem_closeButton hclip he

theorem restricts_titleText (hclip : clip.On fb) (hfits : w.TitleFits fb) (hbar : w.titleH ≠ 0) :
    Restricts clip.Has (titleText fb w clip) (titleText fb w fb.clip) := by
  unfold titleText
  split
  next hreach =>
    have hwhole : fb.clip.x0 < w.x + w.w ∧ (w.x : ℤ) + 2 < fb.clip.x1 ∧
        fb.clip.y0 < titleTextY w + fontGlyphHeight ∧ (titleTextY w : ℤ) < fb.clip.y1 := by
      obtain ⟨hx0, hy0, hx, hy, hx1, hy1⟩ := hclip
      simp only [Fb.clip]
      omega
    rw [if_pos hwhole]
    exact restricts_text hclip ..
  next hreach =>
    apply Restricts.nil
    intro e he hin
    split at he
    · obtain ⟨hinbar, hx, hy0, hy1⟩ := mem_text hfits hbar he
      unfold Window.Bar at hinbar
      unfold Clip.Has at hin
      omega
    · cases he

theorem restricts_title (hclip : clip.On fb) (hfits : w.TitleFits fb) : Restricts clip.Has
    (guiDrawWindowTitle fb w focused border clip) (guiDrawWindowTitle fb w focused border fb.clip) := by
  apply Restricts.ite
  · intro _
    exact .nil (by simp)
  · intro hbar
    apply Restricts.append
    · apply Restricts.append
      · apply Restricts.append
        · apply Restricts.append
          · exact (restricts_fillrect hclip).append (restricts_fillrect hclip)
          · exact restricts_titleText hclip hfits (by tauto)
        · unfold minimizeButton
          split
          · exact .nil (by simp)
          · exact (restricts_fillrect hclip).append (restricts_fillrect hclip)
      · unfold maximizeButton
        split
        · exact .nil (by simp)
        · exact (restricts_fillrect hclip).append (restricts_rect hclip)
    · unfold closeButton
      split
      · exact .nil (by simp)
      · exact ((restricts_fillrect hclip).append (restricts_line hclip)).append (restricts_line hclip)

end Title

/-! ### Windows -/

structure Window.Sized (w : Window) : Prop where
  width : 2 ≤ w.w
  height : 2 ≤ w.h
  bar : w.titleH < w.h

/-- No pixel of the title bar is left out: a buffer that is shown starts below the bar, and a bar without a
title is not drawn. Only the frame of the window is drawn over it then. -/
def Window.StripPainted (w : Window) : Prop :=
  w.shown.isSome = true → w.title = [] → w.titleH ≤ 1 ∨ w.w ≤ 2

section Windows
variable {fb : Fb} {clip : Clip} {w : Window} {focused : Bool} {border : Color} {e : (ℕ × ℕ) × Color}

theorem mem_drawContent (he : e ∈ drawContent fb w border) : w.Box e.1 := by
  unfold Window.Box
  unfold drawContent at he
  split at he
  · have := mem_fbBlit he
    rw [contentH_eq] at this
    omega
  · rcases mem_append.1 he with he | he
    · exact mem_fbFillrect he
    · split at he
      · have := mem_fbFillrect he
        omega
      · cases he

theorem mem_drawFrame (hw : w.Sized) (he : e ∈ drawFrame fb w border) : w.Box e.1 := by
  have hwidth := hw.width
  have hheight := hw.height
  unfold Window.Box
  simp only [drawFrame, mem_append] at he
  rcases he with (he | he) | he
  · have := mem_fbFillrect he
    omega
  · split at he
    · have := mem_fbFillrect he
      omega
    · cases he
  · split at he
    · rcases mem_append.1 he with he | he
      · have := mem_fbFillrect he
        omega
      · split at he
        · have := mem_fbFillrect he
          omega
        · cases he
    · cases he

section
variable (hclip : clip.On fb)
include hclip

theorem mem_drawWindow (hw : w.Sized) (hfits : w.TitleFits fb) (he : e ∈ guiDrawWindow fb focused w) :
    w.Box e.1 := by
  unfold guiDrawWindow at he
  split at he
  · cases he
  · simp only [mem_append] at he
    rcases he with (he | he) | he
    · exact mem_drawContent he
    · exact mem_drawFrame hw he
    · have hin := mem_title hclip.whole hfits he
      have hbar := hw.bar
      unfold Window.Bar at hin
      unfold Window.Box
      omega

theorem restricts_content : Restricts clip.Has
    (drawContentClipped fb w border clip) (drawContent fb w border) := by
  unfold drawContentClipped drawContent
  split
  · exact restricts_blit hclip ..
  · apply Restricts.append
    · exact restricts_fill hclip rfl rfl rfl rfl
    · apply Restricts.ite
      · intro _
        exact restricts_fill hclip (by omega) (by omega) rfl rfl
      · intro _
        exact .nil (by simp)

theorem restricts_frame : Restricts clip.Has
    (drawFrameClipped fb w border clip) (drawFrame fb w border) := by
  apply Restricts.append
  · apply Restricts.append
    · exact restricts_fill hclip rfl rfl rfl rfl
    · apply Restricts.ite
      · intro _
        exact restricts_fill hclip rfl (by omega) rfl rfl
      · intro _
        exact .nil (by simp)
  · apply Restricts.ite
    · intro _
      apply Restricts.append
      · exact restricts_fill hclip rfl (by omega) rfl rfl
      · apply Restricts.ite
        · intro _
          exact restricts_fill hclip (by omega) (by omega) rfl rfl
        · intro _
          exact .nil (by simp)
    · intro _
      exact .nil (by simp)

theorem restricts_window (hw : w.Sized) (hfits : w.TitleFits fb) :
    Restricts clip.Has (guiDrawWindowClipped fb focused w clip) (guiDrawWindow fb focused w) := by
  have hout (hno : ¬ guiRectsOverlap w.x w.y w.w w.h clip.x0 clip.y0 (clip.x1 - clip.x0)
      (clip.y1 - clip.y0)) : Restricts clip.Has [] (guiDrawWindow fb focused w) := by
    apply Restricts.nil
    intro e he hin
    have hbox := mem_drawWindow hclip hw hfits he
    unfold Window.Box at hbox
    unfold Clip.Has at hin
    unfold guiRectsOverlap at hno
    omega
  unfold guiDrawWindowClipped
  by_cases hvisible : w.used = false ∨ w.minimized = true
  · rw [if_pos hvisible, guiDrawWindow, if_pos hvisible]
    exact .nil (by simp)
  · rw [if_neg hvisible]
    split
    · rw [guiDrawWindow, if_neg hvisible]
      apply ((restricts_content hclip).append (restricts_frame hclip)).append
      split
      · exact restricts_title hclip hfits
      next hno =>
        apply Restricts.nil
        intro e he hin
        have hbar := mem_title hclip.whole hfits he
        unfold Window.Bar at hbar
        unfold Clip.Has at hin
        omega
    next hno => exact hout hno

end

/-! ### No pixel of a window is left out -/

section Covers
variable {px py : ℕ}

theorem isSome_fbFillrect {w h : ℕ} {color : Color} (hfb : fb.Has (px, py))
    (hin : x ≤ px ∧ px < x + w ∧ y ≤ py ∧ py < y + h) :
    (last (px, py) (fbFillrect fb x y w h color)).isSome = true := by
  rw [last_fbFillrect, if_pos ⟨hfb, hin⟩]
  rfl

theorem isSome_drawFrame (hw : w.Sized) (hfb : fb.Has (px, py)) (hbox : w.Box (px, py))
    (hedge : px = w.x ∨ px = w.x + w.w - 1 ∨ py = w.y ∨ py = w.y + w.h - 1) :
    (last (px, py) (drawFrame fb w border)).isSome = true := by
  have hwidth := hw.width
  have hheight := hw.height
  unfold Window.Box at hbox
  unfold drawFrame
  rw [isSome_last_append, isSome_last_append, if_pos (by omega : 1 < w.h)]
  by_cases htop : py = w.y
  · rw [isSome_fbFillrect hfb (by omega)]
    rfl
  · by_cases hbottom : py = w.y + w.h - 1
    · rw [isSome_fbFillrect (y := w.y + w.h - 1) hfb (by omega), Bool.or_true]
      rfl
    · rw [if_pos (by omega : 2 < w.h), isSome_last_append, if_pos (by omega : 1 < w.w)]
      by_cases hleft : px = w.x
      · rw [isSome_fbFillrect (y := w.y + 1) hfb (by omega), Bool.true_or, Bool.or_true]
      · rw [isSome_fbFillrect (x := w.x + w.w - 1) hfb (by omega), Bool.or_true,
          Bool.or_true]

theorem isSome_drawWindow (hclip : clip.On fb) (hw : w.Sized) (hstrip : w.StripPainted)
    (hused : w.used = true) (hvisible : w.minimized = false) (hfb : fb.Has (px, py))
    (hbox : w.Box (px, py)) : (last (px, py) (guiDrawWindow fb focused w)).isSome = true := by
  have hshow : ¬ (w.used = false ∨ w.minimized = true) := by simp [hused, hvisible]
  unfold guiDrawWindow
  rw [if_neg hshow]
  rw [isSome_last_append, isSome_last_append]
  cases hb : w.shown with
  | none =>
    have hcontent : (last (px, py) (drawContent fb w (w.border focused))).isSome = true := by
      unfold drawContent
      rw [hb]
      rw [isSome_last_append, isSome_fbFillrect hfb hbox]
      rfl
    rw [hcontent]
    rfl
  | some b =>
    by_cases hrow : py < w.y + w.titleH
    · by_cases htitle : w.title = []
      · have hedge : (last (px, py) (drawFrame fb w (w.border focused))).isSome = true := by
          apply isSome_drawFrame hw hfb hbox
          have := hstrip (by rw [hb]; rfl) htitle
          unfold Window.Box at hbox
          omega
        rw [hedge, Bool.or_true]
        rfl
      · have hbar : (last (px, py) (guiDrawWindowTitle fb w focused (w.border focused)
            fb.clip)).isSome = true := by
          unfold guiDrawWindowTitle
          unfold Window.Box at hbox
          rw [if_neg (by simp only [htitle, or_false]; omega)]
          simp only [isSome_last_append, Bool.or_eq_true]
          left; left; left; left; left
          rw [last_fillrectClipped hclip.whole, if_pos]
          · rfl
          · unfold Clip.Has Fb.clip
            unfold Fb.Has at hfb
            dsimp only at *
            omega
        rw [hbar, Bool.or_true]
    · have hcontent : (last (px, py) (drawContent fb w (w.border focused))).isSome = true := by
        unfold drawContent
        rw [hb]
        rw [last_fbBlit, if_pos]
        · rfl
        · unfold Window.Box at hbox
          rw [contentH_eq]
          refine ⟨hfb, ?_⟩
          omega
      rw [hcontent]
      rfl

end Covers
end Windows
end Gui
