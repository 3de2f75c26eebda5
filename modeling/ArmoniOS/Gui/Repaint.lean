import ArmoniOS.Gui.Order

/-! The two painters agree. A damaged rectangle gets the pixels that the painter of the whole framebuffer
would store there, and that painter stores every pixel, as long as the stacking counter has not wrapped and
the titles of the visible windows can be drawn in their bars. -/
namespace Gui
open StoreLog List Option Desktop

/-- What the drawn desktop has to be. The first three hold in every run (`run_laid`), up to the wrap of the
stacking counter. -/
structure Desktop.Laid (d : Desktop) : Prop where
  sized : ∀ i, (d.windows i).used = true → (d.windows i).Sized ∧ (d.windows i).x < d.screen.width
  pointer : d.PointerOk
  ordered : d.Ordered

theorem run_laid (s : Screen) (ops : List Op) (hz : ((init s).run ops).nextZ < 2 ^ 32) :
    ((init s).run ops).Laid := by
  obtain ⟨hscreen, hpointer, hframes⟩ := run_sized s ops
  constructor
  · intro i hi
    obtain ⟨hw, hh, ht, hx, -⟩ := hframes i hi
    rw [hscreen]
    exact ⟨⟨hw, hh, ht⟩, hx⟩
  · exact hpointer
  · exact ordered_of_stacked (run_stacked s ops) hz

/-- The titles of the visible windows are one line that fits, and no strip of a bar is left out. -/
def Desktop.TitlesOk (d : Desktop) : Prop :=
  ∀ i, (d.windows i).Visible → (d.windows i).TitleFits d.screen.fb ∧ (d.windows i).StripPainted

/-! ### The background -/

variable {i : Fin maxWindows} {clip : Clip}

section Gradient
variable {d : Desktop} {row x px py : ℕ}

/-- The window is visible, lies across the row and starts at `x` or right of it. -/
def Desktop.Starts (d : Desktop) (row x : ℕ) (i : Fin maxWindows) : Prop :=
  (d.windows i).Visible ∧ (d.windows i).y ≤ row ∧ row < (d.windows i).y + (d.windows i).h ∧
    x ≤ (d.windows i).x

theorem mem_nextAtStep {best : Option (Fin maxWindows)} {b : Fin maxWindows}
    (hb : b ∈ nextAtStep d row x best i) : b ∈ best ∨ d.Starts row x b := by
  unfold nextAtStep at hb
  dsimp only at hb
  split_ifs at hb with hhidden hrow hleft hstart
  · exact .inl hb
  · exact .inl hb
  · exact .inl hb
  · obtain rfl := some.inj hb
    simp only [not_or, Bool.not_eq_false, Bool.not_eq_true] at hhidden
    exact .inr ⟨hhidden, by omega, by omega, hstart.1⟩
  · exact .inl hb

theorem guiNextWindowAtOrAfter_some (h : guiNextWindowAtOrAfter d row x = some i) :
    d.Starts row x i := by
  have hfold (slots : List (Fin maxWindows)) (best : Option (Fin maxWindows))
      (hbest : ∀ b ∈ best, d.Starts row x b) :
      ∀ b ∈ slots.foldl (nextAtStep d row x) best, d.Starts row x b := by
    induction slots generalizing best with
    | nil => exact hbest
    | cons i slots ih =>
      apply ih
      intro b hb
      rcases mem_nextAtStep hb with hb | hstarts
      · exact hbest b hb
      · exact hstarts
  exact hfold _ none (by simp) i h

theorem last_gradientRow (d : Desktop) (row n x px py : ℕ) : last (px, py) (gradientRow d row n x) = none ∨
    py = row ∧ last (px, py) (gradientRow d row n x) = some (gradientColor d row) := by
  have hfill (x' w : ℕ) : last (px, py) (fbFillrect d.screen.fb x' row w 1 (gradientColor d row)) = none ∨
      py = row ∧ last (px, py) (fbFillrect d.screen.fb x' row w 1 (gradientColor d row)) =
        some (gradientColor d row) := by
    rw [last_fbFillrect]
    split
    next hin => exact .inr ⟨by omega, rfl⟩
    · exact .inl rfl
  induction n generalizing x with
  | zero => exact .inl rfl
  | succ n ih =>
    unfold gradientRow
    split
    · split
      · exact hfill ..
      next i _ =>
        rcases ih ((d.windows i).x + (d.windows i).w) with hnone | ⟨hrow, hsome⟩
        · rw [last_append_of_none hnone]
          split
          · exact hfill ..
          · exact .inl rfl
        · exact .inr ⟨hrow, last_append_of_some hsome⟩
    · exact .inl rfl

theorem isSome_gradientRow (h : d.Laid) (hrow : row < d.screen.height) (hx : x ≤ px)
    (hpx : px < d.screen.width) (hout : ∀ i, (d.windows i).Visible → ¬ (d.windows i).Box (px, row))
    {n : ℕ} (hn : d.screen.width - x < n) :
    (last (px, row) (gradientRow d row n x)).isSome = true := by
  have hfb : d.screen.fb.Has (px, row) := ⟨hpx, hrow⟩
  induction n generalizing x with
  | zero => omega
  | succ n ih =>
    unfold gradientRow
    rw [if_pos (by omega)]
    split
    · exact isSome_fbFillrect hfb (by omega)
    next i hi =>
      obtain ⟨hvisible, hy0, hy1, hxi⟩ := guiNextWindowAtOrAfter_some hi
      have hwidth := (h.sized i hvisible.1).1.width
      have hbox := hout i hvisible
      unfold Window.Box at hbox
      rw [isSome_last_append]
      by_cases hleft : px < (d.windows i).x
      · rw [if_pos (by omega), isSome_fbFillrect hfb (by omega)]
        rfl
      · rw [ih (by omega) (by omega), Bool.or_true]

theorem last_gradientRows (d : Desktop) (px py : ℕ) : last (px, py) (gradientRows d) = none ∨
    last (px, py) (gradientRows d) = some (gradientColor d py) := by
  apply last_flatMap_eq
  intro row _
  rcases last_gradientRow d row (d.screen.width + 1) 0 px py with hnone | ⟨rfl, hsome⟩
  · exact .inl hnone
  · exact .inr hsome

theorem last_gradientRows_outside (h : d.Laid) (hfb : d.screen.fb.Has (px, py))
    (hout : ∀ i, (d.windows i).Visible → ¬ (d.windows i).Box (px, py)) :
    last (px, py) (gradientRows d) = some (gradientColor d py) := by
  have hsome : (last (px, py) (gradientRows d)).isSome = true := by
    apply isSome_last_flatMap (mem_range.2 hfb.2)
    exact isSome_gradientRow h hfb.2 (Nat.zero_le _) hfb.1 hout (by omega)
  rcases last_gradientRows d px py with hnone | hcolor
  · rw [hnone] at hsome
    cases hsome
  · exact hcolor

theorem last_gradientClipped (hclip : clip.On d.screen.fb) :
    last (px, py) (gradientClipped d clip) =
      if clip.Has (px, py) then some (gradientColor d py) else none := by
  obtain ⟨hx0, hy0, hx, hy, hx1, hy1⟩ := hclip
  have hrow (k : ℕ) : last (px, py) (fbFillrect d.screen.fb clip.x0.toNat (clip.y0.toNat + k)
      (clip.x1 - clip.x0).toNat 1 (gradientColor d (clip.y0.toNat + k))) =
      if d.screen.fb.Has (px, py) ∧ (clip.x0 ≤ px ∧ (px : ℤ) < clip.x1) ∧ py = clip.y0.toNat + k
      then some (gradientColor d py) else none := by
    rw [last_fbFillrect]
    split
    next hin =>
      have hpy : py = clip.y0.toNat + k := by omega
      rw [if_pos ⟨hin.1, by omega, hpy⟩, hpy]
    next hin => rw [if_neg fun hand => hin ⟨hand.1, by omega⟩]
  split_ifs with hin
  · unfold Clip.Has at hin
    dsimp only at hin
    have hfb : d.screen.fb.Has (px, py) := ⟨by dsimp only; omega, by dsimp only; omega⟩
    have hone : (last (px, py) (gradientClipped d clip)).isSome = true := by
      have hk : py - clip.y0.toNat ∈ range (clip.y1 - clip.y0).toNat := mem_range.2 (by omega)
      apply isSome_last_flatMap hk
      rw [hrow, if_pos ⟨hfb, by omega, by omega⟩]
      rfl
    have hcolor : last (px, py) (gradientClipped d clip) = none ∨
        last (px, py) (gradientClipped d clip) = some (gradientColor d py) := by
      apply last_flatMap_eq
      intro k _
      rw [hrow]
      split
      · exact .inr rfl
      · exact .inl rfl
    rcases hcolor with hnone | hcolor
    · rw [hnone] at hone
      cases hone
    · exact hcolor
  · apply last_flatMap_none
    intro k hk
    have hk := mem_range.1 hk
    rw [hrow, if_neg]
    unfold Clip.Has at hin
    omega

end Gradient

/-! ### The cursor -/

section Cursor
variable {d : Desktop} {px py : ℕ}

theorem last_cursorInRect (hpointer : d.PointerOk) (hin : clip.Has (px, py)) :
    last (px, py) (drawCursorInRect d clip) = last (px, py) (drawCursor d) := by
  unfold drawCursorInRect
  dsimp only
  split
  · rfl
  next hmiss =>
    symm
    apply last_eq_none_iff.2
    intro e he heq
    unfold drawCursor at he
    split at he
    · obtain ⟨row, hrow, he⟩ := mem_flatMap.1 he
      obtain ⟨col, hcol, he⟩ := mem_flatMap.1 he
      have hrow := mem_range.1 hrow
      have hcol := mem_range.1 hcol
      have hx := hpointer.x_nonneg
      have hy := hpointer.y_nonneg
      split at he
      · cases he
      · rw [← heq, (mem_fbPutpixel he).2] at hin
        unfold Clip.Has at hin
        omega
    · cases he

end Cursor

/-! ### One rectangle -/

variable {r : Rect}

section Damaged
variable {d : Desktop} {px py : ℕ}

def drawWindows (d : Desktop) : Strokes :=
  (drawOrder d).flatMap fun i => guiDrawWindow d.screen.fb (d.focused = some i) (d.windows i)

theorem drawFull_eq (d : Desktop) : drawFull d = gradientRows d ++ drawWindows d ++ drawCursor d := rfl

theorem restricts_windows (hlaid : d.Laid) (htitles : d.TitlesOk) (hclip : clip.On d.screen.fb) :
    Restricts clip.Has ((drawOrder d).flatMap (drawWindowInRect d clip)) (drawWindows d) := by
  apply Restricts.flatMap
  intro i hi
  have hvisible := (mem_drawOrder hlaid.ordered).1 hi
  have hsized := (hlaid.sized i hvisible.1).1
  have hfits := (htitles i hvisible).1
  unfold drawWindowInRect
  dsimp only
  split
  · exact restricts_window hclip hsized hfits
  next hmiss =>
    apply Restricts.nil
    intro e he hin
    have hbox := mem_drawWindow hclip hsized hfits he
    unfold Window.Box at hbox
    unfold Clip.Has at hin
    omega

theorem screen_clip_on (s : Screen) : s.fb.clip.On s.fb := by
  have hw := s.width_pos
  have hh := s.height_pos
  constructor <;> simp only [Fb.clip, Screen.fb] <;> omega

theorem outside_of_drawWindows_none (hlaid : d.Laid) (htitles : d.TitlesOk)
    (hfb : d.screen.fb.Has (px, py)) (hnone : last (px, py) (drawWindows d) = none) (i : Fin maxWindows)
    (hi : (d.windows i).Visible) : ¬ (d.windows i).Box (px, py) := by
  intro hbox
  have hsome : (last (px, py) (drawWindows d)).isSome = true := by
    apply isSome_last_flatMap ((mem_drawOrder hlaid.ordered).2 hi)
    exact isSome_drawWindow (screen_clip_on d.screen) (hlaid.sized i hi.1).1 (htitles i hi).2 hi.1 hi.2
      hfb hbox
  rw [hnone] at hsome
  cases hsome

theorem isSome_drawFull (hlaid : d.Laid) (htitles : d.TitlesOk) (hfb : d.screen.fb.Has (px, py)) :
    (last (px, py) (drawFull d)).isSome = true := by
  rw [drawFull_eq, isSome_last_append, isSome_last_append]
  cases hwindows : last (px, py) (drawWindows d) with
  | some v => simp
  | none =>
    rw [last_gradientRows_outside hlaid hfb (outside_of_drawWindows_none hlaid htitles hfb hwindows)]
    rfl

theorem rect_clip_on {s : Screen}
    (h : ¬ ((r.clip s).x1 ≤ (r.clip s).x0 ∨ (r.clip s).y1 ≤ (r.clip s).y0)) :
    (r.clip s).On s.fb := by
  simp only [Rect.clip, s.w_eq, s.h_eq] at h
  constructor <;> simp only [Rect.clip, s.w_eq, s.h_eq, Screen.fb] <;> omega

theorem rect_clip_has {s : Screen} (hfb : s.fb.Has (px, py)) :
    (r.clip s).Has (px, py) ↔ r.Covers px py := by
  have hx : px < s.width := hfb.1
  have hy : py < s.height := hfb.2
  simp only [Clip.Has, Rect.clip, Rect.Covers, s.w_eq, s.h_eq]
  omega

theorem last_drawDamaged_inside (hlaid : d.Laid) (htitles : d.TitlesOk)
    (hfb : d.screen.fb.Has (px, py)) (hcovers : r.Covers px py) :
    last (px, py) (drawDamaged d r) = last (px, py) (drawFull d) := by
  have hin := (rect_clip_has hfb).2 hcovers
  have hsome : ¬ ((r.clip d.screen).x1 ≤ (r.clip d.screen).x0 ∨
      (r.clip d.screen).y1 ≤ (r.clip d.screen).y0) := by
    unfold Clip.Has at hin
    omega
  have hclip := rect_clip_on hsome
  unfold drawDamaged
  rw [if_neg hsome, drawFull_eq, last_append, last_append, last_append, last_append,
    last_cursorInRect hlaid.pointer hin, (restricts_windows hlaid htitles hclip).last_eq, if_pos hin,
    last_gradientClipped hclip, if_pos hin]
  cases hwindows : last (px, py) (drawWindows d) with
  | some v => rfl
  | none =>
    rw [last_gradientRows_outside hlaid hfb (outside_of_drawWindows_none hlaid htitles hfb hwindows)]

/-- Outside it nothing is stored but the cursor, which is on top in a redraw of everything too. -/
theorem last_drawDamaged_outside (hlaid : d.Laid) (htitles : d.TitlesOk)
    (hfb : d.screen.fb.Has (px, py)) (hcovers : ¬ r.Covers px py) :
    last (px, py) (drawDamaged d r) = none ∨
      last (px, py) (drawDamaged d r) = last (px, py) (drawFull d) := by
  have hout : ¬ (r.clip d.screen).Has (px, py) := fun hin => hcovers ((rect_clip_has hfb).1 hin)
  unfold drawDamaged
  dsimp only
  split
  · exact .inl rfl
  next hsome =>
    have hclip := rect_clip_on hsome
    rw [last_append, last_append, (restricts_windows hlaid htitles hclip).last_eq, if_neg hout,
      last_gradientClipped hclip, if_neg hout]
    cases hcursor : last (px, py) (drawCursorInRect d (r.clip d.screen)) with
    | none => exact .inl rfl
    | some v =>
      right
      unfold drawCursorInRect at hcursor
      dsimp only at hcursor
      split at hcursor
      · rw [drawFull_eq, last_append_of_some hcursor]
        rfl
      · cases hcursor

theorem last_drawRects (hlaid : d.Laid) (htitles : d.TitlesOk) {rects : List Rect}
    (hfb : d.screen.fb.Has (px, py)) (hcovers : ∃ r ∈ rects, r.Covers px py) :
    last (px, py) (rects.flatMap (drawDamaged d)) = last (px, py) (drawFull d) := by
  obtain ⟨v, hv⟩ := isSome_iff_exists.1 (isSome_drawFull hlaid htitles hfb)
  rw [hv]
  have heach (r : Rect) : last (px, py) (drawDamaged d r) = none ∨
      last (px, py) (drawDamaged d r) = some v := by
    rw [← hv]
    by_cases hr : r.Covers px py
    · exact .inr (last_drawDamaged_inside hlaid htitles hfb hr)
    · exact last_drawDamaged_outside hlaid htitles hfb hr
  rcases last_flatMap_eq fun r _ => heach r with hnone | hsome
  · obtain ⟨r, hr, hin⟩ := hcovers
    have hone : (last (px, py) (rects.flatMap (drawDamaged d))).isSome = true := by
      apply isSome_last_flatMap hr
      rw [last_drawDamaged_inside hlaid htitles hfb hin, hv]
      rfl
    rw [hnone] at hone
    cases hone
  · exact hsome

end Damaged

/-! ### The damage does not matter to what is drawn in a place -/

section Damage
variable (d : Desktop) (damage : Damage)

theorem drawOrder_damage : drawOrder { d with damage } = drawOrder d :=
  drawOrder_congr (fun _ => rfl) (fun _ => rfl)

theorem drawFull_damage : drawFull { d with damage } = drawFull d := by
  have hgradient : gradientRows { d with damage } = gradientRows d :=
    gradientRows_congr rfl rfl (fun _ => ⟨rfl, rfl⟩) (fun _ _ => rfl)
  unfold drawFull
  rw [drawOrder_damage, hgradient]
  rfl

theorem drawDamaged_damage (r : Rect) : drawDamaged { d with damage } r = drawDamaged d r := by
  unfold drawDamaged
  rfl

end Damage

/-! ### Runs -/

/-- In every state that a run reaches before the stacking counter wraps, and in which the titles can be
drawn: a redraw of any list of damaged rectangles gives each pixel in one of them the colour that a redraw
of everything gives it, and that colour does not depend on the old contents of the framebuffer. -/
theorem damaged_redraw_matches_full (s : Screen) (ops : List Op) (rects : List Rect)
    (hz : ((init s).run ops).nextZ < 2 ^ 32) (htitles : ((init s).run ops).TitlesOk) :
    let d := (init s).run ops
    let full := guiDraw { d with damage := ⟨[], true, true⟩ }
    let damaged := guiDraw { d with damage := ⟨rects, false, true⟩ }
    (∀ px py, px < s.width → py < s.height → (∃ r ∈ rects, r.Covers px py) →
      ∀ pixels pixels' : ℕ × ℕ → Color,
        write pixels damaged (px, py) = write pixels' full (px, py)) ∧
    ∀ px py, px < s.width → py < s.height →
      ∀ pixels pixels' : ℕ × ℕ → Color, write pixels full (px, py) = write pixels' full (px, py) := by
  intro d full damaged
  have hdrawFull : full = drawFull d := drawFull_damage ..
  have hdrawRects : damaged = rects.flatMap (drawDamaged d) := by
    change rects.flatMap (drawDamaged { d with damage := _ }) = _
    rw [funext (drawDamaged_damage d _)]
  have hlaid : d.Laid := run_laid s ops hz
  have hscreen : d.screen = s := (run_sized s ops).1
  have hon {px py : ℕ} (hx : px < s.width) (hy : py < s.height) : d.screen.fb.Has (px, py) := by
    rw [hscreen]
    exact ⟨hx, hy⟩
  have hfull {px py : ℕ} (hx : px < s.width) (hy : py < s.height) :
      (last (px, py) full).isSome = true := by
    rw [hdrawFull]
    exact isSome_drawFull hlaid htitles (hon hx hy)
  constructor
  · intro px py hx hy hcovers pixels pixels'
    obtain ⟨v, hv⟩ := isSome_iff_exists.1 (hfull hx hy)
    have hsame : last (px, py) damaged = some v := by
      rw [← hv, hdrawRects, hdrawFull]
      exact last_drawRects hlaid htitles (hon hx hy) hcovers
    rw [write_apply, write_apply, hsame, hv]
    rfl
  · intro px py hx hy pixels pixels'
    obtain ⟨v, hv⟩ := isSome_iff_exists.1 (hfull hx hy)
    rw [write_apply, write_apply, hv]
    rfl

/-- A window with a title, a bar and a drawn buffer, and a damaged rectangle across its bar. -/
theorem damaged_redraw_matches_full_titled :
    let ops : List Op := [.create 1 0 0 4 4 0 0 [0x41], .setTitleBar 0 2, .clear (some fun _ => 0) 0 7]
    let d := (init tinyScreen).run ops
    d.nextZ < 2 ^ 32 ∧ d.TitlesOk ∧
    write (fun _ => 0) (guiDraw { d with damage := ⟨[⟨1, 1, 2, 1⟩], false, true⟩ }) (1, 1) =
      write (fun _ => 1) (guiDraw { d with damage := ⟨[], true, true⟩ }) (1, 1) := by
  intro ops d
  have hz : d.nextZ < 2 ^ 32 := by decide +kernel
  have htitles : d.TitlesOk := by
    unfold TitlesOk Window.TitleFits Window.StripPainted
    decide +kernel
  refine ⟨hz, htitles, ?_⟩
  apply (damaged_redraw_matches_full tinyScreen ops [⟨1, 1, 2, 1⟩] hz htitles).1 1 1
  · decide
  · decide
  · exact ⟨⟨1, 1, 2, 1⟩, mem_singleton_self _, by decide⟩

/-- A bar without a title above a drawn buffer: a redraw of everything leaves its pixels as they were, and a
redraw of the rectangle does not. -/
theorem empty_title_strip_not_drawn :
    let d := (init tinyScreen).run
      [.create 1 0 0 4 4 0 0 [], .setTitleBar 0 2, .clear (some fun _ => 0) 0 7]
    let full := guiDraw { d with damage := ⟨[], true, true⟩ }
    let damaged := guiDraw { d with damage := ⟨[⟨0, 0, 4, 4⟩], false, true⟩ }
    write (fun _ => 0) full (1, 1) = 0 ∧ write (fun _ => 1) full (1, 1) = 1 ∧
      write (fun _ => 0) damaged (1, 1) ≠ 0 := by
  decide +kernel

/-- A title that is wider than its window: a redraw of everything draws it beside the window, and a redraw of
the rectangle beside the window does not. -/
example :
    let d := (init ⟨16, 16, by decide, by decide, by decide, by decide⟩).run
      [.create 1 0 0 4 16 0 0 [0x41], .setTitleBar 0 8]
    let full := guiDraw { d with damage := ⟨[], true, true⟩ }
    let damaged := guiDraw { d with damage := ⟨[⟨4, 0, 4, 8⟩], false, true⟩ }
    last (5, 0) full = some 0xfff0f4f8 ∧ last (5, 0) damaged = some 0xff202428 := by
  decide +kernel

/-- A title of two lines: the second line reaches below the bar, where only a redraw of everything draws
it. -/
example :
    let d := (init ⟨16, 16, by decide, by decide, by decide, by decide⟩).run
      [.create 1 0 0 16 16 5 0 [newline, 0x41], .setTitleBar 0 12]
    let full := guiDraw { d with damage := ⟨[], true, true⟩ }
    let damaged := guiDraw { d with damage := ⟨[⟨0, 12, 16, 4⟩], false, true⟩ }
    last (4, 12) full = some 0xfff0f4f8 ∧ last (4, 12) damaged = some 5 := by
  decide +kernel

end Gui
