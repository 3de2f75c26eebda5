import ArmoniOS.Gui.Compositor
import ArmoniOS.Gui.Steps

/-! The backing buffers are as large as what the compositor reads from them, as long as no title bar of a
window that has a buffer is made lower: `gui_window_set_title_bar_internal` leaves the buffer as it is. -/
namespace Gui
open StoreLog List

/-! ### What a redraw reads -/

def Backing.withOutside (b : Backing) (outside : ℕ → Color) : Backing :=
  { b with pixels := fun k => if 4 * k + 4 ≤ b.capacity then b.pixels k else outside k }

def Window.withOutside (w : Window) (outside : ℕ → Color) : Window :=
  { w with backing := w.backing.map fun b => b.withOutside outside }

/-- The same desktop, with other memory behind the ends of the buffers. -/
def Desktop.withOutside (d : Desktop) (outside : Fin maxWindows → ℕ → Color) : Desktop :=
  { d with windows := fun i => (d.windows i).withOutside (outside i) }

section Reads
variable {fb : Fb} {x y w h : ℕ} {src src' : ℕ → Color}

theorem rectStrokes_congr {f g : ℕ → ℕ → Color} (hfg : ∀ row < h, ∀ col < w, f row col = g row col) :
    rectStrokes x y w h f = rectStrokes x y w h g := by
  apply flatMap_congr
  intro row hrow
  apply map_congr_left
  intro col hcol
  rw [hfg row (mem_range.1 hrow) col (mem_range.1 hcol)]

theorem index_lt {row col : ℕ} (hrow : row < h) (hcol : col < w) : row * w + col < w * h :=
  calc row * w + col < row * w + w := Nat.add_lt_add_left hcol _
    _ = (row + 1) * w := (Nat.succ_mul row w).symm
    _ ≤ h * w := Nat.mul_le_mul_right w hrow
    _ = w * h := Nat.mul_comm h w

theorem fbBlit_congr (hsrc : ∀ k < w * h, src k = src' k) :
    fbBlit fb x y src w h = fbBlit fb x y src' w h := by
  unfold fbBlit
  split
  · rfl
  · apply rectStrokes_congr
    intro row hrow col hcol
    rw [cut_eq_min] at hrow hcol
    exact hsrc _ (index_lt (by omega) (by omega))

theorem guiBlitClipped_congr {dstX dstY : ℤ} {clip : Clip} (hsrc : ∀ k < w * h, src k = src' k) :
    guiBlitClipped dstX dstY src w h clip = guiBlitClipped dstX dstY src' w h clip := by
  unfold guiBlitClipped
  split
  · rfl
  · dsimp only
    split
    · rfl
    · apply rectStrokes_congr
      intro row hrow col hcol
      rw [Nat.add_assoc]
      exact hsrc _ (index_lt (by omega) (by omega))

end Reads

def Frame.Backed (f : Frame) : Prop := ∀ capacity ∈ f.capacity, f.needed ≤ capacity

section Backed
variable {w : Window} {outside : ℕ → Color} {fb : Fb} {focused : Bool} {border : Color} {clip : Clip}

theorem withOutside_pixels {b : Backing} (hw : w.frame.Backed) (hb : w.backing = some b) :
    ∀ k < w.w * w.contentH, (b.withOutside outside).pixels k = b.pixels k := by
  intro k hk
  have hcapacity := hw b.capacity (by simp [Window.frame, hb])
  have hneeded : w.frame.needed = w.w * w.contentH * 4 := by rw [contentH_eq]; rfl
  apply if_pos
  omega

theorem withOutside_shown (w : Window) (outside : ℕ → Color) :
    (w.withOutside outside).shown = w.shown.map fun b => b.withOutside outside := by
  unfold Window.shown Window.withOutside
  split <;> rfl

theorem backing_of_shown {b : Backing} (h : w.shown = some b) : w.backing = some b := by
  unfold Window.shown at h
  split at h
  · exact h
  · cases h

section
variable (hw : w.frame.Backed)
include hw

theorem drawContent_withOutside :
    drawContent fb (w.withOutside outside) border = drawContent fb w border := by
  unfold drawContent
  rw [withOutside_shown]
  cases hb : w.shown with
  | none => rfl
  | some b =>
    have hsame : ∀ k < w.w * w.contentH, (b.withOutside outside).pixels k = b.pixels k :=
      withOutside_pixels hw (backing_of_shown hb)
    exact fbBlit_congr hsame

theorem drawContentClipped_withOutside :
    drawContentClipped fb (w.withOutside outside) border clip = drawContentClipped fb w border clip := by
  unfold drawContentClipped
  rw [withOutside_shown]
  cases hb : w.shown with
  | none => rfl
  | some b =>
    have hsame : ∀ k < w.w * w.contentH, (b.withOutside outside).pixels k = b.pixels k :=
      withOutside_pixels hw (backing_of_shown hb)
    exact guiBlitClipped_congr hsame

theorem guiDrawWindowClipped_withOutside :
    guiDrawWindowClipped fb focused (w.withOutside outside) clip =
      guiDrawWindowClipped fb focused w clip := by
  unfold guiDrawWindowClipped
  dsimp only
  rw [show (w.withOutside outside).border focused = w.border focused from rfl,
    drawContentClipped_withOutside hw]
  rfl

end

end Backed

section Redraw
variable {d : Desktop} {outside : Fin maxWindows → ℕ → Color}

theorem drawOrder_withOutside : drawOrder (d.withOutside outside) = drawOrder d :=
  drawOrder_congr (fun _ => rfl) (fun _ => rfl)

theorem gradientRows_withOutside : gradientRows (d.withOutside outside) = gradientRows d :=
  gradientRows_congr rfl rfl (fun _ => ⟨rfl, rfl⟩) (fun _ _ => rfl)

section
variable (h : ∀ i, (d.windows i).frame.Backed)
include h

theorem drawFull_withOutside : drawFull (d.withOutside outside) = drawFull d := by
  unfold drawFull
  have hwindows : (drawOrder d).flatMap (fun i => guiDrawWindow d.screen.fb (d.focused = some i)
      ((d.windows i).withOutside (outside i))) =
      (drawOrder d).flatMap (fun i => guiDrawWindow d.screen.fb (d.focused = some i) (d.windows i)) := by
    apply flatMap_congr
    intro i _
    unfold guiDrawWindow
    dsimp only
    rw [show ((d.windows i).withOutside (outside i)).border (d.focused = some i) =
      (d.windows i).border (d.focused = some i) from rfl, drawContent_withOutside (h i)]
    rfl
  rw [drawOrder_withOutside, gradientRows_withOutside, ← hwindows]
  rfl

theorem drawDamaged_withOutside (r : Rect) :
    drawDamaged (d.withOutside outside) r = drawDamaged d r := by
  have hwindow (clip : Clip) (i : Fin maxWindows) :
      drawWindowInRect (d.withOutside outside) clip i = drawWindowInRect d clip i := by
    unfold drawWindowInRect
    dsimp only
    rw [show (d.withOutside outside).windows i = (d.windows i).withOutside (outside i) from rfl,
      guiDrawWindowClipped_withOutside (h i)]
    rfl
  unfold drawDamaged
  dsimp only
  rw [drawOrder_withOutside, funext (hwindow _)]
  rfl

theorem guiDraw_withOutside : guiDraw (d.withOutside outside) = guiDraw d := by
  unfold guiDraw
  rw [drawFull_withOutside h, funext (drawDamaged_withOutside h)]
  rfl

end

end Redraw

/-! ### Runs -/

def Op.KeepsTitleBars (d : Desktop) (op : Op) : Prop :=
  op.Bars (fun f titleH => f.capacity.isSome = true → f.titleH ≤ titleH) d

theorem Frame.Backed.change {s : Screen} {f f' : Frame} (h : f.Backed)
    (hchange : Frame.Change s (fun f titleH => f.capacity.isSome = true → f.titleH ≤ titleH) f f') :
    f'.Backed := by
  intro c hc
  cases hchange with
  | opened | closed => cases hc
  | barred hh hbar =>
    have hle := hbar (Option.isSome_of_mem hc)
    calc f.w * (f.h - _) * 4 ≤ f.w * (f.h - f.titleH) * 4 := by gcongr
      _ ≤ c := h c hc
  | placed => exact h c hc
  | resized _ _ _ _ _ hcapacity =>
    cases hc
    exact hcapacity
  | backed hcapacity =>
    cases hc
    exact hcapacity

/-- In every run in which no title bar of a window that has a buffer is made lower, each buffer holds the
content of its window, and no redraw depends on memory outside the buffers. -/
theorem backing_holds_content (s : Screen) (ops : List Op)
    (hops : (Desktop.init s).Meets Op.KeepsTitleBars ops) :
    let d := (Desktop.init s).run ops
    (∀ i, (d.windows i).used = true → ∀ b ∈ (d.windows i).backing,
      (d.windows i).w * ((d.windows i).h - (d.windows i).titleH) * 4 ≤ b.capacity) ∧
    ∀ (damage : Damage) (outside : Fin maxWindows → ℕ → Color),
      guiDraw ({ d with damage }.withOutside outside) = guiDraw { d with damage } := by
  intro d
  have hempty : Window.empty.frame.Backed := by
    intro capacity hcapacity
    cases hcapacity
  have hbacked := (frames_run (fun _ _ hchange h => h.change hchange) hempty hops).2.2
  constructor
  · intro i _ b hb
    apply hbacked i
    rw [Window.frame, Option.mem_def.1 hb]
    rfl
  · intro damage outside
    exact guiDraw_withOutside hbacked

theorem backing_holds_content_resized :
    let ops : List Op := [.create 1 0 0 4 4 0 0 [], .clear (some fun _ => 0) 0 7, .setTitleBar 0 2,
      .resize none 0 0 0 3 4, .drawRect none 0 0 0 9 9 5]
    let d := (Desktop.init tinyScreen).run ops
    (Desktop.init tinyScreen).Meets Op.KeepsTitleBars ops ∧
    (d.windows 0).frame = ⟨true, 0, 0, 3, 4, 2, some 64⟩ ∧
    (d.windows 0).w * ((d.windows 0).h - (d.windows 0).titleH) * 4 ≤ 64 := by
  intro ops d
  have hbar : Op.KeepsTitleBars ((Desktop.init tinyScreen).run (ops.take 2)) (.setTitleBar 0 2) := by
    unfold Op.KeepsTitleBars Op.Bars
    decide +kernel
  have hops : (Desktop.init tinyScreen).Meets Op.KeepsTitleBars ops :=
    ⟨trivial, trivial, hbar, trivial, trivial, trivial⟩
  have hframe : (d.windows 0).frame = ⟨true, 0, 0, 3, 4, 2, some 64⟩ := by decide +kernel
  refine ⟨hops, hframe, ?_⟩
  have hholds := (backing_holds_content tinyScreen ops hops).1 0 (congrArg Frame.used hframe)
  have hmap : (d.windows 0).backing.map Backing.capacity = some 64 := congrArg Frame.capacity hframe
  obtain ⟨b, hb, hcapacity⟩ := Option.map_eq_some_iff.1 hmap
  rw [← hcapacity]
  exact hholds b hb

/-- A window whose title bar is lowered after it was drawn: the buffer has 16 bytes, a redraw reads 48, and
memory behind the buffer gets on the screen. -/
theorem lowered_title_bar_reads_outside :
    let d := (Desktop.init tinyScreen).run [.create 1 0 0 4 4 0 0 [], .setTitleBar 0 3,
      .clear (some fun _ => 0) 0 7, .setTitleBar 0 1, .requestRedraw]
    (d.windows 0).frame = ⟨true, 0, 0, 4, 4, 1, some 16⟩ ∧
    16 < (d.windows 0).w * ((d.windows 0).h - (d.windows 0).titleH) * 4 ∧
    last (1, 2) (guiDraw (d.withOutside fun _ _ => 0x12345678)) = some 0x12345678 := by
  decide +kernel

end Gui
