import Mathlib

/-! The damage list of `gui_damage.c`: the rectangles of the framebuffer that the next redraw has to
repaint, or the mark that everything has to be. Signed sums are sums of integers; every rectangle
of the list lies in the framebuffer (`Damage.Ok`), so that they stay in the range of `int32_t`. -/
namespace Gui

open List

def damageMax : ℕ := 32

structure Rect where
  x : ℤ
  y : ℤ
  w : ℤ
  h : ℤ
  deriving DecidableEq

/-- The first `damage_count` rectangles, `damage_full`, and `g_gui_dirty`. -/
structure Damage where
  rects : List Rect
  full : Bool
  dirty : Bool
  deriving DecidableEq

/-- A framebuffer whose pixel numbers fit `uint32_t`, and on which no sum or product of the GUI leaves
`int32_t`. The one of `virtio_gpu.c` has 640 by 480 pixels. -/
structure Screen where
  width : ℕ
  height : ℕ
  width_pos : 0 < width
  height_pos : 0 < height
  width_le : width ≤ 2 ^ 16
  height_le : height ≤ 2 ^ 16
  deriving DecidableEq

/-- `(int32_t)desktop->fb->width`. -/
def Screen.w (s : Screen) : ℤ := (BitVec.ofNat 32 s.width).toInt

def Screen.h (s : Screen) : ℤ := (BitVec.ofNat 32 s.height).toInt

theorem toInt_ofNat_small {n : ℕ} (h : n ≤ 2 ^ 16) : (BitVec.ofNat 32 n).toInt = n := by
  rw [BitVec.toInt_ofNat', Int.bmod_eq_of_le] <;> omega

theorem Screen.w_eq (s : Screen) : s.w = s.width := toInt_ofNat_small s.width_le

theorem Screen.h_eq (s : Screen) : s.h = s.height := toInt_ofNat_small s.height_le

/-- The framebuffer that `virtio_gpu_draw` hands to the GUI. -/
def virtioGpuScreen : Screen := ⟨640, 480, by decide, by decide, by decide, by decide⟩

def Rect.Meets (a b : Rect) : Prop :=
  a.x ≤ b.x + b.w ∧ b.x ≤ a.x + a.w ∧ a.y ≤ b.y + b.h ∧ b.y ≤ a.y + a.h
deriving Decidable

def Rect.join (a b : Rect) : Rect :=
  let x := min a.x b.x
  let y := min a.y b.y
  ⟨x, y, max (a.x + a.w) (b.x + b.w) - x, max (a.y + a.h) (b.y + b.h) - y⟩

/-- The loop of `gui_damage_add`: the new rectangle takes in what it meets, and what it has become
by then decides about the next one. -/
def mergeDamage (new : Rect) : List Rect → Rect × List Rect
  | [] => (new, [])
  | r :: rects =>
      if new.Meets r then mergeDamage (new.join r) rects
      else
        let (merged, rest) := mergeDamage new rects
        (merged, r :: rest)

def allDamaged : Damage := ⟨[], true, true⟩

def guiDamageAddFull (_ : Damage) : Damage := allDamaged

/-- One side of the rectangle cut to `[0, limit)`: the new position and length. -/
def clipSide (limit pos len : ℤ) : ℤ × ℤ :=
  let len := if pos < 0 then len + pos else len
  let pos := if pos < 0 then 0 else pos
  (pos, if limit < pos + len then limit - pos else len)

/-- `gui_damage_add` with a desktop and its framebuffer. -/
def guiDamageAdd (screen : Screen) (d : Damage) (x y w h : ℤ) : Damage :=
  if d.full then d
  else if w ≤ 0 ∨ h ≤ 0 then d
  else
    let (x, w) := clipSide screen.w x w
    let (y, h) := clipSide screen.h y h
    if screen.w ≤ x ∨ screen.h ≤ y then d
    else if w ≤ 0 ∨ h ≤ 0 then d
    else if x = 0 ∧ y = 0 ∧ w = screen.w ∧ h = screen.h then allDamaged
    else
      let (merged, rest) := mergeDamage ⟨x, y, w, h⟩ d.rects
      if damageMax ≤ rest.length then allDamaged
      else { d with rects := rest ++ [merged], dirty := true }

def guiDamageClear (d : Damage) : Damage := { d with rects := [], full := false }

/-- `gui_clear_dirty` with an active desktop. -/
def guiClearDirty (d : Damage) : Damage := { guiDamageClear d with dirty := false }

/-! ### What is covered -/

def Rect.Covers (r : Rect) (px py : ℤ) : Prop :=
  r.x ≤ px ∧ px < r.x + r.w ∧ r.y ≤ py ∧ py < r.y + r.h
deriving Decidable

def Damage.Covers (d : Damage) (px py : ℤ) : Prop :=
  d.full = true ∨ ∃ r ∈ d.rects, r.Covers px py

def Screen.Has (s : Screen) (px py : ℤ) : Prop :=
  0 ≤ px ∧ px < s.width ∧ 0 ≤ py ∧ py < s.height
deriving Decidable

structure Rect.Inside (r : Rect) (s : Screen) : Prop where
  x : 0 ≤ r.x
  y : 0 ≤ r.y
  w : 0 < r.w
  h : 0 < r.h
  right : r.x + r.w ≤ s.w
  bottom : r.y + r.h ≤ s.h

/-- The list fits its array and lies on the screen, it is empty when everything is damaged, and damage
makes the desktop dirty. -/
structure Damage.Ok (d : Damage) (s : Screen) : Prop where
  length : d.rects.length ≤ damageMax
  inside : ∀ r ∈ d.rects, r.Inside s
  full : d.full = true → d.rects = []
  dirty : d.full = true ∨ d.rects ≠ [] → d.dirty = true

section Cover
variable {screen : Screen} {d : Damage} {a b new : Rect} {px py x y w h : ℤ}

theorem covers_join_left (h : a.Covers px py) : (a.join b).Covers px py := by
  unfold Rect.Covers Rect.join at *
  dsimp only
  omega

theorem covers_join_right (h : b.Covers px py) : (a.join b).Covers px py := by
  unfold Rect.Covers Rect.join at *
  dsimp only
  omega

theorem mergeDamage_covers (rects : List Rect) {new : Rect}
    (h : new.Covers px py ∨ ∃ r ∈ rects, r.Covers px py) :
    (mergeDamage new rects).1.Covers px py ∨ ∃ r ∈ (mergeDamage new rects).2, r.Covers px py := by
  induction rects generalizing new with
  | nil =>
    rcases h with h | ⟨r, hr, -⟩
    · exact .inl h
    · cases hr
  | cons r rects ih =>
    unfold mergeDamage
    split
    · apply ih
      rcases h with h | ⟨r', hr', hcovers⟩
      · exact .inl (covers_join_left h)
      · rcases mem_cons.1 hr' with rfl | hmem
        · exact .inl (covers_join_right hcovers)
        · exact .inr ⟨r', hmem, hcovers⟩
    · have hsplit : r.Covers px py ∨ new.Covers px py ∨ ∃ r ∈ rects, r.Covers px py := by
        rcases h with h | ⟨r', hr', hcovers⟩
        · exact .inr (.inl h)
        · rcases mem_cons.1 hr' with rfl | hmem
          · exact .inl hcovers
          · exact .inr (.inr ⟨r', hmem, hcovers⟩)
      rcases hsplit with hr | hrest
      · exact .inr ⟨r, mem_cons_self, hr⟩
      · rcases ih hrest with hmerged | ⟨r', hmem, hcovers⟩
        · exact .inl hmerged
        · exact .inr ⟨r', mem_cons_of_mem r hmem, hcovers⟩

theorem clipSide_spec {limit pos len p : ℤ} (hp : 0 ≤ p) (hlt : p < limit) (h0 : pos ≤ p)
    (h1 : p < pos + len) :
    (clipSide limit pos len).1 ≤ p ∧ p < (clipSide limit pos len).1 + (clipSide limit pos len).2 := by
  unfold clipSide
  dsimp only
  split_ifs <;> omega

theorem guiDamageAdd_keeps (hold : d.Covers px py) :
    (guiDamageAdd screen d x y w h).Covers px py := by
  unfold guiDamageAdd
  split_ifs with hfull
  · exact hold
  · exact hold
  · dsimp only
    split_ifs
    · exact hold
    · exact hold
    · exact .inl rfl
    · exact .inl rfl
    · have hlist := hold.resolve_left hfull
      rcases mergeDamage_covers d.rects (.inr hlist) with hmerged | ⟨r, hmem, hcovers⟩
      · exact .inr ⟨_, mem_append_right _ (mem_singleton_self _), hmerged⟩
      · exact .inr ⟨r, mem_append_left _ hmem, hcovers⟩

theorem guiDamageAdd_covers (hp : screen.Has px py) (hrect : (Rect.mk x y w h).Covers px py) :
    (guiDamageAdd screen d x y w h).Covers px py := by
  obtain ⟨hx0, hx1, hy0, hy1⟩ := hp
  obtain ⟨hrx0, hrx1, hry0, hry1⟩ := hrect
  dsimp only at hrx0 hrx1 hry0 hry1
  rw [← screen.w_eq] at hx1
  rw [← screen.h_eq] at hy1
  obtain ⟨hcx0, hcx1⟩ := clipSide_spec hx0 hx1 hrx0 hrx1
  obtain ⟨hcy0, hcy1⟩ := clipSide_spec hy0 hy1 hry0 hry1
  unfold guiDamageAdd
  split_ifs with hfull hempty
  · exact .inl hfull
  · omega
  · dsimp only
    have hclipped : (Rect.mk (clipSide screen.w x w).1 (clipSide screen.h y h).1
        (clipSide screen.w x w).2 (clipSide screen.h y h).2).Covers px py := ⟨hcx0, hcx1, hcy0, hcy1⟩
    split_ifs
    · omega
    · omega
    · exact .inl rfl
    · exact .inl rfl
    · rcases mergeDamage_covers d.rects (.inl hclipped) with hmerged | ⟨r, hmem, hcovers⟩
      · exact .inr ⟨_, mem_append_right _ (mem_singleton_self _), hmerged⟩
      · exact .inr ⟨r, mem_append_left _ hmem, hcovers⟩

theorem allDamaged_ok (screen : Screen) : allDamaged.Ok screen :=
  ⟨by simp [allDamaged], by simp [allDamaged], fun _ => rfl, fun _ => rfl⟩

theorem Rect.Inside.join (ha : a.Inside screen) (hb : b.Inside screen) : (a.join b).Inside screen := by
  obtain ⟨_, _, _, _, _, _⟩ := ha
  obtain ⟨_, _, _, _, _, _⟩ := hb
  constructor <;> simp only [Rect.join] <;> omega

theorem mergeDamage_inside (rects : List Rect) {new : Rect} (hnew : new.Inside screen)
    (h : ∀ r ∈ rects, r.Inside screen) :
    (mergeDamage new rects).1.Inside screen ∧ ∀ r ∈ (mergeDamage new rects).2, r.Inside screen := by
  induction rects generalizing new with
  | nil => exact ⟨hnew, h⟩
  | cons r rects ih =>
    obtain ⟨hr, hrects⟩ := forall_mem_cons.1 h
    unfold mergeDamage
    split
    · exact ih (hnew.join hr) hrects
    · obtain ⟨hmerged, hrest⟩ := ih hnew hrects
      exact ⟨hmerged, forall_mem_cons.2 ⟨hr, hrest⟩⟩

theorem clipSide_inside (limit pos len : ℤ) : 0 ≤ (clipSide limit pos len).1 ∧
    (clipSide limit pos len).1 + (clipSide limit pos len).2 ≤ limit := by
  unfold clipSide
  dsimp only
  split_ifs <;> omega

theorem Damage.Ok.add (hok : d.Ok screen) : (guiDamageAdd screen d x y w h).Ok screen := by
  unfold guiDamageAdd
  split_ifs with hfull
  · exact hok
  · exact hok
  · dsimp only
    split_ifs with _ hpos _ hroom
    · exact hok
    · exact hok
    · exact allDamaged_ok screen
    · exact allDamaged_ok screen
    · obtain ⟨hx, hright⟩ := clipSide_inside screen.w x w
      obtain ⟨hy, hbottom⟩ := clipSide_inside screen.h y h
      simp only [not_or, not_le] at hpos
      have hnew : (Rect.mk (clipSide screen.w x w).1 (clipSide screen.h y h).1
          (clipSide screen.w x w).2 (clipSide screen.h y h).2).Inside screen :=
        ⟨hx, hy, hpos.1, hpos.2, hright, hbottom⟩
      obtain ⟨hmerged, hrest⟩ := mergeDamage_inside d.rects hnew hok.inside
      refine ⟨?_, fun r hr => ?_, fun hf => absurd hf hfull, fun _ => rfl⟩
      · rw [length_append, length_singleton]
        omega
      · rcases mem_append.1 hr with hr | hr
        · exact hrest r hr
        · rw [mem_singleton.1 hr]
          exact hmerged

end Cover

end Gui
