import ArmoniOS.Gui.Painting
import ArmoniOS.Gui.Steps

/-! The stacking order. As long as the counter has not wrapped, the windows in use have different places in
it, and both painters draw every visible window. -/
namespace Gui

open List Option
open Selection (Selects)

/-! ### Places in the stack -/

/-- Before the counter wraps, every window in use has a place of its own below it. -/
structure Roles.Stacked (r : Roles) : Prop where
  pos : 0 < r.nextZ
  range : r.nextZ ≤ 2 ^ 32 → ∀ i, (r.tags i).used = true → 0 < (r.tags i).z ∧ (r.tags i).z < r.nextZ
  distinct : r.nextZ ≤ 2 ^ 32 → ∀ i j, (r.tags i).used = true → (r.tags j).used = true →
    (r.tags i).z = (r.tags j).z → i = j

section Stacked
variable {r r' : Roles} {i : Fin maxWindows} {t : Tag}

theorem Roles.Stacked.push {births : ℕ} (h : r.Stacked) (hz : t.z = r.nextZ % 2 ^ 32) :
    { r.setTag i t with nextZ := r.nextZ + 1, births }.Stacked := by
  have htop (hle : r.nextZ + 1 ≤ 2 ^ 32) : t.z = r.nextZ := by rw [hz, Nat.mod_eq_of_lt hle]
  constructor
  · exact Nat.succ_pos _
  · intro hle j hj
    dsimp only at hle hj ⊢
    rw [r.setTag_apply] at hj ⊢
    split at hj
    next hji =>
      rw [if_pos hji, htop hle]
      exact ⟨h.pos, Nat.lt_succ_self _⟩
    next hji =>
      rw [if_neg hji]
      obtain ⟨hpos, hlt⟩ := h.range (by omega) j hj
      exact ⟨hpos, Nat.lt_succ_of_lt hlt⟩
  · intro hle j k hj hk hjk
    dsimp only at hle hj hk hjk
    rw [r.setTag_apply] at hj hk
    rw [r.setTag_apply, r.setTag_apply] at hjk
    split at hj <;> split at hk
    next hji hki => rw [hji, hki]
    next hji hki =>
      rw [if_pos hji, if_neg hki, htop hle] at hjk
      exact absurd hjk (h.range (by omega) k hk).2.ne'
    next hji hki =>
      rw [if_neg hji, if_pos hki, htop hle] at hjk
      exact absurd hjk (h.range (by omega) j hj).2.ne
    next hji hki =>
      rw [if_neg hji, if_neg hki] at hjk
      exact h.distinct (by omega) j k hj hk hjk

theorem Roles.Stacked.setTag {focused : Option (Fin maxWindows)} (h : r.Stacked)
    (ht : t.used = true → (r.tags i).used = true ∧ t.z = (r.tags i).z) :
    { r.setTag i t with focused }.Stacked := by
  have hold (j : Fin maxWindows) (hj : ((r.setTag i t).tags j).used = true) :
      (r.tags j).used = true ∧ ((r.setTag i t).tags j).z = (r.tags j).z := by
    rw [r.setTag_apply] at hj ⊢
    split at hj
    next hji =>
      rw [if_pos hji, hji]
      exact ht hj
    next hji =>
      rw [if_neg hji]
      exact ⟨hj, rfl⟩
  constructor
  · exact h.pos
  · intro hle j hj
    obtain ⟨hused, hz⟩ := hold j hj
    have hrange := h.range hle j hused
    rw [← hz] at hrange
    exact hrange
  · intro hle j k hj hk hjk
    obtain ⟨hjused, hjz⟩ := hold j hj
    obtain ⟨hkused, hkz⟩ := hold k hk
    exact h.distinct hle j k hjused hkused (hjz.symm.trans (hjk.trans hkz))

theorem Roles.Stacked.change {safe : Prop} (h : r.Stacked) (hchange : Roles.Change safe r r') :
    r'.Stacked := by
  cases hchange with
  | opened i flags hi => exact h.push rfl
  | closed i focused hi hdrag hfocus =>
    apply h.setTag
    intro hused
    cases hused
  | flagged i flags focused hi hfocus =>
    apply h.setTag
    intro hused
    exact ⟨hused, rfl⟩
  | raised i hi => exact h.push rfl
  | focused focused hfocus => exact ⟨h.pos, h.range, h.distinct⟩
  | grabbed i hi => exact ⟨h.pos, h.range, h.distinct⟩
  | released => exact ⟨h.pos, h.range, h.distinct⟩

end Stacked

theorem run_stacked (s : Screen) (ops : List Op) : ((Desktop.init s).run ops).roles.Stacked := by
  have hinit : (Desktop.init s).roles.Stacked := by
    constructor
    · exact Nat.one_pos
    · intro _ i hi
      cases hi
    · intro _ i j hi
      cases hi
  refine Desktop.run_induction (P := fun d => d.roles.Stacked) ?_
    (Desktop.meets_of_forall Op.bars_true _ ops) hinit
  intro d op hbar hstacked
  have hdoes := does_step False.elim False.elim hbar
  have hsteps := hdoes.roles
  generalize (d.step op).roles = r at hsteps ⊢
  induction hsteps with
  | refl => exact hstacked
  | tail _ hchange ih => exact ih.change hchange

/-! ### Sizes -/

/-- A frame in use starts on the screen and has room for a title bar and content. -/
def Frame.Sized (s : Screen) (f : Frame) : Prop :=
  f.used = true → 2 ≤ f.w ∧ 2 ≤ f.h ∧ f.titleH < f.h ∧ f.x < s.width ∧ f.y < s.height

theorem Frame.Sized.change {s : Screen} {f f' : Frame} (h : f.Sized s)
    (hchange : Frame.Change s (fun _ _ => True) f f') : f'.Sized s := by
  intro hused
  cases hchange with
  | opened hw hh hx hy =>
    dsimp only
    omega
  | closed => cases hused
  | barred hh _ =>
    obtain ⟨hw, hh2, -, hx, hy⟩ := h hused
    exact ⟨hw, hh2, hh, hx, hy⟩
  | placed hx hy =>
    obtain ⟨hw, hh, ht, -, -⟩ := h hused
    exact ⟨hw, hh, ht, hx, hy⟩
  | resized hw hh hx hy ht _ => exact ⟨hw, hh, ht, by dsimp only; omega, by dsimp only; omega⟩
  | backed => exact h hused

theorem run_sized (s : Screen) (ops : List Op) :
    let d := (Desktop.init s).run ops
    d.screen = s ∧ d.PointerOk ∧ ∀ i, (d.windows i).frame.Sized s := by
  have hempty : Window.empty.frame.Sized s := by
    intro hused
    cases hused
  exact frames_run (fun _ _ hchange h => h.change hchange) hempty
    (Desktop.meets_of_forall Op.bars_true _ ops)

/-- The cursor and the corner of every window stay on the screen. -/
theorem desktop_stays_on_screen (s : Screen) (ops : List Op) (i : Fin maxWindows) :
    let d := (Desktop.init s).run ops
    let w := d.windows i
    0 ≤ d.cursor.x ∧ d.cursor.x < s.width ∧ 0 ≤ d.cursor.y ∧ d.cursor.y < s.height ∧
      (w.used = true → 2 ≤ w.w ∧ w.titleH < w.h ∧ w.x < s.width ∧ w.y < s.height) := by
  obtain ⟨hscreen, hp, hsized⟩ := run_sized s ops
  have hx := hp.x_lt
  have hy := hp.y_lt
  rw [hscreen] at hx hy
  refine ⟨hp.x_nonneg, hx, hp.y_nonneg, hy, fun hw => ?_⟩
  obtain ⟨hwidth, -, htitle, hcorner⟩ := hsized i hw
  exact ⟨hwidth, htitle, hcorner⟩

/-! ### The order of drawing -/

def Window.Visible (w : Window) : Prop := w.used = true ∧ w.minimized = false
deriving Decidable

/-- The window is still to be drawn after the place `minZ`. -/
def Desktop.Above (d : Desktop) (minZ : ℕ) (i : Fin maxWindows) : Prop :=
  (d.windows i).Visible ∧ minZ < (d.windows i).z
deriving Decidable

/-- The places of the visible windows are different, and below the start value of `best_z`. -/
structure Desktop.Ordered (d : Desktop) : Prop where
  pos : ∀ i, (d.windows i).Visible → 0 < (d.windows i).z
  lt : ∀ i, (d.windows i).Visible → (d.windows i).z < 2 ^ 32 - 1
  distinct : ∀ i j, (d.windows i).Visible → (d.windows j).Visible →
    (d.windows i).z = (d.windows j).z → i = j

theorem Desktop.ordered_of_stacked {d : Desktop} (h : d.roles.Stacked) (hz : d.nextZ < 2 ^ 32) :
    d.Ordered := by
  constructor
  · intro i hi
    exact (h.range hz.le i hi.1).1
  · intro i hi
    have hlt : (d.windows i).z < d.nextZ := (h.range hz.le i hi.1).2
    omega
  · intro i j hi hj
    exact h.distinct hz.le i j hi.1 hj.1

section Next
variable {d : Desktop} {minZ : ℕ}

section
variable (h : d.Ordered)
include h

theorem nextAboveStep_selects (minZ : ℕ) :
    Selects (nextAboveStep d minZ) (d.Above minZ) fun b j => (d.windows b).z ≤ (d.windows j).z := by
  have hskip {i : Fin maxWindows} (habove : d.Above minZ i) : ¬ ((d.windows i).used = false ∨
      (d.windows i).minimized = true ∨ (d.windows i).z ≤ minZ) := by
    simp [habove.1.1, habove.1.2, habove.2]
  constructor
  · intro best i b hb
    unfold nextAboveStep at hb
    dsimp only at hb
    split_ifs at hb with hno hlt
    · exact .inl hb
    · simp only [not_or, Bool.not_eq_false, Bool.not_eq_true, not_le] at hno
      exact .inr ⟨(some.inj hb).symm, ⟨hno.1, hno.2.1⟩, hno.2.2⟩
    · exact .inl hb
  · intro best i j hj
    unfold nextAboveStep
    dsimp only
    split_ifs with hno hlt
    · exact ⟨j, hj.resolve_right fun ⟨_, habove⟩ => hskip habove hno, le_rfl⟩
    · rcases hj with hj | ⟨rfl, -⟩
      · rw [mem_def.mp hj] at hlt
        exact ⟨i, rfl, hlt.le⟩
      · exact ⟨j, rfl, le_rfl⟩
    · rcases hj with hj | ⟨rfl, habove⟩
      · exact ⟨j, hj, le_rfl⟩
      · cases best with
        | none => exact absurd (h.lt j habove.1) hlt
        | some b => exact ⟨b, rfl, not_lt.1 hlt⟩

theorem guiNextWindowAboveZ_spec (minZ : ℕ) : (∀ i ∈ guiNextWindowAboveZ d minZ, d.Above minZ i ∧
        ∀ j, d.Above minZ j → (d.windows i).z ≤ (d.windows j).z) ∧
      (guiNextWindowAboveZ d minZ = none → ∀ j, ¬ d.Above minZ j) :=
  (nextAboveStep_selects h minZ).all (fun _ => le_rfl) (fun hle hle' => hle.trans hle') mem_finRange

theorem visible_of_mem_windowsAbove {n : ℕ} {i : Fin maxWindows} (hi : i ∈ windowsAbove d n minZ) :
    (d.windows i).Visible := by
  induction n generalizing minZ with
  | zero => cases hi
  | succ n ih =>
    unfold windowsAbove at hi
    split at hi
    · cases hi
    next j hj =>
      rcases mem_cons.1 hi with rfl | hi
      · exact ((guiNextWindowAboveZ_spec h _).1 _ hj).1.1
      · exact ih hi

/-- Every round draws one of the windows that are left, so that as many rounds as windows draw all. -/
theorem mem_windowsAbove {n : ℕ} (hn : (Finset.univ.filter fun i => d.Above minZ i).card ≤ n)
    {j : Fin maxWindows} (hj : d.Above minZ j) : j ∈ windowsAbove d n minZ := by
  induction n generalizing minZ with
  | zero =>
    have hmem : j ∈ Finset.univ.filter fun i => d.Above minZ i := by simp [hj]
    have hempty := Finset.card_eq_zero.1 (Nat.le_zero.1 hn)
    rw [hempty] at hmem
    cases hmem
  | succ n ih =>
    unfold windowsAbove
    split
    next hnone => exact absurd hj ((guiNextWindowAboveZ_spec h _).2 hnone j)
    next i hi =>
      obtain ⟨habove, hlow⟩ := (guiNextWindowAboveZ_spec h _).1 i hi
      by_cases hji : j = i
      · rw [hji]
        exact mem_cons_self
      · apply mem_cons_of_mem
        have hlt : (d.windows i).z < (d.windows j).z := by
          apply lt_of_le_of_ne (hlow j hj)
          intro heq
          exact hji (h.distinct j i hj.1 habove.1 heq.symm)
        apply ih _ ⟨hj.1, hlt⟩
        -- The windows that are left do not include the one just drawn.
        have hless : (Finset.univ.filter fun k => d.Above (d.windows i).z k) ⊂
            Finset.univ.filter fun k => d.Above minZ k := by
          rw [Finset.ssubset_iff_of_subset]
          · refine ⟨i, by simp [habove], ?_⟩
            simp only [Finset.mem_filter, Finset.mem_univ, true_and]
            intro hself
            exact lt_irrefl _ hself.2
          · intro k hk
            simp only [Finset.mem_filter, Finset.mem_univ, true_and] at hk ⊢
            exact ⟨hk.1, habove.2.trans hk.2⟩
        have := Finset.card_lt_card hless
        omega

theorem mem_drawOrder {i : Fin maxWindows} : i ∈ drawOrder d ↔ (d.windows i).Visible := by
  constructor
  · exact visible_of_mem_windowsAbove h
  · intro hi
    apply mem_windowsAbove h _ ⟨hi, h.pos i hi⟩
    calc (Finset.univ.filter fun i => d.Above 0 i).card
        ≤ (Finset.univ : Finset (Fin maxWindows)).card := Finset.card_filter_le _ _
      _ = maxWindows := by rw [Finset.card_univ, Fintype.card_fin]

end

end Next
end Gui
