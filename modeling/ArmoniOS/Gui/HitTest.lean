import ArmoniOS.Gui.Order

/-! The hit test and the painters agree on which window is on top. -/
namespace Gui
open List Option Function

section Order
variable {d : Desktop}

theorem windowsAbove_sorted (h : d.Ordered) (n minZ : ℕ) :
    (windowsAbove d n minZ).Pairwise (fun i j => (d.windows i).z < (d.windows j).z) ∧
      ∀ i ∈ windowsAbove d n minZ, minZ < (d.windows i).z := by
  induction n generalizing minZ with
  | zero => simp [windowsAbove]
  | succ n ih =>
    unfold windowsAbove
    split
    · simp
    next i hi =>
      obtain ⟨⟨-, hlt⟩, -⟩ := (guiNextWindowAboveZ_spec h minZ).1 i hi
      obtain ⟨hsorted, habove⟩ := ih (d.windows i).z
      exact ⟨pairwise_cons.mpr ⟨habove, hsorted⟩,
        forall_mem_cons.mpr ⟨hlt, fun j hj => hlt.trans (habove j hj)⟩⟩

theorem guiHitTest_eq_getLast (h : d.Ordered) (x y : ℤ) : guiHitTest d x y =
    ((drawOrder d).filter fun i => (d.windows i).Contains x y).getLast? := by
  obtain ⟨hsome, hnone⟩ := guiHitTest_spec d x y
  have hmem (i : Fin maxWindows) : i ∈ (drawOrder d).filter (fun i => (d.windows i).Contains x y) ↔
      d.HitAt x y i := by
    rw [mem_filter, mem_drawOrder h, decide_eq_true_iff]
    exact ⟨fun hi => ⟨hi.1.2, hi.2⟩, fun hi => ⟨⟨hi.2.1, hi.1⟩, hi.2⟩⟩
  have hsorted := (windowsAbove_sorted h maxWindows 0).1.filter
    fun i => decide ((d.windows i).Contains x y)
  change ((drawOrder d).filter _).Pairwise _ at hsorted
  generalize (drawOrder d).filter (fun i => decide ((d.windows i).Contains x y)) = seen at *
  rcases eq_nil_or_concat seen with rfl | ⟨below, top, rfl⟩
  · cases hhit : guiHitTest d x y with
    | none => rfl
    | some hit => exact absurd ((hmem hit).mpr (hsome hit hhit).1) not_mem_nil
  · have htop := (hmem top).mp (by simp)
    rw [concat_eq_append] at hmem hsorted ⊢
    rw [getLast?_concat]
    cases hhit : guiHitTest d x y with
    | none => exact absurd htop (hnone hhit top)
    | some hit =>
      obtain ⟨hat, hle⟩ := hsome hit hhit
      rcases mem_append.mp ((hmem hit).mpr hat) with hbelow | heq
      · have hlt := (pairwise_append.mp hsorted).2.2 hit hbelow top mem_cons_self
        exact absurd (hle top htop) (not_le.mpr hlt)
      · rw [mem_singleton.mp heq]

end Order

/-- As long as there were fewer than `2 ^ 32 - 1` stacking changes, the hit test at every point finds
the window that is painted last among the visible windows around it, or there is none. -/
theorem hit_test_finds_top_window (s : Screen) (ops : List Op)
    (hz : ((Desktop.init s).run ops).nextZ < 2 ^ 32) (x y : ℤ) :
    let d := (Desktop.init s).run ops
    guiHitTest d x y = ((drawOrder d).filter fun i => (d.windows i).Contains x y).getLast? ∧
      (guiHitTest d x y = none ↔ ∀ i, (d.windows i).Visible → ¬ (d.windows i).Contains x y) := by
  intro d
  refine ⟨guiHitTest_eq_getLast (Desktop.ordered_of_stacked (run_stacked s ops) hz) x y, ?_⟩
  obtain ⟨hsome, hnone⟩ := guiHitTest_spec d x y
  constructor
  · exact fun hhit i hi hcontains => hnone hhit i ⟨hi.2, hcontains⟩
  · intro hclear
    cases hhit : guiHitTest d x y with
    | none => rfl
    | some hit =>
      obtain ⟨⟨hmin, hcontains⟩, -⟩ := hsome hit hhit
      exact absurd hcontains (hclear hit ⟨hcontains.1, hmin⟩)

def overlapping : List Op :=
  [.create 1 0 0 4 4 0 0 [], .create 1 1 1 3 3 0 0 []]

theorem hit_test_finds_second_window :
    let d := (Desktop.init tinyScreen).run overlapping
    d.nextZ < 2 ^ 32 ∧ guiHitTest d 2 2 = some 1 ∧
      ((drawOrder d).filter fun i => (d.windows i).Contains 2 2).getLast? = some 1 := by
  intro d
  have hz : d.nextZ < 2 ^ 32 := by decide +kernel
  have hhit : guiHitTest d 2 2 = some 1 := by decide +kernel
  exact ⟨hz, hhit, (hit_test_finds_top_window tinyScreen overlapping hz 2 2).1.symm.trans hhit⟩

/-! ### The last place in the stack -/

theorem focusSlot_windows {d : Desktop} {i : Fin maxWindows}
    (hflags : (d.windows i).flags &&& windowNoFocus = 0) :
    (focusSlot i d).windows = update d.windows i { d.windows i with z := d.nextZ % 2 ^ 32 } ∧
      (focusSlot i d).nextZ = d.nextZ + 1 := by
  unfold focusSlot
  rw [if_neg (not_not.mpr hflags)]
  dsimp only
  split
  · exact ⟨rfl, rfl⟩
  · split <;> exact ⟨rfl, rfl⟩

/-- A window that is created and then focused `n` times. -/
def focusedDesktop (n : ℕ) : Desktop :=
  (Desktop.init tinyScreen).run (.create 1 0 0 4 4 0 0 [] :: replicate n (.focus 0))

theorem focusedDesktop_spec (n : ℕ) : (focusedDesktop n).nextZ = n + 2 ∧
      (focusedDesktop n).windows = update (focusedDesktop 0).windows 0
        { (focusedDesktop 0).windows 0 with z := (n + 1) % 2 ^ 32 } := by
  induction n with
  | zero => exact ⟨rfl, (update_eq_self 0 (focusedDesktop 0).windows).symm⟩
  | succ n ih =>
    obtain ⟨hz, hwindows⟩ := ih
    have hstep : focusedDesktop (n + 1) = (guiFocusWindow 0 (focusedDesktop n)).2 := by
      unfold focusedDesktop Desktop.run
      rw [replicate_succ', ← cons_append, foldl_append]
      rfl
    have hlookup : (focusedDesktop n).lookup 0 = some 0 := by
      unfold Desktop.lookup
      rw [hwindows]
      rfl
    have hflags : ((focusedDesktop n).windows 0).flags &&& windowNoFocus = 0 := by
      rw [hwindows, update_self]
      exact (by decide +kernel : ((focusedDesktop 0).windows 0).flags &&& windowNoFocus = 0)
    obtain ⟨hwindows', hz'⟩ := focusSlot_windows hflags
    rw [hstep, guiFocusWindow, hlookup]
    dsimp only
    rw [hz', hwindows', hwindows, hz, update_idem, update_self]
    exact ⟨rfl, rfl⟩

/-- The place that `gui_next_window_above_z` starts from: the window is hit, and not painted. -/
theorem focusedDesktop_unpainted {n : ℕ} (hn : (n + 1) % 2 ^ 32 = 2 ^ 32 - 1) :
    guiHitTest (focusedDesktop n) 0 0 = some 0 ∧ drawOrder (focusedDesktop n) = [] := by
  have hwindows := (focusedDesktop_spec n).2
  generalize focusedDesktop n = d at *
  rw [hn] at hwindows
  have hone : ∀ i, i ≠ 0 → ((focusedDesktop 0).windows i).used = false := by decide +kernel
  have hused (i : Fin maxWindows) (hi : (d.windows i).used = true) : i = 0 := by
    by_contra hne
    rw [hwindows, update_of_ne hne, hone i hne] at hi
    cases hi
  have hfirst : d.HitAt 0 0 0 := by
    unfold Desktop.HitAt
    rw [hwindows, update_self]
    exact (by decide +kernel : ((focusedDesktop 0).windows 0).minimized = false ∧
      ((focusedDesktop 0).windows 0).Contains 0 0)
  have hplace : (d.windows 0).z = 2 ^ 32 - 1 := by rw [hwindows, update_self]
  constructor
  · obtain ⟨hsome, hnone⟩ := guiHitTest_spec d 0 0
    cases hhit : guiHitTest d 0 0 with
    | none => exact absurd hfirst (hnone hhit 0)
    | some hit => rw [hused hit (hsome hit hhit).1.2.1]
  · have hnext : guiNextWindowAboveZ d 0 = none := by
      apply foldl_fixed'
      intro i
      unfold nextAboveStep
      dsimp only
      split_ifs with hskip hlt
      · rfl
      · simp only [not_or, Bool.not_eq_false] at hskip
        rw [hused i hskip.1, hplace] at hlt
        exact absurd hlt (lt_irrefl _)
      · rfl
    change windowsAbove d (15 + 1) 0 = []
    rw [windowsAbove, hnext]

/-- After `2 ^ 32 - 1` stacking changes. -/
theorem last_place_is_not_painted : (focusedDesktop (2 ^ 32 - 2)).nextZ = 2 ^ 32 ∧
      guiHitTest (focusedDesktop (2 ^ 32 - 2)) 0 0 = some 0 ∧
      drawOrder (focusedDesktop (2 ^ 32 - 2)) = [] := by
  exact ⟨(focusedDesktop_spec _).1.trans (by norm_num), focusedDesktop_unpainted (by norm_num)⟩

end Gui
