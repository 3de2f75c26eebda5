import ArmoniOS.Process.UserVm

/-! The user regions of one process: what adding, mapping and removing a region does to the list,
and to the pages recorded in it. -/
namespace Process
open Pmm List Region

/-- At most eight regions, non-empty, below `2 ^ 64` and pairwise disjoint. -/
structure RegionsOk (regions : List Region) : Prop where
  bound : regions.length ≤ maxUserRegions
  shape : ∀ r ∈ regions, r.start < r.stop ∧ r.stop < 2 ^ 64
  apart : regions.Pairwise fun r r' => r.stop ≤ r'.start ∨ r'.stop ≤ r.start

section Lists
variable {p p' : Pcb} {regions before after : List Region} {r : Region}
  {start stop size addr paddr : ℕ} {flags : BitVec 64}

theorem userRegionEnd_eq_some (h : userRegionEnd start size = some stop) :
    stop = start + size ∧ 0 < size ∧ (size < 2 ^ 64 → stop < 2 ^ 64) := by
  unfold userRegionEnd at h
  split at h
  · simp at h
  next hok =>
    have hstop := Option.some.inj h
    unfold u64Max at hok
    omega

theorem processAddUserRegion_eq_some (h : processAddUserRegion p start size = some p') :
    p' = { p with userRegions := p.userRegions ++ [⟨start, start + size, 0, 0⟩] } ∧
      p.userRegions.length < maxUserRegions ∧ 0 < size ∧ (size < 2 ^ 64 → start + size < 2 ^ 64) ∧
      ∀ r ∈ p.userRegions, r.stop ≤ start ∨ start + size ≤ r.start := by
  unfold processAddUserRegion at h
  split at h
  · simp at h
  next hroom =>
    split at h
    · simp at h
    next stop hstop =>
      obtain ⟨rfl, hpos, hwrap⟩ := userRegionEnd_eq_some hstop
      split at h
      · simp at h
      next hclear =>
        refine ⟨(Option.some.inj h).symm, by omega, hpos, hwrap, fun r hr => ?_⟩
        simp only [any_eq_true, decide_eq_true_eq, not_exists, not_and] at hclear
        have := hclear r hr
        omega

theorem RegionsOk.append (h : RegionsOk regions) (hroom : regions.length < maxUserRegions)
    (hshape : r.start < r.stop ∧ r.stop < 2 ^ 64)
    (hclear : ∀ r' ∈ regions, r'.stop ≤ r.start ∨ r.stop ≤ r'.start) : RegionsOk (regions ++ [r]) where
  bound := by
    simp only [length_append, length_singleton]
    omega
  shape r' hr' := by
    rcases mem_append.1 hr' with hr' | hr'
    · exact h.shape r' hr'
    · rw [mem_singleton.1 hr']
      exact hshape
  apart := by
    rw [pairwise_append]
    refine ⟨h.apart, pairwise_singleton _ _, fun r' hr' s hs => ?_⟩
    rw [mem_singleton.1 hs]
    exact hclear r' hr'

theorem RegionsOk.sublist (h : RegionsOk regions) {regions' : List Region}
    (hsub : List.Sublist regions' regions) : RegionsOk regions' where
  bound := hsub.length_le.trans h.bound
  shape r hr := h.shape r (hsub.subset hr)
  apart := h.apart.sublist hsub

theorem not_spans_of_clear (hpos : 0 < size)
    (hclear : ∀ r ∈ regions, r.stop ≤ start ∨ start + size ≤ r.start) :
    ∀ r ∈ regions, ¬ r.spans start (start + size) = true := by
  intro r hr hspans
  have hr := hclear r hr
  simp only [spans, decide_eq_true_eq] at hspans
  omega

section
variable (hnone : ∀ r' ∈ before, ¬ r'.spans start stop = true)
include hnone

theorem setMapping_append (hspans : r.spans start stop = true) :
    setMapping start stop paddr flags (before ++ r :: after) =
      some (before ++ { r with paddr := paddr, flags := flags } :: after) := by
  induction before with
  | nil => simp [setMapping, hspans]
  | cons r' before ih =>
    have hr' := hnone r' (by simp)
    have hrest := ih fun s hs => hnone s (by simp [hs])
    simp [setMapping, hr', hrest]

theorem eraseP_append_cons (hspans : r.spans start stop = true) :
    (before ++ r :: after).eraseP (·.spans start stop) = before ++ after := by
  rw [eraseP_append_right _ hnone, eraseP_cons_of_pos hspans]

end

/-- `p'` is `p` with a region that has no pages yet. It can be taken back or get its pages. -/
structure Reserved (p p' : Pcb) (addr size : ℕ) : Prop where
  slot : p' = { p with
    userRegions := p.userRegions ++ [⟨addr, addr + size, 0, 0⟩]
    nextUserVaddr := addr + size }
  room : p.userRegions.length < maxUserRegions
  pos : 0 < size
  lt : addr + size < 2 ^ 64
  clear : ∀ r ∈ p.userRegions, r.stop ≤ addr ∨ addr + size ≤ r.start
  remove : processRemoveUserRegion p' addr size = some { p with nextUserVaddr := addr + size }
  set : ∀ paddr flags, processSetUserRegionMapping p' addr size paddr flags = some { p with
    userRegions := p.userRegions ++ [⟨addr, addr + size, paddr, flags⟩]
    nextUserVaddr := addr + size }

theorem processAllocUserRegion_spec (haligned : pageSize ∣ size) (hlt : size ≤ 2 ^ 64 - 4096)
    (h : processAllocUserRegion p size = some (addr, p')) : Reserved p p' addr size := by
  have hsize : regionAlignUp size = size := by
    obtain ⟨n, rfl⟩ := haligned
    simp only [regionAlignUp, pageSize] at hlt ⊢
    omega
  unfold processAllocUserRegion at h
  simp only [hsize] at h
  split at h
  · simp at h
  · split at h
    · simp at h
    next stop hstop =>
      split at h
      · simp at h
      · split at h
        · simp at h
        next q hadd =>
          obtain ⟨rfl, hroom, hpos, hwrap, hclear⟩ := processAddUserRegion_eq_some hadd
          obtain ⟨haddr, rfl⟩ := Prod.mk.inj (Option.some.inj h)
          obtain ⟨rfl, -, -⟩ := userRegionEnd_eq_some hstop
          rw [haddr] at hstop hwrap hclear ⊢
          have hnone := not_spans_of_clear hpos hclear
          have hspans : spans addr (addr + size) ⟨addr, addr + size, 0, 0⟩ = true := by
            simp [spans]
          refine ⟨rfl, hroom, hpos, hwrap (by omega), hclear, ?_, fun paddr flags => ?_⟩
          · simp only [processRemoveUserRegion, hstop, any_append, any_cons, hspans,
              Bool.true_or, Bool.or_true, if_true, eraseP_append_cons hnone hspans, append_nil]
          · simp only [processSetUserRegionMapping, hstop, setMapping_append hnone hspans,
              Option.map_some]

theorem processFindUserRegion_eq_some (h : processFindUserRegion p addr size = some r) :
    ∃ before after, p.userRegions = before ++ r :: after ∧ r.start = addr ∧
      r.stop = addr + size ∧ 0 < size ∧
      processRemoveUserRegion p addr size = some { p with userRegions := before ++ after } := by
  unfold processFindUserRegion at h
  unfold processRemoveUserRegion
  split at h
  · simp at h
  next stop hstop =>
    obtain ⟨rfl, hpos, -⟩ := userRegionEnd_eq_some hstop
    obtain ⟨hspans, before, after, hregions, hbefore⟩ := find?_eq_some_iff_append.1 h
    have hbounds : r.start = addr ∧ r.stop = addr + size := by
      simpa [spans] using hspans
    have hnone : ∀ r' ∈ before, ¬ r'.spans addr (addr + size) = true := by
      intro r' hr'
      simpa using hbefore r' hr'
    have hany : p.userRegions.any (·.spans addr (addr + size)) = true := by
      rw [any_eq_true]
      exact ⟨r, by simp [hregions], hspans⟩
    refine ⟨before, after, hregions, hbounds.1, hbounds.2, hpos, ?_⟩
    rw [if_pos hany, hregions, eraseP_append_cons hnone hspans]

end Lists

section Pages
variable {r : Region} {paddr size : ℕ}

theorem pageAlignUp_spec (size : ℕ) :
    pageSize ∣ pageAlignUp size ∧ pageAlignUp size ≤ 2 ^ 64 - 4096 := by
  unfold pageAlignUp
  split
  · simp
  next hok =>
    refine ⟨Nat.dvd_mul_left _ _, ?_⟩
    simp only [u64Max, pageSize] at hok ⊢
    omega

theorem nodup_pagesFrom (paddr size : ℕ) : (pagesFrom paddr size).Nodup := by
  apply List.Nodup.map _ nodup_range
  intro m n h
  simp only [pageSize] at h
  omega

theorem pagesFrom_of_aligned (haligned : pageSize ∣ size) : pagesFrom paddr size =
    (range (size / pageSize)).map fun n => paddr + n * pageSize := by
  obtain ⟨n, rfl⟩ := haligned
  have hcount : (pageSize * n + pageSize - 1) / pageSize = pageSize * n / pageSize := by
    simp only [pageSize]
    omega
  rw [pagesFrom, hcount]

theorem ownedPages_of_owned (howned : r.Owned) (hlt : r.start < r.stop) :
    r.ownedPages = pagesFrom r.paddr (r.stop - r.start) := if_pos ⟨howned, hlt⟩

theorem ownedPages_of_not_owned (hnot : ¬ r.Owned) : r.ownedPages = [] := if_neg fun h => hnot h.1

theorem not_owned_new (start stop : ℕ) : ¬ (mk start stop 0 0).Owned := by
  simp [Owned]

theorem not_owned_disown (r : Region) : ¬ r.disown.Owned := by
  unfold disown
  split
  · simp [Owned]
  next hnot => exact hnot

variable (regions : List Region)

theorem flatMap_append_new (start stop : ℕ) : (regions ++ [mk start stop 0 0]).flatMap ownedPages =
      regions.flatMap ownedPages := by
  rw [flatMap_append, flatMap_singleton, ownedPages_of_not_owned (not_owned_new _ _), append_nil]

theorem flatMap_disown : (regions.map disown).flatMap ownedPages = [] := by
  rw [flatMap_eq_nil_iff]
  intro r hr
  obtain ⟨r', -, rfl⟩ := mem_map.1 hr
  exact ownedPages_of_not_owned (not_owned_disown r')

end Pages

end Process
