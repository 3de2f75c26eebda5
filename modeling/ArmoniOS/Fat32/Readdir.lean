import ArmoniOS.Fat32.OpenAgreement

/-! Directory listings: the pages of `fat32_readdir_path` and the text of `fat32_list_path_at`
against one list of visible entries. -/
namespace Fat32
open Exec List Option

def DirEntry.dirent (e : DirEntry) : Dirent := ⟨e.text, e.size, e.attr⟩

def Dirent.line (e : Dirent) : List UInt8 :=
  e.name ++ (if e.attributes &&& attrDirectory ≠ 0 then [charSlash] else []) ++ [charNewline]

theorem DirEntry.line_dirent (e : DirEntry) : e.dirent.line = e.line := rfl

def visible (d : Disk) (ps : List Slot) : List Slot :=
  (ps.takeWhile fun p => (entryAt d p).mark ≠ 0).filter fun p => ¬ (entryAt d p).Hidden

theorem visible_cons (d : Disk) (p : Slot) (ps : List Slot) : visible d (p :: ps) =
      if (entryAt d p).mark = 0 then []
      else if (entryAt d p).Hidden then visible d ps else p :: visible d ps := by
  unfold visible
  by_cases h0 : (entryAt d p).mark = 0
  · simp [h0]
  · by_cases hh : (entryAt d p).Hidden <;> simp [h0, hh]

variable {out : ListOutput} {t : List UInt8}

section Text

/-- The output window after printing the text `t`. -/
def ListOutput.Shows (out : ListOutput) (t : List UInt8) : Prop :=
  out.position = t.length ∧ out.buffer = (t.drop out.offset).take out.capacity

/-- The buffer holds its window of every text that continues `t`. -/
def ListOutput.Full (out : ListOutput) (t : List UInt8) : Prop :=
  ∀ u, out.buffer = ((t ++ u).drop out.offset).take out.capacity

/-- The outcome of printing: the window of `t`, or a full buffer. -/
def Printed (r : ListOutput × Bool) (t : List UInt8) : Prop :=
  (r.2 = true → r.1.Shows t) ∧ (r.2 = false → r.1.Full t)

theorem ListOutput.Full.append (h : out.Full t) (u : List UInt8) :
    out.Full (t ++ u) := fun w => by simpa using h (u ++ w)

theorem ListOutput.Full.printed (h : out.Full t) : Printed (out, false) t := ⟨by simp, fun _ => h⟩

theorem ListOutput.Shows.printed (h : out.Shows t) : Printed (out, true) t := ⟨fun _ => h, by simp⟩

theorem appendListByte_printed (h : out.Shows t) (b : UInt8) :
    Printed (appendListByte out b) (t ++ [b]) := by
  obtain ⟨hpos, hbuf⟩ := h
  unfold appendListByte
  split_ifs with h1 h2
  · have hle := hpos ▸ h1
    have hfull : out.capacity ≤ (t.drop out.offset).length := by
      rw [hbuf, length_take] at h2
      omega
    have hf : out.Full t := fun u => by
      rw [drop_append_of_le_length hle, take_append_of_le_length hfull, hbuf]
    exact (hf.append [b]).printed
  · have hle := hpos ▸ h1
    have hroom : (t.drop out.offset).length < out.capacity := by
      rw [hbuf, length_take] at h2
      omega
    refine ListOutput.Shows.printed ⟨by simp [hpos], ?_⟩
    simp only [drop_append_of_le_length hle]
    rw [hbuf, take_of_length_le hroom.le, take_of_length_le]
    simpa using hroom
  · have hlt : t.length < out.offset := by omega
    refine ListOutput.Shows.printed ⟨by simp [hpos], ?_⟩
    rw [hbuf, drop_eq_nil_of_le hlt.le, drop_eq_nil_of_le (by simp; omega)]

theorem appendBytes_printed (h : out.Shows t) (bs : List UInt8) :
    Printed (appendBytes out bs) (t ++ bs) := by
  induction bs generalizing out t with
  | nil => simpa [appendBytes] using h.printed
  | cons b bs ih =>
    have hb := appendListByte_printed h b
    rw [appendBytes]
    rcases hout : appendListByte out b with ⟨out', _ | _⟩ <;> rw [hout] at hb
    · simpa using ((hb.2 rfl).append bs).printed
    · simpa using ih (hb.1 rfl)

theorem appendListByte_window (out : ListOutput) (b : UInt8) :
    (appendListByte out b).1.offset = out.offset ∧
      (appendListByte out b).1.capacity = out.capacity := by
  unfold appendListByte
  split_ifs <;> exact ⟨rfl, rfl⟩

theorem appendBytes_window (out : ListOutput) (bs : List UInt8) :
    (appendBytes out bs).1.offset = out.offset ∧ (appendBytes out bs).1.capacity = out.capacity := by
  induction bs generalizing out with
  | nil => exact ⟨rfl, rfl⟩
  | cons b bs ih =>
    have hw := appendListByte_window out b
    simp only [appendBytes]
    rcases h : appendListByte out b with ⟨out', _ | _⟩ <;> rw [h] at hw
    · exact hw
    · exact ⟨(ih out').1.trans hw.1, (ih out').2.trans hw.2⟩

/-- The entry loop of `fat32_list_path_at` on values. -/
def listStep (d : Disk) (p : Slot) (out : ListOutput) : Option (Visit ListOutput (List UInt8)) :=
  if (entryAt d p).mark = 0 then some (.done out.buffer)
  else if (entryAt d p).Hidden then some (.next out)
  else
    match appendShortName (entryAt d p) out with
    | (out', true) => some (.next out')
    | (out', false) => some (.done out'.buffer)

theorem listVisit_visitsAs (d : Disk) (p : Slot) (out : ListOutput) :
    VisitsAs (listVisit DirEntry.isDot) d (listStep d) p out := by
  intro v _ he
  unfold listVisit
  rw [bind_of_some (currentSector_apply v)]
  simp only [he, listStep]
  by_cases h0 : (entryAt d p).mark = 0
  · simp [h0, Volume.Quiet.refl]
  · by_cases hh : (entryAt d p).Hidden
    · rw [if_neg h0, if_neg h0, if_pos hh, if_pos (show _ ∨ _ ∨ _ ∨ _ from hh)]
      exact ⟨rfl, Volume.Quiet.refl v, fun _ _ _ _ _ h => h⟩
    · rw [if_neg h0, if_neg h0, if_neg hh, if_neg (show ¬ (_ ∨ _ ∨ _ ∨ _) from hh)]
      rcases appendShortName (entryAt d p) out with ⟨out', _ | _⟩
      · exact ⟨rfl, Volume.Quiet.refl v, fun _ h => by simp at h⟩
      · exact ⟨rfl, Volume.Quiet.refl v, fun _ _ _ _ _ h => h⟩

def Visit.printed : Visit ListOutput (List UInt8) → List UInt8
  | .done bytes => bytes
  | .next out => out.buffer

theorem foldSlots_list (d : Disk) (ps : List Slot) (h : out.Shows t) :
    ∃ r, foldSlots (listStep d) ps out = some r ∧
      r.printed = ((t ++ (visible d ps).flatMap fun p => (entryAt d p).line).drop out.offset).take
        out.capacity := by
  induction ps generalizing out t with
  | nil => exact ⟨_, rfl, by simpa [visible, Visit.printed] using h.2⟩
  | cons p ps ih =>
    rw [visible_cons, foldSlots, listStep]
    split_ifs with h0 hh
    · exact ⟨_, rfl, by simpa [Visit.printed] using h.2⟩
    · exact ih h
    · have hp := appendBytes_printed h (entryAt d p).line
      have hw := appendBytes_window out (entryAt d p).line
      rw [appendShortName]
      rcases hout : appendBytes out (entryAt d p).line with ⟨out', _ | _⟩ <;> rw [hout] at hp hw
      · refine ⟨_, rfl, ?_⟩
        have := hp.2 rfl ((visible d ps).flatMap fun p => (entryAt d p).line)
        simp only at hw
        simpa [Visit.printed, hw.1, hw.2] using this
      · obtain ⟨r, hr, hrt⟩ := ih (hp.1 rfl)
        refine ⟨r, hr, ?_⟩
        simp only at hw
        simpa [hw.1, hw.2] using hrt

end Text
variable {p : Slot} {e : DirEntry} {st : ReaddirState} {info : PathInfo} {v : Volume} {cs : List ℕ}
  {path : List UInt8}

section Pages
variable (g : Geometry)

/-- The entry loop of `fat32_readdir_path` on values, with the directory sector always in the
buffer. -/
def readdirStep (d : Disk) (startIndex maxEntries : ℕ) (p : Slot) (st : ReaddirState) :
    Option (Visit ReaddirState (List Dirent)) :=
  if (entryAt d p).mark = 0 then some (.done st.entries)
  else if (entryAt d p).Hidden then some (.next st)
  else if st.logicalIndex < startIndex then
    some (.next { st with logicalIndex := st.logicalIndex + 1 })
  else
    (dirCopyName (entryAt d p)).bind fun name =>
      (fillInfo g d (entryAt d p) p).bind fun info =>
        let entries := st.entries ++ [⟨name, info.size, info.attributes⟩]
        if entries.length = maxEntries then some (.done entries)
        else some (.next ⟨st.logicalIndex + 1, entries⟩)

/-- An entry a page can report: a name that is not blank, a directory with a data cluster or a
file whose chain holds its size. -/
def Reportable (d : Disk) (e : DirEntry) : Prop :=
  e.base ≠ [] ∧ (if e.isDirectory then g.clusterIsData e.firstCluster else Backed g d e)

/-- Reporting this entry does not cost the scan its sector: `dir_fill_info` walks no FAT chain
for it, or the FAT sector that walk ends in shows the same entries in the slots that follow. -/
def Undisturbed (d : Disk) (p : Slot) : Prop :=
  ((entryAt d p).isDirectory ∨ ¬ g.clusterIsData (entryAt d p).firstCluster) ∨
    ∀ cs, ChainFrom g d (entryAt d p).firstCluster cs → ∀ last ∈ cs.getLast?,
      ∀ o ∈ slotOffsets, p.2 < o → entryAt d (g.fatEntryLba 0 last, o) = entryAt d (p.1, o)

variable {g} {d : Disk} {startIndex maxEntries : ℕ}

theorem text_length (d : Disk) (p : Slot) : (entryAt d p).text.length < shortNameMax := by
  have hb : (entryAt d p).base.length ≤ 8 := by
    refine ( rdropWhile_prefix _ _).length_le.trans ?_
    rw [length_take]
    omega
  have hn : (entryAt d p).name.length = 11 := by simp [entryAt, dirEntryAt]
  have he : (entryAt d p).extension.length ≤ 3 := by
    refine ( rdropWhile_prefix _ _).length_le.trans ?_
    rw [length_drop, hn]
  unfold DirEntry.text shortNameMax
  split_ifs <;> simp <;> omega

theorem Reportable.dirCopyName_eq (h : Reportable g d (entryAt d p)) :
    dirCopyName (entryAt d p) = some (entryAt d p).text := by
  have := text_length d p
  rw [dirCopyName, if_neg]
  rintro (hb | hl)
  · exact h.1 hb
  · omega

theorem Reportable.fillInfo_eq (h : Reportable g d e) :
    ∃ info, fillInfo g d e p = some info ∧ info.size = e.size ∧ info.attributes = e.attr := by
  have h2 := h.2
  unfold fillInfo
  split_ifs at h2 ⊢ with hd hs hc
  · exact ⟨_, rfl, rfl, rfl⟩
  · rcases h2 with ⟨h0, -⟩ | ⟨cs, hcs, -⟩
    · exact absurd h0 hs.1
    · exact absurd hcs.head_data hs.2
  · rcases h2 with ⟨-, hf⟩ | ⟨cs, hcs, hsize, hle⟩
    · have := hc.1
      omega
    · rw [hcs.capacity_eq hle, bind_some, if_neg (by omega)]
      exact ⟨_, rfl, rfl, rfl⟩
  · exact ⟨_, rfl, rfl, rfl⟩

def Visit.listed : Visit ReaddirState (List Dirent) → List Dirent
  | .done entries => entries
  | .next st => st.entries

theorem foldSlots_readdir (ps : List Slot) (hrep : ∀ p ∈ visible d ps, Reportable g d (entryAt d p))
    (st : ReaddirState) (hlt : st.entries.length < maxEntries) :
    ∃ r, foldSlots (readdirStep g d startIndex maxEntries) ps st = some r ∧ r.listed = st.entries ++
        ((((visible d ps).drop (startIndex - st.logicalIndex)).take
          (maxEntries - st.entries.length)).map fun p => (entryAt d p).dirent) := by
  induction ps generalizing st with
  | nil => exact ⟨_, rfl, by simp [visible, Visit.listed]⟩
  | cons p ps ih =>
    rw [visible_cons] at hrep ⊢
    rw [foldSlots]
    by_cases h0 : (entryAt d p).mark = 0
    · exact ⟨_, by rw [readdirStep, if_pos h0], by simp [h0, Visit.listed]⟩
    · rw [if_neg h0] at hrep ⊢
      by_cases hh : (entryAt d p).Hidden
      · rw [if_pos hh] at hrep ⊢
        rw [readdirStep, if_neg h0, if_pos hh]
        exact ih hrep st hlt
      · rw [if_neg hh] at hrep ⊢
        have hrest : ∀ q ∈ visible d ps, Reportable g d (entryAt d q) :=
          fun q hq => hrep q (by simp [hq])
        by_cases hi : st.logicalIndex < startIndex
        · rw [readdirStep, if_neg h0, if_neg hh, if_pos hi]
          obtain ⟨r, hr, hl⟩ := ih hrest { st with logicalIndex := st.logicalIndex + 1 } hlt
          refine ⟨r, hr, ?_⟩
          rw [hl, show startIndex - st.logicalIndex = startIndex - (st.logicalIndex + 1) + 1 by omega,
            drop_succ_cons]
        · have hreport := hrep p (by simp)
          obtain ⟨info, hinfo, hsize, hattr⟩ := hreport.fillInfo_eq
          rw [readdirStep, if_neg h0, if_neg hh, if_neg hi, hreport.dirCopyName_eq, bind_some, hinfo,
            bind_some, hsize, hattr, show startIndex - st.logicalIndex = 0 by omega, drop_zero]
          simp only [length_append, length_singleton]
          split_ifs with hm
          · refine ⟨_, rfl, ?_⟩
            rw [show maxEntries - st.entries.length = 1 by omega]
            simp [Visit.listed, DirEntry.dirent]
          · obtain ⟨r, hr, hl⟩ := ih hrest
              ⟨st.logicalIndex + 1, st.entries ++ [(entryAt d p).dirent]⟩ (by simp; omega)
            refine ⟨r, hr, ?_⟩
            rw [hl, show startIndex - (st.logicalIndex + 1) = 0 by omega, drop_zero,
              show maxEntries - st.entries.length =
                maxEntries - (st.entries ++ [(entryAt d p).dirent]).length + 1 by simp; omega]
            simp

theorem visible_append {before : List Slot} (h : ∀ p ∈ before, (entryAt d p).mark ≠ 0)
    (after : List Slot) : visible d (before ++ after) = visible d before ++ visible d after := by
  unfold visible
  have hself : before.takeWhile (fun p => (entryAt d p).mark ≠ 0) = before :=
    takeWhile_eq_self_iff.mpr (by simpa using h)
  rw [takeWhile_append_of_pos (by simpa using h), filter_append, hself]

theorem foldSlots_readdir_next {before : List Slot} {st' : ReaddirState}
    (h : foldSlots (readdirStep g d startIndex maxEntries) before st = some (.next st'))
    (hlen : st.entries.length = st.logicalIndex - startIndex) (hlt : st.entries.length < maxEntries) :
    (∀ p ∈ before, (entryAt d p).mark ≠ 0) ∧
      st'.logicalIndex = st.logicalIndex + (visible d before).length ∧
      st'.entries.length = st'.logicalIndex - startIndex ∧ st'.entries.length < maxEntries := by
  induction before generalizing st with
  | nil =>
    obtain rfl : st = st' := by simpa using h
    exact ⟨by simp, by simp [visible], hlen, hlt⟩
  | cons p ps ih =>
    rw [foldSlots, readdirStep] at h
    by_cases h0 : (entryAt d p).mark = 0
    · simp [h0] at h
    · rw [if_neg h0] at h
      rw [visible_cons, if_neg h0]
      simp only [forall_mem_cons]
      by_cases hh : (entryAt d p).Hidden
      · rw [if_pos hh] at h ⊢
        obtain ⟨h1, h2⟩ := ih h hlen hlt
        exact ⟨⟨h0, h1⟩, h2⟩
      · rw [if_neg hh] at h ⊢
        by_cases hi : st.logicalIndex < startIndex
        · rw [if_pos hi] at h
          obtain ⟨h1, h2, h3⟩ := ih h (by simp only; omega) hlt
          simp only at h2
          exact ⟨⟨h0, h1⟩, by simp only [length_cons]; omega, h3⟩
        · rw [if_neg hi] at h
          cases hc : dirCopyName (entryAt d p) with
          | none => simp [hc] at h
          | some name =>
            cases hf : fillInfo g d (entryAt d p) p with
            | none => simp [hc, hf] at h
            | some info =>
              simp only [hc, hf, bind_some] at h
              split_ifs at h with hm
              · simp at h
              · obtain ⟨h1, h2, h3⟩ := ih h (by simp; omega) (by simp at hm ⊢; omega)
                simp only at h2
                exact ⟨⟨h0, h1⟩, by simp only [length_cons]; omega, h3⟩

theorem dirFillInfo_undisturbed (dev : Device) (lba offset : ℕ)
    (h : e.isDirectory ∨ ¬ g.clusterIsData e.firstCluster) (v : Volume) :
    (dirFillInfo g dev e lba offset v).2 = v := by
  unfold dirFillInfo
  by_cases hd : e.isDirectory
  · split_ifs <;> rfl
  · have hc := h.resolve_left hd
    split_ifs <;> rfl

variable {dev : Device}

theorem dirFillInfo_sector (hr : dev.ReadsOk) (hd : ¬ e.isDirectory)
    (hc : g.clusterIsData e.firstCluster) (h : fillInfo g v.disk e p = some info) :
    ∃ cs, ∃ hcs : ChainFrom g v.disk e.firstCluster cs, (dirFillInfo g dev e p.1 p.2 v).2.sector =
        v.disk (g.fatEntryLba 0 (cs.getLast hcs.ne_nil)) := by
  have hns : ¬ (e.size ≠ 0 ∧ ¬ g.clusterIsData e.firstCluster) := fun hns => hns.2 hc
  rw [fillInfo, if_neg hd, if_neg hns, if_pos hc] at h
  obtain ⟨k, hk, -⟩ := bind_eq_some_iff.mp h
  obtain ⟨cs, hcs, rfl, hle⟩ := capacity_eq_some.mp hk
  refine ⟨cs, hcs, ?_⟩
  have hsector := chainCapacityFrom_sector hr 0 hcs hcs.length_le (by omega)
  obtain ⟨hval, -⟩ := fileChainCapacity_reads g hr e.firstCluster v
  rw [dirFillInfo, if_neg hd, if_neg hns, if_pos hc]
  rcases hrun : dirFileCapacity g dev e.firstCluster v with ⟨res, w⟩
  have hrun' : chainCapacityFrom g dev g.clusterCount 0 e.firstCluster v = (res, w) := by
    rw [← hrun, dirFileCapacity, fileChainCapacity, if_pos hc]
  rw [hrun'] at hsector
  cases res with
  | none => rw [bind_of_none hrun]; exact hsector
  | some k =>
    rw [bind_of_some hrun]
    split_ifs <;> exact hsector

theorem readdirVisit_visitsAs (hr : dev.ReadsOk)
    (hu : (entryAt d p).mark ≠ 0 → ¬ (entryAt d p).Hidden → startIndex ≤ st.logicalIndex → st.entries.length + 1 ≠ maxEntries → Undisturbed g d p) :
    VisitsAs (readdirVisit g dev startIndex maxEntries) d (readdirStep g d startIndex maxEntries)
      p st := by
  intro v hd he
  subst hd
  unfold readdirVisit
  rw [bind_of_some (currentSector_apply v)]
  simp only [he, readdirStep]
  by_cases h0 : (entryAt v.disk p).mark = 0
  · simp [h0, Volume.Quiet.refl]
  rw [if_neg h0, if_neg h0]
  by_cases hh : (entryAt v.disk p).Hidden
  · rw [if_pos hh, if_pos (show _ ∨ _ ∨ _ ∨ _ from hh)]
    exact ⟨rfl, Volume.Quiet.refl v, fun _ _ _ _ _ h => h⟩
  rw [if_neg hh, if_neg (show ¬ (_ ∨ _ ∨ _ ∨ _) from hh)]
  by_cases hi : st.logicalIndex < startIndex
  · rw [if_pos hi, if_pos hi]
    exact ⟨rfl, Volume.Quiet.refl v, fun _ _ _ _ _ h => h⟩
  rw [if_neg hi, if_neg hi]
  cases dirCopyName (entryAt v.disk p) with
  | none => exact ⟨rfl, Volume.Quiet.refl v, fun _ h => by simp at h⟩
  | some name =>
    dsimp only [bind_some]
    rcases hv : dirFillInfo g dev (entryAt v.disk p) p.1 p.2 v with ⟨_ | info, w⟩ <;>
      obtain ⟨h1, h2⟩ := (dirFillInfo_reads g hr (entryAt v.disk p) p).of_eq hv
    · rw [bind_of_none hv, ← h1]
      exact ⟨rfl, h2, fun _ h => by simp at h⟩
    · rw [bind_of_some hv, ← h1]
      dsimp only [bind_some]
      split_ifs with hm
      · exact ⟨rfl, h2, fun _ h => by simp at h⟩
      · refine ⟨rfl, h2, fun _ _ o ho hlt hshow => ?_⟩
        change dirEntryAt w.sector o = _
        by_cases hskip : (entryAt v.disk p).isDirectory ∨ ¬ g.clusterIsData (entryAt v.disk p).firstCluster
        · have hw := dirFillInfo_undisturbed dev p.1 p.2 hskip v
          rw [hv] at hw
          rw [show w = v from hw]
          exact hshow
        · have hsame := (hu h0 hh (by omega) (by simpa using hm)).resolve_left hskip
          push Not at hskip
          obtain ⟨cs, hcs, hw⟩ := dirFillInfo_sector hr hskip.1 hskip.2 h1.symm
          rw [hv] at hw
          rw [show w.sector = _ from hw]
          exact hsame cs hcs _ (getLast?_eq_some_getLast hcs.ne_nil) o ho hlt

variable (g)

def visibleSlots (d : Disk) (start : ℕ) : List Slot := visible d (dirSlots g d start)

/-- The listing of the directory at `start`. -/
def listing (d : Disk) (start : ℕ) : List Dirent :=
  (visibleSlots g d start).map fun p => (entryAt d p).dirent

def PageSafe (d : Disk) (start startIndex maxEntries : ℕ) : Prop :=
  ∀ i p, startIndex ≤ i → i + 1 < startIndex + maxEntries →
    (visibleSlots g d start)[i]? = some p → Undisturbed g d p

/-- Consecutive calls of `fat32_readdir_path` with the given page sizes, results joined. -/
def readdirPages (dev : Device) (path : List UInt8) : (startIndex : ℕ) → (sizes : List ℕ) → FsM (List Dirent)
  | _, [] => pure []
  | startIndex, m :: ms => do
      let page ← fat32ReaddirPath g dev path startIndex m
      let rest ← readdirPages dev path (startIndex + m) ms
      pure (page ++ rest)

def PagesSafe (d : Disk) (start : ℕ) : (startIndex : ℕ) → (sizes : List ℕ) → Prop
  | _, [] => True
  | startIndex, m :: ms =>
      1 ≤ m ∧ PageSafe g d start startIndex m ∧ PagesSafe d start (startIndex + m) ms

variable {g}

theorem scanDirectory_page (hr : dev.ReadsOk) {start : ℕ} (hcs : ChainFrom g v.disk start cs)
    (hrep : ∀ p ∈ visibleSlots g v.disk start, Reportable g v.disk (entryAt v.disk p))
    (hmax : 1 ≤ maxEntries) (hsafe : PageSafe g v.disk start startIndex maxEntries) :
    ∃ r w, scanDirectory g dev (readdirVisit g dev startIndex maxEntries) start ⟨0, []⟩ v =
        (some r, w) ∧ v.Quiet w ∧
      (r = .done (((listing g v.disk start).drop startIndex).take maxEntries) ∨
        ∃ c st, clusterIsEoc c ∧ r = .next (c, st) ∧
          st.entries = ((listing g v.disk start).drop startIndex).take maxEntries) := by
  have hvisits (p : Slot) (st : ReaddirState) (h : Reached (readdirStep g v.disk startIndex maxEntries)
      (dirSlots g v.disk start) ⟨0, []⟩ p st) : VisitsAs (readdirVisit g dev startIndex maxEntries)
      v.disk (readdirStep g v.disk startIndex maxEntries) p st := by
    obtain ⟨before, after, hslots, hfold⟩ := h
    obtain ⟨hlive, hidx, hlen, hlt⟩ := foldSlots_readdir_next hfold (by simp) (by simp; omega)
    refine readdirVisit_visitsAs hr fun h0 hh hi hm => hsafe st.logicalIndex p hi (by omega) ?_
    rw [visibleSlots, hslots, visible_append hlive, visible_cons, if_neg h0, if_neg hh, hidx]
    simp
  obtain ⟨h1, hq⟩ := scanDirectory_spec g hr v hvisits
  obtain ⟨r, hfold, hl⟩ := @foldSlots_readdir g v.disk startIndex maxEntries
    (dirSlots g v.disk start) hrep ⟨0, []⟩ (by simp; omega)
  obtain ⟨e, he, hwalk⟩ := hcs.walk_eq hcs.length_le
  rw [scanImage, hfold, hwalk] at h1
  have hpage : r.listed = ((listing g v.disk start).drop startIndex).take maxEntries := by
    simp [hl, listing, visibleSlots, map_drop, map_take]
  rw [← hpage]
  cases r with
  | done entries => exact ⟨_, _, Prod.ext h1 rfl, hq, Or.inl rfl⟩
  | next st => exact ⟨_, _, Prod.ext h1 rfl, hq, Or.inr ⟨e, st, he, rfl, rfl⟩⟩

variable {dev : Device} (hr : dev.ReadsOk)
include hr

section Directory
variable (hpath : lookupImage g v.disk path = some info)
  (hdir : info.attributes &&& attrDirectory ≠ 0) (hcs : ChainFrom g v.disk info.firstCluster cs)
include hpath hdir hcs

theorem fat32ListPathAt_text (offset capacity : ℕ) : (fat32ListPathAt g dev path offset capacity v).1 =
    some ((((listing g v.disk info.firstCluster).flatMap Dirent.line).drop offset).take
      capacity) := by
  obtain ⟨u, hl, hq⟩ := (fat32LookupPath_reads g hr path).run v
  rw [hpath] at hl
  have hu := hq.1
  rw [← hu] at hcs ⊢
  obtain ⟨w, hs, -⟩ := (scanDirectory_reads g hr listVisit_visitsAs info.firstCluster
    ⟨capacity, offset, 0, []⟩).run u
  have hinit : ListOutput.Shows ⟨capacity, offset, 0, []⟩ [] := ⟨rfl, by simp⟩
  obtain ⟨r, hfold, ht⟩ := foldSlots_list u.disk (dirSlots g u.disk info.firstCluster) hinit
  obtain ⟨e, he, hwalk⟩ := hcs.walk_eq hcs.length_le
  simp only [scanImage, hfold, hwalk] at hs
  have htext : r.printed = (((listing g u.disk info.firstCluster).flatMap Dirent.line).drop
      offset).take capacity := by
    simp only [ht, listing, visibleSlots, nil_append, flatMap_map, DirEntry.line_dirent]
  unfold fat32ListPathAt
  rw [bind_of_some hl, if_neg hdir, ← htext]
  cases r with
  | done bytes =>
    rw [bind_of_some hs]
    rfl
  | next out =>
    rw [bind_of_some hs]
    dsimp only
    rw [if_pos he]
    rfl

variable (hrep : ∀ p ∈ visibleSlots g v.disk info.firstCluster, Reportable g v.disk (entryAt v.disk p))
include hrep

theorem fat32ReaddirPath_page
    (hmax : 1 ≤ maxEntries) (hsafe : PageSafe g v.disk info.firstCluster startIndex maxEntries) :
    ∃ w, v.Quiet w ∧ fat32ReaddirPath g dev path startIndex maxEntries v =
      (some (((listing g v.disk info.firstCluster).drop startIndex).take maxEntries), w) := by
  obtain ⟨u, hl, hq⟩ := (fat32LookupPath_reads g hr path).run v
  rw [hpath] at hl
  have hu := hq.1
  rw [← hu] at hcs hrep hsafe ⊢
  unfold fat32ReaddirPath
  rw [if_neg (by omega), bind_of_some hl, if_neg hdir]
  obtain ⟨r, w, hs, hw, hres⟩ := scanDirectory_page hr hcs hrep hmax hsafe
  refine ⟨w, hq.trans hw, ?_⟩
  rw [bind_of_some hs]
  rcases hres with rfl | ⟨c, st, he, rfl, hst⟩
  · rfl
  · dsimp only
    rw [if_pos he, hst]
    rfl

theorem readdirPages_eq {sizes : List ℕ}
    (hsafe : PagesSafe g v.disk info.firstCluster startIndex sizes) :
    (readdirPages g dev path startIndex sizes v).1 =
      some (((listing g v.disk info.firstCluster).drop startIndex).take sizes.sum) := by
  induction sizes generalizing startIndex v with
  | nil => simp [readdirPages]
  | cons m ms ih =>
    obtain ⟨hm, hpage, hrest⟩ := hsafe
    obtain ⟨w, hq, hw⟩ := fat32ReaddirPath_page hr hpath hdir hcs hrep hm hpage
    have hd := hq.1
    rw [← hd] at hpath hcs hrep hrest hw ⊢
    have ih := ih hpath hcs hrep hrest
    rw [readdirPages, bind_of_some hw]
    rcases hrun : readdirPages g dev path (startIndex + m) ms w with ⟨res, u⟩
    rw [hrun] at ih
    obtain rfl := ih
    rw [bind_of_some hrun, sum_cons, take_add, drop_drop]
    rfl

end Directory

end Pages

section Small
open SmallVolume

theorem twoFiles_chain {c : ℕ} (h : c = 2 ∨ c = 3 ∨ c = 4) :
    ChainFrom geometry twoFiles.disk c [c] := by
  rcases h with rfl | rfl | rfl <;> exact .singleton (by decide +kernel) (by decide +kernel)

theorem twoFiles_reportable : ∀ p ∈ visibleSlots geometry twoFiles.disk 2,
    Reportable geometry twoFiles.disk (entryAt twoFiles.disk p) := by
  have hvis : visibleSlots geometry twoFiles.disk 2 = [(2, 0), (2, 32)] := by decide +kernel
  have h0 : (entryAt twoFiles.disk (2, 0)).firstCluster = 3 := by decide +kernel
  have h1 : (entryAt twoFiles.disk (2, 32)).firstCluster = 4 := by decide +kernel
  rw [hvis]
  intro p hp
  rcases mem_pair.mp hp with rfl | rfl
  · refine ⟨by decide +kernel, ?_⟩
    rw [if_neg (by decide +kernel), Backed, h0]
    exact Or.inr ⟨[3], twoFiles_chain (by simp), by decide +kernel, by decide +kernel⟩
  · refine ⟨by decide +kernel, ?_⟩
    rw [if_neg (by decide +kernel), Backed, h1]
    exact Or.inr ⟨[4], twoFiles_chain (by simp), by decide +kernel, by decide +kernel⟩

end Small
end Fat32
