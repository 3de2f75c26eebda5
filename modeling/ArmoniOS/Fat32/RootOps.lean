import ArmoniOS.Fat32.ShortNames
import ArmoniOS.Fat32.WriteContents

/-! Creating, deleting and renaming root files on volumes with sound chains. A root directory is
taken to end at its end marker: create fills that slot without writing a new marker behind it. -/
namespace Fat32
open Exec ByteBlock List

variable {g : Geometry} {dev : Device} {scope : Owner → Prop} {d d' : Disk} {p p₀ : Slot}
  {cs cs₀ : List ℕ}

theorem writeSector_onlyCluster {c s : ℕ} (hs : s < g.sectorsPerCluster) (d : Disk)
    (kind : WriteKind) (b : Sector) :
    Keeps (fun v => OnlyCluster g c d v.disk) (writeSector g dev kind (g.sectorLba c s) b)
      fun _ => True := by
  intro v hv
  unfold writeSector
  split_ifs
  · exact ⟨hv, fun _ _ => trivial⟩
  · exact ⟨hv.trans (.update hs b), fun _ _ => trivial⟩
  · exact ⟨hv, fun _ _ => trivial⟩

theorem clearCluster_onlyCluster (dev : Device) (c : ℕ) (d : Disk) (b : Sector) (f : FileHandle) :
    Keeps (fun v => OnlyCluster g c d v.disk)
      (forEach (fun s => writeSector g dev .data (g.sectorLba c s) b)
        (range g.sectorsPerCluster) >>= fun _ => pure f) fun _ => True :=
  .bind (.forEach fun _ hs => writeSector_onlyCluster (mem_range.mp hs) d .data b)
    fun _ _ => .pure trivial

theorem freeSlot_mem (h : freeSlot g d = some p) : p ∈ dirSlots g d g.rootCluster :=
  mem_of_find?_eq_some h

theorem slot_lba_lt {c : ℕ} (h : p ∈ dirSlots g d c) : p.1 < g.totalSectors := by
  obtain ⟨x, s, hx, hs, hp, -⟩ := Fat32.mem_dirSlots g h
  rw [hp]
  exact g.sectorLba_lt hx hs

def createdEntry (g : Geometry) (d : Disk) (p : Slot) (short : List UInt8) (y : ℕ) : Disk :=
  Function.update (setFat g d y clusterEoc) p.1
    (writeDirEntry (setFat g d y clusterEoc p.1) p.2 short attrArchive y 0)

/-- What `fat32_create` can leave behind: nothing, a marked cluster, or the new entry with some of
the sectors of its cluster cleared. -/
theorem fat32Create_apply (hr : dev.ReadsOk) (name : List UInt8) (v : Volume) :
    ∃ r w, fat32Create g dev name v = (r, w) ∧
      (r = none ∧ w.disk = v.disk ∨ ∃ short p y, makeShortName name = some short ∧
        freeSlot g v.disk = some p ∧ freeCluster g v.disk = some y ∧
        ((r = none ∧ ∃ j ≤ g.fatCount, (dev.WritesOk → j = g.fatCount) ∧
            w.disk = patchCopies g v.disk y clusterEoc j) ∨
          OnlyCluster g y (createdEntry g v.disk p short y) w.disk)) := by
  unfold fat32Create
  by_cases hwritable : dev.writable = false
  · rw [if_pos hwritable]
    exact ⟨none, v, rfl, .inl ⟨rfl, rfl⟩⟩
  · have hw : dev.writable = true := by simpa using hwritable
    rw [if_neg hwritable]
    cases hname : makeShortName name with
    | none => exact ⟨none, v, rfl, .inl ⟨rfl, rfl⟩⟩
    | some short =>
      obtain ⟨u, hopen, hq⟩ := (fat32OpenRoot_reads g hr name).run v
      dsimp only
      rw [bind_of_some attempt_apply, hopen]
      cases openRootImage g v.disk name with
      | some f => exact ⟨none, u, rfl, .inl ⟨rfl, hq.1⟩⟩
      | none =>
        obtain ⟨u', hfind, hq'⟩ := (findFreeDirEntry_reads g hr).run u
        have hud' := hq'.1.trans hq.1
        rw [hq.1] at hfind
        dsimp only
        cases hp : freeSlot g v.disk with
        | none =>
          rw [hp] at hfind
          rw [bind_of_none hfind]
          exact ⟨none, u', rfl, .inl ⟨rfl, hud'⟩⟩
        | some p =>
          rw [hp] at hfind
          rw [bind_of_some hfind]
          cases hfree : freeCluster g v.disk with
          | none =>
            obtain ⟨w, hqw, hrun⟩ := allocateCluster_full hr (by rw [hud']; exact hfree) 0
            rw [bind_of_none hrun]
            exact ⟨none, w, rfl, .inl ⟨rfl, hqw.1.trans hud'⟩⟩
          | some y =>
            obtain ⟨t, w, j, hqt, hpatch, hrun⟩ := allocateCluster_head hr hw
              (by rw [hud']; exact hfree)
            have hwd : w.disk = patchCopies g v.disk y clusterEoc j := by
              rw [hpatch.disk, hqt.1, hud']
            have hmarked : ∃ j ≤ g.fatCount, (dev.WritesOk → j = g.fatCount) ∧
                w.disk = patchCopies g v.disk y clusterEoc j := ⟨j, hpatch.le, hpatch.all, hwd⟩
            by_cases hj : j = g.fatCount
            · rw [if_pos hj] at hrun
              rw [bind_of_some hrun]
              obtain ⟨r, w', hrun', -, hcase⟩ := updateDirSector_apply hr hw
                (slot_lba_lt (freeSlot_mem hp))
                (fun s => writeDirEntry s p.2 short attrArchive y 0) w
              rcases hcase with ⟨rfl, -, hdisk⟩ | ⟨rfl, hdisk⟩
              · rw [bind_of_none hrun']
                refine ⟨none, w', rfl, .inr ⟨short, p, y, rfl, rfl, rfl, .inl ⟨rfl, ?_⟩⟩⟩
                rw [hdisk]
                exact hmarked
              · rw [bind_of_some hrun', bind_of_some (modify_apply _), bind_of_some get_apply]
                have hentry : w'.disk = createdEntry g v.disk p short y := by
                  rw [hdisk, hwd, hj]
                  rfl
                have hclear := (clearCluster_onlyCluster (g := g) dev y w'.disk Block.zero
                  ⟨y, p.1, p.2, g.clusterSize, 0⟩ { w' with writeSectorBuffer := Block.zero }
                  (.refl _)).1
                refine ⟨_, _, rfl, .inr ⟨short, p, y, rfl, rfl, rfl, .inr ?_⟩⟩
                rw [← hentry]
                exact hclear
            · rw [if_neg hj] at hrun
              rw [bind_of_none hrun]
              exact ⟨none, w, rfl, .inr ⟨short, p, y, rfl, rfl, rfl, .inl ⟨rfl, hmarked⟩⟩⟩

def Sealed (g : Geometry) (d : Disk) : Prop :=
  ∀ p ∈ dirSlots g d g.rootCluster, (entryAt d p).mark ≠ 0 → p ∈ liveSlots g d g.rootCluster

theorem mem_takeWhile_mono {α : Type} {q q' : α → Bool} {l : List α} {a : α}
    (h : ∀ b ∈ l, q b = true → q' b = true) (ha : a ∈ l.takeWhile q) : a ∈ l.takeWhile q' := by
  induction l with
  | nil => simp at ha
  | cons b l ih =>
    rw [takeWhile_cons] at ha ⊢
    split_ifs at ha with hb
    · rw [if_pos (h b (by simp) hb)]
      rcases mem_cons.mp ha with rfl | ha
      · simp
      · exact mem_cons_of_mem _ (ih (fun c hc => h c (by simp [hc])) ha)
    · simp at ha

section
variable (h : freeSlot g d = some p)
include h

theorem freeSlot_mark : (entryAt d p).mark = 0 ∨ (entryAt d p).mark = deletedMark := by
  simpa using find?_some h

theorem freeSlot_site : Site g scope d p [] := by
  refine ⟨⟨none, .root, freeSlot_mem h⟩, fun hdir => ?_, .inr rfl⟩
  cases hdir with
  | sub _ hlive hsub =>
    rcases freeSlot_mark h with h0 | he5
    · exact mark_of_live hlive h0
    · exact hsub.1 (.inl he5)

theorem freeSlot_live (hslots : dirSlots g d' g.rootCluster = dirSlots g d g.rootCluster)
    (hsame : ∀ q ∈ dirSlots g d g.rootCluster, q ≠ p → entryAt d' q = entryAt d q)
    (hm : (entryAt d' p).mark ≠ 0) : p ∈ liveSlots g d' g.rootCluster := by
  obtain ⟨-, before, after, heq, hbefore⟩ := find?_eq_some_iff_append.mp h
  have hlive : ∀ q ∈ before, (entryAt d' q).mark ≠ 0 := by
    intro q hq
    by_cases hqp : q = p
    · rwa [hqp]
    · have hfull := hbefore q hq
      simp only [Bool.not_eq_eq_eq_not, Bool.not_true, decide_eq_false_iff_not, not_or] at hfull
      rw [hsame q (by rw [heq]; simp [hq]) hqp]
      exact hfull.1
  rw [liveSlots, hslots, heq, takeWhile_append_of_pos (by simpa using hlive)]
  simp [hm]

end

theorem Chained.root_slot (hc : Chained g scope d) (hroot : p₀ ∈ dirSlots g d g.rootCluster)
    {o : Owner} (ho : Directory g d o) (hne : o ≠ none) : p₀ ∉ dirSlots g d (startOf g d o) := by
  intro hmem
  obtain ⟨l, hl⟩ := hc.dirChain none .root
  obtain ⟨l', hl'⟩ := hc.dirChain o ho
  obtain ⟨x, hx, s, hs, hlba, -⟩ := hl.mem_dirSlots.mp hroot
  obtain ⟨x', hx', s', hs', hlba', -⟩ := hl'.mem_dirSlots.mp hmem
  obtain ⟨rfl, -⟩ := g.sectorLba_inj (hl.data x hx) (hl'.data x' hx') hs hs' (hlba.symm.trans hlba')
  exact hc.disjoint o none l' l (.inl ho) (.inl .root) hne (.inr hl') (.inr hl) hx' hx

section Seal
variable (hc : Chained g scope d) (hs : Site g scope d p₀ cs₀)
  (ht : Touches g (Loose g d cs₀) p₀ d d')
include hc hs ht

theorem Site.rootSlots_eq : dirSlots g d' g.rootCluster = dirSlots g d g.rootCluster :=
  hs.dirSlots_eq hc ht .root

theorem Site.root_entry_eq (hp : p ∈ dirSlots g d g.rootCluster) (hne : p ≠ p₀) :
    entryAt d' p = entryAt d p := hs.entry_eq hc ht .root hp hne

/-- With nothing behind the end marker, filling a root slot makes no other slot live. -/
theorem Site.liveSame_sealed (hseal : Sealed g d) (hroot : p₀ ∈ dirSlots g d g.rootCluster)
    (hm : (entryAt d' p₀).mark ≠ 0) : LiveSame g p₀ d d' := by
  intro o ho p hne
  by_cases hnone : o = none
  · subst hnone
    change p ∈ liveSlots g d' g.rootCluster ↔ p ∈ liveSlots g d g.rootCluster
    constructor
    · intro hlive
      have hmem := slot_of_live hlive
      have hmark := mark_of_live hlive
      rw [hs.rootSlots_eq hc ht] at hmem
      rw [hs.root_entry_eq hc ht hmem hne] at hmark
      exact hseal p hmem hmark
    · intro hlive
      rw [liveSlots, hs.rootSlots_eq hc ht]
      refine mem_takeWhile_mono (fun q hq hmark => ?_) hlive
      by_cases hqp : q = p₀
      · simpa [hqp] using hm
      · rwa [hs.root_entry_eq hc ht hq hqp]
  · have hout := hc.root_slot hroot ho hnone
    rw [liveSlots, liveSlots, hs.dirSlots_start_eq hc ht ho]
    refine iff_of_eq (congrArg (p ∈ ·) (takeWhile_eq_of_forall fun q hq => ?_))
    rw [hs.entry_eq hc ht ho hq fun he => hout (he ▸ hq)]

theorem Site.sealed (hseal : Sealed g d) (hl : LiveSame g p₀ d d')
    (hp₀ : p₀ ∈ dirSlots g d g.rootCluster → (entryAt d' p₀).mark ≠ 0 →
      p₀ ∈ liveSlots g d' g.rootCluster) : Sealed g d' := by
  intro p hp hm
  rw [hs.rootSlots_eq hc ht] at hp
  by_cases hpp : p = p₀
  · subst hpp
    exact hp₀ hp hm
  · rw [hs.root_entry_eq hc ht hp hpp] at hm
    exact (hl none .root p hpp).mpr (hseal p hp hm)

theorem Site.sealed_of_mark (hseal : Sealed g d)
    (h0 : (entryAt d' p₀).mark = 0 ↔ (entryAt d p₀).mark = 0) : Sealed g d' := by
  refine hs.sealed hc ht hseal (hs.liveSame hc ht h0) fun hp hm => ?_
  have hlive : liveSlots g d' g.rootCluster = liveSlots g d g.rootCluster :=
    hs.liveSlots_eq hc ht h0 .root
  rw [hlive]
  exact hseal p₀ hp fun h => hm (h0.mpr h)

end Seal

structure RootSound (g : Geometry) (scope : Owner → Prop) (d : Disk) : Prop
    extends WellFormed g scope d where
  sealed : Sealed g d

theorem freeSlot_apart (hc : Chained g scope d) (h : freeSlot g d = some p) :
    Apart g (Loose g d []) p := (freeSlot_site h).apart hc

section Create
variable {short : List UInt8} {y : ℕ} (hc : Chained g scope d) (hslot : freeSlot g d = some p)
  (hfree : freeCluster g d = some y)
include hc hslot hfree

theorem marked_chained {j : ℕ} (hj : j ≤ g.fatCount) :
    Chained g scope (patchCopies g d y clusterEoc j) ∧
      (Sealed g d → Sealed g (patchCopies g d y clusterEoc j)) := by
  obtain ⟨hy, h0⟩ := freeCluster_some g hfree
  have hs : Site g scope d p [] := freeSlot_site hslot
  have ha := hs.apart hc
  have ht : Touches g (Loose g d []) p d (patchCopies g d y clusterEoc j) :=
    ha.touches_patchCopies hy (.inl h0) clusterEoc_lt hj
  have he : entryAt (patchCopies g d y clusterEoc j) p = entryAt d p := ha.entryAt_patchCopies hy hj
  constructor
  · refine hc.update hs ht (hs.liveSame hc ht (by rw [he])) (fun hm hsub => ?_) fun hp => ?_
    · rw [he] at hm hsub
      exact hsub.1 (.inl ((freeSlot_mark hslot).resolve_left hm))
    · obtain ⟨o, -, -, hlive, hfile⟩ := hp
      have hm := mark_of_live hlive
      rw [he] at hm hfile
      exact absurd ((freeSlot_mark hslot).resolve_left hm) hfile.1
  · exact fun hseal => hs.sealed_of_mark hc ht hseal (by rw [he])

variable (hd' : OnlyCluster g y (createdEntry g d p short y) d')
include hd'

theorem created_chain : ChainFrom g d' y [y] := by
  obtain ⟨hy, h0⟩ := freeCluster_some g hfree
  have ha := freeSlot_apart hc hslot
  refine .singleton hy ?_
  rw [hd'.fatValue_eq hy hy, createdEntry, ha.fatValue_slot _ hy,
    fatValue_setFat hy hy clusterEoc_lt, if_pos rfl]
  exact le_rfl

theorem created_mirror (hm : Mirror g d) : Mirror g d' := by
  have hy := (freeCluster_some g hfree).1
  have ha := freeSlot_apart hc hslot
  refine mirror_congr (fun lba hlba => ?_) (mirror_setFat (x := clusterEoc) hy hm)
  rw [hd'.below hy lba hlba, createdEntry, ha.below _ lba hlba]

variable (hshort : short.length = 11 ∧ short.getD 0 0 ≠ 0)
include hshort

theorem created_touches : Touches g (Loose g d []) p d d' := by
  obtain ⟨hy, h0⟩ := freeCluster_some g hfree
  have ha := freeSlot_apart hc hslot
  have h1 := ha.touches_patchCopies (d := d) hy (.inl h0) clusterEoc_lt le_rfl
  have h2 := ha.touches_slot (d := setFat g d y clusterEoc)
    (writeDirEntry_inSlot (show short.length ≤ 32 by omega) attrArchive y 0)
  exact h1.trans (h2.trans (ha.touches_data hy (.inl h0) hd'))

theorem created_entry : entryAt d' p = ⟨short, attrArchive, y, 0⟩ := by
  obtain ⟨hy, h0⟩ := freeCluster_some g hfree
  have ha := freeSlot_apart hc hslot
  rw [ha.entryAt_data hy (.inl h0) hd', createdEntry, entryAt_update]
  exact dirEntryAt_writeDirEntry _ ha.room hshort.1 _ (by have := data_lt hy; omega) (by omega)

theorem created_chained (hseal : (entryAt d p).mark = deletedMark ∨ Sealed g d) :
    Chained g scope d' ∧ (Sealed g d → Sealed g d') := by
  have hs : Site g scope d p [] := freeSlot_site hslot
  have ht := created_touches hc hslot hfree hd' hshort
  have he := created_entry hc hslot hfree hd' hshort
  have hm : (entryAt d' p).mark ≠ 0 := by
    rw [he]
    exact hshort.2
  have hl : LiveSame g p d d' := by
    rcases hseal with he5 | hseal
    · refine hs.liveSame hc ht (iff_of_false hm ?_)
      rw [he5]
      decide
    · exact hs.liveSame_sealed hc ht hseal (freeSlot_mem hslot) hm
  constructor
  · refine hc.update hs ht hl (fun _ hsub => ?_) fun _ => ⟨[y], .inr ?_, ?_, ?_⟩
    · rw [he] at hsub
      exact hsub.2 (show attrArchive &&& attrDirectory = 0 by decide)
    · rw [startOf, he]
      exact created_chain hc hslot hfree hd'
    · rw [he]
      exact Nat.zero_le _
    · intro x hx
      rw [mem_singleton.mp hx]
      exact .inl (freeCluster_some g hfree).2
  · refine fun hseal => hs.sealed hc ht hseal hl fun _ hm => ?_
    exact freeSlot_live hslot (hs.rootSlots_eq hc ht)
      (fun q hq hne => hs.root_entry_eq hc ht hq hne) hm

end Create
theorem Apart.touches_clearChain {T : ℕ → Prop} (ha : Apart g T p₀)
    (hdata : ∀ x ∈ cs, g.clusterIsData x) (hT : ∀ x ∈ cs, T x) :
    Touches g T p₀ d (clearChain g d cs) := by
  constructor
  · intro x hx hnot
    rw [fatValue_clearChain hdata hx, if_neg fun hmem => hnot (hT x hmem)]
  · intro x s hx hs _ _
    exact clearChain_of_ge hdata (g.sectorLba_ge hx hs)
  · intro i _
    rw [clearChain_of_ge hdata ha.ge]

def deletedEntry (g : Geometry) (d : Disk) (p : Slot) (cs : List ℕ) : Disk :=
  Function.update (clearChain g d cs) p.1 ((clearChain g d cs p.1).put p.2 [deletedMark])

theorem rootChoice_lba_lt {wanted : List UInt8} (h : rootChoice g d wanted = some p) :
    p.1 < g.totalSectors := slot_lba_lt (slot_of_live (rootChoice_some h).1)

theorem releaseChain_apply (hr : dev.ReadsOk) (hw : dev.writable = true) {v : Volume}
    (hcs : HasChain g v.disk (some p) cs)
    (hok : ∀ i < cs.length * g.fatCount, dev.writeOk (v.writes + i) = true) :
    ∃ w, releaseChain g dev (entryAt v.disk p).firstCluster v = (some (), w) ∧
      w.disk = clearChain g v.disk cs ∧ w.writes = v.writes + cs.length * g.fatCount := by
  unfold releaseChain
  rcases hcs with ⟨hlt, rfl⟩ | hcs
  · have hlt : (entryAt v.disk p).firstCluster < 2 := hlt
    rw [if_neg (by omega)]
    exact ⟨v, rfl, rfl, by simp⟩
  · have hge : 2 ≤ (entryAt v.disk p).firstCluster := hcs.head_data.1
    rw [if_pos hge]
    exact freeChainFrom_apply hr hw hcs hcs.length_le hok

theorem fat32Delete_rejects (hr : dev.ReadsOk) {name : List UInt8} {v : Volume}
    (h : dev.writable = false ∨ openRootImage g v.disk name = none) :
    ∃ w, fat32Delete g dev name v = (none, w) ∧ w.disk = v.disk := by
  unfold fat32Delete
  by_cases hguard : dev.writable = false ∨ makeShortName name = none
  · rw [if_pos hguard]
    exact ⟨v, rfl, rfl⟩
  · obtain ⟨u, hopen, hq⟩ := (fat32OpenRoot_reads g hr name).run v
    rw [h.resolve_left fun hw => hguard (.inl hw)] at hopen
    rw [if_neg hguard, bind_of_none hopen]
    exact ⟨u, rfl, hq.1⟩

theorem fat32Delete_apply (hr : dev.ReadsOk) (hw : dev.writable = true) {name : List UInt8}
    {v : Volume} (himage : openRootImage g v.disk name = some (handleAt g v.disk p cs))
    (hcs : HasChain g v.disk (some p) cs) (hlba : p.1 < g.totalSectors)
    (hok : ∀ i < cs.length * g.fatCount, dev.writeOk (v.writes + i) = true) :
    ∃ r w, fat32Delete g dev name v = (r, w) ∧
      w.disk = if dev.writeOk (v.writes + cs.length * g.fatCount) then deletedEntry g v.disk p cs
        else clearChain g v.disk cs := by
  have hname : makeShortName name ≠ none := by
    intro hnone
    simp [openRootImage, hnone] at himage
  obtain ⟨u, hopen, hud, huw⟩ := (fat32OpenRoot_reads g hr name).run v
  rw [himage] at hopen
  rw [← hud] at hcs ⊢
  rw [← huw] at hok ⊢
  obtain ⟨t, hrel, htd, htw⟩ := releaseChain_apply hr hw hcs hok
  obtain ⟨w, -, hrun, hdisk⟩ := rewriteSector_apply hr hw hlba .dir
    (fun s => s.put p.2 [deletedMark]) t
  refine ⟨if dev.writeOk t.writes then some () else none, w, ?_, ?_⟩
  · rw [hud] at hrel
    rw [fat32Delete, if_neg (by simp [hw, hname]), bind_of_some hopen, handleAt, bind_of_some hrel]
    exact hrun
  · rw [htw, htd] at hdisk
    exact hdisk

theorem fat32Rename_apply (hr : dev.ReadsOk) (oldName newName : List UInt8) (v : Volume) :
    ∃ r w, fat32Rename g dev oldName newName v = (r, w) ∧
      (w.disk = v.disk ∨ ∃ short wanted p cs, makeShortName newName = some short ∧
        rootChoice g v.disk wanted = some p ∧ HasChain g v.disk (some p) cs ∧
        (entryAt v.disk p).size ≤ cs.length * g.clusterSize ∧
        w.disk = Function.update v.disk p.1 ((v.disk p.1).put p.2 short)) := by
  unfold fat32Rename
  split_ifs with hwritable
  · exact ⟨none, v, rfl, .inl rfl⟩
  · have hw : dev.writable = true := by simpa using hwritable
    cases hname : makeShortName newName with
    | none => exact ⟨none, v, rfl, .inl rfl⟩
    | some short =>
      obtain ⟨u, hopen, hq⟩ := (fat32OpenRoot_reads g hr oldName).run v
      have hud := hq.1
      dsimp only
      cases himage : openRootImage g v.disk oldName with
      | none =>
        rw [himage] at hopen
        rw [bind_of_none hopen]
        exact ⟨none, u, rfl, .inl hud⟩
      | some f =>
        rw [himage] at hopen
        obtain ⟨wanted, -, p, hchoice, cs, hcs, hsize, -, rfl⟩ := openRootImage_eq_some.mp himage
        obtain ⟨u', hopen', hq'⟩ := (fat32OpenRoot_reads g hr newName).run u
        have hud' := hq'.1
        rw [bind_of_some hopen, bind_of_some attempt_apply, hopen']
        cases openRootImage g u.disk newName with
        | some _ => exact ⟨none, u', rfl, .inl (hud'.trans hud)⟩
        | none =>
          obtain ⟨r, w, hrun, -, hcase⟩ := updateDirSector_apply hr hw (rootChoice_lba_lt hchoice)
            (fun s => s.put p.2 short) u'
          refine ⟨r, w, hrun, ?_⟩
          rw [hud'.trans hud] at hcase
          rcases hcase with ⟨-, -, hdisk⟩ | ⟨-, hdisk⟩
          · exact .inl hdisk
          · exact .inr ⟨short, wanted, p, cs, rfl, hchoice, hcs, hsize, hdisk⟩

end Fat32
