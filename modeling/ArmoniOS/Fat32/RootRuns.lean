import ArmoniOS.Fat32.RootOps

/-! Histories of root operations with working callbacks keep the volume well formed. -/
namespace Fat32
open Exec List

variable {g : Geometry} {dev : Device} {scope : Owner → Prop} {d : Disk} {p : Slot} {cs : List ℕ}

theorem FileIn.mark_ne_zero (hp : FileIn g scope d p) : (entryAt d p).mark ≠ 0 := by
  obtain ⟨_, _, _, hlive, _⟩ := hp
  exact mark_of_live hlive

structure Carries (g : Geometry) (scope : Owner → Prop) (d d' : Disk) : Prop where
  chained : Chained g scope d'
  sealed : Sealed g d → Sealed g d'

theorem Carries.refl (hc : Chained g scope d) : Carries g scope d d := ⟨hc, id⟩

section Images
variable (hc : Chained g scope d) (hp : FileIn g scope d p) (hcs : HasChain g d (some p) cs)
include hc hp hcs

theorem deletedEntry_carries : Carries g scope d (deletedEntry g d p cs) ∧
    (Mirror g d → Mirror g (deletedEntry g d p cs)) := by
  have hs := hp.site hcs
  have ha := hs.apart hc
  have hdata : ∀ x ∈ cs, g.clusterIsData x := fun x hx => hcs.data hx
  have ht : Touches g (Loose g d cs) p d (deletedEntry g d p cs) :=
    (ha.touches_clearChain hdata fun x hx => .inr hx).trans
      (ha.touches_slot (storeName_inSlot (by simp)))
  have hm : (entryAt (deletedEntry g d p cs) p).mark = deletedMark := by
    rw [deletedEntry, entryAt_update]
    exact mark_storeMark _ ha.room _
  have h0 : (entryAt (deletedEntry g d p cs) p).mark = 0 ↔ (entryAt d p).mark = 0 := by
    refine iff_of_false ?_ hp.mark_ne_zero
    rw [hm]
    decide
  refine ⟨⟨?_, fun hseal => hs.sealed_of_mark hc ht hseal h0⟩, fun hmirror => ?_⟩
  · refine hc.update hs ht (hs.liveSame hc ht h0) (fun _ hsub => ?_) fun hp' => ?_
    · exact hsub.1 (.inl hm)
    · exact absurd hm hp'.isFile.1
  · exact mirror_congr (ha.below _) (mirror_clearChain hdata hmirror)

theorem renamed_carries (hsize : (entryAt d p).size ≤ cs.length * g.clusterSize)
    {short : List UInt8} (hshort : short.length = 11 ∧ short.getD 0 0 ≠ 0) :
    Carries g scope d (Function.update d p.1 ((d p.1).put p.2 short)) ∧
      (Mirror g d → Mirror g (Function.update d p.1 ((d p.1).put p.2 short))) := by
  have hs := hp.site hcs
  have ha := hs.apart hc
  generalize hd' : Function.update d p.1 ((d p.1).put p.2 short) = d'
  have ht : Touches g (Loose g d cs) p d d' := by
    rw [← hd']
    exact ha.touches_slot (storeName_inSlot (by omega))
  have he : entryAt d' p = { entryAt d p with name := short } := by
    rw [← hd', entryAt_update]
    exact dirEntryAt_storeName _ ha.room hshort.1
  have h0 : (entryAt d' p).mark = 0 ↔ (entryAt d p).mark = 0 := by
    refine iff_of_false ?_ hp.mark_ne_zero
    rw [he]
    exact hshort.2
  refine ⟨⟨?_, fun hseal => hs.sealed_of_mark hc ht hseal h0⟩, fun hmirror => ?_⟩
  · refine hc.update hs ht (hs.liveSame hc ht h0) (fun _ hsub => ?_) fun _ =>
      ⟨cs, ?_, ?_, fun x hx => .inr hx⟩
    · rw [he] at hsub
      exact hp.isFile.2.2 hsub.2
    · refine hcs.congr ?_ fun x hx => ?_
      · rw [startOf, startOf, he]
      · rw [← hd', ha.fatValue_slot _ (hcs.data hx)]
    · rw [he]
      exact hsize
  · rw [← hd']
    exact mirror_congr (ha.below _) hmirror

end Images

inductive RootOp where
  | create (name : List UInt8)
  | write (name : List UInt8) (offset : ℕ) (data : List UInt8)
  | delete (name : List UInt8)
  | rename (oldName newName : List UInt8)

namespace RootOp
variable (g dev)

def step (v : Volume) : RootOp → Volume
  | .create name => (fat32Create g dev name v).2
  | .write name offset data =>
      match fat32OpenRoot g dev name v with
      | (some file, w) => (fat32Write g dev offset data (w, file)).2.1
      | (none, w) => w
  | .delete name => (fat32Delete g dev name v).2
  | .rename oldName newName => (fat32Rename g dev oldName newName v).2

def run (v : Volume) (ops : List RootOp) : Volume := ops.foldl (step g dev) v

end RootOp

theorem rootChoice_fileIn (hscope : scope none) {wanted : List UInt8}
    (h : rootChoice g d wanted = some p) : FileIn g scope d p := by
  obtain ⟨hmem, hfile⟩ := rootChoice_some h
  exact ⟨none, hscope, .root, hmem, hfile⟩

section Steps
variable (hr : dev.ReadsOk) (hscope : scope none) {v : Volume} (hc : Chained g scope v.disk)
include hr hc

theorem create_carries (name : List UInt8) (hseal : ∀ p, freeSlot g v.disk = some p →
      (entryAt v.disk p).mark = deletedMark ∨ Sealed g v.disk) :
    Carries g scope v.disk (fat32Create g dev name v).2.disk ∧
      (dev.WritesOk → Mirror g v.disk → Mirror g (fat32Create g dev name v).2.disk) := by
  obtain ⟨r, w, hrun, hcase⟩ := fat32Create_apply hr name v
  rw [hrun]
  rcases hcase with ⟨-, hd⟩ | ⟨short, p, y, hname, hslot, hfree, ⟨-, j, hj, hall, hd⟩ | hd⟩
  · rw [hd]
    exact ⟨.refl hc, fun _ h => h⟩
  · obtain ⟨h1, h2⟩ := marked_chained hc hslot hfree hj
    rw [hd]
    refine ⟨⟨h1, h2⟩, fun hok hm => ?_⟩
    rw [hall hok]
    exact mirror_setFat (freeCluster_some g hfree).1 hm
  · obtain ⟨h1, h2⟩ := created_chained hc hslot hfree hd (makeShortName_spec hname) (hseal p hslot)
    exact ⟨⟨h1, h2⟩, fun _ => created_mirror hc hslot hfree hd⟩

theorem rename_carries (hscope : scope none) (oldName newName : List UInt8) :
    Carries g scope v.disk (fat32Rename g dev oldName newName v).2.disk ∧
      (Mirror g v.disk → Mirror g (fat32Rename g dev oldName newName v).2.disk) := by
  obtain ⟨r, w, hrun, hcase⟩ := fat32Rename_apply hr oldName newName v
  rw [hrun]
  rcases hcase with hd | ⟨short, wanted, p, cs, hname, hchoice, hcs, hsize, hd⟩
  · rw [hd]
    exact ⟨.refl hc, id⟩
  · rw [hd]
    exact renamed_carries hc (rootChoice_fileIn hscope hchoice) hcs hsize (makeShortName_spec hname)

/-- A write through a fresh handle, wherever appending a cluster cannot fail half-way. -/
theorem write_carries (hscope : scope none) {name data : List UInt8} {f : FileHandle} {u : Volume}
    {offset : ℕ} (hopen : fat32OpenRoot g dev name v = (some f, u))
    (hsafe : ∀ cs, HasChain g v.disk (some (f.dirLba, f.dirOffset)) cs → offset ≤ f.size →
      data ≠ [] → WriteSafe g dev v.disk cs (offset + data.length)) :
    Carries g scope v.disk (fat32Write g dev offset data (u, f)).2.1.disk ∧
      (dev.WritesOk → Mirror g v.disk →
        Mirror g (fat32Write g dev offset data (u, f)).2.1.disk) := by
  obtain ⟨himage, hq⟩ := (fat32OpenRoot_reads g hr name).of_eq hopen
  have hd := hq.1
  rw [← hd] at himage hc hsafe ⊢
  obtain ⟨wanted, -, p, hchoice, cs, hcs, hsize, hmax, rfl⟩ := openRootImage_eq_some.mp himage.symm
  have hp := rootChoice_fileIn hscope hchoice
  obtain ⟨r, w, f', cs', hwrite, hrew, -⟩ := fat32Write_apply hr ((hp.site hcs).apart hc)
    ⟨.start hcs hsize, rfl, hmax⟩ (hsafe cs hcs)
  rw [hwrite]
  refine ⟨⟨hrew.chained hc hp hcs, fun hseal =>
    (hp.site hcs).sealed_of_mark hc hrew.touches hseal ?_⟩, hrew.mirror⟩
  unfold DirEntry.mark
  rw [hrew.name]

theorem delete_carries (hscope : scope none) (name : List UInt8) (hsafe : dev.WritesOk ∨
      ∀ f, openRootImage g v.disk name = some f → f.firstCluster < 2) :
    Carries g scope v.disk (fat32Delete g dev name v).2.disk ∧
      (Mirror g v.disk → Mirror g (fat32Delete g dev name v).2.disk) := by
  by_cases hreject : dev.writable = false ∨ openRootImage g v.disk name = none
  · obtain ⟨w, hrun, hd⟩ := fat32Delete_rejects hr hreject
    rw [hrun]
    dsimp only
    rw [hd]
    exact ⟨.refl hc, id⟩
  · rw [not_or, Bool.not_eq_false] at hreject
    obtain ⟨f, himage⟩ := Option.ne_none_iff_exists'.mp hreject.2
    obtain ⟨wanted, -, p, hchoice, cs, hcs, -, -, rfl⟩ := openRootImage_eq_some.mp himage
    have hnone := hsafe.imp_right fun hlt =>
      hcs.unique (.inl ⟨hlt _ himage, rfl⟩)
    have hok : ∀ i < cs.length * g.fatCount, dev.writeOk (v.writes + i) = true := by
      intro i hi
      rcases hnone with hok | rfl
      · exact hok _
      · simp at hi
    obtain ⟨r, w, hrun, hd⟩ := fat32Delete_apply hr hreject.1 himage hcs
      (rootChoice_lba_lt hchoice) hok
    have hcase : w.disk = v.disk ∨ w.disk = deletedEntry g v.disk p cs := by
      split_ifs at hd with hlast
      · exact .inr hd
      · rcases hnone with hok | rfl
        · exact absurd (hok _) hlast
        · exact .inl hd
    rw [hrun]
    rcases hcase with hd | hd
    · rw [hd]
      exact ⟨.refl hc, id⟩
    · rw [hd]
      exact deletedEntry_carries hc (rootChoice_fileIn hscope hchoice) hcs

end Steps

section Runs
variable (hr : dev.ReadsOk) (hok : dev.WritesOk) (hscope : scope none)
include hr hok hscope

theorem step_rootSound {v : Volume} (h : RootSound g scope v.disk) (op : RootOp) :
    RootSound g scope (op.step g dev v).disk := by
  have hc := h.toChained
  have carry : ∀ {d' : Disk}, Carries g scope v.disk d' ∧ (Mirror g v.disk → Mirror g d') →
      RootSound g scope d' := fun hd => ⟨⟨hd.1.chained, hd.2 h.mirror⟩, hd.1.sealed h.sealed⟩
  cases op with
  | create name =>
    obtain ⟨h1, h2⟩ := create_carries hr hc name fun _ _ => .inr h.sealed
    exact carry ⟨h1, h2 hok⟩
  | write name offset data =>
    rcases hopen : fat32OpenRoot g dev name v with ⟨_ | f, u⟩
    · have hq := ((fat32OpenRoot_reads g hr name).of_eq hopen).2
      simp only [RootOp.step, hopen]
      rw [hq.1]
      exact h
    · obtain ⟨h1, h2⟩ := write_carries hr hc hscope hopen fun _ _ _ _ => .inr (.inl hok)
      simp only [RootOp.step, hopen]
      exact carry ⟨h1, h2 hok⟩
  | delete name => exact carry (delete_carries hr hc hscope name (.inl hok))
  | rename oldName newName => exact carry (rename_carries hr hc hscope oldName newName)

end Runs

/-- Every history of root operations starting from a well-formed volume with nothing behind the
root directory's end marker ends in one. -/
theorem root_run_wellFormed (g : Geometry) (dev : Device) (hr : dev.ReadsOk) (hok : dev.WritesOk)
    (scope : Owner → Prop) (hscope : scope none) (v : Volume) (h : RootSound g scope v.disk)
    (ops : List RootOp) : RootSound g scope (RootOp.run g dev v ops).disk := by
  induction ops generalizing v with
  | nil => exact h
  | cons op ops ih => exact ih _ (step_rootSound hr hok hscope h op)

section Small
open SmallVolume

/-- A file is created, written, another one deleted and the first renamed; one write asks for
more clusters than are free. -/
theorem root_run_wellFormed_twoFiles : RootSound geometry (fun o => o = none) twoFiles.disk ∧
    RootSound geometry (fun o => o = none) (RootOp.run geometry .reliable twoFiles
      [.create (bytes "c.txt"), .write (bytes "c.txt") 0 (replicate 700 1),
        .delete (bytes "b.txt"), .write (bytes "a.txt") 5 (replicate 9000 2),
        .rename (bytes "a.txt") (bytes "d.txt")]).disk := by
  have h : RootSound geometry (fun o => o = none) twoFiles.disk :=
    ⟨twoFiles_wellFormed _, by unfold Sealed; decide +kernel⟩
  exact ⟨h, root_run_wellFormed geometry .reliable Device.reliable_readsOk
    Device.reliable_writesOk (fun o => o = none) rfl twoFiles h _⟩

/-- A stale entry behind the end marker refers to the first file's cluster. -/
def staleTail : Volume :=
  fresh (disk 1 16 (fatSector [clusterMask, clusterMask])
    [dirSector [("A       TXT", attrArchive, 3, 5), ("\x00          ", 0, 0, 0),
      ("G       TXT", attrArchive, 3, 5)]])

/-- Creating a file fills the end marker's slot, so that the stale entry becomes live and two
files own one cluster. -/
theorem create_revives_stale_entry : WellFormed geometry (fun o => o = none) staleTail.disk ∧
    (fat32Create geometry .reliable (bytes "b.txt") staleTail).1.isSome ∧
    ¬ WellFormed geometry (fun o => o = none)
      (RootOp.run geometry .reliable staleTail [.create (bytes "b.txt")]).disk := by
  have hflat : Flat geometry staleTail.disk [2] fun _ => [3] :=
    ⟨by decide +kernel, by decide +kernel, by decide +kernel⟩
  refine ⟨hflat.wellFormed (by decide +kernel), by decide +kernel, fun h => ?_⟩
  have hfile : ∀ p, p = (2, 0) ∨ p = (2, 64) → Owns geometry (fun o => o = none)
      (RootOp.run geometry .reliable staleTail [.create (bytes "b.txt")]).disk (some p) := by
    rintro p (rfl | rfl)
    · exact .inr ⟨_, rfl, none, rfl, .root, by decide +kernel, by decide +kernel⟩
    · exact .inr ⟨_, rfl, none, rfl, .root, by decide +kernel, by decide +kernel⟩
  exact h.disjoint (some (2, 0)) (some (2, 64)) [3] [3] (hfile _ (.inl rfl))
    (hfile _ (.inr rfl)) (by decide) (by decide +kernel) (by decide +kernel)
    (mem_singleton_self 3) (mem_singleton_self 3)

end Small
end Fat32
