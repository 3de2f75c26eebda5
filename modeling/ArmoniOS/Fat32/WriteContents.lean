import ArmoniOS.Fat32.FlatVolume
import ArmoniOS.Fat32.WriteFile

/-! `fat32_write` through a fresh handle: the contents of the written file, of every later read,
and of all other files. -/
namespace Fat32
open Exec ByteBlock List Option

variable {g : Geometry} {dev : Device} {scope : Owner → Prop} {d d' : Disk} {p p₀ : Slot}
  {cs cs₀ : List ℕ}

/-- FAT and chain after the bootstrap of a file without a first cluster. -/
def bootstrapped (g : Geometry) (d : Disk) (cs : List ℕ) : Disk × List ℕ :=
  if cs = [] then
    match freeCluster g d with
    | some y => (setFat g d y clusterEoc, [y])
    | none => (d, [])
  else (d, cs)

/-- Appending is not needed for a write that ends at `size`, does not happen, or works. -/
def WriteSafe (g : Geometry) (dev : Device) (d : Disk) (cs : List ℕ) (size : ℕ) : Prop :=
  size ≤ (bootstrapped g d cs).2.length * g.clusterSize ∨
    AppendSafe g dev (bootstrapped g d cs).1 (bootstrapped g d cs).2

theorem fat32Write_apply (hr : dev.ReadsOk) {v : Volume} {f : FileHandle}
    (ha : Apart g (Loose g v.disk cs) p₀) (h : Tracking g dev v.disk p₀ cs (v, f) cs)
    {offset : ℕ} {data : List UInt8}
    (hsafe : offset ≤ f.size → data ≠ [] → WriteSafe g dev v.disk cs (offset + data.length)) :
    ∃ r w f' cs', fat32Write g dev offset data (v, f) = (r, (w, f')) ∧
      Rewriting g dev v.disk p₀ cs w.disk cs' ∧
      (dev.WritesOk → Tracking g dev v.disk p₀ cs (w, f') cs') ∧
      ∀ n, r = some n → n = data.length ∧ Tracking g dev v.disk p₀ cs (w, f') cs' ∧
        f'.size = offset + data.length ∧
        fileBytes g w.disk cs' (offset + data.length) = fileBytes g v.disk cs offset ++ data := by
  have hf : f = handleAt g v.disk p₀ cs := h.handle
  have hsize : f.size ≤ cs.length * g.clusterSize := by
    rw [hf]
    exact h.size
  rw [fat32Write, bind_of_some currentFile_apply]
  by_cases hguard : dev.writable = false ∨ f.size < offset ∨ f.capacity < offset ∨
      g.totalSectors ≤ f.dirLba ∨ sectorSize < u32 (f.dirOffset + 32)
  · rw [if_pos hguard]
    exact ⟨none, v, f, cs, rfl, h.toRewriting, fun _ => h, by simp⟩
  · rw [if_neg hguard]
    have hw : dev.writable = true := by
      by_contra hw
      exact hguard (.inl (by simpa using hw))
    have hoff : offset ≤ f.size := by omega
    by_cases hne : data = []
    · subst hne
      have hu32 := u32_of_le ((hoff.trans hsize).trans h.fits)
      obtain ⟨r, w, f', hrun, hrew, hworks, hdone⟩ := storeSize_apply hr hw ha h (hoff.trans hsize)
      rw [if_pos rfl, hu32]
      cases r with
      | none =>
        rw [bind_of_none hrun]
        exact ⟨none, w, f', cs, rfl, hrew, fun hok => by simpa using hworks hok, by simp⟩
      | some _ =>
        obtain ⟨htrack, hnew, hbytes⟩ := hdone rfl
        rw [bind_of_some hrun]
        refine ⟨some 0, w, f', cs, rfl, hrew, fun _ => htrack,
          fun n hn => ⟨(some.inj hn).symm, htrack, hnew, ?_⟩⟩
        rw [append_nil]
        exact hbytes offset (hoff.trans hsize)
    · rw [if_neg hne]
      have hsafe := hsafe hoff hne
      by_cases hcs : cs = []
      · subst hcs
        have h0 : offset = 0 := by simpa using hoff.trans hsize
        obtain ⟨r, w, f', hrun, hcase, -⟩ := bootstrap_empty hr hw ha h
        rcases hcase with ⟨rfl, hrew, hkept⟩ | ⟨y, rfl, hfree, htrack, hfat⟩
        · rw [bind_of_none hrun]
          exact ⟨none, w, f', [], rfl, hrew, hkept, by simp⟩
        · rw [bind_of_some hrun, bind_of_some currentFile_apply]
          have hboot : bootstrapped g v.disk [] = (setFat g v.disk y clusterEoc, [y]) := by
            simp [bootstrapped, hfree]
          have hsafe' : offset + data.length ≤ [y].length * g.clusterSize ∨
              AppendSafe g dev w.disk [y] := by
            rw [WriteSafe, hboot] at hsafe
            unfold AppendSafe at hsafe ⊢
            rwa [freeCluster_congr hfat]
          have hres := writeTail_apply hr hw ha htrack (by simp) hne (by omega) hsafe'
          subst h0
          exact hres
      · rw [bind_of_some (bootstrap_skip h hcs), bind_of_some currentFile_apply]
        rw [WriteSafe, bootstrapped, if_neg hcs] at hsafe
        exact writeTail_apply hr hw ha h hcs hne (hoff.trans hsize) hsafe

theorem openEntry_eq_some {f : FileHandle} :
    openEntry g d (entryAt d p) p = some f ↔ ∃ cs, HasChain g d (some p) cs ∧
      (entryAt d p).size ≤ cs.length * g.clusterSize ∧ cs.length * g.clusterSize ≤ uint32Max ∧
      f = handleAt g d p cs := by
  unfold openEntry
  constructor
  · intro h
    split_ifs at h with h1 h2
    · obtain ⟨k, hk, h⟩ := bind_eq_some_iff.mp h
      obtain ⟨cs, hcs, rfl, hmax⟩ := capacity_eq_some.mp hk
      split_ifs at h with h3
      exact ⟨cs, .inr hcs, not_lt.mp h3, hmax, (some.inj h).symm⟩
    · have h0 : (entryAt d p).size = 0 := by
        by_contra hne
        exact h1 ⟨hne, not_le.mp h2⟩
      refine ⟨[], .inl ⟨not_le.mp h2, rfl⟩, by simp [h0], by simp, ?_⟩
      rw [← some.inj h]
      simp [handleAt]
  · rintro ⟨cs, hcs, hsize, hmax, rfl⟩
    rcases hcs with ⟨hlt, rfl⟩ | hcs
    · have hlt : (entryAt d p).firstCluster < 2 := hlt
      have h0 : (entryAt d p).size = 0 := by simpa using hsize
      rw [if_neg (by simp [h0]), if_neg (by omega)]
      simp [handleAt]
    · have h2 : 2 ≤ (entryAt d p).firstCluster := hcs.head_data.1
      have hcap : capacity g d (entryAt d p).firstCluster = some (cs.length * g.clusterSize) :=
        hcs.capacity_eq hmax
      rw [if_neg (by omega), if_pos h2, hcap, bind_some, if_neg (by omega)]
      rfl

theorem openRootImage_eq_some {name : List UInt8} {f : FileHandle} :
    openRootImage g d name = some f ↔ ∃ wanted, makeShortName name = some wanted ∧
      ∃ p, rootChoice g d wanted = some p ∧ ∃ cs, HasChain g d (some p) cs ∧
        (entryAt d p).size ≤ cs.length * g.clusterSize ∧ cs.length * g.clusterSize ≤ uint32Max ∧
        f = handleAt g d p cs := by
  simp only [openRootImage, bind_eq_some_iff, openEntry_eq_some]

theorem rootChoice_some {wanted : List UInt8} (h : rootChoice g d wanted = some p) :
    p ∈ liveSlots g d g.rootCluster ∧ (entryAt d p).IsFile := by
  have hp := find?_some h
  simp only [decide_eq_true_eq] at hp
  exact ⟨mem_of_find?_eq_some h, hp.1.1, hp.1.2.1, hp.2⟩

theorem FileIn.site (hp : FileIn g scope d p) (hcs : HasChain g d (some p) cs) :
    Site g scope d p cs := by
  obtain ⟨o, hscope, ho, hmem, he⟩ := hp
  refine ⟨⟨o, ho, slot_of_live hmem⟩, fun hdir => ?_, .inl ⟨?_, hcs⟩⟩
  · cases hdir with
    | sub _ _ hsub => exact he.2.2 hsub.2
  · exact ⟨o, hscope, ho, hmem, he⟩

theorem Rewriting.not_subdir (h : Rewriting g dev d p₀ cs₀ d' cs) (hp : (entryAt d p₀).IsFile) :
    ¬ (entryAt d' p₀).IsSubdir := by
  rintro ⟨-, hdir⟩
  unfold DirEntry.isDirectory at hdir
  rw [h.attr] at hdir
  exact hp.2.2 hdir

theorem FileIn.isFile (hp : FileIn g scope d p) : (entryAt d p).IsFile := by
  obtain ⟨_, _, _, _, he⟩ := hp
  exact he

/-- A file stays where it is under an update of its slot and clusters that keeps its name and
attributes. -/
theorem FileIn.survives (hc : Chained g scope d) (hp : FileIn g scope d p₀)
    (hcs : HasChain g d (some p₀) cs₀) (ht : Touches g (Loose g d cs₀) p₀ d d')
    (hname : (entryAt d' p₀).name = (entryAt d p₀).name)
    (hattr : (entryAt d' p₀).attr = (entryAt d p₀).attr) : FileIn g scope d' p₀ := by
  have hs := hp.site hcs
  have hmark : (entryAt d' p₀).mark = (entryAt d p₀).mark := by
    unfold DirEntry.mark
    rw [hname]
  have hdir : (entryAt d' p₀).isDirectory ↔ (entryAt d p₀).isDirectory := by
    unfold DirEntry.isDirectory
    rw [hattr]
  have hfile := hp.isFile
  have hl := hs.liveSame hc ht (by rw [hmark])
  obtain ⟨o, hscope, ho, hlive, -⟩ := hp
  refine ⟨o, hscope, ?_, ?_, ?_⟩
  · exact (hs.directory_iff hc ht hl fun _ hsub => hfile.2.2 (hdir.mp hsub.2)).mpr ho
  · rw [hs.start_eq hc ht (.inl ho) (hs.dir_ne ho), hs.liveSlots_eq hc ht (by rw [hmark]) ho]
    exact hlive
  · exact ⟨by rw [hmark]; exact hfile.1, by rw [hattr]; exact hfile.2.1,
      fun h => hfile.2.2 (hdir.mp h)⟩

section Rewritten
variable (hc : Chained g scope d) (hp : FileIn g scope d p₀) (hcs : HasChain g d (some p₀) cs₀)
  (h : Rewriting g dev d p₀ cs₀ d' cs)
include hc hp hcs h

theorem Rewriting.liveSame : LiveSame g p₀ d d' := by
  refine (hp.site hcs).liveSame hc h.touches ?_
  unfold DirEntry.mark
  rw [h.name]

theorem Rewriting.chained : Chained g scope d' :=
  hc.update (hp.site hcs) h.touches (h.liveSame hc hp hcs) (fun _ => h.not_subdir hp.isFile)
    fun _ => ⟨cs, h.chain, h.size, h.loose⟩

theorem Rewriting.fileIn_iff (hne : p ≠ p₀) : FileIn g scope d' p ↔ FileIn g scope d p :=
  (hp.site hcs).fileIn_iff hc h.touches (h.liveSame hc hp hcs) (fun _ => h.not_subdir hp.isFile) hne

theorem Rewriting.fileIn_self : FileIn g scope d' p₀ := hp.survives hc hcs h.touches h.name h.attr

theorem Rewriting.rootChoice_eq (wanted : List UInt8) :
    rootChoice g d' wanted = rootChoice g d wanted := by
  have hs := hp.site hcs
  have hlive : liveSlots g d' g.rootCluster = liveSlots g d g.rootCluster :=
    hs.liveSlots_eq hc h.touches (by unfold DirEntry.mark; rw [h.name]) .root
  unfold rootChoice
  rw [hlive]
  refine find?_congr fun q hq => ?_
  by_cases hqp : q = p₀
  · subst hqp
    refine decide_eq_decide.mpr ?_
    simp only [DirEntry.Named, DirEntry.mark, DirEntry.isDirectory, h.name, h.attr]
  · rw [hs.entry_eq hc h.touches .root (slot_of_live hq) hqp]

theorem Rewriting.sector_eq {l : List ℕ} (hq : FileIn g scope d p) (hne : p ≠ p₀)
    (hl : HasChain g d (some p) l) {x s : ℕ} (hx : x ∈ l) (hs : s < g.sectorsPerCluster) :
    d' (g.sectorLba x s) = d (g.sectorLba x s) := by
  have hsite := hp.site hcs
  have howns : Owns g scope d (some p) := .inr ⟨p, rfl, hq⟩
  refine h.touches.sectors x s (hl.data hx) hs ?_ fun hlba => ?_
  · exact hsite.not_loose hc howns (by simpa using hne) hl hx
  · -- the written slot lies in a directory's cluster
    obtain ⟨o, ho, hmem⟩ := hsite.inDir
    obtain ⟨ds, hds⟩ := hc.dirChain o ho
    obtain ⟨y, hy, t, ht, hlba', -⟩ := hds.mem_dirSlots.mp hmem
    obtain ⟨rfl, -⟩ := g.sectorLba_inj (hl.data hx) (hds.data y hy) hs ht (hlba.trans hlba')
    have hfile := (hq.site hl).notDir
    have hneo : some p ≠ o := by
      rintro rfl
      exact hfile ho
    exact hc.disjoint _ o l ds howns (.inl ho) hneo hl (.inr hds) hx hy

end Rewritten

theorem fileBytes_take {size offset : ℕ} (h : offset ≤ size) :
    (fileBytes g d cs size).take offset = fileBytes g d cs offset := by
  have hslice := window_slice (f := fileByte g d cs) size 0 offset
  rwa [drop_zero, Nat.sub_zero, Nat.min_eq_right h] at hslice

/-- The contents of the file whose entry is at `p`. -/
def fileContent (g : Geometry) (d : Disk) (p : Slot) : List UInt8 :=
  fileBytes g d (dirClusters g d (entryAt d p).firstCluster) (entryAt d p).size

theorem fileContent_eq (hcs : HasChain g d (some p) cs)
    (hsize : (entryAt d p).size ≤ cs.length * g.clusterSize) :
    fileContent g d p = fileBytes g d cs (entryAt d p).size := by
  rcases hcs with ⟨-, rfl⟩ | hcs
  · have h0 : (entryAt d p).size = 0 := by simpa using hsize
    simp [fileContent, fileBytes, h0]
  · have hwalk : dirClusters g d (entryAt d p).firstCluster = cs := hcs.dirClusters_eq
    rw [fileContent, hwalk]

theorem Rewriting.fileContent_eq (hc : Chained g scope d) (hp : FileIn g scope d p₀)
    (hcs : HasChain g d (some p₀) cs₀) (h : Rewriting g dev d p₀ cs₀ d' cs)
    (hq : FileIn g scope d p) (hne : p ≠ p₀) : fileContent g d' p = fileContent g d p := by
  obtain ⟨l, hl, hsize⟩ := hc.fileChain p hq
  have hentry := (hp.site hcs).file_entry_eq hc h.touches hq hne
  have hl' := (hp.site hcs).chain_eq hc h.touches (.inr ⟨p, rfl, hq⟩) (by simpa using hne) hl
  rw [Fat32.fileContent_eq hl hsize, Fat32.fileContent_eq hl' (by rw [hentry]; exact hsize), hentry]
  refine window_congr fun i hi => ?_
  exact fileByte_congr (fun x hx s hs => h.sector_eq hc hp hcs hq hne hl hx hs) (by omega)

/-- A successful write of `data` at `offset` through a fresh handle leaves the first `offset`
bytes followed by `data` in the file, to be read back by every later read and found by every
later open, and nothing else changes. -/
theorem write_replaces_tail (g : Geometry) (dev : Device) (hr : dev.ReadsOk) (hok : dev.WritesOk)
    (scope : Owner → Prop) (hscope : scope none) (v v₁ v₂ : Volume)
    (hwf : WellFormed g scope v.disk) (name : List UInt8) (f f' : FileHandle)
    (hopen : fat32OpenRoot g dev name v = (some f, v₁)) (offset : ℕ) (hoff : offset ≤ f.size)
    (data : List UInt8) (n : ℕ)
    (hwrite : fat32Write g dev offset data (v₁, f) = (some n, (v₂, f'))) :
    n = data.length ∧ f'.size = offset + data.length ∧
    fileContent g v₂.disk (f.dirLba, f.dirOffset) =
      (fileContent g v.disk (f.dirLba, f.dirOffset)).take offset ++ data ∧
    (∀ off ≤ f'.size, ∀ cap w, w.disk = v₂.disk → (fat32Read g dev f' off cap w).1 =
      some (((fileContent g v₂.disk (f.dirLba, f.dirOffset)).drop off).take cap)) ∧
    (fat32OpenRoot g dev name v₂).1 = some f' ∧
    ∀ p, p ≠ (f.dirLba, f.dirOffset) → (FileIn g scope v₂.disk p ↔ FileIn g scope v.disk p) ∧
      (FileIn g scope v.disk p → entryAt v₂.disk p = entryAt v.disk p ∧
        fileContent g v₂.disk p = fileContent g v.disk p) := by
  obtain ⟨himage, hq⟩ := (fat32OpenRoot_reads g hr name).of_eq hopen
  have hd := hq.1
  rw [← hd] at himage hwf ⊢
  obtain ⟨wanted, hname, p, hchoice, cs, hcs, hsize, hmax, rfl⟩ := openRootImage_eq_some.mp
    himage.symm
  obtain ⟨hmem, hfile⟩ := rootChoice_some hchoice
  have hp : FileIn g scope v₁.disk p := ⟨none, hscope, .root, hmem, hfile⟩
  have hc := hwf.toChained
  have hoff : offset ≤ (entryAt v₁.disk p).size := hoff
  have htrack : Tracking g dev v₁.disk p cs (v₁, handleAt g v₁.disk p cs) cs :=
    ⟨.start hcs hsize, rfl, hmax⟩
  obtain ⟨r, w, f'', cs', hrun, hrew, -, hres⟩ := fat32Write_apply hr ((hp.site hcs).apart hc) htrack
    fun _ _ => .inr (.inl hok)
  rw [hrun] at hwrite
  obtain ⟨rfl, rfl, rfl⟩ : r = some n ∧ w = v₂ ∧ f'' = f' := by simpa using hwrite
  obtain ⟨hn, htrack', hsize', hbytes⟩ := hres n rfl
  have hf' : f'' = handleAt g w.disk p cs' := htrack'.handle
  have hentry : (entryAt w.disk p).size = offset + data.length := by
    rw [← hsize', hf']
    rfl
  have hcontent : fileContent g w.disk p = fileBytes g w.disk cs' (offset + data.length) := by
    rw [fileContent_eq hrew.chain hrew.size, hentry]
  refine ⟨hn, hsize', ?_, fun off hoff' cap u hu => ?_, ?_, fun q hne => ?_⟩
  · change fileContent g w.disk p = (fileContent g v₁.disk p).take offset ++ data
    rw [hcontent, hbytes, fileContent_eq hcs hsize, fileBytes_take hoff]
  · change _ = some (((fileContent g w.disk p).drop off).take cap)
    have hchain : f''.firstCluster < 2 ∧ cs' = [] ∨ ChainFrom g u.disk f''.firstCluster cs' := by
      rw [hf', hu]
      exact htrack'.chain
    have hfit : f''.size ≤ cs'.length * g.clusterSize := by
      rw [hf']
      exact hrew.size
    obtain ⟨u', -, hread⟩ := fat32Read_apply hr hchain hfit hoff' cap
    rw [hread, hcontent, hu, hsize']
  · rw [(fat32OpenRoot_reads g hr name w).1]
    refine openRootImage_eq_some.mpr ⟨wanted, hname, p, ?_, cs', hrew.chain, hrew.size,
      htrack'.fits, hf'⟩
    rw [hrew.rootChoice_eq hc hp hcs, hchoice]
  · exact ⟨hrew.fileIn_iff hc hp hcs hne, fun hq =>
      ⟨(hp.site hcs).file_entry_eq hc hrew.touches hq hne, hrew.fileContent_eq hc hp hcs hq hne⟩⟩

section Small
open SmallVolume

theorem twoFiles_flat : Flat geometry twoFiles.disk [2] fun p => if p = (2, 0) then [3] else [4] :=
  ⟨by decide +kernel, by decide +kernel, by decide +kernel⟩

theorem twoFiles_wellFormed (scope : Owner → Prop) :
    WellFormed geometry scope twoFiles.disk := twoFiles_flat.wellFormed (by decide +kernel)

/-- Appending 600 bytes to the first file takes a second cluster and leaves the other file alone. -/
theorem write_replaces_tail_twoFiles :
    ∃ f v₁ v₂ f', fat32OpenRoot geometry .reliable (bytes "a.txt") twoFiles = (some f, v₁) ∧
      fat32Write geometry .reliable 5 (replicate 600 7) (v₁, f) = (some 600, (v₂, f')) ∧
      f'.size = 605 ∧
      fileContent geometry v₂.disk (2, 0) =
        (fileContent geometry twoFiles.disk (2, 0)).take 5 ++ replicate 600 7 ∧
      fileContent geometry v₂.disk (2, 32) = fileContent geometry twoFiles.disk (2, 32) := by
  have hopen : (fat32OpenRoot geometry .reliable (bytes "a.txt") twoFiles).1 =
      some ⟨3, 2, 0, 512, 5⟩ := by decide +kernel
  generalize hv₁ : (fat32OpenRoot geometry .reliable (bytes "a.txt") twoFiles).2 = v₁
  have hwrite : (fat32Write geometry .reliable 5 (replicate 600 7) (v₁, ⟨3, 2, 0, 512, 5⟩)).1 =
      some 600 := by
    rw [← hv₁]
    decide +kernel
  rcases hst : (fat32Write geometry .reliable 5 (replicate 600 7)
    (v₁, ⟨3, 2, 0, 512, 5⟩)).2 with ⟨v₂, f'⟩
  have h := write_replaces_tail geometry .reliable Device.reliable_readsOk
    Device.reliable_writesOk (fun _ => True) trivial twoFiles v₁ v₂ (twoFiles_wellFormed _)
    (bytes "a.txt") ⟨3, 2, 0, 512, 5⟩ f' (Prod.ext hopen hv₁) 5 (by decide) (replicate 600 7)
    600 (Prod.ext hwrite hst)
  refine ⟨_, v₁, v₂, f', Prod.ext hopen hv₁, Prod.ext hwrite hst, ?_, h.2.2.1, ?_⟩
  · rw [h.2.1, length_replicate]
  · have hother : FileIn geometry (fun _ => True) twoFiles.disk (2, 32) :=
      ⟨none, trivial, .root, by decide +kernel, by decide +kernel⟩
    exact ((h.2.2.2.2.2 (2, 32) (by decide)).2 hother).2

end Small
end Fat32
