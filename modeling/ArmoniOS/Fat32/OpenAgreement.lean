import ArmoniOS.Fat32.Lookup
import ArmoniOS.Fat32.ShortNames
import ArmoniOS.Fat32.SmallVolume

/-! `fat32_open_root` and `fat32_open_path` on one root-level name: both search the same slots,
with different entries passed over and different checks on the one found. -/
namespace Fat32
open Exec List Option

variable (g : Geometry)

/-- What `fat32_open_path` makes of the selected entry. -/
def openFound (d : Disk) (e : DirEntry) (p : Slot) : Option FileHandle :=
  (fillInfo g d e p).bind fun info =>
    if info.attributes &&& attrDirectory ≠ 0 then none
    else some ⟨info.firstCluster, info.dirLba, info.dirOffset, info.capacity, info.size⟩

theorem openPathImage_of_noSlash (d : Disk) {name : List UInt8} (hs : charSlash ∉ name) :
    openPathImage g d name =
      (makeShortName name).bind fun wanted =>
        (pathChoice g d g.rootCluster wanted).bind fun p => openFound g d (entryAt d p) p := by
  have hdrop : name.dropWhile (· = charSlash) = name := by
    rw [dropWhile_eq_self_iff]
    intro hl
    simpa using fun he : name[0] = charSlash => hs (he ▸ getElem_mem hl)
  have htake : name.takeWhile (· ≠ charSlash) = name := by
    rw [takeWhile_eq_self_iff]
    intro x hx
    simpa using fun he : x = charSlash => hs (he ▸ hx)
  cases name with
  | nil => simp [openPathImage, lookupImage, makeShortName, attrDirectory]
  | cons ch rest =>
    have hcomp : dirNextComponent (ch :: rest) =
        if componentMax < (ch :: rest).length then none else some (ch :: rest, []) := by
      simp only [dirNextComponent, hdrop, htake]
      simp
    have hlook : openPathImage g d (ch :: rest) =
        (lookupImageFrom g d (rest.length + 1) (ch :: rest) g.rootCluster).bind fun info =>
          if info.attributes &&& attrDirectory ≠ 0 then none
          else some ⟨info.firstCluster, info.dirLba, info.dirOffset, info.capacity, info.size⟩ := by
      simp only [openPathImage, lookupImage, hdrop]
      rfl
    rw [hlook, lookupImageFrom, hcomp]
    by_cases hlen : componentMax < (ch :: rest).length
    · have hnone : makeShortName (ch :: rest) = none := by
        by_contra hne
        obtain ⟨out, hout⟩ := ne_none_iff_exists'.mp hne
        obtain ⟨base, ext, -, -, hb, he, -, htext⟩ := makeShortName_parts hout
        rw [← @List.length_map _ _ (ch :: rest) asciiUpper, ← htext hs, length_append] at hlen
        split_ifs at hlen <;> simp [componentMax] at hlen <;> omega
      rw [if_pos hlen, hnone]
      rfl
    · rw [if_neg hlen, makeShortName_eq_dirMakeShortName hs]
      simp only [bind_some, findEntryImage, if_pos g.rootCluster_data, if_true,
        bind_fun_some, bind_assoc]
      rfl

/-- An empty file without a chain, or one whose chain holds its size in 32-bit byte counts. -/
def Backed (d : Disk) (e : DirEntry) : Prop :=
  (e.size = 0 ∧ e.firstCluster < 2) ∨
    ∃ cs, ChainFrom g d e.firstCluster cs ∧ e.size ≤ cs.length * g.clusterSize ∧
      cs.length * g.clusterSize ≤ uint32Max

/-- An empty file whose first cluster is neither absent nor a data cluster. -/
def DanglingEmpty (e : DirEntry) : Prop :=
  e.size = 0 ∧ 2 ≤ e.firstCluster ∧ ¬ g.clusterIsData e.firstCluster

variable {g} {d : Disk} {e : DirEntry} {p : Slot}

theorem openEntry_eq_none : openEntry g d e p = none ↔ ¬ Backed g d e := by
  unfold openEntry Backed
  by_cases h2 : 2 ≤ e.firstCluster
  · rw [if_neg (by omega), if_pos h2]
    cases hk : capacity g d e.firstCluster with
    | none =>
      have hnone : ∀ cs, ChainFrom g d e.firstCluster cs →
          ¬ cs.length * g.clusterSize ≤ uint32Max := by
        intro cs hcs hle
        simp [hcs.capacity_eq hle] at hk
      simp only [bind_none, true_iff, not_or, not_and, not_exists]
      exact ⟨fun _ => by omega, fun cs hcs _ => hnone cs hcs⟩
    | some k =>
      obtain ⟨cs, hcs, rfl, hle⟩ := capacity_eq_some.mp hk
      simp only [bind_some, ite_eq_left_iff, reduceCtorEq, imp_false, not_not]
      constructor
      · rintro hlt (⟨-, hf⟩ | ⟨cs', hcs', hsize, -⟩)
        · omega
        · rw [hcs.unique hcs'] at hlt
          omega
      · intro hn
        by_contra hlt
        exact hn (Or.inr ⟨cs, hcs, by omega, hle⟩)
  · by_cases h0 : e.size = 0
    · rw [if_neg (by simp [h0]), if_neg h2]
      simp [h0, Nat.lt_of_not_le h2]
    · rw [if_pos ⟨h0, by omega⟩]
      simp only [true_iff, not_or, not_and, not_exists]
      exact ⟨fun h => absurd h h0, fun cs hcs => absurd hcs.head_data.1 h2⟩

theorem openEntry_slot {file : FileHandle} (h : openEntry g d e p = some file) :
    (file.dirLba, file.dirOffset) = p := by
  unfold openEntry at h
  split_ifs at h
  · obtain ⟨k, -, hk⟩ := bind_eq_some_iff.mp h
    split_ifs at hk
    rw [← some.inj hk]
  · rw [← some.inj h]

theorem openFound_slot {file : FileHandle} (h : openFound g d e p = some file) :
    (file.dirLba, file.dirOffset) = p := by
  obtain ⟨info, hinfo, hfile⟩ := bind_eq_some_iff.mp h
  have hslot : (info.dirLba, info.dirOffset) = p := by
    unfold fillInfo at hinfo
    split_ifs at hinfo
    · rw [← some.inj hinfo]
    · obtain ⟨k, -, hk⟩ := bind_eq_some_iff.mp hinfo
      split_ifs at hk
      rw [← some.inj hk]
    · rw [← some.inj hinfo]
  split_ifs at hfile
  rw [← some.inj hfile]
  exact hslot

theorem openFound_directory (h : e.isDirectory) : openFound g d e p = none := by
  unfold openFound fillInfo
  split_ifs
  · exact if_pos h
  · rfl

theorem openFound_dangling (hd : ¬ e.isDirectory) (h : DanglingEmpty g e) :
    openFound g d e p = some ⟨e.firstCluster, p.1, p.2, 0, e.size⟩ := by
  unfold openFound fillInfo
  rw [if_neg hd, if_neg (by simp [h.1]), if_neg h.2.2]
  exact if_neg hd

theorem openFound_eq_openEntry (hd : ¬ e.isDirectory) (h : ¬ DanglingEmpty g e) :
    openFound g d e p = openEntry g d e p := by
  unfold openFound fillInfo openEntry
  have hd' : ¬ (e.attr &&& attrDirectory ≠ 0) := hd
  rw [if_neg hd]
  by_cases hc : g.clusterIsData e.firstCluster
  · rw [if_neg (by simp [hc]), if_pos hc, if_neg (by have := hc.1; omega), if_pos hc.1]
    rw [bind_assoc]
    congr 1
    funext k
    split_ifs <;> simp [hd']
  · by_cases h0 : e.size = 0
    · have h2 : ¬ 2 ≤ e.firstCluster := fun h2 => h ⟨h0, h2, hc⟩
      rw [if_neg (by simp [h0]), if_neg hc, if_neg (by simp [h0]), if_neg h2]
      exact if_neg hd'
    · rw [if_pos ⟨h0, hc⟩]
      by_cases h2 : 2 ≤ e.firstCluster
      · rw [if_neg (by omega), if_pos h2, capacity, if_neg hc]
        rfl
      · rw [if_pos ⟨h0, by omega⟩]
        rfl

theorem DanglingEmpty.not_backed (h : DanglingEmpty g e) : ¬ Backed g d e := by
  rintro (⟨-, hf⟩ | ⟨cs, hcs, -⟩)
  · have := h.2.1
    omega
  · exact h.2.2 hcs.head_data

theorem openFound_eq_none :
    openFound g d e p = none ↔ e.isDirectory ∨ (¬ Backed g d e ∧ ¬ DanglingEmpty g e) := by
  by_cases hd : e.isDirectory
  · simp [openFound_directory hd, hd]
  · by_cases hg : DanglingEmpty g e
    · simp [openFound_dangling hd hg, hd, hg]
    · rw [openFound_eq_openEntry hd hg, openEntry_eq_none]
      simp [hd, hg]

variable (g)

/-- Both searches select the same entry and it is not a dangling empty file, or neither selected
entry is a file that can be opened. -/
def LookupsAgree (d : Disk) (wanted : List UInt8) : Prop :=
  (rootChoice g d wanted = pathChoice g d g.rootCluster wanted ∧
    ∀ p ∈ pathChoice g d g.rootCluster wanted, ¬ DanglingEmpty g (entryAt d p)) ∨
  ((∀ p ∈ rootChoice g d wanted, ¬ Backed g d (entryAt d p)) ∧
    ∀ p ∈ pathChoice g d g.rootCluster wanted, (entryAt d p).isDirectory ∨
      (¬ Backed g d (entryAt d p) ∧ ¬ DanglingEmpty g (entryAt d p)))

theorem rootChoice_file {wanted : List UInt8} (h : rootChoice g d wanted = some p) :
    ¬ (entryAt d p).isDirectory := by
  have := find?_some h
  simp only [decide_eq_true_eq] at this
  exact this.2

theorem choices_agree_iff (wanted : List UInt8) :
    ((rootChoice g d wanted).bind fun p => openEntry g d (entryAt d p) p) =
        ((pathChoice g d g.rootCluster wanted).bind fun p => openFound g d (entryAt d p) p) ↔
      LookupsAgree g d wanted := by
  unfold LookupsAgree
  by_cases hsame : rootChoice g d wanted = pathChoice g d g.rootCluster wanted
  · rw [← hsame]
    cases hp : rootChoice g d wanted with
    | none => simp
    | some p =>
      have hfile := rootChoice_file g hp
      by_cases hg : DanglingEmpty g (entryAt d p)
      · have hnone : openEntry g d (entryAt d p) p = none := openEntry_eq_none.mpr hg.not_backed
        simp [hnone, openFound_dangling hfile hg, hg, hfile]
      · simp [openFound_eq_openEntry hfile hg, hg]
  · constructor
    · intro heq
      refine Or.inr ⟨fun p hp => ?_, fun q hq => ?_⟩
      · rw [hp, bind_some] at heq
        by_contra hb
        obtain ⟨file, hfile⟩ := ne_none_iff_exists'.mp (mt openEntry_eq_none.mp (not_not.mpr hb))
        rw [hfile] at heq
        obtain ⟨q, hq, hqf⟩ := bind_eq_some_iff.mp heq.symm
        exact hsame (by rw [hp, hq, ← openEntry_slot hfile, ← openFound_slot hqf])
      · rw [hq, bind_some] at heq
        rw [← openFound_eq_none]
        by_contra hne
        obtain ⟨file, hfile⟩ := ne_none_iff_exists'.mp hne
        rw [hfile] at heq
        obtain ⟨p, hp, hpf⟩ := bind_eq_some_iff.mp heq
        exact hsame (by rw [hp, hq, ← openEntry_slot hpf, ← openFound_slot hfile])
    · rintro (⟨hs, -⟩ | ⟨h1, h2⟩)
      · exact absurd hs hsame
      · have hr : ((rootChoice g d wanted).bind fun p => openEntry g d (entryAt d p) p) = none :=
          bind_eq_none_iff.mpr fun p hp => openEntry_eq_none.mpr (h1 p hp)
        have hq : ((pathChoice g d g.rootCluster wanted).bind fun p =>
            openFound g d (entryAt d p) p) = none :=
          bind_eq_none_iff.mpr fun p hp => openFound_eq_none.mpr (h2 p hp)
        rw [hr, hq]

/-- On a root-level name the two ways of opening a file return the same exactly when the entries
they select agree. -/
theorem openRoot_eq_openPath_iff {dev : Device} (hr : dev.ReadsOk) (name : List UInt8)
    (hs : charSlash ∉ name) (v w : Volume) (hw : w.disk = v.disk) :
    (fat32OpenRoot g dev name v).1 = (fat32OpenPath g dev name w).1 ↔
      ∀ wanted, makeShortName name = some wanted → LookupsAgree g v.disk wanted := by
  rw [(fat32OpenRoot_reads g hr name v).1, (fat32OpenPath_reads g hr name w).1, hw]
  dsimp only
  rw [openPathImage_of_noSlash g v.disk hs, openRootImage]
  cases makeShortName name with
  | none => simp
  | some wanted => simpa using choices_agree_iff g wanted

section Small
open SmallVolume

/-- A root directory with a volume label, an empty file and a file whose entry is damaged. -/
def labelledRoot : Volume :=
  fresh (disk 1 16 (fatSector [clusterMask])
    [dirSector [("ARMONIOS   ", attrVolumeId, 0, 0), ("B       TXT", attrArchive, 0, 0),
      ("C       TXT", attrArchive, 0x10000000, 0)]])

theorem openRoot_eq_openPath_file :
    (fat32OpenRoot geometry .reliable (bytes "b.txt") labelledRoot).1 = some ⟨0, 2, 32, 0, 0⟩ ∧
      ((fat32OpenRoot geometry .reliable (bytes "b.txt") labelledRoot).1 =
        (fat32OpenPath geometry .reliable (bytes "b.txt") labelledRoot).1 ↔
      ∀ wanted, makeShortName (bytes "b.txt") = some wanted →
        LookupsAgree geometry labelledRoot.disk wanted) :=
  ⟨by decide +kernel, openRoot_eq_openPath_iff geometry Device.reliable_readsOk (bytes "b.txt")
    (by decide +kernel) labelledRoot labelledRoot rfl⟩

/-- The volume label opens as a file by name only, the damaged empty file by path only. -/
theorem openRoot_ne_openPath_label :
    (fat32OpenRoot geometry .reliable (bytes "armonios") labelledRoot).1 = some ⟨0, 2, 0, 0, 0⟩ ∧
    (fat32OpenPath geometry .reliable (bytes "armonios") labelledRoot).1 = none ∧
    (fat32OpenRoot geometry .reliable (bytes "c.txt") labelledRoot).1 = none ∧
    (fat32OpenPath geometry .reliable (bytes "c.txt") labelledRoot).1 =
      some ⟨0x10000000, 2, 64, 0, 0⟩ := by
  decide +kernel

end Small
end Fat32
