import ArmoniOS.Fat32.OpenAgreement
import ArmoniOS.Fat32.RootOps

/-! Files found by path on a volume with sound chains. Whatever `fat32_open_path` returns there is
the up-to-date handle of a live file entry. -/
namespace Fat32
open Option

variable {g : Geometry} {scope : Owner → Prop} {d : Disk} {o : Owner} {p : Slot} {cs : List ℕ}
  {wanted : List UInt8}

variable {component : List UInt8}

theorem dirMakeShortName_ne_dot
    (h : dirMakeShortName component = some wanted) : wanted.getD 0 0 ≠ charDot := by
  cases component with
  | nil => simp [dirMakeShortName] at h
  | cons ch rest =>
    obtain ⟨base, ext, rfl, hne, -, -, hprint, -⟩ :=
      shortNameLoop_some (by simp) (by simp) (by simp) (fun _ => rfl) h
    obtain ⟨c, cs, rfl⟩ := List.exists_cons_of_ne_nil hne
    simpa [padName] using (hprint c (by simp)).2

variable {start : ℕ}

theorem pathChoice_some (h : pathChoice g d start wanted = some p) :
    p ∈ liveSlots g d start ∧ (entryAt d p).Named wanted ∧ ¬ (entryAt d p).isVolumeId := by
  have hmem := List.mem_of_find?_eq_some h
  have hpick := List.find?_some h
  exact ⟨hmem, by simpa using hpick⟩

variable {info : PathInfo}

theorem fillInfo_fields {e : DirEntry} (h : fillInfo g d e p = some info) :
    info.attributes = e.attr ∧ info.firstCluster = e.firstCluster := by
  unfold fillInfo at h
  split_ifs at h
  · obtain rfl := some.inj h
    exact ⟨rfl, rfl⟩
  · obtain ⟨k, -, h⟩ := bind_eq_some_iff.1 h
    split_ifs at h
    obtain rfl := some.inj h
    exact ⟨rfl, rfl⟩
  · obtain rfl := some.inj h
    exact ⟨rfl, rfl⟩

theorem lookupImageFrom_some {fuel : ℕ} {cursor : List UInt8}
    (ho : Directory g d o) (h : lookupImageFrom g d fuel cursor (startOf g d o) = some info) :
    ∃ o' wanted p, Directory g d o' ∧ pathChoice g d (startOf g d o') wanted = some p ∧
      fillInfo g d (entryAt d p) p = some info := by
  induction fuel generalizing o cursor with
  | zero => simp [lookupImageFrom] at h
  | succ fuel ih =>
    obtain ⟨⟨component, rest⟩, -, h⟩ := bind_eq_some_iff.1 h
    obtain ⟨current, hcurrent, h⟩ := bind_eq_some_iff.1 h
    rw [findEntryImage] at hcurrent
    split_ifs at hcurrent
    obtain ⟨wanted, hname, hcurrent⟩ := bind_eq_some_iff.1 hcurrent
    obtain ⟨p, hp, hfill⟩ := bind_eq_some_iff.1 hcurrent
    split_ifs at h with hrest hdir
    · obtain rfl := some.inj h
      exact ⟨o, wanted, p, ho, hp, hfill⟩
    · rw [not_or] at hdir
      obtain ⟨hattr, hstart⟩ := fillInfo_fields hfill
      obtain ⟨hlive, hnamed, hvolume⟩ := pathChoice_some hp
      have hsub : (entryAt d p).IsSubdir := by
        refine ⟨?_, by rw [DirEntry.isDirectory, ← hattr]; exact hdir.1⟩
        rintro (hdel | hlong | hvol | hdot)
        · exact hnamed.1 hdel
        · exact hnamed.2.1 hlong
        · exact hvolume hvol
        · exact dirMakeShortName_ne_dot hname (hnamed.2.2 ▸ hdot.1)
      rw [hstart] at h
      exact ih (.sub ho hlive hsub) h

variable {f : FileHandle}

section Sound
variable (hcs : HasChain g d (some p) cs) (hsize : (entryAt d p).size ≤ cs.length * g.clusterSize)
  (hfile : ¬ (entryAt d p).isDirectory)
include hcs hsize hfile

/-- A file entry with a sound chain is opened exactly when its capacity fits 32 bits. -/
theorem openFound_eq_some : openFound g d (entryAt d p) p = some f ↔
    cs.length * g.clusterSize ≤ uint32Max ∧ f = handleAt g d p cs := by
  have hbacked : ¬ DanglingEmpty g (entryAt d p) := by
    rintro ⟨-, h2, hdata⟩
    rcases hcs with ⟨hlt, -⟩ | hchain
    · exact absurd hlt (by simp only [startOf]; omega)
    · exact hdata hchain.head_data
  rw [openFound_eq_openEntry hfile hbacked, openEntry_eq_some]
  constructor
  · rintro ⟨cs', hcs', -, hfit, rfl⟩
    rw [hcs'.unique hcs] at hfit ⊢
    exact ⟨hfit, rfl⟩
  · rintro ⟨hfit, rfl⟩
    exact ⟨cs, hcs, hsize, hfit, rfl⟩

end Sound

theorem pathChoice_fileIn (hscope : scope o) (ho : Directory g d o)
    (hstart : start = startOf g d o) (h : pathChoice g d start wanted = some p)
    (hfile : ¬ (entryAt d p).isDirectory) : FileIn g scope d p := by
  obtain ⟨hlive, hnamed, -⟩ := pathChoice_some h
  exact ⟨o, hscope, ho, hstart ▸ hlive, hnamed.1, hnamed.2.1, hfile⟩

theorem openPathImage_some (hc : Chained g (fun _ => True) d) {path : List UInt8}
    (h : openPathImage g d path = some f) :
    ∃ p cs, FileIn g (fun _ => True) d p ∧ HasChain g d (some p) cs ∧
      (entryAt d p).size ≤ cs.length * g.clusterSize ∧ cs.length * g.clusterSize ≤ uint32Max ∧
      f = handleAt g d p cs := by
  rw [openPathImage] at h
  obtain ⟨info, hinfo, h⟩ := bind_eq_some_iff.1 h
  split_ifs at h with hdir
  rw [lookupImage] at hinfo
  split_ifs at hinfo with hcursor
  · obtain rfl := some.inj hinfo
    exact absurd (show attrDirectory &&& attrDirectory ≠ 0 by decide) hdir
  · obtain ⟨o, wanted, p, ho, hp, hfill⟩ := lookupImageFrom_some .root hinfo
    have hfile : ¬ (entryAt d p).isDirectory := by
      rw [DirEntry.isDirectory, ← (fillInfo_fields hfill).1]
      exact hdir
    have hin := @pathChoice_fileIn g (fun _ => True) d o p wanted _ trivial ho rfl hp hfile
    obtain ⟨cs, hcs, hsize⟩ := hc.fileChain p hin
    have hfound : openFound g d (entryAt d p) p = some f := by
      rw [openFound, hfill, bind_some, if_neg hdir]
      exact h
    obtain ⟨hfit, hf⟩ := (openFound_eq_some hcs hsize hfile).1 hfound
    exact ⟨p, cs, hin, hcs, hsize, hfit, hf⟩

end Fat32
