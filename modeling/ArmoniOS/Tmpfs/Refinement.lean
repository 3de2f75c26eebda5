import ArmoniOS.Tmpfs.FileMap

/-! Every sequence of calls from `tmpfs_reset` gives the replies of the file map. The slots keep
distinct names, and the data bytes past the size are zero, so a gap or a reused slot shows no old
byte. -/
namespace Tmpfs
open Exec ByteBlock Function List FileMap

def File.content (f : File) : List UInt8 := window f.data.get 0 f.size

def toMap (files : List File) : FileMap := fun name =>
  (files.find? fun f => f.used ∧ f.name = name).map File.content

/-- The slots in use have distinct proper names and are blank past their size. -/
structure Sound (files : List File) : Prop where
  slots : files.length = maxFiles
  distinct : ∀ (i j : ℕ) (f f' : File), files[i]? = some f → files[j]? = some f' → f.used = true →
    f'.used = true → f.name = f'.name → i = j
  named : ∀ f ∈ files, f.used = true → f.name ≠ []
  bounded : ∀ f ∈ files, f.size ≤ maxFileSize
  blank : ∀ f ∈ files, ∀ k, f.size ≤ k → f.data.get k = 0

section Lookup
variable {files : List File} {name : List UInt8} {i : ℕ} {f f' : File}

theorem findFile_some (h : tmpfsFindFile files name = some i) :
    ∃ f, files[i]? = some f ∧ f.used = true ∧ f.name = name ∧ name ≠ [] := by
  unfold tmpfsFindFile at h
  split_ifs at h with hname
  obtain ⟨hi, hp, -⟩ := findIdx?_eq_some_iff_getElem.1 h
  simp only [decide_eq_true_eq] at hp
  exact ⟨files[i], getElem?_eq_getElem hi, hp.1, hp.2, hname⟩

theorem findFile_none (h : tmpfsFindFile files name = none) (hname : name ≠ []) :
    ∀ f ∈ files, f.used = true → f.name ≠ name := by
  unfold tmpfsFindFile at h
  rw [if_neg hname, findIdx?_eq_none_iff] at h
  intro f hf hused heq
  simpa [hused, heq] using h f hf

section
variable (hs : Sound files)
include hs

theorem toMap_eq_some {content : List UInt8} : toMap files name = some content ↔
    ∃ (i : ℕ) (f : File), files[i]? = some f ∧ f.used = true ∧ f.name = name ∧
      f.content = content := by
  unfold toMap
  constructor
  · intro h
    obtain ⟨f, hf, hcontent⟩ := Option.map_eq_some_iff.1 h
    have hp := find?_some hf
    simp only [decide_eq_true_eq] at hp
    obtain ⟨i, hi⟩ := mem_iff_getElem?.1 (mem_of_find?_eq_some hf)
    exact ⟨i, f, hi, hp.1, hp.2, hcontent⟩
  · rintro ⟨i, f, hi, hused, hname, rfl⟩
    cases hfind : files.find? fun f => f.used ∧ f.name = name with
    | none =>
      have := find?_eq_none.1 hfind f (mem_of_getElem? hi)
      simp [hused, hname] at this
    | some f' =>
      have hp := find?_some hfind
      simp only [decide_eq_true_eq] at hp
      obtain ⟨j, hj⟩ := mem_iff_getElem?.1 (mem_of_find?_eq_some hfind)
      obtain rfl := hs.distinct i j f f' hi hj hused hp.1 (hname.trans hp.2.symm)
      obtain rfl := Option.some.inj (hi.symm.trans hj)
      rfl

theorem toMap_eq_none : toMap files name = none ↔ ∀ f ∈ files, f.used = true → f.name ≠ name := by
  constructor
  · intro h f hf hused hname
    obtain ⟨i, hi⟩ := mem_iff_getElem?.1 hf
    have := (toMap_eq_some hs).2 ⟨i, f, hi, hused, hname, rfl⟩
    simp [h] at this
  · intro h
    cases hmap : toMap files name with
    | none => rfl
    | some content =>
      obtain ⟨i, f, hi, hused, hname, -⟩ := (toMap_eq_some hs).1 hmap
      exact absurd hname (h f (mem_of_getElem? hi) hused)

theorem findFile_eq_none : tmpfsFindFile files name = none ↔ toMap files name = none := by
  rw [toMap_eq_none hs]
  by_cases hname : name = []
  · refine iff_of_true (by simp [tmpfsFindFile, hname]) fun f hf hused => ?_
    rw [hname]
    exact hs.named f hf hused
  · refine ⟨fun h => findFile_none h hname, fun h => ?_⟩
    unfold tmpfsFindFile
    rw [if_neg hname, findIdx?_eq_none_iff]
    intro f hf
    simpa using h f hf

theorem toMap_of_find (h : tmpfsFindFile files name = some i) :
    ∃ f, files[i]? = some f ∧ files.getD i clearedFile = f ∧ f.used = true ∧ f.name = name ∧
      name ≠ [] ∧ toMap files name = some f.content := by
  obtain ⟨f, hi, hused, hname, hne⟩ := findFile_some h
  refine ⟨f, hi, ?_, hused, hname, hne, (toMap_eq_some hs).2 ⟨i, f, hi, hused, hname, rfl⟩⟩
  rw [getD_eq_getElem?_getD, hi]
  rfl

end

theorem getElem?_set_some {j : ℕ} {x : File} (h : (files.set i f')[j]? = some x) :
    (j = i ∧ x = f') ∨ (j ≠ i ∧ files[j]? = some x) := by
  by_cases hj : j = i
  · subst hj
    rw [getElem?_set] at h
    simp only [↓reduceIte] at h
    split_ifs at h with hlt
    exact Or.inl ⟨rfl, (Option.some.inj h).symm⟩
  · rw [getElem?_set_ne (Ne.symm hj)] at h
    exact Or.inr ⟨hj, h⟩

section
variable (hs : Sound files)
include hs

theorem Sound.set
    (hother : ∀ (j : ℕ) (x : File), j ≠ i → files[j]? = some x → x.used = true → f'.used = true → x.name ≠ f'.name)
    (hnamed : f'.used = true → f'.name ≠ []) (hbound : f'.size ≤ maxFileSize)
    (hblank : ∀ k, f'.size ≤ k → f'.data.get k = 0) : Sound (files.set i f') := by
  have hmem {x : File} (hx : x ∈ files.set i f') : x = f' ∨ x ∈ files := by
    obtain ⟨j, hj⟩ := mem_iff_getElem?.1 hx
    rcases getElem?_set_some hj with ⟨-, rfl⟩ | ⟨-, hold⟩
    · exact Or.inl rfl
    · exact Or.inr (mem_of_getElem? hold)
  refine ⟨by rw [length_set, hs.slots], ?_, ?_, ?_, ?_⟩
  · intro j k x y hj hk hx hy hxy
    rcases getElem?_set_some hj with ⟨rfl, rfl⟩ | ⟨hji, hjold⟩
    · rcases getElem?_set_some hk with ⟨rfl, -⟩ | ⟨hki, hkold⟩
      · rfl
      · exact absurd hxy.symm (hother k y hki hkold hy hx)
    · rcases getElem?_set_some hk with ⟨rfl, rfl⟩ | ⟨-, hkold⟩
      · exact absurd hxy (hother j x hji hjold hx hy)
      · exact hs.distinct j k x y hjold hkold hx hy hxy
  · intro x hx hused
    rcases hmem hx with rfl | hx
    · exact hnamed hused
    · exact hs.named x hx hused
  · intro x hx
    rcases hmem hx with rfl | hx
    · exact hbound
    · exact hs.bounded x hx
  · intro x hx
    rcases hmem hx with rfl | hx
    · exact hblank
    · exact hs.blank x hx

theorem Sound.clear (name : List UInt8) : Sound (files.set i { clearedFile with name := name }) :=
  hs.set (by simp [clearedFile]) (by simp [clearedFile]) (Nat.zero_le _) fun k _ => Block.zero_get k

theorem Sound.others (hi : files[i]? = some f) (hused : f.used = true) (j : ℕ) (x : File)
    (hj : j ≠ i) (hx : files[j]? = some x) (hxused : x.used = true) : x.name ≠ f.name :=
  fun heq => hj (hs.distinct j i x f hx hi hxused hused heq)

theorem toMap_set (hs' : Sound (files.set i f')) (hi : files[i]? = some f)
    (hold : f.used = true → f.name = name) (hnew : f'.used = true → f'.name = name)
    (hother : ∀ (j : ℕ) (x : File), j ≠ i → files[j]? = some x → x.used = true → x.name ≠ name) :
    toMap (files.set i f') =
      update (toMap files) name (if f'.used then some f'.content else none) := by
  have hlt := (List.getElem?_eq_some_iff.1 hi).1
  funext other
  by_cases hname : other = name
  · subst hname
    rw [update_self]
    split_ifs with hused
    · exact (toMap_eq_some hs').2 ⟨i, f', getElem?_set_self hlt, hused, hnew hused, rfl⟩
    · rw [toMap_eq_none hs']
      intro x hx hxused
      obtain ⟨j, hj⟩ := mem_iff_getElem?.1 hx
      rcases getElem?_set_some hj with ⟨-, rfl⟩ | ⟨hji, hjold⟩
      · exact absurd hxused hused
      · exact hother j x hji hjold hxused
  · rw [update_of_ne hname]
    apply Option.ext
    intro content
    rw [toMap_eq_some hs', toMap_eq_some hs]
    constructor
    · rintro ⟨j, x, hj, hused, hx, hcontent⟩
      rcases getElem?_set_some hj with ⟨-, rfl⟩ | ⟨-, hjold⟩
      · exact absurd ((hx.symm.trans (hnew hused))) hname
      · exact ⟨j, x, hjold, hused, hx, hcontent⟩
    · rintro ⟨j, x, hj, hused, hx, hcontent⟩
      have hji : i ≠ j := by
        rintro rfl
        obtain rfl := Option.some.inj (hi.symm.trans hj)
        exact hname (hx.symm.trans (hold hused))
      exact ⟨j, x, by rw [getElem?_set_ne hji]; exact hj, hused, hx, hcontent⟩

theorem toMap_ncard :
    {other | toMap files other ≠ none}.ncard = (files.filter (·.used)).length := by
  have hnodup : ((files.filter (·.used)).map File.name).Nodup := by
    rw [List.Nodup, pairwise_map, pairwise_filter, pairwise_iff_getElem]
    intro i j hi hj hij hiused hjused heq
    have := hs.distinct i j _ _ (getElem?_eq_getElem hi) (getElem?_eq_getElem hj) hiused hjused heq
    omega
  have hset : {other | toMap files other ≠ none} =
      ↑((files.filter (·.used)).map File.name).toFinset := by
    ext other
    simp only [Set.mem_ofPred_eq, coe_toFinset, mem_map, mem_filter, ne_eq,
      toMap_eq_none hs, not_forall, not_not]
    constructor
    · rintro ⟨x, hx, hused, rfl⟩
      exact ⟨x, ⟨hx, hused⟩, rfl⟩
    · rintro ⟨x, ⟨hx, hused⟩, rfl⟩
      exact ⟨x, hx, hused, rfl⟩
  rw [hset, Set.ncard_coe_finset, toFinset_card_of_nodup hnodup, length_map]

theorem findIdx_unused : (files.findIdx? fun f => f.used = false) = none ↔
      ¬ {other | toMap files other ≠ none}.ncard < maxFiles := by
  rw [toMap_ncard hs, ← hs.slots, findIdx?_eq_none_iff, length_filter_lt_length_iff_exists]
  simp

end

end Lookup

variable {offset : ℕ} {data : List UInt8}

section Content
variable {f : File}

theorem content_length : f.content.length = f.size := window_length _ _

theorem content_getD (hblank : ∀ k, f.size ≤ k → f.data.get k = 0) (k : ℕ) :
    f.content.getD k 0 = f.data.get k := by
  rw [getD_eq_getElem?_getD]
  rcases Nat.lt_or_ge k f.size with hk | hk
  · rw [getElem?_eq_getElem (by rw [content_length]; exact hk)]
    simp [File.content, window_getElem]
  · rw [getElem?_eq_none (by rw [content_length]; exact hk), hblank k hk]
    rfl

theorem content_ext {a b : List UInt8} (hlen : a.length = b.length)
    (h : ∀ k, a.getD k 0 = b.getD k 0) : a = b := by
  apply ext_getElem hlen
  intro k hk hk'
  simpa [getD_eq_getElem?_getD, hk, hk'] using h k

def File.written (f : File) (offset : ℕ) (data : List UInt8) : File :=
  { f with
    data := f.data.put offset data
    size := if f.size < offset + data.length then offset + data.length else f.size }

section
variable (hfit : offset + data.length ≤ maxFileSize)
include hfit

theorem written_get (k : ℕ) : (f.written offset data).data.get k =
      if offset ≤ k ∧ k < offset + data.length then data.getD (k - offset) 0 else f.data.get k := by
  change (f.data.put offset data).get k = _
  rw [Block.get_put]
  congr 1
  simp only [eq_iff_iff]
  omega

theorem written_blank (hblank : ∀ k, f.size ≤ k → f.data.get k = 0) (k : ℕ)
    (hk : (f.written offset data).size ≤ k) : (f.written offset data).data.get k = 0 := by
  have hsize : f.size ≤ k ∧ offset + data.length ≤ k := by
    simp only [File.written] at hk
    split_ifs at hk <;> omega
  rw [written_get hfit, if_neg (by omega)]
  exact hblank k hsize.1

theorem written_content (hblank : ∀ k, f.size ≤ k → f.data.get k = 0) :
    (f.written offset data).content = overlay f.content offset data := by
  apply content_ext
  · rw [content_length, overlay_length, content_length]
    simp only [File.written]
    split_ifs <;> omega
  · intro k
    rw [content_getD (written_blank hfit hblank), written_get hfit, overlay_getD,
      content_getD hblank]

end

end Content

/-- The slots stay sound, and reply and files are those of the map. -/
def Refines (r : Reply × List File) (r' : Reply × FileMap) : Prop :=
  Sound r.2 ∧ r.1 = r'.1 ∧ toMap r.2 = r'.2

section Steps
variable {files : List File} (hs : Sound files)
include hs

variable (name : List UInt8)

theorem create_refines :
    Refines (Op.step files (.create name)) ((toMap files).step (.create name)) := by
  simp only [Op.step, step, tmpfsCreate, bind_of_some get_apply, run_ite]
  by_cases hguard : name = [] ∨ tmpfsFindFile files name ≠ none
  · have hspec : ¬ (name ≠ [] ∧ toMap files name = none ∧
        {other | toMap files other ≠ none}.ncard < maxFiles ∧ name.length < maxName) := by
      rintro ⟨hne, hnone, -⟩
      rcases hguard with h | h
      · exact hne h
      · exact h ((findFile_eq_none hs).2 hnone)
    rw [if_pos hguard, if_neg hspec]
    exact ⟨hs, rfl, rfl⟩
  · rw [if_neg hguard]
    simp only [not_or, not_not] at hguard
    obtain ⟨hne, hnone⟩ := hguard
    have habsent := findFile_none hnone hne
    cases hfree : files.findIdx? fun f => f.used = false with
    | none =>
      rw [if_neg fun h => (findIdx_unused hs).1 hfree h.2.2.1]
      exact ⟨hs, rfl, rfl⟩
    | some i =>
      obtain ⟨hi, hunused, -⟩ := findIdx?_eq_some_iff_getElem.1 hfree
      have hcount : {other | toMap files other ≠ none}.ncard < maxFiles := by
        by_contra h
        rw [(findIdx_unused hs).2 h] at hfree
        simp at hfree
      have hold : files[i].used = true → files[i].name = name := by
        intro hused
        simp [hused] at hunused
      have hother : ∀ (j : ℕ) (x : File), j ≠ i → files[j]? = some x → x.used = true → x.name ≠ name :=
        fun j x _ hj => habsent x (mem_of_getElem? hj)
      by_cases hlong : maxName ≤ name.length
      · -- the copy fails half way; the slot stays unused
        rw [if_neg fun h => absurd h.2.2.2 (by omega)]
        simp only [run_ite, if_pos hlong]
        have hs' := hs.clear (i := i) (name.take (maxName - 1))
        refine ⟨hs', rfl, ?_⟩
        have hmap := toMap_set hs hs' (getElem?_eq_getElem hi) hold (by simp [clearedFile]) hother
        refine hmap.trans ?_
        have hnone' := (findFile_eq_none hs).1 hnone
        simpa [clearedFile] using hnone'.symm
      · rw [if_pos ⟨hne, (findFile_eq_none hs).1 hnone, hcount, by omega⟩]
        simp only [run_ite, if_neg hlong]
        have hs' : Sound (files.set i { clearedFile with name := name, used := true }) :=
          hs.set (fun j x hj hx hused _ => hother j x hj hx hused) (fun _ => hne) (Nat.zero_le _)
            fun k _ => Block.zero_get k
        refine ⟨hs', rfl, ?_⟩
        exact toMap_set hs hs' (getElem?_eq_getElem hi) hold (fun _ => rfl) hother

theorem delete_refines :
    Refines (Op.step files (.delete name)) ((toMap files).step (.delete name)) := by
  simp only [Op.step, step, tmpfsDelete, bind_of_some get_apply]
  cases hfind : tmpfsFindFile files name with
  | none =>
    rw [if_pos ((findFile_eq_none hs).1 hfind)]
    exact ⟨hs, rfl, rfl⟩
  | some i =>
    obtain ⟨f, hi, -, hused, hname, hne, hmap⟩ := toMap_of_find hs hfind
    rw [if_neg (by simp [hmap])]
    have hs' : Sound (files.set i clearedFile) := hs.clear []
    refine ⟨hs', rfl, ?_⟩
    exact toMap_set hs hs' hi (fun _ => hname) (by simp [clearedFile]) (hname ▸ hs.others hi hused)

theorem write_refines (offset : ℕ) (data : List UInt8) :
    Refines (Op.step files (.write name offset data))
      ((toMap files).step (.write name offset data)) := by
  simp only [Op.step, step, tmpfsWrite, bind_of_some get_apply]
  cases hfind : tmpfsFindFile files name with
  | none =>
    rw [(findFile_eq_none hs).1 hfind]
    exact ⟨hs, rfl, rfl⟩
  | some i =>
    obtain ⟨f, hi, hget, hused, hname, hne, hmap⟩ := toMap_of_find hs hfind
    simp only [hmap, run_ite]
    by_cases hoffset : maxFileSize < offset
    · simp only [if_pos hoffset]
      exact ⟨hs, rfl, rfl⟩
    · simp only [if_neg hoffset]
      have hcount : (if maxFileSize - offset < data.length then maxFileSize - offset
          else data.length) = (clamped offset data).length := clamped_length.symm
      have htake : data.take (clamped offset data).length = clamped offset data := by
        rw [clamped_length, clamped]
        split_ifs with hlong
        · rfl
        · rw [take_length, take_of_length_le (by omega)]
      have hfit : offset + (clamped offset data).length ≤ maxFileSize := by
        rw [clamped_length]
        split_ifs <;> omega
      have hmem := mem_of_getElem? hi
      simp only [hget, hcount, htake]
      have hs' : Sound (files.set i (f.written offset (clamped offset data))) := by
        apply hs.set _ (fun _ => hname ▸ hne) _ (written_blank hfit (hs.blank f hmem))
        · exact fun j x hj hx hxused _ => hs.others hi hused j x hj hx hxused
        · have := hs.bounded f hmem
          simp only [File.written]
          split_ifs <;> omega
      refine ⟨hs', rfl, ?_⟩
      refine (toMap_set hs hs' hi (fun _ => hname) (fun _ => hname)
        (hname ▸ hs.others hi hused)).trans ?_
      rw [if_pos (show (f.written offset (clamped offset data)).used = true from hused),
        written_content hfit (hs.blank f hmem)]

theorem read_refines (offset capacity : ℕ) : Refines (Op.step files (.read name offset capacity))
      ((toMap files).step (.read name offset capacity)) := by
  simp only [Op.step, step, tmpfsRead, bind_of_some get_apply]
  cases hfind : tmpfsFindFile files name with
  | none =>
    rw [(findFile_eq_none hs).1 hfind]
    exact ⟨hs, rfl, rfl⟩
  | some i =>
    obtain ⟨f, hi, hget, hused, hname, hne, hmap⟩ := toMap_of_find hs hfind
    simp only [hmap, hget, run_ite, content_length]
    by_cases hoffset : f.size < offset
    · simp only [if_pos hoffset]
      exact ⟨hs, rfl, rfl⟩
    · simp only [if_neg hoffset]
      refine ⟨hs, ?_, rfl⟩
      have hslice : f.data.slice offset
          (if f.size - offset < capacity then f.size - offset else capacity) =
          (f.content.drop offset).take capacity := by
        rw [File.content, window_slice, Block.slice]
        congr 2
        split_ifs <;> omega
      simp [replyOf, hslice]

theorem stat_refines : Refines (Op.step files (.stat name)) ((toMap files).step (.stat name)) := by
  simp only [Op.step, step, tmpfsStat, bind_of_some get_apply]
  cases hfind : tmpfsFindFile files name with
  | none =>
    rw [(findFile_eq_none hs).1 hfind]
    exact ⟨hs, rfl, rfl⟩
  | some i =>
    obtain ⟨f, hi, hget, hused, hname, hne, hmap⟩ := toMap_of_find hs hfind
    simp only [hmap, hget]
    exact ⟨hs, by simp [replyOf, content_length], rfl⟩

theorem step_refines (op : Op) : Refines (op.step files) ((toMap files).step op) := by
  cases op with
  | create name => exact create_refines hs name
  | write name offset data => exact write_refines hs name offset data
  | read name offset capacity => exact read_refines hs name offset capacity
  | stat name => exact stat_refines hs name
  | delete name => exact delete_refines hs name

theorem run_refines (ops : List Op) :
    Sound (runOps files ops).2 ∧ (runOps files ops).1 = ((toMap files).run ops).1 ∧
      toMap (runOps files ops).2 = ((toMap files).run ops).2 := by
  induction ops generalizing files with
  | nil => exact ⟨hs, rfl, rfl⟩
  | cons op ops ih =>
    obtain ⟨hs', hreply, hmap⟩ := step_refines hs op
    obtain ⟨hs'', hreplies, hfinal⟩ := ih hs'
    simp only [runOps, run]
    rw [hreply, hreplies, hfinal, hmap]
    exact ⟨hs'', rfl, rfl⟩

end Steps

theorem resetFiles_sound : Sound resetFiles := by
  have hmem : ∀ f ∈ resetFiles, f = clearedFile := fun f hf => eq_of_mem_replicate hf
  refine ⟨length_replicate, ?_, ?_, ?_, ?_⟩
  · intro i j f f' hi _ hused
    rw [hmem f (mem_of_getElem? hi)] at hused
    simp [clearedFile] at hused
  · intro f hf hused
    rw [hmem f hf] at hused
    simp [clearedFile] at hused
  · intro f hf
    rw [hmem f hf]
    exact Nat.zero_le _
  · intro f hf k _
    rw [hmem f hf]
    exact Block.zero_get k

theorem resetFiles_empty : toMap resetFiles = fun _ => none := by
  funext name
  rw [toMap_eq_none resetFiles_sound]
  intro f hf hused
  rw [eq_of_mem_replicate hf] at hused
  simp [clearedFile] at hused

variable {m : FileMap}

section History
variable {files : List File} {history : List (Op × Reply)}

/-- Each byte of each file is the last one written there since the file was created. -/
def FromHistory (m : FileMap) (history : List (Op × Reply)) : Prop :=
  ∀ name content, m name = some content → ∀ k, content.getD k 0 = lastByte name k history

section
variable (h : FromHistory m history)
include h

/-- A call on `name` that is noted in the history leaves the other files alone. -/
theorem fromHistory_update {name : List UInt8} {new : Option (List UInt8)} {call : Op × Reply}
    (hother : ∀ other, other ≠ name → ∀ k, lastByte other k (call :: history) = lastByte other k history)
    (hnew : ∀ content, new = some content → ∀ k, content.getD k 0 = lastByte name k (call :: history)) :
    FromHistory (update m name new) (call :: history) := by
  intro other content hcontent k
  by_cases hname : other = name
  · subst hname
    rw [update_self] at hcontent
    exact hnew content hcontent k
  · rw [update_of_ne hname] at hcontent
    rw [hother other hname]
    exact h other content hcontent k

theorem fromHistory_same {op : Op} {reply : Reply}
    (hop : ∀ name k, lastByte name k ((op, reply) :: history) = lastByte name k history) :
    FromHistory m ((op, reply) :: history) := by
  intro name content hcontent k
  rw [hop]
  exact h name content hcontent k

theorem fromHistory_step (op : Op) :
    FromHistory (m.step op).2 ((op, (m.step op).1) :: history) := by
  cases op with
  | create name =>
    simp only [step]
    split_ifs
    · apply fromHistory_update h
      · exact fun other hother k => by simp [lastByte, Ne.symm hother]
      · simp [lastByte]
    · exact fromHistory_same h fun _ _ => rfl
  | write name offset data =>
    simp only [step]
    cases hold : m name with
    | none => exact fromHistory_same h fun _ _ => rfl
    | some old =>
      split_ifs
      · exact fromHistory_same h fun _ _ => rfl
      · apply fromHistory_update h
        · exact fun other hother k => by simp [lastByte, Ne.symm hother]
        · rintro content ⟨⟩ k
          rw [overlay_getD, h name old hold k]
          simp only [lastByte, true_and]
          split_ifs with hk
          · have hlength := hk.2
            rw [clamped_length] at hlength
            exact clamped_getD (by split_ifs at hlength <;> omega)
          · rfl
  | read name offset capacity =>
    have hmap : (m.step (.read name offset capacity)).2 = m := by
      simp only [step]
      cases m name with
      | none => rfl
      | some content =>
        simp only
        split_ifs <;> rfl
    rw [hmap]
    exact fromHistory_same h fun _ _ => rfl
  | stat name => exact fromHistory_same h fun _ _ => rfl
  | delete name =>
    simp only [step]
    split_ifs
    · exact fromHistory_same h fun _ _ => rfl
    · exact fromHistory_update h (fun _ _ _ => rfl) (by simp)

theorem fromHistory_run (ops : List Op) :
    FromHistory (m.run ops).2 ((ops.zip (m.run ops).1).reverse ++ history) := by
  induction ops generalizing m history with
  | nil => exact h
  | cons op ops ih =>
    have hrest := ih (fromHistory_step h op)
    simpa [run] using hrest

end

end History

/-- For every sequence of calls from `tmpfs_reset`: names are unique; replies and contents are those
of the file map; contents keep to the limit; every byte of a file is the last one written there
since the file was created, zero if none was; and a further write up to the limit changes the bytes
it reports and no others. -/
theorem tmpfs_refines_file_map (ops : List Op) (replies : List Reply) (files : List File)
    (hrun : runOps resetFiles ops = (replies, files)) :
    (∀ (i j : ℕ) (f f' : File), files[i]? = some f → files[j]? = some f' → f.used = true →
      f'.used = true → f.name = f'.name → i = j) ∧
    run (fun _ => none) ops = (replies, toMap files) ∧
    ∀ name content, toMap files name = some content → content.length ≤ maxFileSize ∧
      (∀ k, content.getD k 0 = lastByte name k (ops.zip replies).reverse) ∧
      ∀ offset data, offset ≤ maxFileSize → ∃ content',
        (Op.step files (.write name offset data)).1 =
          .count (min data.length (maxFileSize - offset)) ∧
        toMap (Op.step files (.write name offset data)).2 =
          update (toMap files) name (some content') ∧
        content'.length = max content.length (offset + min data.length (maxFileSize - offset)) ∧
        ∀ k, content'.getD k 0 =
          if offset ≤ k ∧ k < offset + min data.length (maxFileSize - offset) then
            data.getD (k - offset) 0
          else content.getD k 0 := by
  obtain ⟨hs, hreplies, hmap⟩ := run_refines resetFiles_sound ops
  rw [resetFiles_empty, hrun] at hreplies hmap
  rw [hrun] at hs
  refine ⟨hs.distinct, Prod.ext hreplies.symm hmap.symm, ?_⟩
  intro name content hcontent
  refine ⟨?_, ?_, fun offset data hoffset => ?_⟩
  · obtain ⟨i, f, hi, -, -, rfl⟩ := (toMap_eq_some hs).1 hcontent
    rw [content_length]
    exact hs.bounded f (mem_of_getElem? hi)
  · intro k
    have hempty : FromHistory (fun _ => none) [] := by
      intro name content h
      simp at h
    have hhistory := fromHistory_run hempty ops
    rw [← hmap, ← hreplies, append_nil] at hhistory
    exact hhistory name content hcontent k
  · obtain ⟨-, hreply, hwritten⟩ := write_refines hs name offset data
    have hcount : (clamped offset data).length = min data.length (maxFileSize - offset) := by
      rw [clamped, length_take, Nat.min_comm]
    simp only [step, hcontent, if_neg (Nat.not_lt.2 hoffset), hcount] at hreply hwritten
    refine ⟨_, hreply, hwritten, by rw [overlay_length, hcount], fun k => ?_⟩
    rw [overlay_getD, hcount]
    split_ifs with hk
    · exact clamped_getD (by omega)
    · rfl

section Small

/-- One file written and deleted, a second one written in its slot past the start. -/
def reuseOps : List Op :=
  [.create [111], .write [111] 0 [170, 187, 204], .delete [111], .create [110], .write [110] 2 [17]]

theorem reused_slot_shows_new_bytes :
    (runOps resetFiles reuseOps).1 = [.done, .count 3, .done, .done, .count 1] ∧
    toMap (runOps resetFiles reuseOps).2 [110] = some [0, 0, 17] ∧
    (∀ k, ([0, 0, 17] : List UInt8).getD k 0 = lastByte [110] k
      (reuseOps.zip [.done, .count 3, .done, .done, .count 1]).reverse) := by
  have hreplies : (runOps resetFiles reuseOps).1 = [.done, .count 3, .done, .done, .count 1] := by
    decide +kernel
  have hcontent : toMap (runOps resetFiles reuseOps).2 [110] = some [0, 0, 17] := by decide +kernel
  have hmain := tmpfs_refines_file_map reuseOps _ _ (Prod.ext hreplies rfl)
  exact ⟨hreplies, hcontent, (hmain.2.2 _ _ hcontent).2.1⟩

end Small
end Tmpfs
