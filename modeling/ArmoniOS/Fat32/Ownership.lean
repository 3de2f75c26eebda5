import ArmoniOS.Fat32.FatUpdate

/-! Which clusters belong to whom: directories and files as owners of chains, well-formed
volumes, and what an update of one directory entry and its clusters leaves alone. -/
namespace Fat32
open ByteBlock LinkedChain List

/-- The root directory, or the directory or file whose entry is at a slot. -/
abbrev Owner : Type := Option Slot

variable (g : Geometry)

def startOf (d : Disk) : Owner → ℕ
  | none => g.rootCluster
  | some p => (entryAt d p).firstCluster

def DirEntry.IsSubdir (e : DirEntry) : Prop := ¬ e.Hidden ∧ e.isDirectory

/-- An entry `fat32_open_root` takes for a file; a volume label is one. -/
def DirEntry.IsFile (e : DirEntry) : Prop :=
  e.mark ≠ deletedMark ∧ e.attr ≠ attrLongName ∧ ¬ e.isDirectory

inductive Directory (d : Disk) : Owner → Prop
  | root : Directory d none
  | sub {o : Owner} {p : Slot} (parent : Directory d o) (live : p ∈ liveSlots g d (startOf g d o))
      (entry : (entryAt d p).IsSubdir) : Directory d (some p)

/-- A live file entry in one of the directories of `scope`. -/
def FileIn (scope : Owner → Prop) (d : Disk) (p : Slot) : Prop :=
  ∃ o, scope o ∧ Directory g d o ∧ p ∈ liveSlots g d (startOf g d o) ∧ (entryAt d p).IsFile

def Owns (scope : Owner → Prop) (d : Disk) (o : Owner) : Prop :=
  Directory g d o ∨ ∃ p, o = some p ∧ FileIn g scope d p

def HasChain (d : Disk) (o : Owner) (cs : List ℕ) : Prop :=
  (startOf g d o < 2 ∧ cs = []) ∨ ChainFrom g d (startOf g d o) cs

/-- Directories and the files of `scope` own sound, disjoint chains that hold the files' sizes. -/
structure Chained (scope : Owner → Prop) (d : Disk) : Prop where
  dirChain : ∀ o, Directory g d o → ∃ cs, ChainFrom g d (startOf g d o) cs
  fileChain : ∀ p, FileIn g scope d p →
    ∃ cs, HasChain g d (some p) cs ∧ (entryAt d p).size ≤ cs.length * g.clusterSize
  disjoint : ∀ o o' cs cs', Owns g scope d o → Owns g scope d o' → o ≠ o' →
    HasChain g d o cs → HasChain g d o' cs' → cs.Disjoint cs'

structure WellFormed (scope : Owner → Prop) (d : Disk) : Prop extends Chained g scope d where
  mirror : Mirror g d

variable {g} {scope : Owner → Prop} {d d' : Disk} {o o' : Owner} {p p₀ : Slot} {cs cs₀ : List ℕ}

variable {c : ℕ}

theorem mark_of_live (h : p ∈ liveSlots g d c) : (entryAt d p).mark ≠ 0 := by
  simpa using mem_takeWhile_imp h

theorem slot_of_live (h : p ∈ liveSlots g d c) : p ∈ dirSlots g d c :=
  ( takeWhile_prefix _).subset h

variable {x : ℕ}

theorem ChainFrom.fatValue_ne_zero (h : ChainFrom g d c cs) (hx : x ∈ cs) : fatValue g d x ≠ 0 := by
  rcases h.linked.next_mem hx with hm | he
  · have := (h.data _ hm).1
    omega
  · unfold clusterIsEoc clusterEoc at he
    omega

section
variable (h : HasChain g d o cs)
include h

theorem HasChain.chainFrom (hne : cs ≠ []) : ChainFrom g d (startOf g d o) cs :=
  h.resolve_left fun hnil => hne hnil.2

theorem HasChain.data (hx : x ∈ cs) : g.clusterIsData x :=
  (h.chainFrom (ne_nil_of_mem hx)).data x hx

theorem HasChain.congr (hstart : startOf g d' o = startOf g d o)
    (hv : ∀ x ∈ cs, fatValue g d' x = fatValue g d x) : HasChain g d' o cs := by
  unfold HasChain
  rw [hstart]
  exact h.imp id fun hcs => hcs.congr hv

theorem HasChain.fatValue_ne_zero (hx : x ∈ cs) : fatValue g d x ≠ 0 :=
  (h.chainFrom (ne_nil_of_mem hx)).fatValue_ne_zero hx

theorem HasChain.unique {cs' : List ℕ} (h' : HasChain g d o cs') : cs = cs' := by
  rcases h with ⟨hs, rfl⟩ | h
  · rcases h' with ⟨-, rfl⟩ | h'
    · rfl
    · have := h'.head_data.1
      omega
  · rcases h' with ⟨hs, rfl⟩ | h'
    · have := h.head_data.1
      omega
    · exact h.unique h'

end

theorem dirEntryAt_congr {s t : Sector} {i : ℕ}
    (h : ∀ j, i ≤ j → j < i + 32 → s.get j = t.get j) : dirEntryAt s i = dirEntryAt t i := by
  have hname : s.slice i 11 = t.slice i 11 := Block.slice_congr fun j h1 h2 => h j h1 (by omega)
  have hattr : s.get (i + 11) = t.get (i + 11) := h _ (by omega) (by omega)
  have hhigh : s.le16 (i + 20) = t.le16 (i + 20) :=
    Block.le16_congr fun j h1 h2 => h j (by omega) (by omega)
  have hlow : s.le16 (i + 26) = t.le16 (i + 26) :=
    Block.le16_congr fun j h1 h2 => h j (by omega) (by omega)
  have hsize : s.le32 (i + 28) = t.le32 (i + 28) :=
    Block.le32_congr fun j h1 h2 => h j (by omega) (by omega)
  simp only [dirEntryAt, hname, hattr, hhigh, hlow, hsize]

/-- A cluster an update of the owner of `cs₀` may touch: its own, or a free one. -/
def Loose (g : Geometry) (d : Disk) (cs₀ : List ℕ) (x : ℕ) : Prop := fatValue g d x = 0 ∨ x ∈ cs₀

/-- From `d` to `d'` only clusters of `T` and the 32 bytes of slot `p₀` have changed. -/
structure Touches (g : Geometry) (T : ℕ → Prop) (p₀ : Slot) (d d' : Disk) : Prop where
  fat : ∀ x, g.clusterIsData x → ¬ T x → fatValue g d' x = fatValue g d x
  sectors : ∀ x s, g.clusterIsData x → s < g.sectorsPerCluster → ¬ T x →
    g.sectorLba x s ≠ p₀.1 → d' (g.sectorLba x s) = d (g.sectorLba x s)
  slot : ∀ i, i < p₀.2 ∨ p₀.2 + 32 ≤ i → (d' p₀.1).get i = (d p₀.1).get i

namespace Touches
variable {T : ℕ → Prop} {d'' : Disk}

theorem refl (d : Disk) : Touches g T p₀ d d := ⟨fun _ _ _ => rfl, fun _ _ _ _ _ _ => rfl, fun _ _ => rfl⟩

theorem trans (h : Touches g T p₀ d d') (h' : Touches g T p₀ d' d'') : Touches g T p₀ d d'' where
  fat x hx ht := (h'.fat x hx ht).trans (h.fat x hx ht)
  sectors x s hx hs ht hp := (h'.sectors x s hx hs ht hp).trans (h.sectors x s hx hs ht hp)
  slot i hi := (h'.slot i hi).trans (h.slot i hi)

theorem free_loose (h : Touches g (Loose g d cs₀) p₀ d d') (hx : g.clusterIsData x)
    (hfree : fatValue g d' x = 0) : Loose g d cs₀ x := by
  by_contra hn
  rw [h.fat x hx hn] at hfree
  exact hn (.inl hfree)

end Touches

/-- The slot `p₀` of a directory, with the chain `cs₀` of the file it holds, if it holds one. -/
structure Site (g : Geometry) (scope : Owner → Prop) (d : Disk) (p₀ : Slot) (cs₀ : List ℕ) :
    Prop where
  inDir : ∃ o, Directory g d o ∧ p₀ ∈ dirSlots g d (startOf g d o)
  notDir : ¬ Directory g d (some p₀)
  chain : (FileIn g scope d p₀ ∧ HasChain g d (some p₀) cs₀) ∨ cs₀ = []

theorem ChainFrom.mem_dirSlots (h : ChainFrom g d c cs) :
    p ∈ dirSlots g d c ↔ ∃ x ∈ cs, ∃ s < g.sectorsPerCluster,
      p.1 = g.sectorLba x s ∧ p.2 ∈ slotOffsets := by
  rw [h.dirSlots_eq, mem_flatMap]
  simp only [mem_clusterSlots]

theorem slotOffsets_apart {i j : ℕ} (hi : i ∈ slotOffsets) (hj : j ∈ slotOffsets) (h : i ≠ j) :
    i + 32 ≤ j ∨ j + 32 ≤ i := by
  obtain ⟨a, -, rfl⟩ := mem_slotOffsets.mp hi
  obtain ⟨b, -, rfl⟩ := mem_slotOffsets.mp hj
  omega

theorem Site.dir_ne (hs : Site g scope d p₀ cs₀) (ho : Directory g d o) : o ≠ some p₀ := by
  rintro rfl
  exact hs.notDir ho

theorem Site.offset (hs : Site g scope d p₀ cs₀) : p₀.2 ∈ slotOffsets := by
  obtain ⟨o, -, hp⟩ := hs.inDir
  obtain ⟨_, _, _, _, _, ho⟩ := Fat32.mem_dirSlots g hp
  exact ho

theorem Chained.exists_chain (hc : Chained g scope d) (ho : Owns g scope d o) :
    ∃ cs, HasChain g d o cs := by
  rcases ho with ho | ⟨q, rfl, hq⟩
  · exact (hc.dirChain o ho).imp fun _ h => .inr h
  · exact (hc.fileChain q hq).imp fun _ h => h.1

/-- Slots other than `p₀` are live where they were. -/
def LiveSame (g : Geometry) (p₀ : Slot) (d d' : Disk) : Prop :=
  ∀ o, Directory g d o → ∀ p, p ≠ p₀ →
    (p ∈ liveSlots g d' (startOf g d o) ↔ p ∈ liveSlots g d (startOf g d o))

section Frame
variable (hc : Chained g scope d) (hs : Site g scope d p₀ cs₀)
include hc hs

theorem Site.not_loose (ho : Owns g scope d o) (hne : o ≠ some p₀) (hcs : HasChain g d o cs) (hx : x ∈ cs) : ¬ Loose g d cs₀ x := by
  rintro (hfree | hmem)
  · exact hcs.fatValue_ne_zero hx hfree
  · rcases hs.chain with ⟨hfile, hcs₀⟩ | rfl
    · exact hc.disjoint o (some p₀) cs cs₀ ho (.inr ⟨p₀, rfl, hfile⟩) hne hcs hcs₀ hx hmem
    · simp at hmem

variable (ht : Touches g (Loose g d cs₀) p₀ d d')
include ht

theorem Site.entry_eq (ho : Directory g d o) (hp : p ∈ dirSlots g d (startOf g d o))
    (hne : p ≠ p₀) : entryAt d' p = entryAt d p := by
  obtain ⟨cs, hcs⟩ := hc.dirChain o ho
  obtain ⟨x, hx, s, hs', h1, h2⟩ := hcs.mem_dirSlots.mp hp
  have hloose := hs.not_loose hc (.inl ho) (hs.dir_ne ho) (.inr hcs) hx
  by_cases hsec : p.1 = p₀.1
  · have hoff : p.2 ≠ p₀.2 := fun he => hne (Prod.ext hsec he)
    have hapart := slotOffsets_apart h2 hs.offset hoff
    rw [entryAt, entryAt, hsec]
    exact dirEntryAt_congr fun j hj1 hj2 => ht.slot j (by omega)
  · rw [entryAt, entryAt, h1, ht.sectors x s (hcs.data x hx) hs' hloose fun he => hsec (h1.trans he)]

section
variable (ho : Owns g scope d o)
include ho

theorem Site.start_eq (hne : o ≠ some p₀) : startOf g d' o = startOf g d o := by
  have hlive : ∀ (o' : Owner) (q : Slot), Directory g d o' → q ∈ liveSlots g d (startOf g d o') →
      q ≠ p₀ → startOf g d' (some q) = startOf g d (some q) := by
    intro o' q ho' hq hqne
    have hmem := slot_of_live hq
    rw [startOf, startOf, hs.entry_eq hc ht ho' hmem hqne]
  rcases ho with ho | ⟨q, rfl, o', -, ho', hq, -⟩
  · cases ho with
    | root => rfl
    | @sub o' q ho' hq _ => exact hlive o' q ho' hq fun he => hne (by rw [he])
  · exact hlive o' q ho' hq fun he => hne (by rw [he])

theorem Site.chain_eq (hne : o ≠ some p₀) (hcs : HasChain g d o cs) : HasChain g d' o cs :=
  hcs.congr (hs.start_eq hc ht ho hne) fun x hx =>
    ht.fat x (hcs.data hx) (hs.not_loose hc ho hne hcs hx)

theorem Site.chain_iff (hne : o ≠ some p₀) : HasChain g d' o cs ↔ HasChain g d o cs := by
  refine ⟨fun hcs => ?_, hs.chain_eq hc ht ho hne⟩
  obtain ⟨cs', hcs'⟩ := hc.exists_chain ho
  rw [hcs.unique (hs.chain_eq hc ht ho hne hcs')]
  exact hcs'

end

theorem Site.dirChain_eq {cs : List ℕ} (ho : Directory g d o)
    (hcs : ChainFrom g d (startOf g d o) cs) : ChainFrom g d' (startOf g d' o) cs :=
  (hs.chain_eq hc ht (.inl ho) (hs.dir_ne ho) (.inr hcs)).chainFrom hcs.ne_nil

theorem Site.file_entry_eq (hp : FileIn g scope d p) (hne : p ≠ p₀) : entryAt d' p = entryAt d p := by
  obtain ⟨o, -, ho, hmem, -⟩ := hp
  exact hs.entry_eq hc ht ho (slot_of_live hmem) hne

theorem Site.dirSlots_eq (ho : Directory g d o) :
    dirSlots g d' (startOf g d' o) = dirSlots g d (startOf g d o) := by
  obtain ⟨cs, hcs⟩ := hc.dirChain o ho
  rw [(hs.dirChain_eq hc ht ho hcs).dirSlots_eq, hcs.dirSlots_eq]

variable (hl : LiveSame g p₀ d d')
  (hp₀ : (entryAt d' p₀).mark ≠ 0 → ¬ (entryAt d' p₀).IsSubdir)
include hl hp₀

theorem Site.directory_iff : Directory g d' o ↔ Directory g d o := by
  constructor
  · intro h
    induction h with
    | root => exact .root
    | @sub o q _ hq he ih =>
      have hne : q ≠ p₀ := by
        rintro rfl
        exact hp₀ (mark_of_live hq) he
      rw [hs.start_eq hc ht (.inl ih) (hs.dir_ne ih)] at hq
      have hq := (hl o ih q hne).mp hq
      rw [hs.entry_eq hc ht ih (slot_of_live hq) hne] at he
      exact .sub ih hq he
  · intro h
    induction h with
    | root => exact .root
    | @sub o q ho hq he ih =>
      have hne : q ≠ p₀ := by
        rintro rfl
        exact hs.notDir (.sub ho hq he)
      have hmem := slot_of_live hq
      refine .sub ih ?_ ?_
      · rw [hs.start_eq hc ht (.inl ho) (hs.dir_ne ho)]
        exact (hl o ho q hne).mpr hq
      · rw [hs.entry_eq hc ht ho hmem hne]
        exact he

theorem Site.fileIn_iff (hne : p ≠ p₀) : FileIn g scope d' p ↔ FileIn g scope d p := by
  refine exists_congr fun o => and_congr_right fun _ => ?_
  rw [hs.directory_iff hc ht hl hp₀]
  refine and_congr_right fun ho => ?_
  rw [hs.start_eq hc ht (.inl ho) (hs.dir_ne ho), hl o ho p hne]
  refine and_congr_right fun hp => ?_
  rw [hs.entry_eq hc ht ho (slot_of_live hp) hne]

theorem Site.owns_iff (hne : o ≠ some p₀) : Owns g scope d' o ↔ Owns g scope d o := by
  refine or_congr (hs.directory_iff hc ht hl hp₀) (exists_congr fun p => and_congr_right ?_)
  rintro rfl
  exact hs.fileIn_iff hc ht hl hp₀ fun he => hne (by rw [he])

/-- An update of one slot and of clusters that are free or the slot's own keeps the chains sound
and disjoint, provided the file now at the slot has a sound chain of such clusters. -/
theorem Chained.update (hnew : FileIn g scope d' p₀ → ∃ cs, HasChain g d' (some p₀) cs ∧
      (entryAt d' p₀).size ≤ cs.length * g.clusterSize ∧ ∀ x ∈ cs, Loose g d cs₀ x) :
    Chained g scope d' := by
  have howns : ∀ {o}, o ≠ some p₀ → Owns g scope d' o → Owns g scope d o :=
    fun hne => (hs.owns_iff hc ht hl hp₀ hne).mp
  have hp₀' : Owns g scope d' (some p₀) → FileIn g scope d' p₀ := by
    rintro (hd | ⟨q, hq, hf⟩)
    · exact absurd ((hs.directory_iff hc ht hl hp₀).mp hd) hs.notDir
    · exact Option.some.inj hq ▸ hf
  -- every other owner's chain lies outside the touched clusters
  have hother : ∀ {o cs}, o ≠ some p₀ → Owns g scope d' o → HasChain g d' o cs →
      ∀ x ∈ cs, ¬ Loose g d cs₀ x := by
    intro o cs hne ho hcs x hx
    have ho := howns hne ho
    exact hs.not_loose hc ho hne ((hs.chain_iff hc ht ho hne).mp hcs) hx
  refine ⟨fun o ho => ?_, fun p hp => ?_, fun o o' cs cs' ho ho' hne hcs hcs' x hx hx' => ?_⟩
  · have ho := (hs.directory_iff hc ht hl hp₀).mp ho
    obtain ⟨cs, hcs⟩ := hc.dirChain o ho
    exact ⟨cs, hs.dirChain_eq hc ht ho hcs⟩
  · by_cases hpp : p = p₀
    · obtain ⟨cs, hcs, hsize, -⟩ := hnew (hpp ▸ hp)
      exact ⟨cs, hpp ▸ hcs, hpp ▸ hsize⟩
    · have hp := (hs.fileIn_iff hc ht hl hp₀ hpp).mp hp
      obtain ⟨cs, hcs, hsize⟩ := hc.fileChain p hp
      refine ⟨cs, hs.chain_eq hc ht (.inr ⟨p, rfl, hp⟩) (by simpa using hpp) hcs, ?_⟩
      rw [hs.file_entry_eq hc ht hp hpp]
      exact hsize
  · by_cases h1 : o = some p₀
    · subst h1
      obtain ⟨cs₁, hcs₁, -, hloose⟩ := hnew (hp₀' ho)
      rw [hcs.unique hcs₁] at hx
      exact hother hne.symm ho' hcs' x hx' (hloose x hx)
    · by_cases h2 : o' = some p₀
      · subst h2
        obtain ⟨cs₁, hcs₁, -, hloose⟩ := hnew (hp₀' ho')
        rw [hcs'.unique hcs₁] at hx'
        exact hother h1 ho hcs x hx (hloose x hx')
      · have ho := howns h1 ho
        have ho' := howns h2 ho'
        exact hc.disjoint o o' cs cs' ho ho' hne ((hs.chain_iff hc ht ho h1).mp hcs)
          ((hs.chain_iff hc ht ho' h2).mp hcs') hx hx'

end Frame

theorem takeWhile_eq_of_forall {α : Type} {q q' : α → Bool} {l : List α}
    (h : ∀ a ∈ l, q' a = q a) : l.takeWhile q' = l.takeWhile q := by
  induction l with
  | nil => rfl
  | cons a l ih =>
    rw [takeWhile_cons, takeWhile_cons, h a (by simp), ih fun b hb => h b (by simp [hb])]

section Live
variable (hc : Chained g scope d) (hs : Site g scope d p₀ cs₀)
  (ht : Touches g (Loose g d cs₀) p₀ d d')
include hc hs ht

theorem Site.dirSlots_start_eq (ho : Directory g d o) :
    dirSlots g d' (startOf g d o) = dirSlots g d (startOf g d o) := by
  rw [← hs.dirSlots_eq hc ht ho, hs.start_eq hc ht (.inl ho) (hs.dir_ne ho)]

section
variable (h0 : (entryAt d' p₀).mark = 0 ↔ (entryAt d p₀).mark = 0)
include h0

theorem Site.liveSlots_eq (ho : Directory g d o) :
    liveSlots g d' (startOf g d o) = liveSlots g d (startOf g d o) := by
  rw [liveSlots, liveSlots, hs.dirSlots_start_eq hc ht ho]
  refine takeWhile_eq_of_forall fun p hp => ?_
  by_cases hpp : p = p₀
  · simp only [hpp, ne_eq, h0]
  · rw [hs.entry_eq hc ht ho hp hpp]

theorem Site.liveSame : LiveSame g p₀ d d' := by
  intro o ho p _
  rw [hs.liveSlots_eq hc ht h0 ho]

end

end Live
end Fat32
