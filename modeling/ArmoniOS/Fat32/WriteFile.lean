import ArmoniOS.Fat32.FileData

/-! `fat32_write` on a file of a volume with sound chains. Whatever happens, only the file's own
slot and clusters and formerly free clusters change; a successful write replaces the bytes from
the offset on. Appending a cluster is followed only where its writes succeed. -/
namespace Fat32
open Exec ByteBlock List

/-- An update of the file at `p₀` in progress, on the image `d₀` where its chain was `cs₀`. -/
structure Rewriting (g : Geometry) (dev : Device) (d₀ : Disk) (p₀ : Slot) (cs₀ : List ℕ)
    (d : Disk) (cs : List ℕ) : Prop where
  touches : Touches g (Loose g d₀ cs₀) p₀ d₀ d
  chain : HasChain g d (some p₀) cs
  loose : ∀ x ∈ cs, Loose g d₀ cs₀ x
  name : (entryAt d p₀).name = (entryAt d₀ p₀).name
  attr : (entryAt d p₀).attr = (entryAt d₀ p₀).attr
  size : (entryAt d p₀).size ≤ cs.length * g.clusterSize
  mirror : dev.WritesOk → Mirror g d₀ → Mirror g d

variable {g : Geometry} {dev : Device} {d₀ d d' : Disk} {p₀ : Slot} {cs₀ cs cs' : List ℕ} {c y : ℕ}

theorem Rewriting.start (hchain : HasChain g d₀ (some p₀) cs₀)
    (hsize : (entryAt d₀ p₀).size ≤ cs₀.length * g.clusterSize) :
    Rewriting g dev d₀ p₀ cs₀ d₀ cs₀ :=
  ⟨.refl _, hchain, fun _ hx => .inr hx, rfl, rfl, hsize, fun _ h => h⟩

theorem Rewriting.congr_entry (h : Rewriting g dev d₀ p₀ cs₀ d cs)
    (ht : Touches g (Loose g d₀ cs₀) p₀ d d')
    (he : entryAt d' p₀ = entryAt d p₀) (hfat : ∀ x ∈ cs, fatValue g d' x = fatValue g d x)
    (hm : dev.WritesOk → Mirror g d → Mirror g d') : Rewriting g dev d₀ p₀ cs₀ d' cs where
  touches := h.touches.trans ht
  chain := h.chain.congr (by rw [startOf, startOf, he]) hfat
  loose := h.loose
  name := by rw [he, h.name]
  attr := by rw [he, h.attr]
  size := by rw [he]; exact h.size
  mirror hw hm₀ := hm hw (h.mirror hw hm₀)

variable {n : ℕ}

namespace Rewriting
variable (ha : Apart g (Loose g d₀ cs₀) p₀) (h : Rewriting g dev d₀ p₀ cs₀ d cs)
include ha h

theorem data (hc : c ∈ cs) (ho : OnlyCluster g c d d') : Rewriting g dev d₀ p₀ cs₀ d' cs := by
  have hcd := h.chain.data hc
  apply h.congr_entry
  · exact ha.touches_data hcd (h.loose c hc) ho
  · exact ha.entryAt_data hcd (h.loose c hc) ho
  · exact fun x hx => ho.fatValue_eq hcd (h.chain.data hx)
  · exact fun _ => mirror_congr (ho.below hcd)

theorem mark (hy : g.clusterIsData y) (h0 : fatValue g d y = 0) (hn : n ≤ g.fatCount)
    (hall : dev.WritesOk → n = g.fatCount) :
    Rewriting g dev d₀ p₀ cs₀ (patchCopies g d y clusterEoc n) cs := by
  apply h.congr_entry
  · exact ha.touches_patchCopies hy (h.touches.free_loose hy h0) clusterEoc_lt hn
  · exact ha.entryAt_patchCopies hy hn
  · intro x hx
    rw [fatValue_patchCopies hy (h.chain.data hx) clusterEoc_lt hn, if_neg]
    rintro ⟨-, rfl⟩
    exact h.chain.fatValue_ne_zero hx h0
  · intro hw hm
    rw [hall hw]
    exact mirror_setFat hy hm

theorem slot {edit : Sector → Sector} {e : DirEntry} (hin : InSlot p₀.2 edit)
    (he : dirEntryAt (edit (d p₀.1)) p₀.2 = e) (hname : e.name = (entryAt d p₀).name)
    (hattr : e.attr = (entryAt d p₀).attr)
    (hchain : e.firstCluster < 2 ∧ cs' = [] ∨ ChainFrom g d e.firstCluster cs')
    (hloose : ∀ x ∈ cs', Loose g d₀ cs₀ x) (hsize : e.size ≤ cs'.length * g.clusterSize) :
    Rewriting g dev d₀ p₀ cs₀ (Function.update d p₀.1 (edit (d p₀.1))) cs' := by
  have hentry : entryAt (Function.update d p₀.1 (edit (d p₀.1))) p₀ = e :=
    (entryAt_update _).trans he
  constructor
  · exact h.touches.trans (ha.touches_slot hin)
  · rw [HasChain, startOf, hentry]
    refine hchain.imp id fun hcs => hcs.congr fun x hx => ?_
    exact ha.fatValue_slot _ (hcs.data x hx)
  · exact hloose
  · rw [hentry, hname, h.name]
  · rw [hentry, hattr, h.attr]
  · rw [hentry]
    exact hsize
  · exact fun hw hm => mirror_congr (ha.below _) (h.mirror hw hm)

theorem append {l : List ℕ} (hl : cs = l ++ [c]) (hy : g.clusterIsData y)
    (h0 : fatValue g d y = 0) :
    Rewriting g dev d₀ p₀ cs₀ (setFat g (setFat g d c y) y clusterEoc) (cs ++ [y]) := by
  have hcmem : c ∈ cs := by simp [hl]
  have hc := h.chain.data hcmem
  have hfresh : ∀ x ∈ cs, x ≠ y := by
    rintro x hx rfl
    exact h.chain.fatValue_ne_zero hx h0
  have hyloose := h.touches.free_loose hy h0
  have hpatch := ha.touches_patchCopies (d := d) hc (h.loose c hcmem) (data_lt hy) le_rfl
  have hmark := ha.touches_patchCopies (d := setFat g d c y) hy hyloose clusterEoc_lt le_rfl
  have hentry : entryAt (setFat g (setFat g d c y) y clusterEoc) p₀ = entryAt d p₀ := by
    rw [setFat, ha.entryAt_patchCopies hy le_rfl, setFat, ha.entryAt_patchCopies hc le_rfl]
  have hvalue : ∀ x, g.clusterIsData x → fatValue g (setFat g (setFat g d c y) y clusterEoc) x =
      if x = y then clusterEoc else if x = c then y else fatValue g d x := by
    intro x hx
    rw [fatValue_setFat hy hx clusterEoc_lt, fatValue_setFat hc hx (data_lt hy)]
  have hchain := hl ▸ h.chain.chainFrom (ne_nil_of_mem hcmem)
  constructor
  · exact h.touches.trans (hpatch.trans hmark)
  · refine .inr ?_
    rw [startOf, hentry, hl]
    refine hchain.snoc hy ?_ ?_ fun x hx => ?_
    · rw [hvalue c hc, if_neg (hfresh c hcmem), if_pos rfl]
    · rw [hvalue y hy, if_pos rfl]
      exact le_rfl
    · have hne : x ≠ c := ne_of_mem_of_not_mem hx hchain.notMem_init
      have hx' : x ∈ cs := by simp [hl, hx]
      rw [hvalue x (h.chain.data hx'), if_neg (hfresh x hx'), if_neg hne]
  · intro x hx
    rcases mem_append.mp hx with hx | hx
    · exact h.loose x hx
    · rwa [mem_singleton.mp hx]
  · rw [hentry, h.name]
  · rw [hentry, h.attr]
  · rw [hentry, length_append, Nat.add_mul]
    exact h.size.trans (Nat.le_add_right _ _)
  · exact fun hw hm => mirror_setFat hy (mirror_setFat hc (h.mirror hw hm))

end Rewriting

/-- The handle a fresh open of the entry at `p` with chain `cs` returns. -/
def handleAt (g : Geometry) (d : Disk) (p : Slot) (cs : List ℕ) : FileHandle :=
  ⟨(entryAt d p).firstCluster, p.1, p.2, cs.length * g.clusterSize, (entryAt d p).size⟩

structure Tracking (g : Geometry) (dev : Device) (d₀ : Disk) (p₀ : Slot) (cs₀ : List ℕ)
    (st : Volume × FileHandle) (cs : List ℕ) : Prop
    extends Rewriting g dev d₀ p₀ cs₀ st.1.disk cs where
  handle : st.2 = handleAt g st.1.disk p₀ cs
  fits : cs.length * g.clusterSize ≤ uint32Max

/-- Appending to the chain `cs` either does not happen or has no failing write. -/
def AppendSafe (g : Geometry) (dev : Device) (d : Disk) (cs : List ℕ) : Prop :=
  dev.WritesOk ∨ freeCluster g d = none ∨ uint32Max < (cs.length + 1) * g.clusterSize

theorem freeCluster_congr (h : ∀ x, g.clusterIsData x → fatValue g d' x = fatValue g d x) :
    freeCluster g d' = freeCluster g d := by
  have hfrom : ∀ n c, freeClusterFrom g d' n c = freeClusterFrom g d n c := by
    intro n
    induction n with
    | zero => exact fun _ => rfl
    | succ n ih =>
      intro c
      by_cases hc : g.clusterIsData c
      · simp only [freeClusterFrom, h c hc, ih]
      · simp [freeClusterFrom, hc]
  exact hfrom _ _

section FileM
variable {α : Type} {m : FsM α} {v w : Volume} {f : FileHandle} {r : Option α}

theorem onVolume_apply (h : m v = (r, w)) : onVolume m (v, f) = (r, (w, f)) := by
  rw [onVolume, zoom_apply, h]

@[simp] theorem currentFile_apply : currentFile (v, f) = (some f, (v, f)) := rfl

@[simp] theorem editFile_apply (k : FileHandle → FileHandle) :
    editFile k (v, f) = (some (), (v, k f)) := rfl

end FileM

namespace Tracking
variable {v w : Volume} {f : FileHandle}

section
variable (h : Tracking g dev d₀ p₀ cs₀ (v, f) cs)
include h

theorem quiet (hq : v.Quiet w) : Tracking g dev d₀ p₀ cs₀ (w, f) cs := by
  have hd := hq.1
  refine ⟨?_, ?_, h.fits⟩
  · rw [hd]
    exact h.toRewriting
  · rw [hd]
    exact h.handle

theorem capacity_eq : f.capacity = cs.length * g.clusterSize :=
  congrArg FileHandle.capacity h.handle

theorem chainFrom (hne : cs ≠ []) : ChainFrom g v.disk f.firstCluster cs := by
  have hf : f = handleAt g v.disk p₀ cs := h.handle
  rw [hf]
  exact h.chain.chainFrom hne

variable {l rest : List ℕ}

theorem chain_at (hcs : cs = l ++ c :: rest) : ChainFrom g v.disk c (c :: rest) := by
  have hfull := h.chainFrom (by simp [hcs])
  rw [hcs] at hfull
  exact hfull.suffix

end

end Tracking

section Advance
variable (hr : dev.ReadsOk) {v : Volume} {f : FileHandle}
include hr

theorem advance_inside {b : ℕ} {rest : List ℕ} (h : ChainFrom g v.disk c (c :: b :: rest)) :
    advanceOrAllocateCluster g dev c (v, f) = (some b, (v.load (g.fatEntryLba 0 c), f)) := by
  have hc := h.head_data.1
  have hb := h.tail.head_data
  rw [advanceOrAllocateCluster, if_neg (by omega),
    bind_of_some (onVolume_apply (h.readFatEntry_cons hr)), bind_of_some currentFile_apply,
    if_neg hb.not_eoc, if_neg (by have := hb.1; omega)]
  rfl

theorem writeSkip_inside {k : ℕ} {v : Volume} {f : FileHandle} (hcs : cs = l ++ c :: rest)
    (h : Tracking g dev d₀ p₀ cs₀ (v, f) cs) (hk : k ≤ rest.length) :
    ∃ w c' l' rest', writeSkip g dev k c (v, f) = (some c', (w, f)) ∧ v.Quiet w ∧
      cs = l' ++ c' :: rest' ∧ l'.length = l.length + k := by
  induction k generalizing c l rest v with
  | zero => exact ⟨v, c, l, rest, rfl, .refl v, hcs, rfl⟩
  | succ k ih =>
    cases rest with
    | nil => simp at hk
    | cons b rest =>
      have hq := v.quiet_load (g.fatEntryLba 0 c)
      obtain ⟨w, c', l', rest', hrun, hqw, heq, hlen⟩ :=
        @ih b (l ++ [c]) rest _ (by simp [hcs]) (h.quiet hq) (by simpa using hk)
      refine ⟨w, c', l', rest', ?_, hq.trans hqw, heq, ?_⟩
      · rw [writeSkip, bind_of_some (advance_inside hr (h.chain_at hcs))]
        exact hrun
      · rw [hlen, length_append, length_singleton]
        omega

/-- Skipping all of the chain ends with an attempt to advance behind its last cluster. -/
theorem writeSkip_end {v : Volume} (hcs : cs = l ++ c :: rest)
    (h : Tracking g dev d₀ p₀ cs₀ (v, f) cs) :
    ∃ w c' l', writeSkip g dev (rest.length + 1) c (v, f) = advanceOrAllocateCluster g dev c' (w, f) ∧
      v.Quiet w ∧ cs = l' ++ [c'] := by
  induction rest generalizing c l v with
  | nil =>
    refine ⟨v, c, l, ?_, .refl v, hcs⟩
    rcases hrun : advanceOrAllocateCluster g dev c (v, f) with ⟨_ | y, t⟩
    · exact bind_of_none hrun
    · exact bind_of_some hrun
  | cons b rest ih =>
    have hq := v.quiet_load (g.fatEntryLba 0 c)
    obtain ⟨w, c', l', hrun, hqw, heq⟩ := @ih b (l ++ [c]) _ (by simp [hcs]) (h.quiet hq)
    refine ⟨w, c', l', ?_, hq.trans hqw, heq⟩
    rw [length_cons, writeSkip, bind_of_some (advance_inside hr (h.chain_at hcs))]
    exact hrun

/-- At the end of the chain, with room left in the 32-bit capacity, a cluster is allocated. -/
theorem advance_room {l : List ℕ} (hl : cs = l ++ [c]) (h : Tracking g dev d₀ p₀ cs₀ (v, f) cs)
    (hroom : (cs.length + 1) * g.clusterSize ≤ uint32Max) :
    advanceOrAllocateCluster g dev c (v, f) = (onVolume (allocateCluster g dev c) >>= fun y =>
        editFile (fun f => { f with capacity := f.capacity + g.clusterSize }) >>= fun _ => pure y)
        (v.load (g.fatEntryLba 0 c), f) := by
  have hchain := h.chain_at hl
  have hcap := h.capacity_eq
  rw [Nat.add_mul, Nat.one_mul] at hroom
  rw [advanceOrAllocateCluster, if_neg (by have := hchain.head_data.1; omega),
    bind_of_some (onVolume_apply (hchain.readFatEntry_singleton hr)),
    bind_of_some currentFile_apply, if_pos hchain.nextCluster_singleton.2, if_neg (by omega)]

variable (hw : dev.writable = true) (ha : Apart g (Loose g d₀ cs₀) p₀)
include hw ha

theorem advance_end {l : List ℕ} (hl : cs = l ++ [c])
    (h : Tracking g dev d₀ p₀ cs₀ (v, f) cs) (hsafe : AppendSafe g dev v.disk cs) :
    ∃ r w f', advanceOrAllocateCluster g dev c (v, f) = (r, (w, f')) ∧
      ((r = none ∧ f' = f ∧ v.Quiet w) ∨
        ∃ y, r = some y ∧ dev.WritesOk ∧ Tracking g dev d₀ p₀ cs₀ (w, f') (cs ++ [y]) ∧
          ∀ lba, g.dataStartLba ≤ lba → w.disk lba = v.disk lba) := by
  have hchain := h.chain_at hl
  have hc := hchain.head_data
  have he := hchain.nextCluster_singleton.2
  have hf : f = handleAt g v.disk p₀ cs := h.handle
  have hcap := h.capacity_eq
  have hlen : (cs.length + 1) * g.clusterSize = cs.length * g.clusterSize + g.clusterSize := by
    rw [Nat.add_mul, Nat.one_mul]
  by_cases hover : uint32Max < (cs.length + 1) * g.clusterSize
  · rw [advanceOrAllocateCluster, if_neg (by have := hc.1; omega),
      bind_of_some (onVolume_apply (hchain.readFatEntry_singleton hr)),
      bind_of_some currentFile_apply, if_pos he, if_pos (by omega)]
    exact ⟨none, _, f, rfl, .inl ⟨rfl, rfl, v.quiet_load _⟩⟩
  · rw [advance_room hr hl h (by omega)]
    generalize hu : v.load (g.fatEntryLba 0 c) = u
    have hq : v.Quiet u := hu ▸ v.quiet_load _
    have hud := hq.1
    cases hfree : freeCluster g v.disk with
    | none =>
      obtain ⟨w, hqw, hrun⟩ := allocateCluster_full hr (by rw [hud]; exact hfree) c
      rw [bind_of_none (onVolume_apply hrun)]
      exact ⟨none, w, f, rfl, .inl ⟨rfl, rfl, hq.trans hqw⟩⟩
    | some y =>
      have hok : dev.WritesOk := by
        rcases hsafe with hok | hnone | hlt
        · exact hok
        · rw [hnone] at hfree
          simp at hfree
        · exact absurd hlt hover
      obtain ⟨hy, h0⟩ := freeCluster_some g hfree
      rw [← hud] at he hfree
      obtain ⟨u', w, j, hqu, hp, -, hthen⟩ := allocateCluster_append hr hw hc he hfree
      obtain ⟨w', j', hp', hrun⟩ := hthen (hp.all hok)
      rw [if_pos (hp'.all hok)] at hrun
      have hdisk : w'.disk = setFat g (setFat g v.disk c y) y clusterEoc := by
        have hu' := hqu.1.trans hud
        rw [hp'.disk, hp.disk, hp.all hok, hp'.all hok, hu']
        rfl
      rw [bind_of_some (onVolume_apply hrun), bind_of_some (editFile_apply _)]
      refine ⟨some y, w', _, rfl, .inr ⟨y, rfl, hok, ⟨?_, ?_, ?_⟩, fun lba hlba => ?_⟩⟩
      · rw [hdisk]
        exact h.toRewriting.append ha hl hy h0
      · have hentry : entryAt w'.disk p₀ = entryAt v.disk p₀ := by
          rw [hdisk, setFat, ha.entryAt_patchCopies hy le_rfl, setFat,
            ha.entryAt_patchCopies hc le_rfl]
        simp only [hf, handleAt, hentry, length_append, length_singleton, hlen]
      · rw [length_append, length_singleton]
        omega
      · rw [hdisk, setFat_of_ge hy hlba, setFat_of_ge hc hlba]

end Advance

variable {skip : ℕ} {data : List UInt8}

section Bytes
variable {l rest : List ℕ}

theorem window_fileByte_at (d : Disk) (hn : n ≤ g.clusterSize) :
    window (fileByte g d (l ++ c :: rest)) (l.length * g.clusterSize) n =
      window (clusterByte g d c) 0 n := by
  refine window_congr fun i hi => ?_
  rw [← fileByte_drop, drop_left, fileByte_head rest (by omega), Nat.zero_add]

/-- What changes the bytes of one cluster up to some position does the same to the file. -/
theorem window_cluster {x : ℕ} (hcs : ChainFrom g d x (l ++ c :: rest)) (ho : OnlyCluster g c d d')
    (hfit : skip + data.length ≤ g.clusterSize)
    (hbytes : window (clusterByte g d' c) 0 (skip + data.length) = window (clusterByte g d c) 0 skip ++ data) :
    window (fileByte g d' (l ++ c :: rest)) 0 (l.length * g.clusterSize + (skip + data.length)) =
      window (fileByte g d (l ++ c :: rest)) 0 (l.length * g.clusterSize + skip) ++ data := by
  have hc := hcs.data c (by simp)
  have hbefore : window (fileByte g d' (l ++ c :: rest)) 0 (l.length * g.clusterSize) =
      window (fileByte g d (l ++ c :: rest)) 0 (l.length * g.clusterSize) := by
    refine window_congr fun i hi => ?_
    rw [Nat.zero_add, fileByte_append _ hi, fileByte_append _ hi]
    refine fileByte_congr (fun x hx s hs => ?_) hi
    have hne : x ≠ c := ne_of_mem_of_not_mem hx hcs.notMem_init
    exact ho.sector_eq hc (hcs.data x (by simp [hx])) hs hne
  calc window (fileByte g d' (l ++ c :: rest)) 0 (l.length * g.clusterSize + (skip + data.length))
      = window (fileByte g d (l ++ c :: rest)) 0 (l.length * g.clusterSize) ++
          (window (clusterByte g d c) 0 skip ++ data) := by
        rw [window_add, Nat.zero_add, hbefore, window_fileByte_at d' hfit, hbytes]
    _ = window (fileByte g d (l ++ c :: rest)) 0 (l.length * g.clusterSize + skip) ++ data := by
        rw [window_add, Nat.zero_add, window_fileByte_at d (by omega), append_assoc]

theorem window_append (ys : List ℕ) (hn : n ≤ cs.length * g.clusterSize) :
    window (fileByte g d (cs ++ ys)) 0 n = window (fileByte g d cs) 0 n := by
  refine window_congr fun i hi => ?_
  exact fileByte_append ys (by omega)

theorem window_of_ge (hdata : ∀ x ∈ cs, g.clusterIsData x)
    (h : ∀ lba, g.dataStartLba ≤ lba → d' lba = d lba) (hn : n ≤ cs.length * g.clusterSize) :
    window (fileByte g d' cs) 0 n = window (fileByte g d cs) 0 n := by
  refine window_congr fun i hi => ?_
  exact fileByte_congr (fun x hx s hs => h _ (g.sectorLba_ge (hdata x hx) hs)) (by omega)

end Bytes

theorem bootstrap_skip {v : Volume} {f : FileHandle} (h : Tracking g dev d₀ p₀ cs₀ (v, f) cs)
    (hne : cs ≠ []) : bootstrapFirstCluster g dev (v, f) = (some (), (v, f)) := by
  have h2 := (h.chainFrom hne).head_data.1
  rw [bootstrapFirstCluster, bind_of_some currentFile_apply, if_neg (by omega)]
  rfl

/-- What `fat32_write` does after the bootstrap. -/
def writeTail (g : Geometry) (dev : Device) (offset : ℕ) (data : List UInt8) (first : ℕ) :
    FileM ℕ := do
  let cluster ← writeSkip g dev (offset / g.clusterSize) first
  writeClusters g dev data.length cluster (offset % g.clusterSize) data
  storeSize g dev (u32 (offset + data.length))
  pure data.length

section Loops
variable (hr : dev.ReadsOk) (hw : dev.writable = true) (ha : Apart g (Loose g d₀ cs₀) p₀)
include hr hw ha

section
variable {l rest : List ℕ} (hcs : cs = l ++ c :: rest)
include hcs

section
variable {v : Volume} {f : FileHandle} (h : Tracking g dev d₀ p₀ cs₀ (v, f) cs)
include h

/-- The skip loop stays on the chain, except that its last round may append a cluster. -/
theorem writeSkip_apply {k : ℕ} (hk : k ≤ rest.length + 1)
    (hsafe : k ≤ rest.length ∨ AppendSafe g dev v.disk cs) :
    ∃ r w f' ys, writeSkip g dev k c (v, f) = (r, (w, f')) ∧
      Tracking g dev d₀ p₀ cs₀ (w, f') (cs ++ ys) ∧
      (ys = [] ∧ w.disk = v.disk ∨ dev.WritesOk) ∧
      (∀ lba, g.dataStartLba ≤ lba → w.disk lba = v.disk lba) ∧
      ∀ c', r = some c' → ∃ l' rest', cs ++ ys = l' ++ c' :: rest' ∧ l'.length = l.length + k := by
  rcases Nat.lt_or_ge rest.length k with hlast | hinside
  · obtain rfl : k = rest.length + 1 := by omega
    obtain ⟨u, c', l', hskip, hq, hl'⟩ := writeSkip_end hr hcs h
    have hsafe' : AppendSafe g dev u.disk cs := by
      rw [hq.1]
      exact hsafe.resolve_left (by omega)
    obtain ⟨r, w, f', hrun, hcase⟩ := advance_end hr hw ha hl' (h.quiet hq) hsafe'
    rw [hskip, hrun]
    rcases hcase with ⟨rfl, rfl, hqw⟩ | ⟨y, rfl, hok, htrack, hge⟩
    · have hqv := hq.trans hqw
      refine ⟨none, w, f', [], rfl, by simpa using h.quiet hqv, .inl ⟨rfl, hqv.1⟩, ?_, by simp⟩
      intro lba _
      rw [hqv.1]
    · refine ⟨some y, w, f', [y], rfl, htrack, .inr hok, fun lba hlba => ?_, fun c'' hc'' => ?_⟩
      · rw [hge lba hlba, hq.1]
      · obtain rfl : y = c'' := Option.some.inj hc''
        exact ⟨cs, [], rfl, by simp [hcs]⟩
  · obtain ⟨w, c', l', rest', hrun, hq, heq, hlen⟩ := writeSkip_inside hr hcs h hinside
    refine ⟨some c', w, f, [], hrun, by simpa using h.quiet hq, .inl ⟨rfl, hq.1⟩, ?_, ?_⟩
    · intro lba _
      rw [hq.1]
    · intro c'' hc''
      obtain rfl : c' = c'' := Option.some.inj hc''
      exact ⟨l', rest', by simpa using heq, hlen⟩

theorem writeRound_apply (hskip : skip < g.clusterSize) (data : List UInt8) :
    ∃ r w, writeSectors g dev c (range g.sectorsPerCluster) skip data v = (r, w) ∧
      Tracking g dev d₀ p₀ cs₀ (w, f) cs ∧
      (∀ x, g.clusterIsData x → fatValue g w.disk x = fatValue g v.disk x) ∧
      ∀ more, r = some more → more = data.drop (g.clusterSize - skip) ∧
        window (fileByte g w.disk cs) 0 (l.length * g.clusterSize +
            (skip + (data.take (g.clusterSize - skip)).length)) =
          window (fileByte g v.disk cs) 0 (l.length * g.clusterSize + skip) ++
            data.take (g.clusterSize - skip) := by
  have hfull := h.chainFrom (by simp [hcs])
  have hcmem : c ∈ cs := by simp [hcs]
  have hc := h.chain.data hcmem
  obtain ⟨r, w, hrun, honly, hsome⟩ := writeSectors_apply hr hw hc
    (s := 0) (m := g.sectorsPerCluster) (by omega) skip skip (by omega) data v
  refine ⟨r, w, by rw [range_eq_range', hrun], ⟨?_, ?_, h.fits⟩, ?_, ?_⟩
  · exact h.toRewriting.data ha hcmem honly
  · have hf : f = handleAt g v.disk p₀ cs := h.handle
    simp only [hf, handleAt, ha.entryAt_data hc (h.loose c hcmem) honly]
  · exact fun x hx => honly.fatValue_eq hc hx
  · intro more hmore
    obtain ⟨hdrop, hbytes⟩ := hsome more hmore
    refine ⟨hdrop, ?_⟩
    rw [hcs] at hfull ⊢
    refine window_cluster hfull honly ?_ hbytes
    rw [length_take]
    omega

theorem writeClusters_apply {fuel : ℕ} (hskip : skip < g.clusterSize) (hne : data ≠ [])
    (hfuel : data.length ≤ fuel)
    (hsafe : l.length * g.clusterSize + skip + data.length ≤ cs.length * g.clusterSize ∨ AppendSafe g dev v.disk cs) :
    ∃ r w f' ys, writeClusters g dev fuel c skip data (v, f) = (r, (w, f')) ∧
      Tracking g dev d₀ p₀ cs₀ (w, f') (cs ++ ys) ∧
      (r = some () → window (fileByte g w.disk (cs ++ ys)) 0
            (l.length * g.clusterSize + skip + data.length) =
          window (fileByte g v.disk cs) 0 (l.length * g.clusterSize + skip) ++ data ∧
        l.length * g.clusterSize + skip + data.length ≤ (cs ++ ys).length * g.clusterSize) := by
  induction fuel generalizing c skip data l rest v f cs with
  | zero =>
    have := length_pos_of_ne_nil hne
    omega
  | succ fuel ih =>
    have hc := h.chain.data (show c ∈ cs by simp [hcs])
    have hguard : ¬ (c < 2 ∨ clusterIsEoc c) := fun hbad => data_not_end hc hbad.symm
    have hlen : cs.length * g.clusterSize =
        l.length * g.clusterSize + g.clusterSize + rest.length * g.clusterSize := by
      rw [hcs, length_append, length_cons]
      ring
    obtain ⟨r, w, hrun, htrack, hfat, hsome⟩ := writeRound_apply hr hw ha hcs h hskip data
    rw [writeClusters, if_neg hguard]
    cases r with
    | none =>
      rw [bind_of_none (onVolume_apply hrun)]
      exact ⟨none, w, f, [], rfl, by simpa using htrack, by simp⟩
    | some more =>
      obtain ⟨hmore, hround⟩ := hsome more rfl
      rw [bind_of_some (onVolume_apply hrun)]
      have hdata : data.take (g.clusterSize - skip) ++ more = data := by
        rw [hmore, take_append_drop]
      split_ifs with hdone
      · rw [hdone, append_nil] at hdata
        have hfit : data.length ≤ g.clusterSize - skip := by
          rw [← hdata, length_take]
          omega
        rw [hdata, ← Nat.add_assoc] at hround
        refine ⟨some (), w, f, [], rfl, by simpa using htrack, fun _ => ?_⟩
        rw [append_nil]
        exact ⟨hround, by omega⟩
      · have hlong : g.clusterSize - skip < data.length := by
          by_contra hshort
          exact hdone (hmore.trans (drop_eq_nil_of_le (by omega)))
        have hmlen : more.length = data.length - (g.clusterSize - skip) := by
          rw [hmore, length_drop]
        rw [length_take, Nat.min_eq_left hlong.le,
          show skip + (g.clusterSize - skip) = g.clusterSize by omega] at hround
        have hend : l.length * g.clusterSize + g.clusterSize + more.length =
            l.length * g.clusterSize + skip + data.length := by omega
        cases rest with
        | nil =>
          rw [length_nil, Nat.zero_mul, Nat.add_zero] at hlen
          have hsafe' : AppendSafe g dev w.disk cs := by
            rcases hsafe with hfit | hsafe
            · omega
            · unfold AppendSafe
              rwa [freeCluster_congr hfat]
          obtain ⟨r, w', f', hadv, hcase⟩ := advance_end hr hw ha hcs htrack hsafe'
          rcases hcase with ⟨rfl, rfl, hq⟩ | ⟨y, rfl, hok, htrack', hge⟩
          · rw [bind_of_none hadv]
            exact ⟨none, w', f', [], rfl, by simpa using htrack.quiet hq, by simp⟩
          · rw [bind_of_some hadv]
            obtain ⟨r', u, f'', ys, hrun', htrack'', hres⟩ := ih (rfl : cs ++ [y] = cs ++ y :: [])
              htrack' clusterSize_pos hdone (by omega) (.inr (.inl hok))
            refine ⟨r', u, f'', y :: ys, hrun', by simpa using htrack'', fun hr' => ?_⟩
            obtain ⟨hwin, hbound⟩ := hres hr'
            rw [append_assoc, singleton_append] at hwin hbound
            rw [Nat.add_zero, window_append [y] le_rfl,
              window_of_ge (fun x hx => htrack.chain.data hx) hge le_rfl, hlen, hround,
              append_assoc, hdata, hend] at hwin
            exact ⟨hwin, by omega⟩
        | cons b rest =>
          have hnext : (l ++ [c]).length * g.clusterSize = l.length * g.clusterSize + g.clusterSize := by
            rw [length_append, length_singleton, Nat.add_mul, Nat.one_mul]
          have hsafe' : (l ++ [c]).length * g.clusterSize + 0 + more.length ≤
              cs.length * g.clusterSize ∨ AppendSafe g dev w.disk cs := by
            rcases hsafe with hfit | hsafe
            · exact .inl (by omega)
            · refine .inr ?_
              unfold AppendSafe
              rwa [freeCluster_congr hfat]
          rw [bind_of_some (advance_inside hr (htrack.chain_at hcs))]
          obtain ⟨r', u, f', ys, hrun', htrack', hres⟩ :=
            ih (show cs = (l ++ [c]) ++ b :: rest by simp [hcs])
              (htrack.quiet (w.quiet_load (g.fatEntryLba 0 c))) clusterSize_pos hdone (by omega)
              hsafe'
          refine ⟨r', u, f', ys, hrun', htrack', fun hr' => ?_⟩
          obtain ⟨hwin, hbound⟩ := hres hr'
          rw [Nat.add_zero, hnext, Volume.load_disk, hround, append_assoc, hdata, hend] at hwin
          exact ⟨hwin, by omega⟩

end

end

theorem bootstrap_empty {v : Volume} {f : FileHandle} (h : Tracking g dev d₀ p₀ cs₀ (v, f) []) :
    ∃ r w f', bootstrapFirstCluster g dev (v, f) = (r, (w, f')) ∧
      (r = none ∧ Rewriting g dev d₀ p₀ cs₀ w.disk [] ∧
          (dev.WritesOk → Tracking g dev d₀ p₀ cs₀ (w, f') []) ∨
        ∃ y, r = some () ∧ freeCluster g v.disk = some y ∧ Tracking g dev d₀ p₀ cs₀ (w, f') [y] ∧
          ∀ x, g.clusterIsData x → fatValue g w.disk x = fatValue g (setFat g v.disk y clusterEoc) x) ∧
      (freeCluster g v.disk ≠ none → (∀ i < g.fatCount + 1, dev.writeOk (v.writes + i) = true) →
        r = some () ∧ w.writes = v.writes + (g.fatCount + 1)) := by
  have hf : f = handleAt g v.disk p₀ [] := h.handle
  have hfirst : f.firstCluster < 2 := by
    rcases h.chain with ⟨hlt, -⟩ | hcs
    · rw [hf]
      exact hlt
    · exact absurd rfl hcs.ne_nil
  have hsize : f.size = 0 := by
    have := h.size
    rw [hf]
    simpa [handleAt] using this
  rw [bootstrapFirstCluster, bind_of_some currentFile_apply, if_pos hfirst]
  cases hfree : freeCluster g v.disk with
  | none =>
    obtain ⟨w, hq, hrun⟩ := allocateCluster_full hr hfree 0
    rw [bind_of_none (onVolume_apply hrun)]
    exact ⟨none, w, f, rfl, .inl ⟨rfl, (h.quiet hq).toRewriting, fun _ => h.quiet hq⟩, by simp⟩
  | some y =>
    obtain ⟨hy, h0⟩ := freeCluster_some g hfree
    obtain ⟨u, w, j, hq, hp, hrun⟩ := allocateCluster_head hr hw hfree
    have hfull : (∀ i < g.fatCount + 1, dev.writeOk (v.writes + i) = true) → j = g.fatCount :=
      fun hok => hp.full fun i hi => by
        rw [hq.2]
        exact hok i (by omega)
    have hwd : w.disk = patchCopies g v.disk y clusterEoc j := by
      rw [hp.disk, hq.1]
    have hmark : Rewriting g dev d₀ p₀ cs₀ w.disk [] := by
      rw [hwd]
      exact h.toRewriting.mark ha hy h0 hp.le hp.all
    by_cases hj : j = g.fatCount
    · rw [if_pos hj] at hrun
      rw [bind_of_some (onVolume_apply hrun), bind_of_some (editFile_apply _)]
      have hplace : f.dirLba = p₀.1 ∧ f.dirOffset = p₀.2 := by
        rw [hf]
        exact ⟨rfl, rfl⟩
      rw [hplace.1, hplace.2]
      obtain ⟨r, w', hrun', hcount, hcase⟩ := updateDirSector_apply hr hw ha.lt (fun s =>
        (s.putLe16 (p₀.2 + 20) (y / 2 ^ 16)).putLe16 (p₀.2 + 26) (y % 2 ^ 16)) w
      rw [onVolume_apply hrun']
      rw [hp.writes hj, hq.2] at hcount hcase
      refine ⟨r, w', _, rfl, ?_, fun _ hok => ⟨?_, hcount⟩⟩
      swap
      · rcases hcase with ⟨-, hbad, -⟩ | ⟨hsome, -⟩
        · exact absurd (hok g.fatCount (by omega)) (by rw [hbad]; decide)
        · exact hsome
      rcases hcase with ⟨rfl, hbad, hdisk⟩ | ⟨rfl, hdisk⟩
      · rw [hdisk]
        exact .inl ⟨rfl, hmark, fun hok => absurd (hok _) (by rw [hbad]; decide)⟩
      · have hfat : ∀ x, g.clusterIsData x →
            fatValue g w.disk x = fatValue g (setFat g v.disk y clusterEoc) x := by
          intro x _
          rw [hwd, hj]
          rfl
        have hentry := dirEntryAt_storeCluster (w.disk p₀.1) ha.room (c := y)
          (by have := data_lt hy; omega)
        have hchain : ChainFrom g w.disk y [y] := by
          refine .singleton hy ?_
          rw [hfat y hy, fatValue_setFat hy hy clusterEoc_lt, if_pos rfl]
          exact le_rfl
        have hzero : (entryAt w.disk p₀).size = 0 := by simpa using hmark.size
        have hnew := hmark.slot ha (storeCluster_inSlot y) hentry rfl rfl (.inr hchain)
          (by simpa using h.touches.free_loose hy h0) (by
            change (entryAt w.disk p₀).size ≤ _
            omega)
        rw [← hdisk] at hnew
        refine .inr ⟨y, rfl, rfl, ⟨hnew, ?_, ?_⟩, fun x hx => ?_⟩
        · have hentry' : entryAt w'.disk p₀ = { entryAt w.disk p₀ with firstCluster := y } := by
            rw [hdisk, entryAt_update]
            exact hentry
          simp only [handleAt, hentry', hzero, hsize, length_singleton, Nat.one_mul]
        · rw [length_singleton, Nat.one_mul]
          exact clusterSize_le
        · rw [hdisk, ha.fatValue_slot _ hx, hfat x hx]
    · rw [if_neg hj] at hrun
      rw [bind_of_none (onVolume_apply hrun)]
      exact ⟨none, w, f, rfl, .inl ⟨rfl, hmark, fun hok => absurd (hfull fun i _ => hok _) hj⟩,
        fun _ hok => absurd (hfull hok) hj⟩

section
variable {v : Volume} {f : FileHandle} (h : Tracking g dev d₀ p₀ cs₀ (v, f) cs)
include h

theorem storeSize_apply {size : ℕ} (hsize : size ≤ cs.length * g.clusterSize) :
    ∃ r w f', storeSize g dev size (v, f) = (r, (w, f')) ∧ Rewriting g dev d₀ p₀ cs₀ w.disk cs ∧
      (dev.WritesOk → r = some ()) ∧
      (r = some () → Tracking g dev d₀ p₀ cs₀ (w, f') cs ∧ f'.size = size ∧
        ∀ n ≤ cs.length * g.clusterSize,
          window (fileByte g w.disk cs) 0 n = window (fileByte g v.disk cs) 0 n) := by
  have hf : f = handleAt g v.disk p₀ cs := h.handle
  have hplace : f.dirLba = p₀.1 ∧ f.dirOffset = p₀.2 := by
    rw [hf]
    exact ⟨rfl, rfl⟩
  obtain ⟨r, w, hrun, -, hcase⟩ := updateDirSector_apply hr hw ha.lt
    (fun s => s.putLe32 (p₀.2 + 28) size) v
  rw [storeSize, bind_of_some currentFile_apply, hplace.1, hplace.2]
  rcases hcase with ⟨rfl, hbad, hdisk⟩ | ⟨rfl, hdisk⟩
  · rw [bind_of_none (onVolume_apply hrun)]
    refine ⟨none, w, f, rfl, ?_, fun hok => absurd (hok _) (by rw [hbad]; decide), by simp⟩
    rw [hdisk]
    exact h.toRewriting
  · rw [bind_of_some (onVolume_apply hrun), editFile_apply]
    have hmax := h.fits
    unfold uint32Max at hmax
    have hentry := dirEntryAt_storeSize (v.disk p₀.1) ha.room (x := size) (by omega)
    have hnew := h.toRewriting.slot ha (storeSize_inSlot size) hentry rfl rfl h.chain h.loose hsize
    rw [← hdisk] at hnew
    refine ⟨some (), w, _, rfl, hnew, fun _ => rfl, fun _ => ⟨⟨hnew, ?_, h.fits⟩, rfl,
      fun n hn => ?_⟩⟩
    · have hentry' : entryAt w.disk p₀ = { entryAt v.disk p₀ with size := size } := by
        rw [hdisk, entryAt_update]
        exact hentry
      simp only [handleAt, hentry', hf]
    · refine window_congr fun i hi => ?_
      refine fileByte_congr (fun x hx s hs => ?_) (by omega)
      rw [hdisk]
      exact ha.sector_eq _ (h.chain.data hx) hs (h.loose x hx)

theorem writeTail_apply {offset : ℕ} (hcs : cs ≠ []) (hne : data ≠ [])
    (hoff : offset ≤ cs.length * g.clusterSize)
    (hsafe : offset + data.length ≤ cs.length * g.clusterSize ∨ AppendSafe g dev v.disk cs) :
    ∃ r w f' cs', writeTail g dev offset data f.firstCluster (v, f) = (r, (w, f')) ∧
      Rewriting g dev d₀ p₀ cs₀ w.disk cs' ∧
      (dev.WritesOk → Tracking g dev d₀ p₀ cs₀ (w, f') cs') ∧
      ∀ n, r = some n → n = data.length ∧ Tracking g dev d₀ p₀ cs₀ (w, f') cs' ∧
        f'.size = offset + data.length ∧
        fileBytes g w.disk cs' (offset + data.length) = fileBytes g v.disk cs offset ++ data := by
  obtain ⟨rest, hrest⟩ := (h.chainFrom hcs).exists_cons
  have hpos := length_pos_of_ne_nil hne
  have hmod := Nat.div_add_mod' offset g.clusterSize
  have hlen : cs.length = rest.length + 1 := by rw [hrest, length_cons]
  have hround : offset / g.clusterSize ≤ rest.length + 1 :=
    Nat.div_le_of_le_mul (by rwa [Nat.mul_comm, ← hlen])
  have hskip : offset / g.clusterSize ≤ rest.length ∨ AppendSafe g dev v.disk cs := by
    refine hsafe.imp_left fun hfit => Nat.lt_succ_iff.mp (Nat.div_lt_of_lt_mul ?_)
    rw [Nat.mul_comm, Nat.succ_eq_add_one, ← hlen]
    omega
  obtain ⟨r, u, f', ys, hrun, htrack, hwhy, hge, hat⟩ := writeSkip_apply hr hw ha
    (show cs = [] ++ f.firstCluster :: rest from hrest) h hround hskip
  unfold writeTail
  cases r with
  | none =>
    rw [bind_of_none hrun]
    exact ⟨none, u, f', _, rfl, htrack.toRewriting, fun _ => htrack, by simp⟩
  | some c =>
    obtain ⟨l, rest', hl, hllen⟩ := hat c rfl
    rw [length_nil, Nat.zero_add] at hllen
    have hsafe' : l.length * g.clusterSize + offset % g.clusterSize + data.length ≤
        (cs ++ ys).length * g.clusterSize ∨ AppendSafe g dev u.disk (cs ++ ys) := by
      rw [hllen, hmod]
      rcases hwhy with ⟨rfl, hd⟩ | hok
      · rw [hd, append_nil]
        exact hsafe
      · exact .inr (.inl hok)
    obtain ⟨r, w, f'', zs, hrun', htrack', hdone⟩ := writeClusters_apply hr hw ha hl htrack
      (Nat.mod_lt offset clusterSize_pos) hne le_rfl hsafe'
    rw [bind_of_some hrun]
    cases r with
    | none =>
      rw [bind_of_none hrun']
      exact ⟨none, w, f'', _, rfl, htrack'.toRewriting, fun _ => htrack', by simp⟩
    | some _ =>
      obtain ⟨hwin, hfit⟩ := hdone rfl
      rw [hllen, hmod] at hwin hfit
      have hu32 := u32_of_le (hfit.trans htrack'.fits)
      obtain ⟨r, w', f₃, hstore, hrew, hworks, hend⟩ := storeSize_apply hr hw ha htrack' hfit
      rw [bind_of_some hrun', hu32]
      cases r with
      | none =>
        rw [bind_of_none hstore]
        exact ⟨none, w', f₃, _, rfl, hrew, fun hok => by simpa using hworks hok, by simp⟩
      | some _ =>
        obtain ⟨htrack₃, hsize, hbytes⟩ := hend rfl
        rw [bind_of_some hstore]
        refine ⟨some data.length, w', f₃, _, rfl, hrew, fun _ => htrack₃, fun n hn => ?_⟩
        refine ⟨(Option.some.inj hn).symm, htrack₃, hsize, ?_⟩
        rw [fileBytes, hbytes _ hfit, hwin, window_append ys hoff,
          window_of_ge (fun x hx => h.chain.data hx) hge hoff]
        rfl

end

end Loops
end Fat32
