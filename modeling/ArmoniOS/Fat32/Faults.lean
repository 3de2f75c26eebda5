import ArmoniOS.Fat32.RootRuns

/-! One failing sector write: which operations can leave a cluster behind that is marked free
while a live directory entry leads to it, and which cannot. -/
namespace Fat32
open Exec LinkedChain List Option

namespace Device

/-- Everything works except write number `k`. -/
def failAt (k : ℕ) : Device := ⟨fun _ => true, true, fun n => decide (n ≠ k)⟩

/-- From write number `w` on, `n` writes succeed and the one after them fails. -/
structure FailsAfter (dev : Device) (w n : ℕ) : Prop where
  reads : dev.ReadsOk
  writable : dev.writable = true
  ok : ∀ i < n, dev.writeOk (w + i) = true
  fails : dev.writeOk (w + n) = false

theorem failAt_failsAfter (w n : ℕ) : (failAt (w + n)).FailsAfter w n where
  reads _ := rfl
  writable := rfl
  ok i hi := decide_eq_true (by omega)
  fails := decide_eq_false (by simp)

theorem FailsAfter.later {dev : Device} {w m n : ℕ} (h : dev.FailsAfter w (m + n)) :
    dev.FailsAfter (w + m) n where
  reads := h.reads
  writable := h.writable
  ok i hi := by
    rw [Nat.add_assoc]
    exact h.ok _ (by omega)
  fails := by
    rw [Nat.add_assoc]
    exact h.fails

end Device

variable {g : Geometry} {dev : Device} {scope : Owner → Prop} {d d' d₀ : Disk} {p p₀ : Slot}
  {cs cs₀ l rest : List ℕ} {c y : ℕ} {v : Volume} {f : FileHandle}

def NoFreeReached (g : Geometry) (scope : Owner → Prop) (d : Disk) : Prop :=
  ∀ o, Owns g scope d o → ∀ x, Reach (fatValue g d) g.clusterIsData (startOf g d o) x →
    fatValue g d x ≠ 0

theorem Chained.noFreeReached (hc : Chained g scope d) : NoFreeReached g scope d := by
  intro o ho x hx
  obtain ⟨cs, hcs⟩ := hc.exists_chain ho
  rcases hcs with ⟨hlt, -⟩ | hcs
  · have := hx.head_cell.1
    omega
  · obtain ⟨rest, rfl⟩ := hcs.exists_cons
    have hmem := hcs.linked.mem_of_reach (fun z hz => hz.not_eoc) hx
    exact hcs.fatValue_ne_zero hmem

/-- An update of the file at `p₀` that stopped with the end of its chain linked to a cluster
still marked free. -/
def Stranded (g : Geometry) (d₀ : Disk) (p₀ : Slot) (cs₀ : List ℕ) (d' : Disk) : Prop :=
  ∃ dev d l c y, Rewriting g dev d₀ p₀ cs₀ d (l ++ [c]) ∧ g.clusterIsData y ∧
    fatValue g d y = 0 ∧ d' = patchCopies g d c y 1

theorem Stranded.not_noFreeReached (hc : Chained g scope d₀) (hp : FileIn g scope d₀ p₀)
    (hcs : HasChain g d₀ (some p₀) cs₀) (h : Stranded g d₀ p₀ cs₀ d') :
    ¬ NoFreeReached g scope d' := by
  obtain ⟨dev, d, l, c, y, h, hy, h0, rfl⟩ := h
  have ha := (hp.site hcs).apart hc
  have hone := g.fatCount_pos
  have hcmem : c ∈ l ++ [c] := by simp
  have hcd := h.chain.data hcmem
  have hne : y ≠ c := by
    rintro rfl
    exact h.chain.fatValue_ne_zero hcmem h0
  have hvalue : ∀ x, g.clusterIsData x → fatValue g (patchCopies g d c y 1) x =
      if x = c then y else fatValue g d x := by
    intro x hx
    rw [fatValue_patchCopies hcd hx (data_lt hy) hone]
    simp
  have hentry : entryAt (patchCopies g d c y 1) p₀ = entryAt d p₀ := ha.entryAt_patchCopies hcd hone
  have hfile : FileIn g scope (patchCopies g d c y 1) p₀ := by
    refine hp.survives hc hcs (h.touches.trans ?_) (by rw [hentry, h.name]) (by rw [hentry, h.attr])
    exact ha.touches_patchCopies hcd (h.loose c hcmem) (data_lt hy) hone
  have hchain := h.chain.chainFrom (ne_nil_of_mem hcmem)
  have hlast : Reach (fatValue g (patchCopies g d c y 1)) g.clusterIsData
      (startOf g (patchCopies g d c y 1) (some p₀)) c := by
    rw [startOf, hentry]
    refine hchain.linked.reach_last hchain.head hchain.data fun x hx => ?_
    have hxc : x ≠ c := ne_of_mem_of_not_mem hx hchain.notMem_init
    rw [hvalue x (hchain.data x (by simp [hx])), if_neg hxc]
  have hlink : fatValue g (patchCopies g d c y 1) c = y := by rw [hvalue c hcd, if_pos rfl]
  intro hno
  refine hno (some p₀) (.inr ⟨p₀, rfl, hfile⟩) y ?_ ?_
  · have hstep := hlast.next (by rw [hlink]; exact hy)
    rwa [hlink] at hstep
  · rw [hvalue y hy, if_neg hne, h0]

/-- At the end of the chain the first write links the new cluster; then the next one fails. -/
theorem advance_torn (hdev : dev.FailsAfter v.writes 1) (hl : cs = l ++ [c])
    (h : Tracking g dev d₀ p₀ cs₀ (v, f) cs) (hfree : freeCluster g v.disk ≠ none)
    (hroom : (cs.length + 1) * g.clusterSize ≤ uint32Max) :
    ∃ w f', advanceOrAllocateCluster g dev c (v, f) = (none, (w, f')) ∧
      Stranded g d₀ p₀ cs₀ w.disk := by
  obtain ⟨y, hfree⟩ := ne_none_iff_exists'.mp hfree
  obtain ⟨hy, h0⟩ := freeCluster_some g hfree
  have hchain := h.chain_at hl
  rw [advance_room hdev.reads hl h hroom]
  generalize hu : v.load (g.fatEntryLba 0 c) = u
  have hq : v.Quiet u := hu ▸ v.quiet_load _
  obtain ⟨u', w, j, hqu, hp, hstop, hthen⟩ := allocateCluster_append hdev.reads
    hdev.writable hchain.head_data (by rw [hq.1]; exact hchain.nextCluster_singleton.2)
    (by rw [hq.1]; exact hfree)
  have hq' := hq.trans hqu
  have hcount := hq'.2
  have hone := g.fatCount_pos.ne'
  have hj : j = 1 := by
    rcases Nat.lt_trichotomy j 1 with hlt | heq | hgt
    · obtain rfl : j = 0 := by omega
      have hbad := hp.fail (by omega)
      rw [hcount, hdev.ok 0 one_pos] at hbad
      simp at hbad
    · exact heq
    · have hbad := hp.ok 1 hgt
      rw [hcount, hdev.fails] at hbad
      simp at hbad
  subst hj
  have hwd : w.disk = patchCopies g v.disk c y 1 := by rw [hp.disk, hq'.1]
  have hstranded : Stranded g d₀ p₀ cs₀ w.disk :=
    ⟨dev, v.disk, l, c, y, hl ▸ h.toRewriting, hy, h0, hwd⟩
  by_cases hall : 1 = g.fatCount
  · obtain ⟨w', j', hp', hrun⟩ := hthen hall
    have hj' : j' = 0 := by
      by_contra hne
      have hbad := hp'.ok 0 (by omega)
      rw [hp.writes hall, hcount, ← hall, Nat.add_zero, hdev.fails] at hbad
      simp at hbad
    rw [if_neg (by omega)] at hrun
    rw [bind_of_none (onVolume_apply hrun)]
    refine ⟨w', f, rfl, ?_⟩
    rw [hp'.disk, hj']
    exact hstranded
  · rw [bind_of_none (onVolume_apply (hstop hall))]
    exact ⟨w, f, rfl, hstranded⟩

theorem writeSectors_count (g : Geometry) {sectors : List ℕ}
    (hs : ∀ s ∈ sectors, s < g.sectorsPerCluster) (offset : ℕ) (data : List UInt8) :
    ∃ n, ∀ (dev : Device) (v : Volume) (c : ℕ), dev.ReadsOk → dev.writable = true →
      g.clusterIsData c → (∀ i < n, dev.writeOk (v.writes + i) = true) →
      ∃ more w, writeSectors g dev c sectors offset data v = (some more, w) ∧
        w.writes = v.writes + n := by
  induction sectors generalizing offset data with
  | nil => exact ⟨0, fun dev v c _ _ _ _ => ⟨data, v, rfl, rfl⟩⟩
  | cons s sectors ih =>
    have ih := ih fun t ht => hs t (by simp [ht])
    by_cases h0 : data = []
    · refine ⟨0, fun dev v c _ _ _ _ => ⟨data, v, ?_, rfl⟩⟩
      rw [writeSectors, if_pos h0]
      rfl
    · by_cases hskip : sectorSize ≤ offset
      · obtain ⟨n, hn⟩ := ih (offset - sectorSize) data
        refine ⟨n, fun dev v c hr hw hc hok => ?_⟩
        rw [writeSectors, if_neg h0, if_pos hskip]
        exact hn dev v c hr hw hc hok
      · obtain ⟨n, hn⟩ := ih 0 (data.drop (min (sectorSize - offset) data.length))
        refine ⟨1 + n, fun dev v c hr hw hc hok => ?_⟩
        rw [writeSectors, if_neg h0, if_neg hskip]
        obtain ⟨u, hcount, hrun, -⟩ := writeDataSector_apply hr hw
          (g.sectorLba_lt hc (hs s (by simp))) offset
          (data.take (min (sectorSize - offset) data.length)) v
        have hfirst : dev.writeOk v.writes = true := hok 0 (by omega)
        rw [if_pos hfirst] at hrun
        rw [bind_of_some hrun]
        obtain ⟨more, w, hrun', hcount'⟩ := hn dev u c hr hw hc fun i hi => by
          rw [hcount, Nat.add_assoc]
          exact hok _ (by omega)
        exact ⟨more, w, hrun', by omega⟩

variable {fuel skip offset : ℕ} {data : List UInt8}

section Loops
variable (ha : Apart g (Loose g d₀ cs₀) p₀)

include ha

/-- A write that does not fit into the chain appends a cluster after a number of writes that
does not depend on the device. -/
theorem writeClusters_torn (hcs : cs = l ++ c :: rest)
    (hskip : skip < g.clusterSize) (hfuel : data.length ≤ fuel)
    (hlong : cs.length * g.clusterSize < l.length * g.clusterSize + skip + data.length)
    (hroom : (cs.length + 1) * g.clusterSize ≤ uint32Max) :
    ∃ n, ∀ (dev : Device) (v : Volume) (f : FileHandle), dev.FailsAfter v.writes n →
      Tracking g dev d₀ p₀ cs₀ (v, f) cs → freeCluster g v.disk ≠ none →
      ∃ w f', writeClusters g dev fuel c skip data (v, f) = (none, (w, f')) ∧
        Stranded g d₀ p₀ cs₀ w.disk := by
  have hlen : cs.length * g.clusterSize =
      l.length * g.clusterSize + g.clusterSize + rest.length * g.clusterSize := by
    rw [hcs, length_append, length_cons]
    ring
  induction fuel generalizing c skip data l rest with
  | zero => omega
  | succ fuel ih =>
    obtain ⟨m, hm⟩ := writeSectors_count g
      (fun s hs => mem_range.mp hs : ∀ s ∈ range g.sectorsPerCluster, _) skip data
    have hmore : data.drop (g.clusterSize - skip) ≠ [] := by
      intro hnil
      have := drop_eq_nil_iff.mp hnil
      omega
    -- one round, on any device that lets its writes through
    have hround : ∀ (dev : Device) (v : Volume) (f : FileHandle) (n : ℕ),
        dev.FailsAfter v.writes (m + n) → Tracking g dev d₀ p₀ cs₀ (v, f) cs →
        ∃ w, writeClusters g dev (fuel + 1) c skip data (v, f) =
            (advanceOrAllocateCluster g dev c >>= fun next =>
              writeClusters g dev fuel next 0 (data.drop (g.clusterSize - skip))) (w, f) ∧
          dev.FailsAfter w.writes n ∧ Tracking g dev d₀ p₀ cs₀ (w, f) cs ∧
          freeCluster g w.disk = freeCluster g v.disk := by
      intro dev v f n hdev h
      have hc := h.chain.data (show c ∈ cs by simp [hcs])
      obtain ⟨more, w, hrun, hcount⟩ := hm dev v c hdev.reads hdev.writable hc fun i hi =>
        hdev.ok i (by omega)
      obtain ⟨r, w', hrun', htrack, hfat, hsome⟩ :=
        writeRound_apply hdev.reads hdev.writable ha hcs h hskip data
      obtain ⟨rfl, rfl⟩ : some more = r ∧ w = w' := by simpa using hrun.symm.trans hrun'
      obtain ⟨rfl, -⟩ := hsome more rfl
      refine ⟨w, ?_, hcount ▸ hdev.later, htrack, freeCluster_congr hfat⟩
      rw [writeClusters, if_neg fun hbad => data_not_end hc hbad.symm,
        bind_of_some (onVolume_apply hrun), if_neg hmore]
    cases rest with
    | nil =>
      refine ⟨m + 1, fun dev v f hdev h hfree => ?_⟩
      obtain ⟨w, hstep, hdev', htrack, hsame⟩ := hround dev v f 1 hdev h
      obtain ⟨w', f', hrun, hstranded⟩ := advance_torn hdev' hcs htrack (by rwa [hsame]) hroom
      exact ⟨w', f', hstep.trans (bind_of_none hrun), hstranded⟩
    | cons b rest =>
      have hnext : (l ++ [c]).length * g.clusterSize = l.length * g.clusterSize + g.clusterSize := by
        rw [length_append, length_singleton, Nat.add_mul, Nat.one_mul]
      have hdrop := length_drop (l := data) (i := g.clusterSize - skip)
      rw [length_cons, Nat.add_mul, Nat.one_mul] at hlen
      obtain ⟨n, hn⟩ := ih (show cs = (l ++ [c]) ++ b :: rest by simp [hcs]) clusterSize_pos
        (show (data.drop (g.clusterSize - skip)).length ≤ fuel by omega) (by omega) (by omega)
      refine ⟨m + n, fun dev v f hdev h hfree => ?_⟩
      obtain ⟨w, hstep, hdev', htrack, hsame⟩ := hround dev v f n hdev h
      have hq := w.quiet_load (g.fatEntryLba 0 c)
      rw [hstep, bind_of_some (advance_inside hdev.reads (htrack.chain_at hcs))]
      refine hn dev _ f ?_ (htrack.quiet hq) ?_
      · exact hdev'
      · rw [hq.1, hsame]
        exact hfree

theorem writeTail_torn (hne : cs ≠ []) (hoff : offset ≤ cs.length * g.clusterSize)
    (hlong : cs.length * g.clusterSize < offset + data.length)
    (hroom : (cs.length + 1) * g.clusterSize ≤ uint32Max) :
    ∃ n, ∀ (dev : Device) (v : Volume) (f : FileHandle), dev.FailsAfter v.writes n →
      Tracking g dev d₀ p₀ cs₀ (v, f) cs → freeCluster g v.disk ≠ none →
      ∃ w f', writeTail g dev offset data f.firstCluster (v, f) = (none, (w, f')) ∧
        Stranded g d₀ p₀ cs₀ w.disk := by
  have hmod := Nat.div_add_mod' offset g.clusterSize
  have hround : offset / g.clusterSize ≤ cs.length := Nat.div_le_of_le_mul (by rwa [Nat.mul_comm])
  by_cases hin : offset / g.clusterSize < cs.length
  · -- the data starts in a cluster of the chain
    have hsplit := take_append_drop (offset / g.clusterSize) cs
    rw [drop_eq_getElem_cons hin] at hsplit
    have hllen := length_take_of_le hin.le
    generalize cs.take (offset / g.clusterSize) = l at hsplit hllen
    generalize cs[offset / g.clusterSize] = c at hsplit
    generalize cs.drop (offset / g.clusterSize + 1) = rest at hsplit
    obtain ⟨n, hn⟩ := writeClusters_torn ha hsplit.symm
      (Nat.mod_lt offset clusterSize_pos) (le_refl data.length) (by rw [hllen, hmod]; exact hlong) hroom
    refine ⟨n, fun dev v f hdev h hfree => ?_⟩
    obtain ⟨t, ht⟩ := (h.chainFrom hne).exists_cons
    obtain ⟨w, c', l', rest', hrun, hq, heq, hlen'⟩ := writeSkip_inside (l := []) hdev.reads ht h
      (show offset / g.clusterSize ≤ t.length by rw [ht] at hin; simpa [Nat.lt_succ_iff] using hin)
    obtain ⟨rfl, hcons⟩ := append_inj (hsplit.trans heq) (by rw [hlen', hllen]; simp)
    obtain ⟨rfl, rfl⟩ := cons_eq_cons.mp hcons
    obtain ⟨w', f', hrun', hstranded⟩ := hn dev w f (hq.2 ▸ hdev) (h.quiet hq) (hq.1 ▸ hfree)
    exact ⟨w', f', (bind_of_some hrun).trans (bind_of_none hrun'), hstranded⟩
  · refine ⟨1, fun dev v f hdev h hfree => ?_⟩
    obtain ⟨t, ht⟩ := (h.chainFrom hne).exists_cons
    obtain ⟨u, c', l', hskip, hq, hl'⟩ := writeSkip_end (l := []) hdev.reads ht h
    obtain ⟨w, f', hrun, hstranded⟩ :=
      advance_torn (hq.2 ▸ hdev) hl' (h.quiet hq) (hq.1 ▸ hfree) hroom
    rw [← hskip] at hrun
    have hk : offset / g.clusterSize = t.length + 1 := by
      rw [ht, length_cons] at hin hround
      omega
    rw [writeTail, hk]
    exact ⟨w, f', bind_of_none hrun, hstranded⟩

end Loops

def headMarked (g : Geometry) (d : Disk) : Disk :=
  match freeCluster g d with
  | some y => setFat g d y clusterEoc
  | none => d

/-- A write that ends at `size` links no further cluster to the file of `f`: the clusters it has,
or the first one it is given, are enough, or none is free, or the capacity would overflow. -/
def NoAppend (g : Geometry) (d : Disk) (f : FileHandle) (size : ℕ) : Prop :=
  size ≤ max f.capacity g.clusterSize ∨
    freeCluster g (if f.firstCluster < 2 then headMarked g d else d) = none ∨
      uint32Max < max f.capacity g.clusterSize + g.clusterSize

theorem NoAppend.writeSafe {size : ℕ} (hcs : HasChain g d (some p) cs)
    (h : NoAppend g d (handleAt g d p cs) size) : WriteSafe g dev d cs size := by
  unfold NoAppend headMarked handleAt at h
  unfold WriteSafe AppendSafe bootstrapped
  rcases hcs with ⟨hlt, rfl⟩ | hcs
  · have hlt : (entryAt d p).firstCluster < 2 := hlt
    rw [if_pos hlt] at h
    rw [if_pos rfl]
    cases hfree : freeCluster g d with
    | none => exact .inr (.inr (.inl hfree))
    | some y =>
      simp only [hfree, length_nil, Nat.zero_mul, Nat.zero_max] at h
      simp only [length_singleton, Nat.one_mul, Nat.add_mul]
      exact h.imp id .inr
  · have hge : ¬ (entryAt d p).firstCluster < 2 := not_lt.mpr hcs.head_data.1
    have hpos : g.clusterSize ≤ cs.length * g.clusterSize :=
      Nat.le_mul_of_pos_left _ (length_pos_of_ne_nil hcs.ne_nil)
    rw [if_neg hge, Nat.max_eq_left hpos] at h
    rw [if_neg hcs.ne_nil, Nat.add_mul, Nat.one_mul]
    exact h.imp id .inr

theorem fat32Write_torn (ha : Apart g (Loose g d cs) p)
    (hcs : HasChain g d (some p) cs) (hsize : (entryAt d p).size ≤ cs.length * g.clusterSize)
    (hfits : cs.length * g.clusterSize ≤ uint32Max) (hoff : offset ≤ (entryAt d p).size)
    (hdata : data ≠ []) (happend : ¬ NoAppend g d (handleAt g d p cs) (offset + data.length)) :
    ∃ n, ∀ (dev : Device) (v : Volume), v.disk = d → dev.FailsAfter v.writes n →
      ∃ w f', fat32Write g dev offset data (v, handleAt g d p cs) = (none, (w, f')) ∧
        Stranded g d p cs w.disk := by
  unfold NoAppend at happend
  push Not at happend
  obtain ⟨hlong, hfree, hroom⟩ := happend
  have hstart : ∀ (dev : Device) (v : Volume), v.disk = d → dev.writable = true →
      Tracking g dev d p cs (v, handleAt g d p cs) cs ∧
      fat32Write g dev offset data (v, handleAt g d p cs) =
        (bootstrapFirstCluster g dev >>= fun _ => currentFile >>= fun file =>
          writeTail g dev offset data file.firstCluster) (v, handleAt g d p cs) := by
    rintro dev v rfl hw
    refine ⟨⟨.start hcs hsize, rfl, hfits⟩, ?_⟩
    have hroom := ha.room
    unfold sectorSize at hroom
    have hguard : ¬ (dev.writable = false ∨ (handleAt g v.disk p cs).size < offset ∨
        (handleAt g v.disk p cs).capacity < offset ∨
        g.totalSectors ≤ (handleAt g v.disk p cs).dirLba ∨
        sectorSize < u32 ((handleAt g v.disk p cs).dirOffset + 32)) := by
      have hu32 : u32 (p.2 + 32) = p.2 + 32 := u32_of_lt (by omega)
      have hlt := ha.lt
      simp only [handleAt, hw, hu32, sectorSize]
      simp only [Bool.true_eq_false, false_or]
      omega
    rw [fat32Write, bind_of_some currentFile_apply, if_neg hguard, if_neg hdata]
    rfl
  rcases hcs with ⟨hlt, rfl⟩ | hchain
  · -- the file gets its first cluster, then the next one is linked to that
    have hlt : (handleAt g d p []).firstCluster < 2 := hlt
    rw [if_pos hlt] at hfree
    obtain ⟨y, hy⟩ : ∃ y, freeCluster g d = some y := by
      refine ne_none_iff_exists'.mp fun hnone => hfree ?_
      rw [headMarked, hnone]
      exact hnone
    have hhead : headMarked g d = setFat g d y clusterEoc := by rw [headMarked, hy]
    have hcap : max (handleAt g d p []).capacity g.clusterSize = [y].length * g.clusterSize := by
      simp [handleAt]
    rw [hcap] at hlong hroom
    have h0 : offset = 0 := by simpa using hoff.trans hsize
    obtain ⟨n, hn⟩ := writeTail_torn ha (cons_ne_nil y [])
      (show offset ≤ [y].length * g.clusterSize by omega) hlong
      (by rw [Nat.add_mul, Nat.one_mul]; exact hroom)
    refine ⟨(g.fatCount + 1) + n, fun dev v hv hdev => ?_⟩
    obtain ⟨htrack, hrun⟩ := hstart dev v hv hdev.writable
    obtain ⟨r, w, f', hboot, hcase, hcount⟩ := bootstrap_empty hdev.reads hdev.writable ha htrack
    obtain ⟨rfl, hww⟩ := hcount (by rw [hv, hy]; simp) fun i hi => hdev.ok i (by omega)
    obtain ⟨y', -, hy', htrack', hfat⟩ := hcase.resolve_left (by simp)
    rw [hv] at hy' hfat
    obtain rfl : y = y' := some.inj (hy.symm.trans hy')
    obtain ⟨w', f'', hrun', hstranded⟩ := hn dev w f' (hww ▸ hdev.later) htrack'
      (by rw [freeCluster_congr hfat, ← hhead]; exact hfree)
    refine ⟨w', f'', ?_, hstranded⟩
    rw [hrun, bind_of_some hboot, bind_of_some currentFile_apply]
    exact hrun'
  · have hge : ¬ (handleAt g d p cs).firstCluster < 2 := not_lt.mpr hchain.head_data.1
    have hpos : g.clusterSize ≤ cs.length * g.clusterSize :=
      Nat.le_mul_of_pos_left _ (length_pos_of_ne_nil hchain.ne_nil)
    have hcap : max (handleAt g d p cs).capacity g.clusterSize = cs.length * g.clusterSize :=
      Nat.max_eq_left hpos
    rw [if_neg hge] at hfree
    rw [hcap] at hlong hroom
    obtain ⟨n, hn⟩ := writeTail_torn ha hchain.ne_nil (hoff.trans hsize) hlong
      (by rw [Nat.add_mul, Nat.one_mul]; exact hroom)
    refine ⟨n, fun dev v hv hdev => ?_⟩
    obtain ⟨htrack, hrun⟩ := hstart dev v hv hdev.writable
    obtain ⟨w, f', hrun', hstranded⟩ := hn dev v _ hdev htrack (by rw [hv]; exact hfree)
    refine ⟨w, f', ?_, hstranded⟩
    rw [hrun, bind_of_some (bootstrap_skip htrack hchain.ne_nil), bind_of_some currentFile_apply]
    exact hrun'

/-- A deletion whose last write fails has released the chain of an entry that is still live. -/
theorem fat32Delete_torn {name : List UInt8} (hc : Chained g scope v.disk)
    (hp : FileIn g scope v.disk p) (hcs : HasChain g v.disk (some p) cs) (hne : cs ≠ [])
    (himage : openRootImage g v.disk name = some (handleAt g v.disk p cs))
    (hdev : dev.FailsAfter v.writes (cs.length * g.fatCount)) :
    ¬ NoFreeReached g scope (fat32Delete g dev name v).2.disk := by
  have ha := (hp.site hcs).apart hc
  have hdata : ∀ x ∈ cs, g.clusterIsData x := fun x hx => hcs.data hx
  obtain ⟨r, w, hrun, hd⟩ := fat32Delete_apply hdev.reads hdev.writable himage hcs ha.lt hdev.ok
  rw [hdev.fails, if_neg (by decide)] at hd
  rw [hrun]
  rw [hd]
  have hentry : entryAt (clearChain g v.disk cs) p = entryAt v.disk p := by
    rw [entryAt, entryAt, clearChain_of_ge hdata ha.ge]
  have hfile :=
    hp.survives hc hcs (ha.touches_clearChain hdata fun x hx => .inr hx) (by rw [hentry])
      (by rw [hentry])
  have hchain := hcs.chainFrom hne
  have hhead := mem_of_mem_head? hchain.head
  have hstart : startOf g (clearChain g v.disk cs) (some p) = startOf g v.disk (some p) := by
    rw [startOf, startOf, hentry]
  intro hno
  refine hno (some p) (.inr ⟨p, rfl, hfile⟩) (startOf g v.disk (some p)) ?_ ?_
  · rw [hstart]
    exact .start hchain.head_data
  · rw [fatValue_clearChain hdata hchain.head_data, if_pos hhead]

/-- One failing write cannot leave a free cluster in use: the operation neither releases a chain
nor links a further cluster to a file. -/
def RootOp.FaultSafe (g : Geometry) (d : Disk) : RootOp → Prop
  | .write name offset data => ∀ f, openRootImage g d name = some f → offset ≤ f.size →
      data ≠ [] → NoAppend g d f (offset + data.length)
  | .delete name => ∀ f, openRootImage g d name = some f → f.firstCluster < 2
  | .create _ | .rename _ _ => True

/-- Exactly the operations that neither release a chain nor append to one leave no cluster behind
that is marked free while a live entry leads to it, whichever single write fails. Creating a file
never does, provided it reuses a deleted entry or no stale entry stands behind the end marker. -/
theorem single_fault_leaves_no_free_cluster_iff (g : Geometry) (scope : Owner → Prop)
    (hscope : scope none) (v : Volume) (h : WellFormed g scope v.disk) (op : RootOp)
    (hstale : ∀ name, op = .create name → ∀ p, freeSlot g v.disk = some p →
      (entryAt v.disk p).mark = deletedMark ∨ Sealed g v.disk) :
    (∀ k, NoFreeReached g scope (op.step g (.failAt k) v).disk) ↔ op.FaultSafe g v.disk := by
  have hc := h.toChained
  have hr : ∀ k, (Device.failAt k).ReadsOk := fun _ _ => rfl
  cases op with
  | create name =>
    refine iff_of_true (fun k => ?_) trivial
    exact (create_carries (hr k) hc name (hstale name rfl)).1.chained.noFreeReached
  | rename oldName newName =>
    refine iff_of_true (fun k => ?_) trivial
    exact (rename_carries (hr k) hc hscope oldName newName).1.chained.noFreeReached
  | delete name =>
    constructor
    · intro hno f hf
      obtain ⟨wanted, -, p, hchoice, cs, hcs, -, -, rfl⟩ := openRootImage_eq_some.mp hf
      by_contra hge
      have hne : cs ≠ [] := by
        rintro rfl
        rcases hcs with ⟨hlt, -⟩ | hcs
        · exact hge hlt
        · exact hcs.ne_nil rfl
      exact fat32Delete_torn hc (rootChoice_fileIn hscope hchoice) hcs hne hf
        (Device.failAt_failsAfter _ _) (hno _)
    · intro hsafe k
      exact (delete_carries (hr k) hc hscope name (.inr hsafe)).1.chained.noFreeReached
  | write name offset data =>
    constructor
    · intro hno f hf hoff hdata
      obtain ⟨wanted, -, p, hchoice, cs, hcs, hsize, hfits, rfl⟩ := openRootImage_eq_some.mp hf
      have hp := rootChoice_fileIn hscope hchoice
      by_contra happend
      obtain ⟨n, hn⟩ := fat32Write_torn ((hp.site hcs).apart hc) hcs hsize hfits hoff hdata happend
      obtain ⟨u, hopen, hq⟩ := (fat32OpenRoot_reads g (hr (v.writes + n)) name).run v
      rw [hf] at hopen
      obtain ⟨w, f', hrun, hstranded⟩ := hn (.failAt (v.writes + n)) u hq.1
        (by rw [hq.2]; exact Device.failAt_failsAfter v.writes n)
      have hbad := hno (v.writes + n)
      simp only [RootOp.step, hopen, hrun] at hbad
      exact hstranded.not_noFreeReached hc hp hcs hbad
    · intro hsafe k
      rcases hopen : fat32OpenRoot g (.failAt k) name v with ⟨_ | f, u⟩
      · have hq := ((fat32OpenRoot_reads g (hr k) name).of_eq hopen).2
        simp only [RootOp.step, hopen]
        rw [hq.1]
        exact hc.noFreeReached
      · have hf := ((fat32OpenRoot_reads g (hr k) name).of_eq hopen).1.symm
        simp only [RootOp.step, hopen]
        refine (write_carries (hr k) hc hscope hopen fun cs hcs hoff hdata => ?_).1.chained.noFreeReached
        have hno := hsafe f hf hoff hdata
        obtain ⟨wanted, -, p, -, cs', hcs', -, -, rfl⟩ := openRootImage_eq_some.mp hf
        obtain rfl : cs' = cs := hcs'.unique hcs
        exact hno.writeSafe hcs'

section Small
open SmallVolume

theorem single_fault_twoFiles : (∀ k, NoFreeReached geometry (fun o => o = none)
      ((RootOp.write (bytes "a.txt") 2 (bytes "xyz")).step geometry (.failAt k) twoFiles).disk) ∧
    ∀ k, NoFreeReached geometry (fun o => o = none)
      ((RootOp.create (bytes "c.txt")).step geometry (.failAt k) twoFiles).disk := by
  have h := twoFiles_wellFormed fun o => o = none
  have hopen : openRootImage geometry twoFiles.disk (bytes "a.txt") = some ⟨3, 2, 0, 512, 5⟩ := by
    decide +kernel
  have hsealed : Sealed geometry twoFiles.disk := by
    unfold Sealed
    decide +kernel
  constructor
  · refine (single_fault_leaves_no_free_cluster_iff geometry (fun o => o = none) rfl twoFiles h
      (.write (bytes "a.txt") 2 (bytes "xyz")) (by simp)).mpr ?_
    intro f hf _ _
    obtain rfl := some.inj (hopen.symm.trans hf)
    exact .inl (by decide +kernel)
  · exact (single_fault_leaves_no_free_cluster_iff geometry (fun o => o = none) rfl twoFiles h
      (.create (bytes "c.txt")) fun _ _ _ _ => .inr hsealed).mpr trivial

/-- Appending to `A.TXT` with the third write failing leaves cluster 5 linked but marked free, and
the next file created gets it too. Deleting `B.TXT` with the second write failing leaves its entry
live and its cluster free. -/
theorem one_failed_write_frees_cluster_in_use :
    WellFormed geometry (fun o => o = none) twoFiles.disk ∧
    ¬ NoFreeReached geometry (fun o => o = none)
      ((RootOp.write (bytes "a.txt") 5 (replicate 600 7)).step geometry (.failAt 2) twoFiles).disk ∧
    ((fat32Create geometry .reliable (bytes "c.txt")
      ((RootOp.write (bytes "a.txt") 5 (replicate 600 7)).step geometry (.failAt 2)
        twoFiles)).1.map FileHandle.firstCluster) = some 5 ∧
    ¬ NoFreeReached geometry (fun o => o = none)
      ((RootOp.delete (bytes "b.txt")).step geometry (.failAt 1) twoFiles).disk := by
  refine ⟨twoFiles_wellFormed _, ?_, by decide +kernel, ?_⟩
  · generalize hd : ((RootOp.write (bytes "a.txt") 5 (replicate 600 7)).step geometry
      (.failAt 2) twoFiles).disk = d
    have hfile : FileIn geometry (fun o => o = none) d (2, 0) := by
      rw [← hd]
      exact ⟨none, rfl, .root, by decide +kernel, by decide +kernel⟩
    have hchain : startOf geometry d (some (2, 0)) = 3 ∧ fatValue geometry d 3 = 5 ∧
        fatValue geometry d 5 = 0 := by
      rw [← hd]
      decide +kernel
    obtain ⟨hstart, hnext, hfree⟩ := hchain
    intro hno
    refine hno (some (2, 0)) (.inr ⟨_, rfl, hfile⟩) 5 ?_ hfree
    rw [hstart, ← hnext]
    exact .next (.start (by decide +kernel)) (by rw [hnext]; decide +kernel)
  · generalize hd : ((RootOp.delete (bytes "b.txt")).step geometry (.failAt 1) twoFiles).disk = d
    have hfile : FileIn geometry (fun o => o = none) d (2, 32) := by
      rw [← hd]
      exact ⟨none, rfl, .root, by decide +kernel, by decide +kernel⟩
    have hchain : startOf geometry d (some (2, 32)) = 4 ∧ fatValue geometry d 4 = 0 := by
      rw [← hd]
      decide +kernel
    obtain ⟨hstart, hfree⟩ := hchain
    intro hno
    refine hno (some (2, 32)) (.inr ⟨_, rfl, hfile⟩) 4 ?_ hfree
    rw [hstart]
    exact .start (by decide +kernel)

end Small
end Fat32
