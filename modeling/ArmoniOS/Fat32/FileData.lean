import ArmoniOS.Fat32.EntryUpdate

/-! File contents: the bytes of a cluster chain, what `fat32_read` returns of them and what the
sector loop of `fat32_write` makes of one cluster. -/
namespace Fat32
open Exec ByteBlock Function List

variable (g : Geometry)

def clusterByte (d : Disk) (c i : ℕ) : UInt8 :=
  (d (g.sectorLba c (i / sectorSize))).get (i % sectorSize)

/-- Byte `j` of the data stored along the chain `cs`. -/
def fileByte (d : Disk) (cs : List ℕ) (j : ℕ) : UInt8 :=
  clusterByte g d (cs.getD (j / g.clusterSize) 0) (j % g.clusterSize)

def fileBytes (d : Disk) (cs : List ℕ) (size : ℕ) : List UInt8 :=
  window (fileByte g d cs) 0 size

variable {g} {d d' : Disk} {c : ℕ} {cs : List ℕ}

theorem clusterSize_pos : 0 < g.clusterSize := Nat.mul_pos g.sectorsPerCluster_pos (by decide)

theorem clusterSize_le : g.clusterSize ≤ uint32Max := by
  have h := Nat.mul_le_mul_right sectorSize g.sectorsPerCluster_le
  exact h.trans (by decide)

variable {i : ℕ}

theorem clusterByte_add (s : ℕ) (hi : i < 512) :
    clusterByte g d c (s * 512 + i) = (d (g.sectorLba c s)).get i := by
  have h1 : (s * 512 + i) / sectorSize = s := by unfold sectorSize; omega
  have h2 : (s * 512 + i) % sectorSize = i := by unfold sectorSize; omega
  rw [clusterByte, h1, h2]

theorem fileByte_drop (k j : ℕ) :
    fileByte g d (cs.drop k) j = fileByte g d cs (k * g.clusterSize + j) := by
  have hq : (k * g.clusterSize + j) / g.clusterSize = k + j / g.clusterSize := by
    rw [Nat.mul_comm, Nat.mul_add_div clusterSize_pos]
  have hm : (k * g.clusterSize + j) % g.clusterSize = j % g.clusterSize := by
    rw [Nat.mul_comm, Nat.mul_add_mod]
  rw [fileByte, fileByte, hq, hm]
  simp only [getD_eq_getElem?_getD, getElem?_drop]

theorem fileByte_head (rest : List ℕ) (hi : i < g.clusterSize) :
    fileByte g d (c :: rest) i = clusterByte g d c i := by
  rw [fileByte, Nat.div_eq_of_lt hi, Nat.mod_eq_of_lt hi, getD_cons_zero]

variable {j : ℕ}

theorem fileByte_append (ys : List ℕ) (hj : j < cs.length * g.clusterSize) :
    fileByte g d (cs ++ ys) j = fileByte g d cs j := by
  have hlt := Nat.div_lt_of_lt_mul (by rwa [Nat.mul_comm])
  rw [fileByte, fileByte, getD_append _ _ _ _ hlt]

theorem fileByte_congr
    (h : ∀ x ∈ cs, ∀ s < g.sectorsPerCluster, d' (g.sectorLba x s) = d (g.sectorLba x s))
    (hj : j < cs.length * g.clusterSize) : fileByte g d' cs j = fileByte g d cs j := by
  have hlt := Nat.div_lt_of_lt_mul (by rwa [Nat.mul_comm])
  have hmem : cs.getD (j / g.clusterSize) 0 ∈ cs := by
    rw [getD_eq_getElem _ _ hlt]
    exact getElem_mem hlt
  have hs : j % g.clusterSize / sectorSize < g.sectorsPerCluster :=
    Nat.div_lt_of_lt_mul (by rw [Nat.mul_comm]; exact Nat.mod_lt _ clusterSize_pos)
  rw [fileByte, fileByte, clusterByte, clusterByte, h _ hmem _ hs]

variable {s o k : ℕ}

theorem slice_eq_window (h : o + k ≤ 512) :
    (d (g.sectorLba c s)).slice o k = window (clusterByte g d c) (s * 512 + o) k := by
  refine window_congr fun i hi => ?_
  rw [Nat.add_assoc]
  exact (clusterByte_add s (by omega)).symm

variable {m fuel skip remaining offset : ℕ} {v : Volume}

section Read
variable {dev : Device} (hr : dev.ReadsOk)
include hr

theorem readSectors_apply (hc : g.clusterIsData c) (hm : s + m ≤ g.sectorsPerCluster)
    (offset remaining : ℕ) (copied : List UInt8) (v : Volume) :
    ∃ w, v.Quiet w ∧ readSectors g dev c (range' s m) offset remaining copied v =
      (some (copied ++ window (clusterByte g v.disk c) (s * 512 + offset)
        (min remaining (m * 512 - offset)), remaining - (m * 512 - offset)), w) := by
  induction m generalizing s offset remaining copied v with
  | zero => exact ⟨v, .refl v, by simp [readSectors]⟩
  | succ m ih =>
    rw [range'_succ, readSectors]
    by_cases h0 : remaining = 0
    · exact ⟨v, .refl v, by simp [h0]⟩
    · split_ifs with hskip
      · obtain ⟨w, hq, hrun⟩ := ih (s := s + 1) (by omega) (offset - sectorSize) remaining copied v
        refine ⟨w, hq, ?_⟩
        unfold sectorSize at hskip hrun ⊢
        have hlen : m * 512 - (offset - 512) = (m + 1) * 512 - offset := by omega
        have hpos : (s + 1) * 512 + (offset - 512) = s * 512 + offset := by omega
        rw [hrun, hlen, hpos]
      · have hlba := g.sectorLba_lt hc (show s < g.sectorsPerCluster by omega)
        rw [bind_of_some (readSector_ok g hr hlba v), bind_of_some (currentSector_apply _)]
        unfold sectorSize at hskip ⊢
        generalize hcount : min (512 - offset) remaining = count
        obtain ⟨w, hq, hrun⟩ := ih (s := s + 1) (by omega) 0 (remaining - count)
          (copied ++ (v.disk (g.sectorLba c s)).slice offset count) (v.load (g.sectorLba c s))
        refine ⟨w, (v.quiet_load _).trans hq, ?_⟩
        rw [Volume.load_sector, hrun, Volume.load_disk, slice_eq_window (by omega), append_assoc]
        have hrest : remaining - count - (m * 512 - 0) = remaining - ((m + 1) * 512 - offset) := by
          omega
        -- either the sector is used up to its end or nothing is left to read
        have hpos : window (clusterByte g v.disk c) ((s + 1) * 512 + 0)
              (min (remaining - count) (m * 512 - 0)) =
            window (clusterByte g v.disk c) (s * 512 + offset + count)
              (min (remaining - count) (m * 512 - 0)) := by
          refine window_congr fun i hi => ?_
          have : (s + 1) * 512 + 0 + i = s * 512 + offset + count + i := by omega
          rw [this]
        have hsplit : min remaining ((m + 1) * 512 - offset) =
            count + min (remaining - count) (m * 512 - 0) := by omega
        rw [hrest, hpos, hsplit, window_add]

theorem readClusters_apply (copied : List UInt8)
    (h : ChainFrom g v.disk c cs) (hskip : skip < g.clusterSize) (hpos : 0 < remaining)
    (hfit : skip + remaining ≤ cs.length * g.clusterSize) (hfuel : remaining ≤ fuel) :
    ∃ w, v.Quiet w ∧ readClusters g dev fuel c skip remaining copied v =
      (some (copied ++ window (fileByte g v.disk cs) skip remaining), w) := by
  induction fuel generalizing c cs skip remaining copied v with
  | zero => omega
  | succ fuel ih =>
    have hcz : g.sectorsPerCluster * 512 = g.clusterSize := rfl
    obtain ⟨w, hq, hrun⟩ := readSectors_apply hr h.head_data (s := 0) (m := g.sectorsPerCluster)
      (by omega) skip remaining copied v
    have hd := hq.1
    obtain ⟨rest, rfl⟩ := h.exists_cons
    have hfirst : ∀ n, skip + n ≤ g.clusterSize → window (clusterByte g v.disk c) (0 * 512 + skip) n =
        window (fileByte g v.disk (c :: rest)) skip n := by
      intro n hn
      refine window_congr fun i hi => ?_
      rw [fileByte_head rest (by omega), Nat.zero_mul, Nat.zero_add]
    rw [readClusters, range_eq_range', bind_of_some hrun, hcz]
    by_cases hdone : remaining ≤ g.clusterSize - skip
    · rw [Nat.min_eq_left hdone, Nat.sub_eq_zero_of_le hdone, hfirst _ (by omega)]
      exact ⟨w, hq, rfl⟩
    · rw [Nat.min_eq_right (by omega), hfirst _ (by omega)]
      dsimp only
      rw [if_neg (by omega)]
      cases rest with
      | nil =>
        simp only [length_singleton, Nat.one_mul] at hfit
        omega
      | cons b rest =>
        rw [← hd] at h
        rw [bind_of_some (h.readFatEntry_cons hr), if_neg (data_not_end h.tail.head_data)]
        have hlen : skip + remaining ≤ (rest.length + 1 + 1) * g.clusterSize := hfit
        rw [Nat.add_mul, Nat.one_mul] at hlen
        obtain ⟨t, hqt, hrest⟩ := ih
          (copied ++ window (fileByte g v.disk (c :: b :: rest)) skip (g.clusterSize - skip))
          (v := w.load (g.fatEntryLba 0 c)) h.tail clusterSize_pos
          (show 0 < remaining - (g.clusterSize - skip) by omega)
          (by simp only [length_cons]; omega) (by omega)
        refine ⟨t, hq.trans ((w.quiet_load _).trans hqt), ?_⟩
        -- the rest of the chain starts one cluster further on
        have hshift : window (fileByte g w.disk (b :: rest)) 0 (remaining - (g.clusterSize - skip)) =
            window (fileByte g v.disk (c :: b :: rest)) (skip + (g.clusterSize - skip))
              (remaining - (g.clusterSize - skip)) := by
          refine window_congr fun i _ => ?_
          have hpos : skip + (g.clusterSize - skip) + i = 1 * g.clusterSize + i := by omega
          rw [hpos, ← fileByte_drop, hd, Nat.zero_add, drop_one, tail_cons]
        have hsum : remaining = g.clusterSize - skip + (remaining - (g.clusterSize - skip)) := by
          omega
        rw [hrest, Volume.load_disk, hshift, append_assoc, ← window_add, ← hsum]

theorem readSkip_apply (h : ChainFrom g v.disk c cs) (hk : k < cs.length) :
    ∃ c' w, v.Quiet w ∧ readSkip g dev k c v = (some c', w) ∧ ChainFrom g v.disk c' (cs.drop k) := by
  induction k generalizing c cs v with
  | zero => exact ⟨c, v, .refl v, rfl, h⟩
  | succ k ih =>
    obtain ⟨rest, rfl⟩ := h.exists_cons
    cases rest with
    | nil => simp at hk
    | cons b rest =>
      obtain ⟨c', w, hq, hrun, hc'⟩ := ih (v := v.load (g.fatEntryLba 0 c)) h.tail (by simpa using hk)
      refine ⟨c', w, (v.quiet_load _).trans hq, ?_, hc'⟩
      rw [readSkip, bind_of_some (h.readFatEntry_cons hr), if_neg (data_not_end h.tail.head_data),
        hrun]

theorem fat32Read_apply {f : FileHandle}
    (h : f.firstCluster < 2 ∧ cs = [] ∨ ChainFrom g v.disk f.firstCluster cs)
    (hsize : f.size ≤ cs.length * g.clusterSize) (hoff : offset ≤ f.size) (cap : ℕ) :
    ∃ w, v.Quiet w ∧ fat32Read g dev f offset cap v =
      (some (((fileBytes g v.disk cs f.size).drop offset).take cap), w) := by
  rw [fat32Read, if_neg (by omega), fileBytes, window_slice]
  by_cases h0 : min (f.size - offset) cap = 0
  · rw [if_pos h0, h0]
    exact ⟨v, .refl v, rfl⟩
  · rw [if_neg h0]
    rcases h with ⟨-, rfl⟩ | h
    · simp only [length_nil, Nat.zero_mul, Nat.le_zero_eq] at hsize
      omega
    · have hk : offset / g.clusterSize < cs.length :=
        Nat.div_lt_of_lt_mul (by rw [Nat.mul_comm]; omega)
      obtain ⟨c', u, hq, hrun, hc'⟩ := readSkip_apply hr h hk
      have hud := hq.1
      rw [← hud] at hc'
      have hmod := Nat.div_add_mod' offset g.clusterSize
      have hlen : (cs.drop (offset / g.clusterSize)).length * g.clusterSize =
          cs.length * g.clusterSize - offset / g.clusterSize * g.clusterSize := by
        rw [length_drop, Nat.sub_mul]
      obtain ⟨w, hq', hrun'⟩ := readClusters_apply hr [] hc' (Nat.mod_lt offset clusterSize_pos)
        (Nat.pos_of_ne_zero h0) (by rw [hlen]; omega) le_rfl
      have h2 := h.head_data.1
      refine ⟨w, hq.trans hq', ?_⟩
      rw [if_neg (by omega), bind_of_some hrun, hrun', nil_append]
      have hshift : window (fileByte g u.disk (cs.drop (offset / g.clusterSize)))
            (offset % g.clusterSize) (min (f.size - offset) cap) =
          window (fileByte g v.disk cs) offset (min (f.size - offset) cap) := by
        refine window_congr fun i _ => ?_
        rw [fileByte_drop, hud, ← Nat.add_assoc, hmod]
      rw [hshift]

end Read

/-- A store into one sector, as a change of the bytes of its cluster up to the end of the store. -/
theorem window_store (hc : g.clusterIsData c) (hs : s < g.sectorsPerCluster)
    {data : List UInt8} (ho : o + data.length ≤ 512) :
    window (clusterByte g (update d (g.sectorLba c s)
        ((d (g.sectorLba c s)).put o data)) c) 0 (s * 512 + o + data.length) =
      window (clusterByte g d c) 0 (s * 512 + o) ++ data := by
  rw [window_add, Nat.zero_add]
  congr 1
  · refine window_congr fun i hi => ?_
    rw [Nat.zero_add]
    by_cases hsec : i / 512 = s
    · have hi' : i = s * 512 + i % 512 := by omega
      rw [hi', clusterByte_add s (Nat.mod_lt _ (by omega)), clusterByte_add s (Nat.mod_lt _ (by omega)),
        update_self]
      exact Block.get_put_of_notMem _ (Or.inl (by omega))
    · have hlt : i / 512 < g.sectorsPerCluster := by omega
      rw [clusterByte, clusterByte, update_of_ne]
      intro he
      exact hsec (g.sectorLba_inj hc hc hlt hs he).2
  · rw [← slice_eq_window ho, update_self]
    exact Block.slice_put_self _ ho

section Write
variable {dev : Device} (hr : dev.ReadsOk) (hw : dev.writable = true)
include hr hw

theorem writeDataSector_apply {lba : ℕ} (hl : lba < g.totalSectors) (o : ℕ) (data : List UInt8)
    (v : Volume) :
    ∃ w, w.writes = v.writes + 1 ∧
      writeDataSector g dev lba o data v = (if dev.writeOk v.writes then some () else none, w) ∧
      w.disk = if dev.writeOk v.writes then update v.disk lba ((v.disk lba).put o data)
        else v.disk := by
  rw [writeDataSector, bind_of_some (readSector_ok g hr hl v), bind_of_some (modify_apply _),
    bind_of_some get_apply]
  exact writeSector_changes hw hl _ _ (v.quiet_load lba)

/-- The sector loop puts the data into the cluster from `pos` on and hands back what does not
fit; whatever fails, only sectors of the cluster have changed. -/
theorem writeSectors_apply (hc : g.clusterIsData c) (hm : s + m = g.sectorsPerCluster)
    (offset pos : ℕ) (hpos : pos = s * 512 + offset) (data : List UInt8) (v : Volume) :
    ∃ r w, writeSectors g dev c (range' s m) offset data v = (r, w) ∧
      OnlyCluster g c v.disk w.disk ∧
      ∀ rest, r = some rest → rest = data.drop (g.clusterSize - pos) ∧
        window (clusterByte g w.disk c) 0 (pos + (data.take (g.clusterSize - pos)).length) =
          window (clusterByte g v.disk c) 0 pos ++ data.take (g.clusterSize - pos) := by
  have hcz : g.clusterSize = g.sectorsPerCluster * 512 := rfl
  induction m generalizing s offset pos data v with
  | zero =>
    refine ⟨some data, v, rfl, .refl _, fun rest hrest => ?_⟩
    have hfull : g.clusterSize - pos = 0 := by omega
    rw [hfull, ← Option.some.inj hrest]
    simp
  | succ m ih =>
    rw [range'_succ, writeSectors]
    by_cases h0 : data = []
    · rw [if_pos h0]
      refine ⟨some data, v, rfl, .refl _, fun rest hrest => ?_⟩
      rw [← Option.some.inj hrest]
      simp [h0]
    · split_ifs with hskip
      · obtain ⟨k, rfl⟩ := Nat.exists_eq_add_of_le hskip
        unfold sectorSize at hpos ⊢
        rw [Nat.add_sub_cancel_left]
        exact ih (by omega) k pos (by rw [hpos]; ring) data v
      · unfold sectorSize at hskip ⊢
        have hs : s < g.sectorsPerCluster := by omega
        generalize hcount : min (512 - offset) data.length = count
        obtain ⟨u, -, hrun, hud⟩ := writeDataSector_apply hr hw (g.sectorLba_lt hc hs) offset
          (data.take count) v
        by_cases hok : dev.writeOk v.writes = true
        · simp only [hok, if_true] at hrun hud
          rw [bind_of_some hrun]
          have hu : OnlyCluster g c v.disk u.disk := by
            rw [hud]
            exact .update hs _
          have htake : (data.take count).length = count := by
            rw [length_take]
            omega
          have hstore : window (clusterByte g u.disk c) 0 (pos + count) =
              window (clusterByte g v.disk c) 0 pos ++ data.take count := by
            have hput := window_store (d := v.disk) hc hs
              (show offset + (data.take count).length ≤ 512 by omega)
            rwa [htake, ← hud, ← hpos] at hput
          by_cases hrest : data.length ≤ 512 - offset
          · -- the data ends in this sector and the remaining rounds do nothing
            have hnone : data.drop count = [] := drop_eq_nil_of_le (by omega)
            have hfit : data.take (g.clusterSize - pos) = data.take count := by
              rw [take_of_length_le (by omega), take_of_length_le (by omega)]
            refine ⟨some [], u, by rw [hnone]; cases m <;> simp [writeSectors, range'], hu,
              fun rest hr => ?_⟩
            rw [hfit, htake]
            exact ⟨by rw [← Option.some.inj hr, drop_eq_nil_of_le (by omega)], hstore⟩
          · obtain ⟨r, w, hrun', honly, hsome⟩ :=
              ih (s := s + 1) (by omega) 0 (pos + count) (by omega) (data.drop count) u
            refine ⟨r, w, hrun', hu.trans honly, fun rest hr => ?_⟩
            obtain ⟨hdrop, hbytes⟩ := hsome rest hr
            have hsplit : data.take (g.clusterSize - pos) =
                data.take count ++ (data.drop count).take (g.clusterSize - (pos + count)) := by
              rw [← take_add]
              congr 1
              omega
            constructor
            · rw [hdrop, drop_drop]
              congr 1
              omega
            · rw [hsplit, length_append, htake, ← Nat.add_assoc, hbytes, hstore, append_assoc]
        · simp only [hok, if_false, Bool.false_eq_true] at hrun hud
          rw [bind_of_none hrun]
          refine ⟨none, u, rfl, by rw [hud]; exact .refl _, by simp⟩

end Write
end Fat32
