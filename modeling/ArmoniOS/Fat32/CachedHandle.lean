import ArmoniOS.Fat32.PathFiles

/-! File handles kept between calls. A handle is current when a fresh open of its directory entry
would return it; a write through a current handle leaves it current, and every handle of another
entry too. -/
namespace Fat32
open Exec

def anywhere : Owner → Prop := fun _ => True

def FileHandle.slot (f : FileHandle) : Slot := (f.dirLba, f.dirOffset)

/-- The handle is what the entry at its position and the entry's chain say. -/
structure Current (g : Geometry) (d : Disk) (f : FileHandle) : Prop where
  file : FileIn g anywhere d f.slot
  agrees : ∃ cs, HasChain g d (some f.slot) cs ∧
    (entryAt d f.slot).size ≤ cs.length * g.clusterSize ∧ cs.length * g.clusterSize ≤ uint32Max ∧
    f = handleAt g d f.slot cs

variable {g : Geometry} {dev : Device} {d : Disk} {f : FileHandle}

theorem Current.size_eq (h : Current g d f) : f.size = (entryAt d f.slot).size := by
  obtain ⟨cs, -, -, -, hf⟩ := h.agrees
  rw [hf]
  rfl

theorem Current.firstCluster_eq (h : Current g d f) :
    f.firstCluster = (entryAt d f.slot).firstCluster := by
  obtain ⟨cs, -, -, -, hf⟩ := h.agrees
  rw [hf]
  rfl

theorem fileContent_length {p : Slot} {cs : List ℕ} (hcs : HasChain g d (some p) cs)
    (hsize : (entryAt d p).size ≤ cs.length * g.clusterSize) :
    (fileContent g d p).length = (entryAt d p).size := by
  rw [fileContent_eq hcs hsize, fileBytes, ByteBlock.window_length]

theorem current_of_openPath (hc : Chained g anywhere d) {path : List UInt8}
    (h : openPathImage g d path = some f) : Current g d f := by
  obtain ⟨p, cs, hp, hcs, hsize, hfit, rfl⟩ := openPathImage_some hc h
  exact ⟨hp, cs, hcs, hsize, hfit, rfl⟩

theorem Current.content_length (h : Current g d f) : (fileContent g d f.slot).length = f.size := by
  obtain ⟨cs, hcs, hsize, -, -⟩ := h.agrees
  rw [fileContent_length hcs hsize, h.size_eq]

theorem Current.read (hr : dev.ReadsOk) {v : Volume} (h : Current g v.disk f) {offset : ℕ}
    (hoff : offset ≤ f.size) (capacity : ℕ) :
    ∃ w, v.Quiet w ∧ fat32Read g dev f offset capacity v =
      (some (((fileContent g v.disk f.slot).drop offset).take capacity), w) := by
  have hsz := h.size_eq
  have hfc := h.firstCluster_eq
  obtain ⟨cs, hcs, hsize, -, -⟩ := h.agrees
  have hchain : f.firstCluster < 2 ∧ cs = [] ∨ ChainFrom g v.disk f.firstCluster cs := by
    rw [hfc]
    exact hcs
  obtain ⟨w, hq, hrun⟩ := fat32Read_apply hr hchain (by rw [hsz]; exact hsize) hoff capacity
  refine ⟨w, hq, ?_⟩
  rw [hrun, fileContent_eq hcs hsize, hsz]

structure Rewritten (g : Geometry) (d : Disk) (f : FileHandle) (offset : ℕ) (data : List UInt8)
    (r : Option ℕ) (d' : Disk) (f' : FileHandle) : Prop where
  volume : WellFormed g anywhere d'
  current : Current g d' f'
  slot : f'.slot = f.slot
  others : ∀ k, Current g d k → k.slot ≠ f.slot → Current g d' k
  contents : ∀ p, FileIn g anywhere d p → p ≠ f.slot → fileContent g d' p = fileContent g d p
  written : ∀ n, r = some n → n = data.length ∧
    fileContent g d' f.slot = (fileContent g d f.slot).take offset ++ data

theorem Current.write (hr : dev.ReadsOk) (hok : dev.WritesOk) {v : Volume}
    (hv : WellFormed g anywhere v.disk) (h : Current g v.disk f) (offset : ℕ) (hoff : offset ≤ f.size)
    (data : List UInt8) :
    ∃ r w f', fat32Write g dev offset data (v, f) = (r, (w, f')) ∧
      Rewritten g v.disk f offset data r w.disk f' := by
  have hp := h.file
  obtain ⟨cs, hcs, hsize, hfit, hf⟩ := h.agrees
  have hc := hv.toChained
  have hsite := hp.site hcs
  have hsafe : offset ≤ f.size → data ≠ [] → WriteSafe g dev v.disk cs (offset + data.length) :=
    fun _ _ => Or.inr (Or.inl hok)
  obtain ⟨r, w, f', cs', hrun, hrew, htrack, hdone⟩ := fat32Write_apply hr (hsite.apart hc)
    ⟨.start hcs hsize, hf, hfit⟩ hsafe
  have htrack := htrack hok
  have hf' : f' = handleAt g w.disk f.slot cs' := htrack.handle
  have hslot : f'.slot = f.slot := by rw [hf']; rfl
  refine ⟨r, w, f', hrun, ⟨hrew.chained hc hp hcs, hrew.mirror hok hv.mirror⟩, ⟨?_, cs', ?_, ?_,
    htrack.fits, ?_⟩, hslot, fun k hk hne => ?_, fun p hq hne => ?_, fun n hn => ?_⟩
  · rw [hslot]
    exact hrew.fileIn_self hc hp hcs
  · rw [hslot]
    exact hrew.chain
  · rw [hslot]
    exact hrew.size
  · rw [hslot]
    exact hf'
  · obtain ⟨ks, hks, hksize, hkfit, hkf⟩ := hk.agrees
    have hentry := hsite.file_entry_eq hc hrew.touches hk.file hne
    have hneo : (some k.slot : Owner) ≠ some f.slot := by simpa using hne
    refine ⟨(hrew.fileIn_iff hc hp hcs hne).2 hk.file, ks, ?_, ?_, hkfit, ?_⟩
    · exact hsite.chain_eq hc hrew.touches (Or.inr ⟨_, rfl, hk.file⟩) hneo hks
    · rw [hentry]
      exact hksize
    · rw [handleAt, hentry]
      exact hkf
  · exact hrew.fileContent_eq hc hp hcs hq hne
  · obtain ⟨hlen, -, hnew, hbytes⟩ := hdone n hn
    have hentry : (entryAt w.disk f.slot).size = offset + data.length := by
      rw [← hnew, hf']
      rfl
    refine ⟨hlen, ?_⟩
    rw [fileContent_eq hrew.chain hrew.size, hentry, hbytes, fileContent_eq hcs hsize,
      fileBytes_take (by rw [← h.size_eq]; exact hoff)]

end Fat32
