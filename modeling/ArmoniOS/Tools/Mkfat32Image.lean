import ArmoniOS.Fat32.FileData
import ArmoniOS.Tools.Mkfat32

/-!
The finished image as the file system driver reads it.
-/
namespace Mkfat32

open StoreLog BlockLog ByteBlock ByteBlock.Block Fat32 List Option

def sectors (stores : Stores) : Disk := fun lba i => write (fun _ => 0) stores (lba * 512 + i)

variable {i : ℕ} {vs : List UInt8}

section Sectors
variable {stores : Stores} {lba o : ℕ}

theorem sectors_get (hi : i < 512) :
    (sectors stores lba).get i = write (fun _ => 0) stores (lba * 512 + i) := by
  unfold Block.get
  rw [dif_pos hi]
  rfl

theorem sectors_slice (h : Leaves stores (lba * 512 + o) vs) (ho : o + vs.length ≤ 512) :
    (sectors stores lba).slice o vs.length = vs := by
  have hwindow : (sectors stores lba).slice o vs.length =
      window (write (fun _ => 0) stores) (lba * 512 + o) vs.length := by
    apply window_congr
    intro i hi
    rw [sectors_get (by omega), Nat.add_assoc]
  rw [hwindow, h.window_eq]

theorem sectors_le16 {x : ℕ} (h : Leaves stores (lba * 512 + o) (bytes16 x)) (ho : o + 2 ≤ 512)
    (hx : x < 2 ^ 16) : (sectors stores lba).le16 o = x := by
  have hslice : (sectors stores lba).slice o 2 = bytes16 x := sectors_slice h ho
  simp only [slice, bytes16, range_succ, range_zero, nil_append, cons_append,
    map_cons, map_nil, cons.injEq, and_true, Nat.add_zero] at hslice
  unfold le16
  rw [hslice.1, hslice.2]
  simp only [UInt8.toNat_ofNat']
  omega

theorem sectors_le32 {x : ℕ} (h : Leaves stores (lba * 512 + o) (bytes32 x)) (ho : o + 4 ≤ 512)
    (hx : x < 2 ^ 32) : (sectors stores lba).le32 o = x := by
  have hslice : (sectors stores lba).slice o 4 = bytes32 x := sectors_slice h ho
  simp only [slice, bytes32, range_succ, range_zero, nil_append, cons_append,
    map_cons, map_nil, cons.injEq, and_true, Nat.add_zero] at hslice
  obtain ⟨h0, h1, h2, h3⟩ := hslice
  unfold le32
  rw [h0, h1, h2, h3]
  simp only [UInt8.toNat_ofNat']
  omega

end Sectors

/-! ### Mounting -/

theorem mount_isSome : (fat32Mount (sectors writeBootSector 0)).isSome := by decide +kernel

def geometry : Geometry := (fat32Mount (sectors writeBootSector 0)).get mount_isSome

theorem geometry_fields : geometry.sectorsPerCluster = 1 ∧ geometry.reservedSectors = 1 ∧
    geometry.dataStartLba = 17 ∧ geometry.clusterCount = 2031 ∧ geometry.rootCluster = 2 := by
  decide +kernel

theorem geometry_sectorsPerCluster : geometry.sectorsPerCluster = 1 := geometry_fields.1

theorem geometry_clusterCount : geometry.clusterCount = 2031 := geometry_fields.2.2.2.1

theorem geometry_clusterSize : geometry.clusterSize = 512 := by
  unfold Geometry.clusterSize
  rfl

theorem geometry_isData {c : ℕ} : geometry.clusterIsData c ↔ 2 ≤ c ∧ c ≤ 2032 := by
  unfold Geometry.clusterIsData
  rw [geometry_clusterCount]
  omega

theorem geometry_sectorLba {c : ℕ} (hc : geometry.clusterIsData c) :
    geometry.sectorLba c 0 = 15 + c := by
  rw [geometry.sectorLba_eq hc geometry.sectorsPerCluster_pos, geometry_fields.2.2.1,
    geometry_sectorsPerCluster]
  have := hc.1
  omega

/-! ### The file allocation table -/

variable {stores : Stores}

theorem fatValue_of_leaves {c x : ℕ} (hc : geometry.clusterIsData c)
    (hl : Leaves stores (512 + 4 * c) (bytes32 x)) (hx : x < 2 ^ 28) :
    fatValue geometry (sectors stores) c = x := by
  have hlba : geometry.fatEntryLba 0 c = 1 + c / 128 := by
    rw [geometry.fatEntryLba_eq geometry.fatCount_pos hc, geometry_fields.2.1]
    omega
  have hplace : (1 + c / 128) * 512 + 4 * (c % 128) = 512 + 4 * c := by omega
  unfold fatValue
  rw [hlba, fatEntryOffset_eq hc, sectors_le32 (hplace ▸ hl) (by omega) (by omega),
    and_clusterMask, Nat.mod_eq_of_lt hx]

variable {first n : ℕ}

theorem chainFrom_range {d : Disk} (hn : 0 < n) (hfirst : 2 ≤ first) (hle : first + n ≤ 2033)
    (hfat : ∀ i < n, fatValue geometry d (first + i) = chainEntry first n i) :
    ChainFrom geometry d first (range' first n) := by
  induction n generalizing first with
  | zero => cases hn
  | succ n ih =>
    have hdata := geometry_isData.mpr ⟨hfirst, by omega⟩
    have hzero := hfat 0 hn
    rw [Nat.add_zero, chainEntry] at hzero
    cases n with
    | zero =>
      apply ChainFrom.singleton hdata
      rw [hzero, if_pos rfl]
      decide
    | succ n =>
      rw [if_neg (by omega)] at hzero
      apply ChainFrom.cons hdata hzero
      apply ih (by omega) (by omega) (by omega)
      intro i hi
      have hnext := hfat (i + 1) (by omega)
      unfold chainEntry at hnext ⊢
      rw [show first + 0 + 1 + i = first + (i + 1) by omega, hnext]
      split_ifs <;> omega

theorem chainEntry_lt (hle : first + n ≤ 2033) (hi : i < n) : chainEntry first n i < 2 ^ 28 := by
  unfold chainEntry fat32Eoc
  split_ifs <;> omega

/-! ### File contents -/

theorem fileBytes_of_leaves (hfirst : 2 ≤ first) (hle : first + n ≤ 2033)
    (hlen : vs.length ≤ n * 512) (hl : Leaves stores ((15 + first) * 512) vs) :
    fileBytes geometry (sectors stores) (range' first n) vs.length = vs := by
  have hwindow : fileBytes geometry (sectors stores) (range' first n) vs.length =
      window (write (fun _ => 0) stores) ((15 + first) * 512) vs.length := by
    apply window_congr
    intro i hi
    have hrow : i / 512 < n := by omega
    have hcluster : (range' first n).getD (i / 512) 0 = first + i / 512 := by
      rw [getD_eq_getElem _ _ (by simpa using hrow), getElem_range', Nat.one_mul]
    have hdata : geometry.clusterIsData (first + i / 512) :=
      geometry_isData.mpr ⟨by omega, by omega⟩
    have hsmall : i % 512 < 512 := Nat.mod_lt _ (by decide)
    have hplace : (15 + (first + i / 512)) * 512 + i % 512 = (15 + first) * 512 + i := by omega
    unfold fileByte clusterByte
    rw [Nat.zero_add, geometry_clusterSize, hcluster]
    unfold sectorSize
    rw [Nat.div_eq_of_lt hsmall, geometry_sectorLba hdata, Nat.mod_mod, sectors_get hsmall, hplace]
  rw [hwindow, hl.window_eq]

/-! ### Directory entries -/

/-- The fields of a directory entry at `e`. -/
structure HoldsEntry (stores : Stores) (e : ℕ) (name : List UInt8) (first size : ℕ) : Prop where
  name : Leaves stores e name
  attr : Leaves stores (e + 11) [attrArchive]
  high : Leaves stores (e + 20) (bytes16 0)
  low : Leaves stores (e + 26) (bytes16 (first % 2 ^ 16))
  size : Leaves stores (e + 28) (bytes32 size)

section Entries
variable {stores stores' : Stores} {e first size lo hi : ℕ} {name : List UInt8}

theorem holdsEntry_writeDirEntry (hname : name.length = 11) :
    HoldsEntry (writeDirEntry e name first size) e name first size := by
  have hbyte : Within (block (e + 11) [(0x20 : UInt8)]) (e + 11) (e + 12) := within_block le_rfl le_rfl
  have hhigh : Within (putLe16 (e + 20) 0) (e + 20) (e + 22) := within_block le_rfl le_rfl
  have hlow : Within (putLe16 (e + 26) (first % 2 ^ 16)) (e + 26) (e + 28) :=
    within_block le_rfl le_rfl
  have hsize : Within (putLe32 (e + 28) size) (e + 28) (e + 32) := within_block le_rfl le_rfl
  constructor
  · exact ((((leaves_block _ _).append_right hbyte (by omega)).append_right hhigh (by omega)).append_right
      hlow (by omega)).append_right hsize (by omega)
  · exact (((leaves_block _ _).append_left.append_right hhigh (by simp)).append_right hlow
      (by simp)).append_right hsize (by simp)
  · exact ((leaves_block _ _).append_left.append_right hlow (by simp)).append_right hsize (by simp)
  · exact (leaves_block _ _).append_left.append_right hsize (by simp)
  · exact (leaves_block _ _).append_left

theorem HoldsEntry.append_left (h : HoldsEntry stores' e name first size) :
    HoldsEntry (stores ++ stores') e name first size :=
  ⟨h.name.append_left, h.attr.append_left, h.high.append_left, h.low.append_left,
    h.size.append_left⟩

theorem HoldsEntry.append_right (h : HoldsEntry stores e name first size)
    (hname : name.length = 11) (hw : Within stores' lo hi) (hapart : e + 32 ≤ lo ∨ hi ≤ e) :
    HoldsEntry (stores ++ stores') e name first size where
  name := h.name.append_right hw (by omega)
  attr := h.attr.append_right hw (by rw [length_singleton]; omega)
  high := h.high.append_right hw (by rw [bytes16_length]; omega)
  low := h.low.append_right hw (by rw [bytes16_length]; omega)
  size := h.size.append_right hw (by rw [bytes32_length]; omega)

theorem HoldsEntry.entryAt_eq {lba o : ℕ} (h : HoldsEntry stores (lba * 512 + o) name first size)
    (hname : name.length = 11) (ho : o + 32 ≤ 512) (hfirst : first < 2 ^ 16)
    (hsize : size < 2 ^ 32) :
    entryAt (sectors stores) (lba, o) = ⟨name, attrArchive, first, size⟩ := by
  obtain ⟨hn, ha, hh, hl, hs⟩ := h
  rw [Nat.add_assoc] at ha hh hl hs
  have hslice : (sectors stores lba).slice o 11 = name := by
    rw [← hname]
    exact sectors_slice hn (by omega)
  have hattr : (sectors stores lba).get (o + 11) = attrArchive := by
    have hone := sectors_slice ha (by rw [length_singleton]; omega)
    simpa [slice] using hone
  have hhigh := sectors_le16 hh (by omega) (by decide)
  have hlow : (sectors stores lba).le16 (o + 26) = first := by
    rw [sectors_le16 hl (by omega) (Nat.mod_lt _ (by decide)), Nat.mod_eq_of_lt hfirst]
  have hbytes := sectors_le32 hs (by omega) hsize
  unfold entryAt dirEntryAt
  rw [hslice, hattr, hhigh, hlow, hbytes, Nat.zero_mul, Nat.zero_add]

end Entries

/-! ### Reading the files back -/

/-- Opening `name` and reading at any offset gives the bytes of `data`. -/
def Delivers (g : Geometry) (d : Disk) (name data : List UInt8) : Prop :=
  ∀ dev : Device, dev.ReadsOk → ∀ v : Volume, v.disk = d →
    ∃ file w, fat32OpenRoot g dev name v = (some file, w) ∧ file.size = data.length ∧
      ∀ offset ≤ data.length, ∀ capacity,
        (fat32Read g dev file offset capacity w).1 = some ((data.drop offset).take capacity)

/-- The root entry at `o` names a file of `n` clusters from `first` on that hold `data`. -/
structure Stored (stores : Stores) (o : ℕ) (name data : List UInt8) (first n : ℕ) : Prop where
  entry : entryAt (sectors stores) (17, o) = ⟨name, attrArchive, first, data.length⟩
  chain : ChainFrom geometry (sectors stores) first (range' first n)
  fits : data.length ≤ n * 512
  bytes : Leaves stores ((15 + first) * 512) data

section Stored
variable {stores : Stores} {o first n : ℕ} {name wanted data : List UInt8}

theorem Stored.picked_iff (h : Stored stores o name data first n)
    (hmark : name.getD 0 0 ≠ deletedMark) (wanted : List UInt8) :
    ((entryAt (sectors stores) (17, o)).Named wanted ∧
      ¬(entryAt (sectors stores) (17, o)).isDirectory) ↔ name = wanted := by
  have hattr : ¬attrArchive &&& attrDirectory ≠ 0 := by decide
  have hlong : attrArchive ≠ attrLongName := by decide
  rw [h.entry]
  constructor
  · rintro ⟨⟨-, -, heq⟩, -⟩
    exact heq
  · intro heq
    exact ⟨⟨hmark, hlong, heq⟩, hattr⟩

theorem Stored.delivers (h : Stored stores o wanted data first n)
    (hshort : makeShortName name = some wanted)
    (hchoice : rootChoice geometry (sectors stores) wanted = some (17, o)) :
    Delivers geometry (sectors stores) name data := by
  intro dev hr v hv
  obtain ⟨hentry, hchain, hlen, hdata⟩ := h
  have hfirst := hchain.head_data.1
  have hcap := hchain.length_le
  have hpos := hchain.length_pos
  rw [length_range'] at hpos
  have hlast := geometry_isData.mp (hchain.data (first + n - 1) (by
    rw [mem_range'_1]
    omega))
  have hcapacity : capacity geometry (sectors stores) first = some (n * 512) := by
    have heq := hchain.capacity_eq (by
      rw [length_range', geometry_clusterSize]
      unfold uint32Max
      omega)
    rwa [length_range', geometry_clusterSize] at heq
  have himage : openRootImage geometry (sectors stores) name =
      some ⟨first, 17, o, n * 512, data.length⟩ := by
    unfold openRootImage openEntry
    rw [hshort, bind_some, hchoice, bind_some, hentry]
    dsimp only
    rw [if_neg (by omega), if_pos hfirst, hcapacity, bind_some, if_neg (by omega)]
  obtain ⟨w, hopen, hquiet⟩ := (fat32OpenRoot_reads geometry hr name).run v
  have hdisk := hquiet.1.trans hv
  rw [hv, himage] at hopen
  refine ⟨_, w, hopen, rfl, fun offset hoff cap => ?_⟩
  obtain ⟨w', -, hread⟩ := fat32Read_apply hr (f := ⟨first, 17, o, n * 512, data.length⟩)
    (.inr (hdisk ▸ hchain)) (by rw [length_range', geometry_clusterSize]; exact hlen) hoff cap
  rw [hread, hdisk, fileBytes_of_leaves hfirst (by omega) hlen hdata]

end Stored

/-! ### The tables of the image -/

theorem within_helloEntry (helloSize helloFirst : ℕ) :
    Within (if helloSize ≠ 0 then writeDirEntry (8704 + 64) helloName helloFirst helloSize else [])
      8768 8800 := by
  split_ifs
  · exact within_writeDirEntry helloName_length (by decide) (by decide) _ _
  · exact .nil

section Placed
variable {shell hello : List UInt8} {s h : ℕ} (hp : Placed shell hello s h)
include hp

theorem mount_image : fat32Mount (sectors (image shell hello s h) 0) = some geometry := by
  have hboot : sectors (image shell hello s h) 0 = sectors writeBootSector 0 := by
    funext i
    have hfat := within_writeFat hp
    have hroot := within_writeRootEntries shell.length (3 + s) hello.length (11 + s)
    unfold sectors
    rw [image_eq hp, (within_payloads hp).write_append (by omega)]
    unfold writeTables plainLayout
    rw [hroot.write_append (by omega), hfat.write_append (by omega)]
  rw [hboot]
  exact (some_get mount_isSome).symm

theorem within_helloChain :
    Within (if h ≠ 0 then writeClusterChain 512 (11 + s) h else []) (512 + 4 * (11 + s)) 8704 := by
  have hroom := hp.room
  split_ifs
  · exact (within_writeClusterChain (by omega)).mono le_rfl (by omega)
  · exact .nil

theorem leaves_fat_root :
    Leaves (writeFat s (3 + s) h (11 + s)) (512 + 4 * 2) (bytes32 fat32Eoc) := by
  have hroom := hp.room
  have hword : Leaves (putLe32 520 fat32Eoc) 520 (bytes32 fat32Eoc) := leaves_block _ _
  refine ((hword.append_left.append_right (within_writeClusterChain (?_ : 3 + s ≤ 2048))
    ?_).append_right (within_writeClusterChain (?_ : 3 + s + 8 ≤ 2048)) ?_).append_right
    (within_helloChain hp) ?_
  all_goals try rw [bytes32_length]
  all_goals omega

theorem leaves_fat_shell (hi : i < s) :
    Leaves (writeFat s (3 + s) h (11 + s)) (512 + 4 * (3 + i)) (bytes32 (chainEntry 3 s i)) := by
  have hroom := hp.room
  have hchain := leaves_writeClusterChain (show 3 + s ≤ 2048 by omega) hi
  refine (hchain.append_left.append_right (within_writeClusterChain (?_ : 3 + s + 8 ≤ 2048))
    ?_).append_right (within_helloChain hp) ?_
  all_goals try rw [bytes32_length]
  all_goals omega

theorem leaves_fat_edit (hi : i < 8) :
    Leaves (writeFat s (3 + s) h (11 + s)) (512 + 4 * (3 + s + i))
      (bytes32 (chainEntry (3 + s) 8 i)) := by
  have hroom := hp.room
  have hchain := leaves_writeClusterChain (show 3 + s + 8 ≤ 2048 by omega) hi
  refine hchain.append_left.append_right (within_helloChain hp) ?_
  rw [bytes32_length]
  omega

theorem leaves_fat_hello (hi : i < h) :
    Leaves (writeFat s (3 + s) h (11 + s)) (512 + 4 * (11 + s + i))
      (bytes32 (chainEntry (11 + s) h i)) := by
  have hroom := hp.room
  have hchain := leaves_writeClusterChain (show 11 + s + h ≤ 2048 by omega) hi
  unfold writeFat
  dsimp only
  rw [if_pos (by omega : h ≠ 0)]
  exact hchain.append_left

theorem leaves_of_fat {o : ℕ} (hl : Leaves (writeFat s (3 + s) h (11 + s)) o vs)
    (ho : o + vs.length ≤ 8704) : Leaves (image shell hello s h) o vs := by
  rw [image_eq hp]
  exact (hl.append_left.append_right (within_writeRootEntries _ _ _ _) (.inl ho)).append_right
    (within_payloads hp) (.inl (by omega))

theorem chain_of_fat (hn : 0 < n) (hfirst : 2 ≤ first) (hle : first + n ≤ 2033)
    (hl : ∀ i < n, Leaves (writeFat s (3 + s) h (11 + s)) (512 + 4 * (first + i)) (bytes32 (chainEntry first n i))) :
    ChainFrom geometry (sectors (image shell hello s h)) first (range' first n) := by
  apply chainFrom_range hn hfirst hle
  intro i hi
  apply fatValue_of_leaves (geometry_isData.mpr ⟨by omega, by omega⟩) _ (chainEntry_lt hle hi)
  apply leaves_of_fat hp (hl i hi)
  rw [bytes32_length]
  omega

theorem entry_of_root {o first size : ℕ} {name : List UInt8} (hname : name.length = 11)
    (ho : o + 32 ≤ 512) (hfirst : first < 2 ^ 16) (hsize : size < 2 ^ 32)
    (hl : HoldsEntry (writeRootEntries shell.length (3 + s) hello.length (11 + s)) (8704 + o) name
      first size) :
    entryAt (sectors (image shell hello s h)) (17, o) = ⟨name, attrArchive, first, size⟩ := by
  have hentry : HoldsEntry (image shell hello s h) (17 * 512 + o) name first size := by
    rw [image_eq hp]
    exact hl.append_left.append_right hname (within_payloads hp) (.inl (by omega))
  exact hentry.entryAt_eq hname ho hfirst hsize

theorem stored_shell : Stored (image shell hello s h) 0 shellName shell 3 s := by
  have hroom := hp.room
  have hfits := hp.shellFits
  have hpos := hp.shellPos
  constructor
  · apply entry_of_root hp shellName_length (by decide) (by decide) (by omega)
    exact ((holdsEntry_writeDirEntry shellName_length).append_right shellName_length
      (within_writeDirEntry editName_length (le_refl (8704 + 32)) le_rfl _ _)
      (by decide)).append_right shellName_length (within_helloEntry _ _) (by decide)
  · exact chain_of_fat hp (by omega) (by decide) (by omega) fun i hi => leaves_fat_shell hp hi
  · exact hfits
  · rw [image_eq hp]
    refine (((leaves_block 9216 shell).append_right (within_block le_rfl le_rfl) ?_).append_right
      (within_block le_rfl le_rfl) ?_).append_left
    all_goals omega

theorem stored_edit : Stored (image shell hello s h) 32 editName editText (3 + s) 8 := by
  have hroom := hp.room
  have hlen := editText_length
  constructor
  · apply entry_of_root hp editName_length (by decide) (by omega) (by omega)
    exact (holdsEntry_writeDirEntry editName_length).append_left.append_right editName_length
      (within_helloEntry _ _) (by decide)
  · exact chain_of_fat hp (by decide) (by omega) (by omega) fun i hi => leaves_fat_edit hp hi
  · omega
  · rw [image_eq hp, ← Nat.add_assoc]
    refine ((leaves_block _ _).append_left.append_right (within_block le_rfl le_rfl) ?_).append_left
    omega

theorem stored_hello (hsome : hello ≠ []) :
    Stored (image shell hello s h) 64 helloName hello (11 + s) h := by
  have hroom := hp.room
  have hfits := hp.helloFits
  have hpos : h ≠ 0 := mt hp.helloNone.mp hsome
  constructor
  · apply entry_of_root hp helloName_length (by decide) (by omega) (by omega)
    unfold writeRootEntries
    dsimp only
    rw [if_pos (by simpa using hsome)]
    exact (holdsEntry_writeDirEntry helloName_length).append_left
  · exact chain_of_fat hp (by omega) (by omega) (by omega) fun i hi => leaves_fat_hello hp hi
  · exact hfits
  · rw [image_eq hp, ← Nat.add_assoc]
    exact (leaves_block _ _).append_left.append_left

theorem mark_free {o : ℕ} (ho : o < 512)
    (hfree : (if hello.length = 0 then 8768 else 8800) ≤ 17 * 512 + o) :
    (entryAt (sectors (image shell hello s h)) (17, o)).mark = 0 := by
  unfold entryAt
  rw [mark_dirEntryAt]
  rw [sectors_get ho, image_eq hp, (within_payloads hp).write_append (by omega),
    (within_writeTables hp).write_eq (.inr hfree)]

/-! ### The root directory -/

theorem rootSlots_eq :
    dirSlots geometry (sectors (image shell hello s h)) geometry.rootCluster = sectorSlots 17 := by
  have hdata : geometry.clusterIsData 2 := geometry_isData.mpr (by decide)
  have hchain : ChainFrom geometry (sectors (image shell hello s h)) 2 [2] := by
    apply ChainFrom.singleton hdata
    rw [fatValue_of_leaves hdata (leaves_of_fat hp (leaves_fat_root hp) (by decide)) (by decide)]
    decide
  rw [geometry_fields.2.2.2.2, hchain.dirSlots_eq, flatMap_singleton]
  unfold clusterSlots
  rw [geometry_sectorsPerCluster, range_one, flatMap_singleton, geometry_sectorLba hdata]

theorem liveSlots_eq : liveSlots geometry (sectors (image shell hello s h)) geometry.rootCluster =
      if hello = [] then [(17, 0), (17, 32)] else [(17, 0), (17, 32), (17, 64)] := by
  have hslots : sectorSlots 17 = (17, 0) :: (17, 32) :: (17, 64) :: (17, 96) ::
      ((slotOffsets.drop 4).map (Prod.mk 17)) := by decide
  unfold liveSlots
  rw [rootSlots_eq hp, hslots, takeWhile_cons_of_pos, takeWhile_cons_of_pos]
  · by_cases hnone : hello = []
    · rw [if_pos hnone, takeWhile_cons_of_neg]
      have hmark := mark_free hp (o := 64) (by decide) (by rw [hnone]; decide)
      simpa using hmark
    · rw [if_neg hnone, takeWhile_cons_of_pos, takeWhile_cons_of_neg]
      · have hmark := mark_free hp (o := 96) (by decide) (by split_ifs <;> decide)
        simpa using hmark
      · rw [(stored_hello hp hnone).entry, names_eq.2.2.1]
        rfl
  · rw [(stored_edit hp).entry, names_eq.2.1]
    rfl
  · rw [(stored_shell hp).entry, names_eq.1]
    rfl

theorem rootChoice_eq : rootChoice geometry (sectors (image shell hello s h)) shellName = some (17, 0) ∧
    rootChoice geometry (sectors (image shell hello s h)) editName = some (17, 32) ∧
    (hello ≠ [] → rootChoice geometry (sectors (image shell hello s h)) helloName = some (17, 64)) := by
  have hmarks : shellName.getD 0 0 ≠ deletedMark ∧ editName.getD 0 0 ≠ deletedMark ∧
      helloName.getD 0 0 ≠ deletedMark := by
    decide
  have hnames : shellName ≠ editName ∧ shellName ≠ helloName ∧ editName ≠ helloName := by
    decide
  have hshell := (stored_shell hp).picked_iff hmarks.1
  have hedit := (stored_edit hp).picked_iff hmarks.2.1
  simp only [rootChoice, liveSlots_eq hp]
  refine ⟨?_, ?_, fun hsome => ?_⟩
  · split_ifs <;> simp [hshell]
  · split_ifs <;> simp [hshell, hedit, hnames]
  · simp [hsome, hshell, hedit, (stored_hello hp hsome).picked_iff hmarks.2.2, hnames]

end Placed

structure Sound (shell : List UInt8) (hello : Option (List UInt8)) (stores : Stores) : Prop where
  inside : ∀ e ∈ stores, e.1 < imageSize
  mounts : ∃ g, fat32Mount (sectors stores 0) = some g ∧
    Delivers g (sectors stores) (ascii "SHELL.BIN") shell ∧
    (∀ file ∈ hello, Delivers g (sectors stores) (ascii "HELLO.KLI") file) ∧
    Delivers g (sectors stores) (ascii "EDIT.TXT") editText

theorem shortNames : makeShortName (ascii "SHELL.BIN") = some shellName ∧
    makeShortName (ascii "EDIT.TXT") = some editName ∧
    makeShortName (ascii "HELLO.KLI") = some helloName := by
  decide +kernel

/-- An image the tool finishes keeps its promises exactly when rounding the payload sizes up to
clusters does not leave 32 bits. -/
theorem finished_sound_iff (shell : List UInt8) (hello : Option (List UInt8)) (stores : Stores)
    (hok : mkfat32 shell hello = .ok stores) :
    Sound shell hello stores ↔ Rounds shell.length ∧ ∀ file ∈ hello, Rounds file.length := by
  obtain ⟨hshell, hhello, hused, rfl⟩ := mkfat32_ok hok
  constructor
  · intro hsound
    constructor
    · by_contra hno
      obtain ⟨e, he, hle⟩ := block_outside (not_rounds_large hno)
      have hlt := hsound.inside e (mem_append_left _ (mem_append_left _ (mem_append_right _ he)))
      omega
    · rintro file rfl
      by_contra hno
      obtain ⟨e, he, hle⟩ := block_outside (not_rounds_large hno)
      have hlt := hsound.inside e (mem_append_right _ he)
      omega
  · rintro ⟨hs, hall⟩
    have hh : Rounds (hello.getD []).length := by
      cases hello with
      | none => exact Nat.zero_le _
      | some file => exact hall file rfl
    have hp := placed_of_used hshell hs hh hused
    rw [layout_eq hs hh]
    constructor
    · intro e he
      exact (within_image hp e he).2
    · obtain ⟨hshellAt, heditAt, hhelloAt⟩ := rootChoice_eq hp
      refine ⟨geometry, mount_image hp, (stored_shell hp).delivers shortNames.1 hshellAt, ?_,
        (stored_edit hp).delivers shortNames.2.1 heditAt⟩
      rintro file rfl
      have hsome : file ≠ [] := by
        rintro rfl
        exact hhello [] rfl (.inl rfl)
      exact (stored_hello hp hsome).delivers shortNames.2.2 (hhelloAt hsome)

theorem finished_sound_small :
    ∃ stores, mkfat32 [1, 2, 3] (some [7]) = .ok stores ∧ Sound [1, 2, 3] (some [7]) stores := by
  refine ⟨_, rfl, (finished_sound_iff [1, 2, 3] (some [7]) _ rfl).mpr ⟨by decide, ?_⟩⟩
  intro file hfile
  cases hfile
  decide

/-- The largest size the tool accepts: its cluster count is taken to be zero. -/
theorem largest_shell_leaves_image :
    ∃ stores, mkfat32 (replicate (2 ^ 32 - 1) 0) none = .ok stores ∧
      ∃ e ∈ stores, imageSize ≤ e.1 := by
  apply wrapped_shell_outside
  · rw [length_replicate]
    decide
  · rw [length_replicate]
    decide

end Mkfat32
