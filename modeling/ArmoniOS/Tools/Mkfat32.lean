import ArmoniOS.Fat32.Geometry
import ArmoniOS.Lib.BlockLog

/-!
The tool that lays out the boot image.

The image is a zeroed buffer of one megabyte. Every function of the tool is modelled as the list of
byte stores it makes, at offsets from the start of the buffer; nothing keeps an offset below its end.
-/
namespace Mkfat32

open StoreLog BlockLog ByteBlock.Block Fat32 List

def totalSectors : ℕ := 2048
def reservedSectors : ℕ := 1
def fatCount : ℕ := 1
def fatSectors : ℕ := 16
def rootCluster : ℕ := 2
def shellFirstCluster : ℕ := 3
def editClusterCount : ℕ := 8
def imageSize : ℕ := totalSectors * sectorSize
def fat32Eoc : ℕ := 0x0fffffff

abbrev Stores : Type := Log ℕ UInt8

def ascii (text : String) : List UInt8 := text.toList.map fun c => UInt8.ofNat c.toNat

def putLe16 (p value : ℕ) : Stores := block p (bytes16 value)

def putLe32 (p value : ℕ) : Stores := block p (bytes32 value)

def clustersForSize (size : ℕ) : ℕ := u32 (size + sectorSize - 1) / sectorSize

def dataStartSector : ℕ := reservedSectors + fatCount * fatSectors

def writeBootSector : Stores :=
  block 0 [0xeb, 0x58, 0x90] ++ block 3 (ascii "KOLIBRI ") ++ putLe16 11 sectorSize ++
    block 13 [1] ++ putLe16 14 reservedSectors ++ block 16 [UInt8.ofNat fatCount] ++
    putLe16 17 0 ++ putLe16 19 0 ++ block 21 [0xf8] ++ putLe16 22 0 ++ putLe16 24 1 ++
    putLe16 26 1 ++ putLe32 28 0 ++ putLe32 32 totalSectors ++ putLe32 36 fatSectors ++
    putLe16 40 0 ++ putLe16 42 0 ++ putLe32 44 rootCluster ++ putLe16 48 0 ++ putLe16 50 0 ++
    block 64 [0x80] ++ block 66 [0x29] ++ putLe32 67 0x4b41524d ++
    block 71 (ascii "KOLIBRIARM") ++ block 82 (ascii "FAT32") ++ block 510 [0x55, 0xaa]

def writeClusterChain (fat firstCluster clusterCount : ℕ) : Stores :=
  (range clusterCount).flatMap fun i =>
    let cluster := u32 (firstCluster + i)
    let next := if u32 (i + 1) = clusterCount then fat32Eoc else u32 (cluster + 1)
    putLe32 (fat + u32 (cluster * 4)) next

def writeFat (shellClusterCount editFirstCluster helloClusterCount helloFirstCluster : ℕ) : Stores :=
  let fat := reservedSectors * sectorSize
  putLe32 fat 0x0ffffff8 ++ putLe32 (fat + 4) fat32Eoc ++ putLe32 (fat + rootCluster * 4) fat32Eoc ++
    writeClusterChain fat shellFirstCluster shellClusterCount ++
    writeClusterChain fat editFirstCluster editClusterCount ++
    if helloClusterCount ≠ 0 then writeClusterChain fat helloFirstCluster helloClusterCount else []

def writeDirEntry (entry : ℕ) (name : List UInt8) (firstCluster fileSize : ℕ) : Stores :=
  block entry name ++ block (entry + 11) [0x20] ++ putLe16 (entry + 20) 0 ++
    putLe16 (entry + 26) (firstCluster % 2 ^ 16) ++ putLe32 (entry + 28) fileSize

def shellName : List UInt8 := ascii "SHELL   BIN"
def editName : List UInt8 := ascii "EDIT    TXT"
def helloName : List UInt8 := ascii "HELLO   KLI"

def editText : List UInt8 := ascii "ArmoniOS editable FAT32 file\n"

def writeRootEntries (shellSize editFirstCluster helloSize helloFirstCluster : ℕ) : Stores :=
  let root := dataStartSector * sectorSize
  writeDirEntry root shellName shellFirstCluster shellSize ++
    writeDirEntry (root + 32) editName editFirstCluster editText.length ++
    if helloSize ≠ 0 then writeDirEntry (root + 64) helloName helloFirstCluster helloSize else []

def clusterOffset (firstCluster : ℕ) : ℕ :=
  let lba := u32 (dataStartSector + u32 (firstCluster + (2 ^ 32 - rootCluster)))
  u32 (lba * sectorSize)

/-- `fread` of `size` bytes; a file that ends earlier is an error. -/
def copyPayload (input : List UInt8) (size firstCluster : ℕ) : Option Stores :=
  let read := input.take size
  if read.length = size then some (block (clusterOffset firstCluster) read) else none

def writeEditPayload (editFirstCluster : ℕ) : Stores :=
  block (clusterOffset editFirstCluster) editText

inductive ToolError where
  | shellSize
  | externalSize
  | doesNotFit
  | copyShell
  | copyExternal
  deriving DecidableEq, Repr

def ToolError.message : ToolError → String
  | .shellSize => "shell payload size is invalid\n"
  | .externalSize => "external payload size is invalid\n"
  | .doesNotFit => "payloads do not fit in tiny FAT32 image\n"
  | .copyShell => "failed to copy shell payload\n"
  | .copyExternal => "failed to copy external payload\n"

/-- The sizes `main` goes on with. -/
def sizeAccepted (file : List UInt8) : Prop := ¬(file.length = 0 ∨ uint32Max < file.length)
deriving Decidable

/-- The layout of the data area: cluster counts and first clusters as `main` computes them. -/
structure Layout where
  shellClusters : ℕ
  helloClusters : ℕ
  editFirst : ℕ
  helloFirst : ℕ

def layout (shellSize helloSize : ℕ) : Layout :=
  let shellClusters := clustersForSize shellSize
  let editFirst := u32 (shellFirstCluster + shellClusters)
  { shellClusters
    helloClusters := if helloSize = 0 then 0 else clustersForSize helloSize
    editFirst
    helloFirst := u32 (editFirst + editClusterCount) }

def Layout.used (l : Layout) : ℕ :=
  u32 (1 + l.shellClusters + editClusterCount + l.helloClusters)

def writeTables (l : Layout) (shellSize helloSize : ℕ) : Stores :=
  writeBootSector ++ writeFat l.shellClusters l.editFirst l.helloClusters l.helloFirst ++
    writeRootEntries shellSize l.editFirst helloSize l.helloFirst

/-- `main` from the payload files to the finished image, as the stores into the zeroed buffer. -/
def mkfat32 (shell : List UInt8) (hello : Option (List UInt8)) : Except ToolError Stores :=
  let helloSize := (hello.getD []).length
  let l := layout shell.length helloSize
  if ¬sizeAccepted shell then .error .shellSize
  else if ∃ file ∈ hello, ¬sizeAccepted file then .error .externalSize
  else if totalSectors - dataStartSector < l.used then .error .doesNotFit
  else
    match copyPayload shell shell.length shellFirstCluster with
    | none => .error .copyShell
    | some shellStores =>
      let stores := writeTables l shell.length helloSize ++ shellStores ++
        writeEditPayload l.editFirst
      match hello with
      | none => .ok stores
      | some file =>
        match copyPayload file file.length l.helloFirst with
        | none => .error .copyExternal
        | some helloStores => .ok (stores ++ helloStores)

/-! ### What a successful run has stored -/

variable {size o : ℕ}

section Run
variable {shell : List UInt8} {hello : Option (List UInt8)} {stores : Stores}

theorem copyPayload_length (input : List UInt8) (firstCluster : ℕ) :
    copyPayload input input.length firstCluster = some (block (clusterOffset firstCluster) input) := by
  unfold copyPayload
  simp only [take_length, if_true]

/-- All stores of a run, the external payload being empty when there is none. -/
def allStores (l : Layout) (shell hello : List UInt8) : Stores :=
  writeTables l shell.length hello.length ++ block (clusterOffset shellFirstCluster) shell ++
    writeEditPayload l.editFirst ++ block (clusterOffset l.helloFirst) hello

theorem mkfat32_ok (h : mkfat32 shell hello = .ok stores) :
    sizeAccepted shell ∧ (∀ file ∈ hello, sizeAccepted file) ∧
      (layout shell.length (hello.getD []).length).used ≤ totalSectors - dataStartSector ∧
      stores = allStores (layout shell.length (hello.getD []).length) shell (hello.getD []) := by
  unfold mkfat32 at h
  dsimp only at h
  by_cases hshell : sizeAccepted shell
  · rw [if_neg (not_not.mpr hshell)] at h
    by_cases hsize : ∃ file ∈ hello, ¬sizeAccepted file
    · rw [if_pos hsize] at h
      cases h
    rw [if_neg hsize] at h
    have hall : ∀ file ∈ hello, sizeAccepted file := by
      intro file hfile
      by_contra hno
      exact hsize ⟨file, hfile, hno⟩
    by_cases hfit : totalSectors - dataStartSector <
        (layout shell.length (hello.getD []).length).used
    · rw [if_pos hfit] at h
      cases h
    rw [if_neg hfit, copyPayload_length] at h
    refine ⟨hshell, hall, not_lt.mp hfit, ?_⟩
    cases hello with
    | none =>
      cases h
      unfold allStores
      simp [block]
    | some file =>
      dsimp only [Option.getD_some] at h
      rw [copyPayload_length] at h
      cases h
      rfl
  · rw [if_pos hshell] at h
    cases h

/-! ### Payloads whose cluster count wraps -/

def Rounds (size : ℕ) : Prop := size ≤ 2 ^ 32 - sectorSize
deriving Decidable

theorem clustersForSize_eq (h : Rounds size) : clustersForSize size = (size + 511) / 512 := by
  unfold Rounds sectorSize at h
  unfold clustersForSize sectorSize
  rw [u32_of_lt (by omega)]
  rfl

theorem clustersForSize_wrapped (h : ¬Rounds size) (hle : size ≤ uint32Max) :
    clustersForSize size = 0 := by
  unfold Rounds sectorSize at h
  unfold uint32Max at hle
  unfold clustersForSize u32 sectorSize
  omega

theorem block_outside {file : List UInt8} (h : imageSize < file.length) :
    ∃ e ∈ block o file, imageSize ≤ e.1 := by
  obtain ⟨e, he, heq⟩ := exists_mem_block h
  exact ⟨e, he, by omega⟩

theorem not_rounds_large (h : ¬Rounds size) : imageSize < size := by
  unfold Rounds sectorSize at h
  unfold imageSize totalSectors sectorSize
  omega

theorem wrapped_shell_outside (hno : ¬Rounds shell.length) (hle : shell.length ≤ uint32Max) :
    ∃ stores, mkfat32 shell none = .ok stores ∧ ∃ e ∈ stores, imageSize ≤ e.1 := by
  have hzero := clustersForSize_wrapped hno hle
  have hlarge := not_rounds_large hno
  have haccept : sizeAccepted shell := by
    rintro (hnil | hbig)
    · rw [hnil] at hlarge
      cases hlarge
    · omega
  have hused : (layout shell.length 0).used = 9 := by
    unfold Layout.used layout
    rw [hzero]
    rfl
  have hok : mkfat32 shell none = .ok (writeTables (layout shell.length 0) shell.length 0 ++
      block (clusterOffset shellFirstCluster) shell ++
      writeEditPayload (layout shell.length 0).editFirst) := by
    unfold mkfat32
    dsimp only [Option.getD_none, length_nil]
    rw [if_neg (not_not.mpr haccept), if_neg (by simp), if_neg (by rw [hused]; decide),
      copyPayload_length]
  obtain ⟨e, he, hout⟩ := block_outside hlarge
  exact ⟨_, hok, e, mem_append_left _ (mem_append_right _ he), hout⟩

end Run

/-! ### Payloads that fit -/

/-- The shell takes `s` clusters from cluster 3 on, the editable file eight, the external payload `h`,
and the data area has room for all of them. -/
structure Placed (shell hello : List UInt8) (s h : ℕ) : Prop where
  shellPos : 0 < shell.length
  shellFits : shell.length ≤ s * 512
  helloFits : hello.length ≤ h * 512
  helloNone : h = 0 ↔ hello = []
  room : s + h ≤ 2022

theorem clusterOffset_eq {c : ℕ} (hc : 2 ≤ c) (hle : c ≤ 2033) :
    clusterOffset c = (15 + c) * 512 := by
  have hback : u32 (c + (2 ^ 32 - rootCluster)) = c - 2 := by
    unfold u32 rootCluster
    omega
  have hlba : u32 (dataStartSector + (c - 2)) = 15 + c := by
    rw [show dataStartSector = 17 from rfl, u32_of_lt (by omega)]
    omega
  unfold clusterOffset
  rw [hback, hlba]
  exact u32_of_lt (by unfold sectorSize; omega)

def chainEntry (first count i : ℕ) : ℕ := if i + 1 = count then fat32Eoc else first + i + 1

variable {first count : ℕ}

section
variable (h : first + count ≤ 2048)
include h

theorem writeClusterChain_eq : writeClusterChain 512 first count = (range count).flatMap fun i =>
        block (512 + 4 * first + 4 * i) (bytes32 (chainEntry first count i)) := by
  apply flatMap_congr
  intro i hi
  have hlt := mem_range.mp hi
  have hcluster : u32 (first + i) = first + i := u32_of_lt (by omega)
  have hnext : u32 (i + 1) = i + 1 := u32_of_lt (by omega)
  have hsucc : u32 (first + i + 1) = first + i + 1 := u32_of_lt (by omega)
  have hplace : u32 ((first + i) * 4) = (first + i) * 4 := u32_of_lt (by omega)
  dsimp only
  rw [hcluster, hnext, hsucc, hplace]
  congr 1
  omega

theorem within_writeClusterChain :
    Within (writeClusterChain 512 first count) (512 + 4 * first) (512 + 4 * first + 4 * count) := by
  rw [writeClusterChain_eq h]
  apply within_rows
  intro i _
  rfl

theorem leaves_writeClusterChain {i : ℕ} (hi : i < count) :
    Leaves (writeClusterChain 512 first count) (512 + 4 * (first + i))
      (bytes32 (chainEntry first count i)) := by
  rw [writeClusterChain_eq h, Nat.mul_add, ← Nat.add_assoc]
  exact .rows (w := 4) (fun _ _ => rfl) hi

end

section Placed
variable {shell hello : List UInt8} {s h : ℕ}

def plainLayout (s h : ℕ) : Layout := ⟨s, h, 3 + s, 11 + s⟩

def image (shell hello : List UInt8) (s h : ℕ) : Stores := allStores (plainLayout s h) shell hello

theorem layout_eq (hs : Rounds shell.length) (hh : Rounds hello.length) :
    layout shell.length hello.length =
      plainLayout ((shell.length + 511) / 512) ((hello.length + 511) / 512) := by
  have hsle : (shell.length + 511) / 512 ≤ 2 ^ 23 := by
    unfold Rounds sectorSize at hs
    omega
  have hzero : (if hello.length = 0 then 0 else clustersForSize hello.length) =
      (hello.length + 511) / 512 := by
    rw [clustersForSize_eq hh]
    split_ifs with hnil
    · rw [hnil]
    · rfl
  unfold layout plainLayout
  rw [clustersForSize_eq hs, hzero]
  dsimp only
  rw [u32_of_lt (by unfold shellFirstCluster; omega)]
  congr 1
  rw [u32_of_lt (by unfold shellFirstCluster editClusterCount; omega)]
  unfold shellFirstCluster editClusterCount
  omega

theorem placed_of_used (hshell : sizeAccepted shell) (hs : Rounds shell.length)
    (hh : Rounds hello.length)
    (hused : (layout shell.length hello.length).used ≤ totalSectors - dataStartSector) :
    Placed shell hello ((shell.length + 511) / 512) ((hello.length + 511) / 512) := by
  unfold Rounds sectorSize at hs hh
  rw [layout_eq hs hh] at hused
  have hsum : 1 + (shell.length + 511) / 512 + editClusterCount + (hello.length + 511) / 512 <
      2 ^ 32 := by
    unfold editClusterCount
    omega
  unfold Layout.used plainLayout at hused
  rw [u32_of_lt hsum] at hused
  have hroom : totalSectors - dataStartSector = 2031 := rfl
  have height : editClusterCount = 8 := rfl
  unfold sizeAccepted at hshell
  constructor
  · omega
  · omega
  · omega
  · rw [← length_eq_zero_iff]
    omega
  · omega

/-! ### Where the stores lie -/

theorem within_writeBootSector : Within writeBootSector 0 512 := by
  unfold Within
  decide +kernel

theorem within_writeFat (hp : Placed shell hello s h) :
    Within (writeFat s (3 + s) h (11 + s)) 512 8704 := by
  have hroom := hp.room
  have hchain {first count : ℕ} (hle : first + count ≤ 2048) :
      Within (writeClusterChain 512 first count) 512 8704 :=
    (within_writeClusterChain hle).mono (by omega) (by omega)
  have hword {p v : ℕ} (hlo : 512 ≤ p) (hhi : p + 4 ≤ 8704) : Within (putLe32 p v) 512 8704 :=
    within_block hlo hhi
  refine (((((hword ?_ ?_).append (hword ?_ ?_)).append (hword ?_ ?_)).append (hchain ?_)).append
    (hchain ?_)).append ?_
  all_goals try decide
  · unfold shellFirstCluster
    omega
  · unfold editClusterCount
    omega
  · split_ifs
    · exact hchain (by omega)
    · exact .nil

theorem within_writeDirEntry {e lo hi : ℕ} {name : List UInt8} (hname : name.length = 11)
    (hlo : lo ≤ e) (hhi : e + 32 ≤ hi) (first size : ℕ) :
    Within (writeDirEntry e name first size) lo hi := by
  have hfield (o k : ℕ) {bs : List UInt8} (hlen : bs.length = k) (hok : o + k ≤ 32) :
      Within (block (e + o) bs) lo hi :=
    within_block (by omega) (by omega)
  exact ((((hfield 0 11 hname (by decide)).append (hfield 11 1 rfl (by decide))).append
    (hfield 20 2 rfl (by decide))).append (hfield 26 2 rfl (by decide))).append
    (hfield 28 4 rfl (by decide))

theorem names_eq : shellName = [83, 72, 69, 76, 76, 32, 32, 32, 66, 73, 78] ∧
    editName = [69, 68, 73, 84, 32, 32, 32, 32, 84, 88, 84] ∧
    helloName = [72, 69, 76, 76, 79, 32, 32, 32, 75, 76, 73] ∧ editText.length = 29 := by
  decide +kernel

theorem shellName_length : shellName.length = 11 := congrArg length names_eq.1

theorem editName_length : editName.length = 11 := congrArg length names_eq.2.1

theorem helloName_length : helloName.length = 11 := congrArg length names_eq.2.2.1

theorem editText_length : editText.length = 29 := names_eq.2.2.2

theorem within_writeRootEntries (shellSize editFirst helloSize helloFirst : ℕ) :
    Within (writeRootEntries shellSize editFirst helloSize helloFirst) 8704
      (if helloSize = 0 then 8768 else 8800) := by
  have hroot : dataStartSector * sectorSize = 8704 := rfl
  unfold writeRootEntries
  dsimp only
  by_cases hnone : helloSize = 0
  · rw [if_pos hnone, if_neg (not_not.mpr hnone)]
    exact ((within_writeDirEntry shellName_length (by decide) (by decide) _ _).append
      (within_writeDirEntry editName_length (by decide) (by decide) _ _)).append .nil
  · rw [if_neg hnone, if_pos hnone]
    exact ((within_writeDirEntry shellName_length (by decide) (by decide) _ _).append
      (within_writeDirEntry editName_length (by decide) (by decide) _ _)).append
      (within_writeDirEntry helloName_length (by decide) (by decide) _ _)

variable (hp : Placed shell hello s h)
include hp

theorem within_writeTables : Within (writeTables (plainLayout s h) shell.length hello.length) 0
    (if hello.length = 0 then 8768 else 8800) := by
  have hle : 8704 ≤ if hello.length = 0 then 8768 else 8800 := by split_ifs <;> decide
  exact ((within_writeBootSector.mono le_rfl (le_trans (by decide) hle)).append
    ((within_writeFat hp).mono (Nat.zero_le _) hle)).append
    ((within_writeRootEntries _ _ _ _).mono (Nat.zero_le _) le_rfl)

theorem image_eq : image shell hello s h =
    writeTables (plainLayout s h) shell.length hello.length ++
      (block 9216 shell ++ block ((18 + s) * 512) editText ++ block ((26 + s) * 512) hello) := by
  have hroom := hp.room
  unfold image allStores writeEditPayload plainLayout shellFirstCluster
  dsimp only
  rw [clusterOffset_eq (by decide) (by decide), clusterOffset_eq (by omega) (by omega),
    clusterOffset_eq (by omega) (by omega)]
  simp only [append_assoc, ← Nat.add_assoc, Nat.reduceAdd, Nat.reduceMul]

theorem within_payloads :
    Within (block 9216 shell ++ block ((18 + s) * 512) editText ++ block ((26 + s) * 512) hello)
      9216 imageSize := by
  have hroom := hp.room
  have hshell := hp.shellFits
  have hhello := hp.helloFits
  have hsize : imageSize = 1048576 := rfl
  refine ((within_block ?_ ?_).append (within_block ?_ ?_)).append (within_block ?_ ?_)
  all_goals try rw [editText_length]
  all_goals omega

theorem within_image : Within (image shell hello s h) 0 imageSize := by
  rw [image_eq hp]
  apply Within.append
  · apply (within_writeTables hp).mono le_rfl
    split_ifs <;> decide
  · exact (within_payloads hp).mono (Nat.zero_le _) le_rfl

end Placed

end Mkfat32
