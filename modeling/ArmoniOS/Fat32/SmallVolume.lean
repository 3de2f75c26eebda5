import ArmoniOS.Fat32.Files

/-! A family of tiny images: one reserved sector, one FAT sector per copy, one sector per
cluster, the root directory in cluster 2. -/
namespace Fat32.SmallVolume
open ByteBlock

def bytes (s : String) : List UInt8 := s.toUTF8.toList

/-- The entries of clusters `2, 3, ...` after the two reserved ones. -/
def fatSector (values : List ℕ) : Sector :=
  (clusterEoc :: clusterMask :: values).zipIdx.foldl (fun s x => s.putLe32 (4 * x.2) x.1) Block.zero

/-- A directory sector with the given short names, attributes, first clusters and sizes. -/
def dirSector (entries : List (String × UInt8 × ℕ × ℕ)) : Sector :=
  entries.zipIdx.foldl (fun s x =>
    writeDirEntry s (32 * x.2) (bytes x.1.1) x.1.2.1 x.1.2.2.1 x.1.2.2.2) Block.zero

/-- Boot sector, FAT copies, then the sectors of clusters `2, 3, ...`. -/
def disk (fats total : ℕ) (fat : Sector) (clusters : List Sector) (lba : ℕ) : Sector :=
  if lba = 0 then smallBoot fats total
  else if lba ≤ fats then fat
  else clusters.getD (lba - 1 - fats) Block.zero

def fresh (d : ℕ → Sector) : Volume := ⟨d, Block.zero, Block.zero, []⟩

def geometry : Geometry := smallGeometry 1 16 (by decide +kernel)

def twoFiles : Volume :=
  fresh (disk 1 16 (fatSector [clusterMask, clusterMask, clusterMask])
    [dirSector [("A       TXT", attrArchive, 3, 5), ("B       TXT", attrArchive, 4, 7)]])

end Fat32.SmallVolume
