import ArmoniOS.Fat32.Geometry

/-! Short names and directory entries as `kernel/fat32.c` and `kernel/fat32_directory.c`
encode, compare and print them. Strings are the bytes before the terminator. -/
namespace Fat32
open ByteBlock

def attrReadOnly : UInt8 := 0x01
def attrHidden : UInt8 := 0x02
def attrSystem : UInt8 := 0x04
def attrVolumeId : UInt8 := 0x08
def attrDirectory : UInt8 := 0x10
def attrArchive : UInt8 := 0x20
def attrLongName : UInt8 := 0x0f

def deletedMark : UInt8 := 0xe5

def charSlash : UInt8 := 47
def charBackslash : UInt8 := 92
def charDot : UInt8 := 46
def charSpace : UInt8 := 32
def charNewline : UInt8 := 10

/-- The characters `" * + , : ; < = > ? [ ] |`. -/
def forbiddenChars : List UInt8 := [34, 42, 43, 44, 58, 59, 60, 61, 62, 63, 91, 93, 124]

def asciiUpper (c : UInt8) : UInt8 := if 97 ≤ c ∧ c ≤ 122 then c - 32 else c

/-- `out` after `kmemset(out, ' ', 11)` and the stores of both parts. -/
def padName (base ext : List UInt8) : List UInt8 :=
  base ++ List.replicate (8 - base.length) charSpace ++
    (ext ++ List.replicate (3 - ext.length) charSpace)

/-- The loop both encoders share. `separators` is the first rejected set, `forbidden` the one
tested after the dot. -/
def shortNameLoop (separators forbidden : List UInt8) :
    (name base ext : List UInt8) → (inExt : Bool) → Option (List UInt8)
  | [], base, ext, inExt =>
      if base = [] ∨ (inExt = true ∧ ext = []) then none else some (padName base ext)
  | ch :: rest, base, ext, inExt =>
      let c := asciiUpper ch
      if c ∈ separators then none
      else if c = charDot then
        if inExt = true ∨ base = [] then none
        else shortNameLoop separators forbidden rest base ext true
      else if c ≤ charSpace ∨ c ∈ forbidden then none
      else if inExt = false then
        if 8 ≤ base.length then none
        else shortNameLoop separators forbidden rest (base ++ [c]) ext inExt
      else if 3 ≤ ext.length then none
      else shortNameLoop separators forbidden rest base (ext ++ [c]) inExt

def makeShortName (name : List UInt8) : Option (List UInt8) :=
  match name with
  | [] => none
  | ch :: rest =>
      if ch = charSlash then
        if rest = [] then none
        else shortNameLoop [charSlash] (charBackslash :: forbiddenChars) rest [] [] false
      else shortNameLoop [charSlash] (charBackslash :: forbiddenChars) name [] [] false

def dirMakeShortName (name : List UInt8) : Option (List UInt8) :=
  match name with
  | [] => none
  | _ :: _ => shortNameLoop [charSlash, charBackslash] forbiddenChars name [] [] false

structure DirEntry where
  name : List UInt8
  attr : UInt8
  firstCluster : ℕ
  size : ℕ
  deriving DecidableEq

def dirEntryAt (s : Sector) (offset : ℕ) : DirEntry where
  name := s.slice offset 11
  attr := s.get (offset + 11)
  firstCluster := s.le16 (offset + 20) * 2 ^ 16 + s.le16 (offset + 26)
  size := s.le32 (offset + 28)

namespace DirEntry

/-- `entry[0]`: zero ends the directory, `0xe5` is a deleted entry. -/
def mark (e : DirEntry) : UInt8 := e.name.getD 0 0

def isDirectory (e : DirEntry) : Prop := e.attr &&& attrDirectory ≠ 0
deriving Decidable

def isVolumeId (e : DirEntry) : Prop := e.attr &&& attrVolumeId ≠ 0
deriving Decidable

/-- The `.` and `..` entries of a subdirectory. -/
def isDot (e : DirEntry) : Prop :=
  e.name.getD 0 0 = charDot ∧
    (e.name.getD 1 0 = charSpace ∨ (e.name.getD 1 0 = charDot ∧ e.name.getD 2 0 = charSpace))
deriving Decidable

def base (e : DirEntry) : List UInt8 := (e.name.take 8).rdropWhile (· = charSpace)

def extension (e : DirEntry) : List UInt8 := (e.name.drop 8).rdropWhile (· = charSpace)

/-- `BASE.EXT`, or `BASE` when there is no extension. -/
def text (e : DirEntry) : List UInt8 :=
  e.base ++ if e.extension = [] then [] else charDot :: e.extension

def line (e : DirEntry) : List UInt8 :=
  e.text ++ (if e.isDirectory then [charSlash] else []) ++ [charNewline]

end DirEntry

def shortNameMax : ℕ := 13

/-- A blank base name is refused; the length guards never fire on an 8.3 name. -/
def dirCopyName (e : DirEntry) : Option (List UInt8) :=
  if e.base = [] ∨ shortNameMax ≤ e.text.length then none else some e.text

/-- The stores of `write_dir_entry`, in source order. -/
def writeDirEntry (s : Sector) (offset : ℕ) (shortName : List UInt8) (attr : UInt8)
    (firstCluster size : ℕ) : Sector :=
  ((((((s.put offset (List.replicate 32 0)).put offset shortName).put (offset + 11) [attr]).putLe16
    (offset + 20) (firstCluster / 2 ^ 16)).putLe16 (offset + 26) (firstCluster % 2 ^ 16)).putLe32
    (offset + 28) size)

/-- The bounded output window of a textual listing; `buffer` holds the bytes written so far. -/
structure ListOutput where
  capacity : ℕ
  offset : ℕ
  position : ℕ
  buffer : List UInt8
  deriving DecidableEq

/-- `append_list_byte` and `dir_append_byte`; the flag is false when the buffer is full. -/
def appendListByte (out : ListOutput) (value : UInt8) : ListOutput × Bool :=
  if out.offset ≤ out.position then
    if out.capacity ≤ out.buffer.length then (out, false)
    else ({ out with buffer := out.buffer ++ [value], position := out.position + 1 }, true)
  else ({ out with position := out.position + 1 }, true)

def appendBytes : ListOutput → List UInt8 → ListOutput × Bool
  | out, [] => (out, true)
  | out, b :: bs =>
      match appendListByte out b with
      | (out', true) => appendBytes out' bs
      | (out', false) => (out', false)

/-- `append_short_name`, and `dir_append_name` with the same statements. -/
def appendShortName (e : DirEntry) (out : ListOutput) : ListOutput × Bool := appendBytes out e.line

end Fat32
