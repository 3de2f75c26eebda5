import ArmoniOS.Lib.ByteBlock
import ArmoniOS.Lib.Exec

/-! The temporary file system of `kernel/tmpfs.c`: eight static slots with a name, 256 data bytes
and a size each. Names are the bytes before the terminator. -/
namespace Tmpfs
open Exec ByteBlock

def maxFiles : ℕ := 8
def maxFileSize : ℕ := 256
def maxName : ℕ := 32

/-- `tmpfs_file_t`. -/
structure File where
  name : List UInt8
  data : Block maxFileSize
  size : ℕ
  used : Bool

/-- A slot after `tmpfs_clear_file`. -/
def clearedFile : File := ⟨[], Block.zero, 0, false⟩

/-- `g_tmpfs_files` after `tmpfs_reset`. -/
def resetFiles : List File := List.replicate maxFiles clearedFile

def tmpfsFindFile (files : List File) (name : List UInt8) : Option ℕ :=
  if name = [] then none else files.findIdx? fun f => f.used ∧ f.name = name

/-- A name that does not fit is copied up to the last byte before the copy fails. -/
def tmpfsCreate (name : List UInt8) : Run (List File) Unit := do
  let files ← Exec.get
  if name = [] ∨ tmpfsFindFile files name ≠ none then fail
  else
    match files.findIdx? fun f => f.used = false with
    | none => fail
    | some i =>
        if maxName ≤ name.length then do
          modify fun files => files.set i { clearedFile with name := name.take (maxName - 1) }
          fail
        else modify fun files => files.set i { clearedFile with name := name, used := true }

def tmpfsDelete (name : List UInt8) : Run (List File) Unit := do
  let files ← Exec.get
  match tmpfsFindFile files name with
  | none => fail
  | some i => modify fun files => files.set i clearedFile

/-- The result is `*bytes_written`. -/
def tmpfsWrite (name : List UInt8) (offset : ℕ) (data : List UInt8) : Run (List File) ℕ := do
  let files ← Exec.get
  match tmpfsFindFile files name with
  | none => fail
  | some i =>
      if maxFileSize < offset then fail
      else do
        let file := files.getD i clearedFile
        let count := if maxFileSize - offset < data.length then maxFileSize - offset else data.length
        let size := if file.size < offset + count then offset + count else file.size
        modify fun files =>
          files.set i { file with data := file.data.put offset (data.take count), size := size }
        pure count

def tmpfsRead (name : List UInt8) (offset capacity : ℕ) : Run (List File) (List UInt8) := do
  let files ← Exec.get
  match tmpfsFindFile files name with
  | none => fail
  | some i =>
      let file := files.getD i clearedFile
      if file.size < offset then fail
      else
        let count := if file.size - offset < capacity then file.size - offset else capacity
        pure (file.data.slice offset count)

def tmpfsStat (name : List UInt8) : Run (List File) ℕ := do
  let files ← Exec.get
  match tmpfsFindFile files name with
  | none => fail
  | some i => pure (files.getD i clearedFile).size

inductive Op where
  | create (name : List UInt8)
  | write (name : List UInt8) (offset : ℕ) (data : List UInt8)
  | read (name : List UInt8) (offset capacity : ℕ)
  | stat (name : List UInt8)
  | delete (name : List UInt8)
  deriving DecidableEq

inductive Reply where
  | failed
  | done
  | count (n : ℕ)
  | bytes (bs : List UInt8)
  | size (n : ℕ)
  deriving DecidableEq

/-- The reply of a call whose results are turned into replies by `f`. -/
def replyOf {α : Type} (f : α → Reply) (r : Option α × List File) : Reply × List File :=
  ((r.1.map f).getD .failed, r.2)

def Op.step (files : List File) : Op → Reply × List File
  | .create name => replyOf (fun _ => .done) (tmpfsCreate name files)
  | .write name offset data => replyOf .count (tmpfsWrite name offset data files)
  | .read name offset capacity => replyOf .bytes (tmpfsRead name offset capacity files)
  | .stat name => replyOf .size (tmpfsStat name files)
  | .delete name => replyOf (fun _ => .done) (tmpfsDelete name files)

def runOps (files : List File) : List Op → List Reply × List File
  | [] => ([], files)
  | op :: ops =>
      let r := op.step files
      let rest := runOps r.2 ops
      (r.1 :: rest.1, rest.2)

end Tmpfs
