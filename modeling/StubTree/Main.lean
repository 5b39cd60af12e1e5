import Std.Time.Zoned
import StubTree.Command.Terminal

/-!
The program: it takes a picture of the working directory, lets the command line work on the picture,
and brings the directory in line with the result. It has no access to anything outside.
-/

namespace StubTree

open Files

/-- Lists everything below a directory. Links and special files are left out. -/
partial def picture (directory : IO.FS.DirEntry) (place : Place) : IO (List (Place × Entry)) := do
  let mut found : List (Place × Entry) := []
  for item in ← directory.path.readDir do
    let here := place ++ [item.fileName]
    match (← item.path.metadata).type with
    | .file =>
      found := found ++ [(here, .file (← IO.FS.readBinFile item.path).data.toList)]
    | .dir =>
      found := found ++ [(here, .directory)] ++ (← picture item here)
    | _ => pure ()
  return found

/-- Removes what is gone, and writes what is new or different. -/
def bringInLine (before after : Tree) : IO Unit := do
  let path (place : Place) : String := "/".intercalate place
  for (place, entry) in before.entries.reverse do
    if after.get? place ≠ some entry then
      match entry with
      | .file _ => IO.FS.removeFile (path place)
      | .directory => IO.FS.removeDir (path place)
  for (place, entry) in after.entries do
    if before.get? place ≠ some entry then
      match entry with
      | .file content => IO.FS.writeBinFile (path place) (ByteArray.mk content.toArray)
      | .directory => IO.FS.createDirAll (path place)

/-- A whole number in decimal, filled up with leading zeros. -/
def padded (width n : Nat) : String :=
  let digits := Nat.toDigits 10 n
  String.ofList (List.replicate (width - digits.length) '0' ++ digits)

/-- The present moment in the form of log lines. -/
def now : IO String := do
  let t := Std.Time.DateTime.ofTimestamp (← Std.Time.Timestamp.now) Std.Time.TimeZone.ZoneRules.UTC
  let two (n : Int) : String := padded 2 n.toNat
  return padded 4 t.year.toInt.toNat ++ "-" ++ two t.month.val ++ "-" ++ two t.day.val ++
    "T" ++ two t.hour.val ++ ":" ++ two t.minute.val ++ ":" ++ two t.second.val ++ "." ++
    padded 6 (t.nanosecond.val.toNat / 1000) ++ "Z"

def environment : IO Command.Environment := do
  return ⟨← IO.getEnv "STUBGEN_LOG", ← IO.getEnv "STUBGEN_LOG_FORMAT", ← IO.getEnv "RUST_LOG"⟩

/-- The files are looked at only if there is a command for them. -/
def filesHere (args : List String) : IO Tree := do
  let home ← IO.currentDir
  match Command.parse args with
  | .error _ => return ⟨home.toString, []⟩
  | .ok _ => return ⟨home.toString, ← picture ⟨".", "."⟩ []⟩

def answerHere (args : List String) : IO UInt32 := do
  let before ← filesHere args
  let ending :=
    Command.answer (Command.searchIn before) .bare (← environment) (← now) args before
  bringInLine before ending.tree
  IO.print ending.output
  IO.eprint ending.diagnostics
  return UInt32.ofNat ending.status

end StubTree

def main (args : List String) : IO UInt32 := StubTree.answerHere args
