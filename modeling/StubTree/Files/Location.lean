import StubTree.Text.Segments

/-!
Paths as they are written: texts whose segments are separated by slashes.
-/

namespace StubTree.Files

/-- A path that begins with a slash does not depend on where it is taken from. -/
def isAbsolute (path : String) : Bool := path.toList.head? = some '/'

/-- Takes `part` from `base` on. No slash is doubled, and an absolute part stands alone. -/
def join (base part : String) : String :=
  if isAbsolute part || base.isEmpty then part
  else if base.toList.getLast? = some '/' then base ++ part
  else base ++ "/" ++ part

/-- A segment that leads nowhere. -/
def isIdle (segment : String) : Bool := segment = "" || segment = "."

/-- The segments that count when paths are compared: idle ones do only at the very front. -/
def components (path : String) : List String :=
  match Text.segments '/' path with
  | [] => []
  | first :: rest =>
    let front := if first ≠ "" then [first] else if rest.isEmpty then [] else ["/"]
    front ++ rest.filter (!isIdle ·)

/-- The last name of a path, if it ends in one. -/
def fileName? (path : String) : Option String :=
  match (components path).getLast? with
  | none => none
  | some name => if name = "/" || name = "." || name = ".." then none else some name

/-- A file name up to its last dot. A dot at the front does not count. -/
def stem (name : String) : String :=
  match name.toList.reverse.dropWhile (· ≠ '.') with
  | '.' :: before => if before.isEmpty then name else String.ofList before.reverse
  | _ => name

/-- The stem of the last name, or the whole path if it does not end in a name. -/
def stemOrPath (path : String) : String :=
  match fileName? path with
  | some name => stem name
  | none => path

end StubTree.Files
