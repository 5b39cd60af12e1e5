import StubTree.Command.Wildcard
import StubTree.Files.Access

/-!
The paths that a pattern stands for, in ascending order of their names at each level. Components
without wildcards are looked up, the others are compared with the names in a directory.
-/

namespace StubTree.Command

open Files

/-- A pattern, component by component. -/
structure Pattern where
  components : List (List Token)
  /-- A slash at the end asks for directories. -/
  directoriesOnly : Bool
deriving Repr

/-- The components of a pattern; a slash at the very end adds none. -/
def patternSegments (pattern : String) : List String :=
  let all := Text.segments '/' pattern
  if all.getLast? = some "" then all.dropLast else all

/-- The pattern as a whole has to be sound as well as each of its components. -/
def Pattern.parse (pattern : String) : Except PatternFault Pattern := do
  let _ ← tokens pattern.toList
  let components ← (patternSegments pattern).mapM fun s => tokens s.toList
  return ⟨components, pattern.toList.getLast? = some '/'⟩

def isRecursive (component : List Token) : Bool := component.contains .anyDirectories

/-- The written path of something in a directory. The working directory is not mentioned, however
many dots it is written with. -/
def pathIn (directory name : String) : String :=
  if components directory = ["."] then name else join directory name

/-- The names in a directory, in ascending order. -/
def namesIn (tree : Tree) (directory : String) : List String :=
  match tree.locate directory with
  | .ok place => ((tree.children place).map Prod.fst).mergeSort fun a b => a ≤ b
  | .error _ => []

/-- The dots that a directory holds besides its names. They fit only a component with a dot at its
front. -/
def dotsIn (component : List Token) : List String :=
  if component.head? = some (.char '.') then
    ["..", "."].filter fun dots => fits component dots.toList
  else []

/-- Drops repeated components for any number of directories. -/
def collapse : List (List Token) → List (List Token)
  | first :: second :: rest =>
    if isRecursive first && isRecursive second then collapse (second :: rest)
    else first :: second :: rest
  | components => components

mutual

/-- What the components stand for below a path. `fuel` bounds the depth of the search. -/
def below (tree : Tree) (pattern : Pattern) : Nat → List (List Token) → String → List String
  | 0, _, _ => []
  | _, [], _ => []
  | fuel + 1, component :: rest, path =>
    match plainText? component with
    | some text =>
      let name := String.ofList text
      let next := pathIn path name
      let there :=
        if name = "." ∨ name = ".." then tree.isDirectoryAt path else tree.isPresent next
      if there then reached tree pattern fuel rest next else []
    | none =>
      if tree.isDirectoryAt path then
        (dotsIn component).flatMap (fun dots => reached tree pattern fuel rest (join path dots)) ++
          (namesIn tree path).flatMap fun name =>
            candidates tree pattern fuel (component :: rest) name (pathIn path name)
      else []

/-- Goes on from a path that is known to fit the components so far. -/
def reached (tree : Tree) (pattern : Pattern) : Nat → List (List Token) → String → List String
  | 0, _, _ => []
  | fuel + 1, rest, path =>
    if rest.isEmpty then
      if pattern.directoriesOnly && !tree.isDirectoryAt path then [] else [path]
    else below tree pattern fuel rest path

/-- What the components stand for at or below a path with the given name. -/
def candidates (tree : Tree) (pattern : Pattern) :
    Nat → List (List Token) → String → String → List String
  | 0, _, _, _ => []
  | fuel + 1, components, name, path =>
    match collapse components with
    | [] => []
    | component :: rest =>
      if isRecursive component then
        let inside :=
          if tree.isDirectoryAt path then below tree pattern fuel (component :: rest) path else []
        if rest.isEmpty then (if tree.isDirectoryAt path then [path] else []) ++ inside
        else matching tree pattern fuel rest name path ++ inside
      else matching tree pattern fuel (component :: rest) name path

/-- Compares a name with the first component. -/
def matching (tree : Tree) (pattern : Pattern) :
    Nat → List (List Token) → String → String → List String
  | 0, _, _, _ => []
  | _, [], _, _ => []
  | fuel + 1, component :: rest, name, path =>
    if fits component name.toList then reached tree pattern fuel rest path else []

end

/-- Enough for every level of the tree and every component. -/
def searchBound (tree : Tree) (pattern : Pattern) : Nat :=
  4 * (tree.entries.length + pattern.components.length + 2)

def Pattern.paths (tree : Tree) (pattern : Pattern) : List String :=
  below tree pattern (searchBound tree pattern) pattern.components "."

/-- Something that could not be looked into during a search. -/
structure SearchFault where
  path : String
  reason : String
deriving DecidableEq, Repr

namespace SearchFault

def message (fault : SearchFault) : String :=
  s!"attempting to read `{fault.path}` resulted in an error: {fault.reason}"

end SearchFault

/-- What looking for a pattern finds, one after the other. -/
abbrev Search := Pattern → List (Except SearchFault String)

/-- Everything in a tree can be looked into. -/
def searchIn (tree : Tree) : Search := fun pattern => (pattern.paths tree).map .ok

/-- Why an input cannot be turned into paths. -/
inductive InputFault where
  | badPattern (pattern : String) (fault : PatternFault)
  | unreadable (fault : SearchFault)
  | noMatch (pattern : String)
deriving DecidableEq, Repr

namespace InputFault

def message : InputFault → String
  | badPattern pattern fault => s!"bad glob pattern: {pattern}: {fault.message}"
  | unreadable fault => fault.message
  | noMatch pattern => "glob pattern matched no files: " ++ pattern

end InputFault

/-- A text without wildcards stands for itself, whether or not there is such a file. A search ends
with the first thing that cannot be looked into. -/
def resolve (search : Search) (input : String) : Except InputFault (List String) :=
  if input.toList.any isWild then
    match Pattern.parse input with
    | .error fault => .error (.badPattern input fault)
    | .ok pattern =>
      match (search pattern).mapM id with
      | .error fault => .error (.unreadable fault)
      | .ok paths => if paths.isEmpty then .error (.noMatch input) else .ok paths
  else .ok [input]

def resolveAll (search : Search) (inputs : List String) : Except InputFault (List String) := do
  return (← inputs.mapM (resolve search)).flatten

end StubTree.Command
