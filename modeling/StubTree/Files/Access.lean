import StubTree.Files.Tree

/-!
Reading and changing a tree by written paths. An action that fails may have done part of its work;
what it did stays done.
-/

namespace StubTree.Files

/-- No single name of a path may be longer than this number of bytes. -/
def longestName : Nat := 255

/-- A whole path has to be shorter than this number of bytes. -/
def pathBound : Nat := 4096

/-- Refuses paths that cannot be looked up at all. -/
def checkPath (path : String) : Except Fault Unit :=
  if path.toList.any (·.toNat = 0) then .error .nulInName
  else if path.isEmpty then .error .notFound
  else if pathBound ≤ path.utf8ByteSize then .error .nameTooLong
  else .ok ()

namespace Tree

/-- The segments of a path from the working directory on. Absolute paths that lead elsewhere are not
found, since there is nothing else in the tree. -/
def segmentsFrom (tree : Tree) (path : String) : Except Fault (List String) := do
  checkPath path
  let all := Text.segments '/' path
  if isAbsolute path then
    match (Text.segments '/' tree.home).isPrefixOf? all with
    | some rest => return rest
    | none => .error .notFound
  else return all

/-- Follows segments from a place that exists. Two dots lead nowhere from the working directory, as
they do from the top of all directories. -/
def follow (tree : Tree) : Place → List String → Except Fault Place
  | place, [] => .ok place
  | place, segment :: rest =>
    match tree.get? place with
    | none => .error .notFound
    | some (.file _) => .error .notDirectory
    | some .directory =>
      if isIdle segment then follow tree place rest
      else if segment = ".." then follow tree place.dropLast rest
      else if longestName < segment.utf8ByteSize then .error .nameTooLong
      else if (tree.get? (place ++ [segment])).isNone then .error .notFound
      else follow tree (place ++ [segment]) rest

/-- The place a path leads to, if there is anything. -/
def locate (tree : Tree) (path : String) : Except Fault Place := do
  tree.follow [] (← tree.segmentsFrom path)

def entryAt? (tree : Tree) (path : String) : Option Entry :=
  match tree.locate path with
  | .ok place => tree.get? place
  | .error _ => none

def isPresent (tree : Tree) (path : String) : Bool := (tree.entryAt? path).isSome

def isDirectoryAt (tree : Tree) (path : String) : Bool := tree.entryAt? path = some .directory

def read (tree : Tree) (path : String) : Except Fault (List UInt8) := do
  match tree.get? (← tree.locate path) with
  | some (.file content) => return content
  | some .directory => .error .isDirectory
  | none => .error .notFound

/-- The place where a file with the given path is or would be. -/
def filePlace (tree : Tree) (path : String) : Except Fault Place := do
  let segments ← tree.segmentsFrom path
  let parent ← tree.follow [] segments.dropLast
  match tree.get? parent with
  | none => .error .notFound
  | some (.file _) => .error .notDirectory
  | some .directory =>
    match segments.getLast? with
    | none => .error .isDirectory
    | some name =>
      if isIdle name || name = ".." then .error .isDirectory
      else if longestName < name.utf8ByteSize then .error .nameTooLong
      else if tree.get? (parent ++ [name]) = some .directory then .error .isDirectory
      else return parent ++ [name]

/-- What a file holds so far; nothing if it does not exist. -/
def contentAt (tree : Tree) (place : Place) : List UInt8 :=
  match tree.get? place with
  | some (.file content) => content
  | _ => []

end Tree

abbrev Action := EStateM Fault Tree

namespace Action

def ofExcept {α : Type} : Except Fault α → Action α
  | .ok a => pure a
  | .error fault => throw fault

/-- Replaces the content of a file, which is created if need be. -/
def write (path : String) (content : List UInt8) : Action Unit := do
  let place ← ofExcept ((← get).filePlace path)
  modify (·.put place (.file content))

/-- Adds to the end of a file, which is created if need be. -/
def append (path : String) (content : List UInt8) : Action Unit := do
  let place ← ofExcept ((← get).filePlace path)
  modify fun tree => tree.put place (.file (tree.contentAt place ++ content))

/-- Makes sure that the names lead through directories. A file in the way is one thing if it is the
last of the names and another if it is not. -/
def createFrom : Place → List String → Action Unit
  | _, [] => pure ()
  | place, name :: rest => do
    if name = ".." then createFrom place.dropLast rest
    else if longestName < name.utf8ByteSize then throw .nameTooLong
    else
      match (← get).get? (place ++ [name]) with
      | some .directory => createFrom (place ++ [name]) rest
      | some (.file _) => throw (if rest.isEmpty then .alreadyExists else .notDirectory)
      | none =>
        modify (·.put (place ++ [name]) .directory)
        createFrom (place ++ [name]) rest

/-- The last segment that is not empty; slashes at the end of a path do not count. -/
def lastStep? (segments : List String) : Option String := (segments.filter (· ≠ "")).getLast?

def endsInDot (segments : List String) : Bool := lastStep? segments = some "."

/-- Creates a directory with all that is missing above it. A dot at the end asks for a directory
that is there already. -/
def createDirectories (path : String) : Action Unit := do
  if path.isEmpty then pure ()
  else
    let segments ← ofExcept ((← get).segmentsFrom path)
    let names := segments.filter (!isIdle ·)
    if endsInDot segments then
      createFrom [] names.dropLast
      let place ← ofExcept ((← get).follow [] segments)
      if (← get).get? place = some .directory then pure () else throw .notDirectory
    else createFrom [] names

/-- Why the last step of a path does not name a directory that can be taken away: it is a dot or
two, or there is none since the path is that of the top of all. -/
def unlinkFault? (path : String) : Option Fault :=
  match lastStep? (Text.segments '/' path) with
  | none => some .busy
  | some step =>
    if step = "." then some .invalidArgument
    else if step = ".." then some .notEmpty
    else none

/-- Takes away an empty directory by its name. If the way to the name leads nowhere, nothing is
left to be done. -/
def unlinkDirectory (path : String) (place : Place) : Action Unit := do
  let tree ← get
  let segments ← ofExcept (tree.segmentsFrom path)
  match tree.follow [] (segments.filter (· ≠ "")).dropLast with
  | .error .notFound => pure ()
  | .error fault => throw fault
  | .ok _ =>
    match unlinkFault? path with
    | some fault => throw fault
    | none => set (tree.remove place)

/-- Removes a directory with everything below it: first what is in it, then the directory itself.
The way to it may lead through what is gone by then. -/
def removeDirectory (path : String) : Action Unit := do
  let tree ← get
  let place ← ofExcept (tree.locate path)
  match tree.get? place with
  | none => throw .notFound
  | some (.file _) => throw .notDirectory
  | some .directory =>
    set (tree.clear place)
    unlinkDirectory path place

end Action

namespace Tree

/-- The absolute path of what is at `path`; the path itself if nothing can be there. -/
def canonical (tree : Tree) (path : String) : String :=
  match tree.locate path with
  | .ok place => tree.absolutePath place
  | .error _ => path

end Tree

/-- The bytes of a text in a file. -/
def bytes (s : String) : List UInt8 := s.toList.flatMap String.utf8EncodeChar

end StubTree.Files
