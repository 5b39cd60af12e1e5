import StubTree.Files.Fault
import StubTree.Files.Location

/-!
A tree of directories and files below a working directory. The tree is seen through `get?`, which
tells what is at a place; a place is the list of names that leads to it from the working directory.

The tree is all there is: what is above or beside the working directory is not in it. With an empty
`home` the working directory is the top of all directories, and then every absolute path has its
place. There are no links, and nobody is denied access to anything.
-/

namespace StubTree.Files

abbrev Place := List String

inductive Entry where
  | directory
  | file (content : List UInt8)
deriving DecidableEq, Repr

structure Tree where
  /-- The absolute path of the working directory. -/
  home : String
  entries : List (Place × Entry)
deriving Repr

namespace Tree

def empty (home : String) : Tree := ⟨home, []⟩

/-- What is at a place. The working directory is always there. -/
def get? (tree : Tree) (place : Place) : Option Entry :=
  if place.isEmpty then some .directory else tree.entries.lookup place

def putEntry (place : Place) (entry : Entry) : List (Place × Entry) → List (Place × Entry)
  | [] => [(place, entry)]
  | (other, old) :: rest =>
    if other = place then (place, entry) :: rest else (other, old) :: putEntry place entry rest

def put (tree : Tree) (place : Place) (entry : Entry) : Tree :=
  { tree with entries := putEntry place entry tree.entries }

/-- Whether `inner` is below `outer`, or the same place. -/
def isWithin (outer inner : Place) : Bool := outer.isPrefixOf inner

/-- Takes away everything below a place. -/
def clear (tree : Tree) (place : Place) : Tree :=
  { tree with
    entries := tree.entries.filter fun entry => !(isWithin place entry.1) || entry.1 = place }

/-- Takes away a place and everything below it. -/
def remove (tree : Tree) (place : Place) : Tree :=
  { tree with entries := tree.entries.filter fun entry => !(isWithin place entry.1) }

/-- The names directly below a place, with what is there. -/
def children (tree : Tree) (place : Place) : List (String × Entry) :=
  tree.entries.filterMap fun (other, entry) =>
    match place.isPrefixOf? other with
    | some [name] => some (name, entry)
    | _ => none

/-- The absolute path of a place. -/
def absolutePath (tree : Tree) (place : Place) : String :=
  "/".intercalate (tree.home :: place)

end Tree

end StubTree.Files
