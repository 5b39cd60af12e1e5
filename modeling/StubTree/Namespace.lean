import StubTree.Files.Location
import StubTree.Metadata.Types
import StubTree.Text.Blank
import StubTree.Text.Grouping

/-!
Namespaces and where they are laid out: one directory for each segment between dots, with the stubs
of the namespace in one file of the last directory.
-/

namespace StubTree.Namespace

open Metadata

/-- The namespace of types without one. -/
def global : String := "global"

def homeOf (t : TypeHeader) : String :=
  match t.home with
  | none => global
  | some home => if home.isEmpty then global else home

/-- Why a namespace has no directory of its own below the root. -/
inductive Rejection where
  | emptySegment
  | separatorInSegment
deriving DecidableEq, Repr

namespace Rejection

def reason : Rejection → String
  | emptySegment => "empty segment"
  | separatorInSegment => "path separator in segment"

end Rejection

def isSeparator (c : Char) : Bool := c = '/' || c = '\\' || c = ':'

def segmentRejection? (segment : String) : Option Rejection :=
  if Text.isBlank segment then some .emptySegment
  else if segment.toList.any isSeparator then some .separatorInSegment
  else none

/-- The rejection of the first segment that has one. -/
def rejection? (home : String) : Option Rejection :=
  (Text.segments '.' home).findSome? segmentRejection?

/-- The names of the directories of a namespace, empty ones left out. -/
def names (home : String) : List String :=
  (Text.segments '.' home).filter fun segment => !segment.isEmpty

def directory (root home : String) : String := (names home).foldl Files.join root

def stubFile : String := "__init__.pyi"

def stubPath (root home : String) : String := Files.join (directory root home) stubFile

/-- The types of each namespace by name. Types of one name keep their order. -/
def group (types : List (String × TypeInfo)) : List (String × List TypeInfo) :=
  (Text.groupBy Prod.fst types).map fun (home, members) =>
    (home, (members.map Prod.snd).mergeSort fun a b => a.name ≤ b.name)

end StubTree.Namespace
