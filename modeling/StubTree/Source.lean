import StubTree.Failure
import StubTree.Files.Access
import StubTree.Metadata.Decoding

/-!
Where types come from: a document in a file, or a list that is given. A source without types only
has a reason for it.
-/

namespace StubTree

open Metadata Files

inductive Source where
  /-- The document is read anew each time its types are asked for. -/
  | document (path id : String)
  | fixed (id : String) (types : List TypeInfo)
  | broken (id reason : String)

namespace Source

def id : Source → String
  | document _ id => id
  | fixed id _ => id
  | broken id _ => id

/-- A document that goes by its file name. -/
def ofPath (path : String) : Source := document path (stemOrPath path)

/-- Reads the document at a path. -/
def decodeFile {α : Type} (d : Json.Decoder α) (tree : Tree) (path : String) :
    Except LoadFault α :=
  match tree.read path with
  | .error fault => .error (.unreadable fault)
  | .ok text =>
    match d.ofText text with
    | .ok a => .ok a
    | .error fault => .error (.undecodable path (fault.message text))

/-- A document that goes by the name it declares, if it declares one. -/
def opened (tree : Tree) (path : String) : Except LoadFault Source := do
  let name ← decodeFile documentName tree path
  return document path (name.getD (stemOrPath path))

/-- A document that cannot be opened still is a source. -/
def openedOrNot (tree : Tree) (path : String) : Source :=
  match opened tree path with
  | .ok source => source
  | .error _ => ofPath path

/-- Types that do not say where they come from come from the source. -/
def stamp (id : String) (types : List TypeInfo) : List TypeInfo :=
  types.map fun t => if t.origin.isEmpty then { t with origin := id } else t

/-- The types of a source. -/
def types (tree : Tree) : Source → Except LoadFault (List TypeInfo)
  | document path id => do
    let types ← decodeFile documentTypes tree path
    return stamp id types
  | fixed id types => .ok (stamp id types)
  | broken _ reason => .error (.other reason)

end Source

end StubTree
