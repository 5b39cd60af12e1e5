import StubTree.Metadata.TypeReference
import StubTree.Python.TypeExpr
import StubTree.Text.DecimalDigit

/-!
The type expression of a type reference. Several primitives share a name, a sequence is written as a
list, and a collection has exactly as many arguments as its kind calls for.
-/

namespace StubTree.Stub

open Metadata Python

/-- A name without the number of its type parameters: a backtick and digits at the very end. -/
def stripArity (name : String) : String :=
  let reversed := name.toList.reverse
  match reversed.takeWhile Text.isDecimalDigit, reversed.dropWhile Text.isDecimalDigit with
  | _ :: _, '\x60' :: rest => String.ofList rest.reverse
  | _, _ => name

def primitiveName : Primitive → String
  | .void => "None"
  | .bool => "bool"
  | .byte | .sbyte | .int16 | .uint16 | .int32 | .uint32 | .int64 | .uint64 => "int"
  | .single | .double | .decimal => "float"
  | .string | .char => "str"
  | .object => "Any"
  | .dateTime => "datetime"

def anyType : TypeExpr := .leaf "Any"

/-- The first argument, or anything at all. -/
def firstOrAny : List TypeExpr → TypeExpr
  | [] => anyType
  | t :: _ => t

def collectionType (c : Collection) (args : List TypeExpr) : TypeExpr :=
  match c with
  | .list | .sequence => .applied "List" [firstOrAny args]
  | .set => .applied "Set" [firstOrAny args]
  | .dictionary => .applied "Dict" [firstOrAny args, firstOrAny args.tail]

mutual

def typeExpr : TypeReference → TypeExpr
  | .primitive p => .leaf (primitiveName p)
  | .nullable inner => .applied "Optional" [typeExpr inner]
  | .array element => .applied "List" [typeExpr element]
  | .collection c args => collectionType c (typeExprs args)
  | .named name args => .applied (stripArity name) (typeExprs args)
  | .delegate => .applied "Callable" [.leaf "...", anyType]
  | .unresolved name => .forward name

def typeExprs : List TypeReference → List TypeExpr
  | [] => []
  | t :: rest => typeExpr t :: typeExprs rest

end

/-- The element type of an array. -/
def element? : TypeReference → Option TypeReference
  | .array element => some element
  | _ => none

end StubTree.Stub
