import StubTree.Metadata.Types

/-!
Which types and members get into a stub. A rejection names the first rule that applies, in the order
of the lists below.
-/

namespace StubTree.Stub

open Metadata

def hasDoubleUnderscore : List Char → Bool
  | '_' :: '_' :: _ => true
  | _ :: rest => hasDoubleUnderscore rest
  | [] => false

/-- Names that a compiler makes up: they begin with an angle bracket or hold two underscores in a
row. -/
def isInternalName (name : String) : Bool :=
  name.toList.head? = some '<' || hasDoubleUnderscore name.toList

/-- Names of methods that read or write a property. -/
def isAccessorName (name : String) : Bool :=
  "get_".toList.isPrefixOf name.toList || "set_".toList.isPrefixOf name.toList

inductive TypeRejection where
  | specialName
  | notPublic
  | privateNested
  | openGeneric
  | internalName
  | deprecated
deriving DecidableEq, Repr

namespace TypeRejection

def all : List TypeRejection :=
  [specialName, notPublic, privateNested, openGeneric, internalName, deprecated]

def applies (t : TypeHeader) : TypeRejection → Bool
  | specialName => t.specialName
  | notPublic => t.visibility = .nonPublic
  | privateNested => t.visibility = .nestedPrivate
  | openGeneric => t.genericDefinition
  | internalName => isInternalName t.name
  | deprecated => t.deprecated

def reason : TypeRejection → String
  | specialName => "special name"
  | notPublic => "not public"
  | privateNested => "private nested type"
  | openGeneric => "open generic definition"
  | internalName => "internal name"
  | deprecated => "deprecated"

end TypeRejection

def typeRejection? (t : TypeHeader) : Option TypeRejection :=
  TypeRejection.all.find? (·.applies t)

inductive MemberRejection where
  | accessor
  | specialMethod
  | openGenericMethod
  | specialField
  | constantField
  | deprecated
  | nestedType
deriving DecidableEq, Repr

namespace MemberRejection

def all : List MemberRejection :=
  [accessor, specialMethod, openGenericMethod, specialField, constantField, deprecated, nestedType]

/-- A special method is fine if it overloads an operator. A nested type is judged as a type, its
deprecation included. -/
def applies : Member → MemberRejection → Bool
  | .constructor c, deprecated => c.deprecated
  | .property p, deprecated => p.deprecated
  | .field f, specialField => f.specialName
  | .field f, constantField => f.literal
  | .field f, deprecated => f.deprecated
  | .method m, accessor => isAccessorName m.name
  | .method m, specialMethod => m.specialName && m.operator.isNone
  | .method m, openGenericMethod => m.genericDefinition
  | .method m, deprecated => m.deprecated
  | .nested t, nestedType => (typeRejection? t.toTypeHeader).isSome
  | _, _ => false

def reason : MemberRejection → String
  | accessor => "accessor shadow"
  | specialMethod => "special-name method"
  | openGenericMethod => "open generic method"
  | specialField => "special-name field"
  | constantField => "constant field"
  | deprecated => "deprecated"
  | nestedType => "rejected nested type"

end MemberRejection

def memberRejection? (m : Member) : Option MemberRejection :=
  MemberRejection.all.find? (·.applies m)

end StubTree.Stub
