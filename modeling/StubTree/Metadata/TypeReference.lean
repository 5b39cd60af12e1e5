/-!
References to types as they stand in signatures.
-/

namespace StubTree.Metadata

inductive Primitive where
  | void
  | bool
  | byte
  | sbyte
  | int16
  | uint16
  | int32
  | uint32
  | int64
  | uint64
  | single
  | double
  | decimal
  | string
  | char
  | object
  | dateTime
deriving DecidableEq, Repr

/-- Built-in collections; a dictionary has keys and values, the others have elements. -/
inductive Collection where
  | list
  | dictionary
  | set
  | sequence
deriving DecidableEq, Repr

inductive TypeReference where
  | primitive (p : Primitive)
  | nullable (inner : TypeReference)
  | array (element : TypeReference)
  | collection (c : Collection) (args : List TypeReference)
  /-- A declared type; without arguments it is meant as it stands. -/
  | named (name : String) (args : List TypeReference)
  | delegate
  /-- A type whose declaration is not known. -/
  | unresolved (name : String)
deriving Repr

end StubTree.Metadata
