import StubTree.Metadata.Types

/-!
The words that stand for kinds, visibilities and the like in a document.
-/

namespace StubTree.Metadata

def Kind.spellings : List (String × Kind) :=
  [("class", .reference), ("struct", .value), ("interface", .interface), ("enum", .enumeration),
    ("unsupported", .unsupported)]

def Visibility.spellings : List (String × Visibility) :=
  [("public", .isPublic), ("non_public", .nonPublic), ("nested_private", .nestedPrivate)]

def Direction.spellings : List (String × Direction) :=
  [("normal", .normal), ("in_ref", .inReference), ("out_ref", .outReference)]

def Primitive.spellings : List (String × Primitive) :=
  [("void", .void), ("bool", .bool), ("byte", .byte), ("sbyte", .sbyte), ("int16", .int16),
    ("uint16", .uint16), ("int32", .int32), ("uint32", .uint32), ("int64", .int64),
    ("uint64", .uint64), ("single", .single), ("double", .double), ("decimal", .decimal),
    ("string", .string), ("char", .char), ("object", .object), ("date_time", .dateTime)]

def Collection.spellings : List (String × Collection) :=
  [("list", .list), ("dict", .dictionary), ("set", .set), ("sequence", .sequence)]

/-- The word for a value in a table that has one for each. -/
def spelled {α : Type} [DecidableEq α] (spellings : List (String × α)) (a : α) : String :=
  ((spellings.find? fun entry => entry.2 = a).map Prod.fst).getD ""

end StubTree.Metadata
