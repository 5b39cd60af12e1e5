import StubTree.Json.Decoder
import StubTree.Metadata.Spelling

/-!
Reading metadata from JSON. Members and type references carry a tag among their own fields, all the
rest are plain records and choices. The recursion of the tagged ones goes down as far as the
containers of a document may be nested.
-/

namespace StubTree.Metadata

open Json (Decoder depthLimit)
open Json.Decoder

def bareChoice {α : Type} (spellings : List (String × α)) (fallback : Option α) : Decoder α :=
  choice (spellings.map fun (name, a) => (name, .bare a)) fallback

/-- A kind without a spelling of its own is unsupported. -/
def kind : Decoder Kind := bareChoice Kind.spellings (some .unsupported)

def visibility : Decoder Visibility := bareChoice Visibility.spellings none

def direction : Decoder Direction := bareChoice Direction.spellings none

def primitive : Decoder Primitive := bareChoice Primitive.spellings none

def collection : Decoder Collection := bareChoice Collection.spellings none

def defaultValue : Decoder DefaultValue :=
  choice
    [("null", .bare .null),
      ("bool", .carrying (boolean.map .boolean)),
      ("literal", .carrying (string.map .literal)),
      ("non_primitive", .bare .nonPrimitive)]
    none

/-- References with at most `n` levels of references inside. -/
def typeReferenceWithin : Nat → Tagged TypeReference
  | 0 => ⟨"TypeRef", "kind", []⟩
  | n + 1 =>
    let inner := tagged (typeReferenceWithin n)
    ⟨"TypeRef", "kind",
      [("primitive",
          (record "struct variant TypeRef::Primitive"
            [requiredField "primitive" primitive fun p _ => .primitive p] .delegate).ofValue),
        ("nullable",
          (record "struct variant TypeRef::Nullable"
            [requiredField "inner" inner fun t _ => .nullable t] .delegate).ofValue),
        ("array",
          (record "struct variant TypeRef::Array"
            [requiredField "element" inner fun t _ => .array t] .delegate).ofValue),
        ("container",
          ((record "struct variant TypeRef::Container"
            [requiredField "container" collection fun c r => (c, r.2),
              requiredField "args" (list inner) fun args r => (r.1, args)]
            (Collection.list, [])).map fun r => .collection r.1 r.2).ofValue),
        ("generic",
          ((record "struct variant TypeRef::Generic"
            [requiredField "name" string fun name r => (name, r.2),
              optionalField "args" (list inner) fun args r => (r.1, args)]
            ("", [])).map fun r => .named r.1 r.2).ofValue),
        ("delegate", noContent .delegate),
        ("unresolved",
          (record "struct variant TypeRef::Unresolved"
            [requiredField "name" string fun name _ => .unresolved name] .delegate).ofValue)]⟩

def typeReference : Decoder TypeReference := tagged (typeReferenceWithin depthLimit)

def parameter : Decoder Parameter :=
  record "struct Parameter"
    [optionalField "name" string fun name r => { r with name := name },
      requiredField "type" typeReference fun type r => { r with type := type },
      optionalField "variadic" boolean fun b r => { r with variadic := b },
      optionalField "direction" direction fun d r => { r with direction := d },
      optionalField "default" (optional defaultValue) fun d r => { r with defaultValue := d }]
    { type := .delegate }

def constructor : Decoder Constructor :=
  record "struct Constructor"
    [optionalField "parameters" (list parameter) fun ps r => { r with parameters := ps },
      optionalField "deprecated" boolean fun b r => { r with deprecated := b }]
    {}

def property : Decoder Property :=
  record "struct Property"
    [requiredField "name" string fun name r => { r with name := name },
      requiredField "type" typeReference fun type r => { r with type := type },
      optionalField "readable" boolean fun b r => { r with readable := b },
      optionalField "writable" boolean fun b r => { r with writable := b },
      optionalField "has_public_setter" boolean fun b r => { r with hasPublicSetter := b },
      optionalField "is_static" boolean fun b r => { r with isStatic := b },
      optionalField "index_parameters" (list parameter) fun ps r =>
        { r with indexParameters := ps },
      optionalField "deprecated" boolean fun b r => { r with deprecated := b }]
    { name := "", type := .delegate }

def field : Decoder Field :=
  record "struct Field"
    [requiredField "name" string fun name r => { r with name := name },
      requiredField "type" typeReference fun type r => { r with type := type },
      optionalField "is_static" boolean fun b r => { r with isStatic := b },
      optionalField "special_name" boolean fun b r => { r with specialName := b },
      optionalField "literal" boolean fun b r => { r with literal := b },
      optionalField "deprecated" boolean fun b r => { r with deprecated := b }]
    { name := "", type := .delegate }

def method : Decoder Method :=
  record "struct Method"
    [requiredField "name" string fun name r => { r with name := name },
      optionalField "parameters" (list parameter) fun ps r => { r with parameters := ps },
      requiredField "return_type" typeReference fun type r => { r with returnType := type },
      optionalField "is_static" boolean fun b r => { r with isStatic := b },
      optionalField "operator" (optional string) fun symbol r => { r with operator := symbol },
      optionalField "special_name" boolean fun b r => { r with specialName := b },
      optionalField "generic_definition" boolean fun b r => { r with genericDefinition := b },
      optionalField "deprecated" boolean fun b r => { r with deprecated := b }]
    { name := "", returnType := .delegate }

def enumConstant : Decoder EnumConstant :=
  record "struct EnumMember"
    [requiredField "name" string fun name r => { r with name := name },
      requiredField "value" int64 fun value r => { r with value := value }]
    ⟨"", 0⟩

/-- Types whose members are read by `member`. -/
def typeInfoOf (member : Decoder Member) : Decoder TypeInfo :=
  record "struct TypeDescriptor"
    [optionalField "namespace" (optional string) fun home r => { r with home := home },
      requiredField "name" string fun name r => { r with name := name },
      requiredField "kind" kind fun kind r => { r with kind := kind },
      optionalField "base" (optional string) fun base r => { r with base := base },
      optionalField "generic_arity" uint32 fun n r => { r with genericArity := n },
      optionalField "generic_definition" boolean fun b r => { r with genericDefinition := b },
      optionalField "visibility" visibility fun v r => { r with visibility := v },
      optionalField "special_name" boolean fun b r => { r with specialName := b },
      optionalField "deprecated" boolean fun b r => { r with deprecated := b },
      optionalField "enum_members" (list enumConstant) fun cs r => { r with constants := cs },
      optionalField "members" (list member) fun ms r => { r with members := ms },
      optionalField "origin" string fun origin r => { r with origin := origin }]
    { name := "", kind := .unsupported }

/-- Members with at most `n` levels of members inside. -/
def memberWithin : Nat → Tagged Member
  | 0 => ⟨"Member", "member", []⟩
  | n + 1 =>
    let nested := typeInfoOf (tagged (memberWithin n))
    ⟨"Member", "member",
      [("constructor", (constructor.map .constructor).ofValue),
        ("property", (property.map .property).ofValue),
        ("field", (field.map .field).ofValue),
        ("method", (method.map .method).ofValue),
        ("nested", (nested.map .nested).ofValue)]⟩

def member : Decoder Member := tagged (memberWithin depthLimit)

def typeInfo : Decoder TypeInfo := typeInfoOf member

/-- The declared name of a document, all else being ignored. -/
def documentName : Decoder (Option String) :=
  record "struct DocumentName" [optionalField "name" (optional string) fun name _ => name] none

/-- The types of a document, all else being ignored. -/
def documentTypes : Decoder (List TypeInfo) :=
  record "struct MetadataDocument" [optionalField "types" (list typeInfo) fun types _ => types] []

end StubTree.Metadata
