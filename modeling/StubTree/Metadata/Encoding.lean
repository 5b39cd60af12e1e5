import StubTree.Json.Value
import StubTree.Metadata.Spelling

/-!
Metadata as JSON values. Every field is written, in the order of the record, also where it has the
value that a missing field stands for.
-/

namespace StubTree.Metadata

open Json (Value)

def encodeText? (s : Option String) : Value :=
  match s with
  | none => .null
  | some s => .string s

def encodeWhole (n : Int) : Value := .number (.integer n)

mutual

def TypeReference.fields : TypeReference → List (String × Value)
  | .primitive p =>
    [("kind", .string "primitive"), ("primitive", .string (spelled Primitive.spellings p))]
  | .nullable inner => [("kind", .string "nullable"), ("inner", .object inner.fields)]
  | .array element => [("kind", .string "array"), ("element", .object element.fields)]
  | .collection c args =>
    [("kind", .string "container"), ("container", .string (spelled Collection.spellings c)),
      ("args", .list (encodeReferences args))]
  | .named name args =>
    [("kind", .string "generic"), ("name", .string name), ("args", .list (encodeReferences args))]
  | .delegate => [("kind", .string "delegate")]
  | .unresolved name => [("kind", .string "unresolved"), ("name", .string name)]

def encodeReferences : List TypeReference → List Value
  | [] => []
  | t :: rest => .object t.fields :: encodeReferences rest

end

def TypeReference.encode (t : TypeReference) : Value := .object t.fields

def DefaultValue.encode : DefaultValue → Value
  | .null => .string "null"
  | .boolean b => .object [("bool", .boolean b)]
  | .literal token => .object [("literal", .string token)]
  | .nonPrimitive => .string "non_primitive"

def Parameter.encode (p : Parameter) : Value :=
  .object
    [("name", .string p.name),
      ("type", p.type.encode),
      ("variadic", .boolean p.variadic),
      ("direction", .string (spelled Direction.spellings p.direction)),
      ("default", match p.defaultValue with
        | none => .null
        | some d => d.encode)]

def encodeParameters (ps : List Parameter) : Value := .list (ps.map Parameter.encode)

def Constructor.fields (c : Constructor) : List (String × Value) :=
  [("parameters", encodeParameters c.parameters), ("deprecated", .boolean c.deprecated)]

def Property.fields (p : Property) : List (String × Value) :=
  [("name", .string p.name),
    ("type", p.type.encode),
    ("readable", .boolean p.readable),
    ("writable", .boolean p.writable),
    ("has_public_setter", .boolean p.hasPublicSetter),
    ("is_static", .boolean p.isStatic),
    ("index_parameters", encodeParameters p.indexParameters),
    ("deprecated", .boolean p.deprecated)]

def Field.fields (f : Field) : List (String × Value) :=
  [("name", .string f.name),
    ("type", f.type.encode),
    ("is_static", .boolean f.isStatic),
    ("special_name", .boolean f.specialName),
    ("literal", .boolean f.literal),
    ("deprecated", .boolean f.deprecated)]

def Method.fields (m : Method) : List (String × Value) :=
  [("name", .string m.name),
    ("parameters", encodeParameters m.parameters),
    ("return_type", m.returnType.encode),
    ("is_static", .boolean m.isStatic),
    ("operator", encodeText? m.operator),
    ("special_name", .boolean m.specialName),
    ("generic_definition", .boolean m.genericDefinition),
    ("deprecated", .boolean m.deprecated)]

def EnumConstant.encode (c : EnumConstant) : Value :=
  .object [("name", .string c.name), ("value", encodeWhole c.value.toInt)]

/-- The fields of a type, given its members. -/
def TypeHeader.fieldsWith (h : TypeHeader) (members : List Value) : List (String × Value) :=
  [("namespace", encodeText? h.home),
    ("name", .string h.name),
    ("kind", .string (spelled Kind.spellings h.kind)),
    ("base", encodeText? h.base),
    ("generic_arity", encodeWhole h.genericArity.toNat),
    ("generic_definition", .boolean h.genericDefinition),
    ("visibility", .string (spelled Visibility.spellings h.visibility)),
    ("special_name", .boolean h.specialName),
    ("deprecated", .boolean h.deprecated),
    ("enum_members", .list (h.constants.map EnumConstant.encode)),
    ("members", .list members),
    ("origin", .string h.origin)]

mutual

def TypeInfo.fields : TypeInfo → List (String × Value)
  | ⟨header, members⟩ => header.fieldsWith (encodeMembers members)

def encodeMembers : List Member → List Value
  | [] => []
  | m :: rest => m.encode :: encodeMembers rest

def Member.encode : Member → Value
  | .constructor c => .object (("member", .string "constructor") :: c.fields)
  | .property p => .object (("member", .string "property") :: p.fields)
  | .field f => .object (("member", .string "field") :: f.fields)
  | .method m => .object (("member", .string "method") :: m.fields)
  | .nested t => .object (("member", .string "nested") :: t.fields)

end

def TypeInfo.encode (t : TypeInfo) : Value := .object t.fields

end StubTree.Metadata
