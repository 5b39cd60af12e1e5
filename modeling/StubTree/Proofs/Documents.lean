import StubTree.Metadata.Decoding
import StubTree.Proofs.Delimiting

/-!
Documents of metadata. A text is accepted if and only if it begins with a
document that is accepted by itself. What comes behind the document is not looked
at, so a text with leftovers is accepted without them.
-/

namespace StubTree.Metadata

open Json Json.Decoder

theorem delimited_bareChoice {α : Type} (spellings : List (String × α)) (fallback : Option α) :
    Delimited (bareChoice spellings fallback) := by
  refine delimited_choice fun entry hentry => ?_
  obtain ⟨⟨name, a⟩, -, rfl⟩ := List.mem_map.mp hentry
  trivial

theorem delimited_defaultValue : Delimited defaultValue :=
  delimited_choice (List.forall_iff_forall_mem.mp
    ⟨trivial, regular_boolean.map _, regular_string.map _, trivial⟩)

theorem delimited_typeReference : Delimited typeReference := delimited_tagged _

theorem delimited_parameter : Delimited parameter :=
  delimited_record ⟨regular_string.map _, delimited_typeReference.regular.map _,
    regular_boolean.map _, (delimited_bareChoice _ _).regular.map _,
    delimited_defaultValue.regular.optional.map _⟩

theorem regular_parameters : Regular (list parameter) :=
  (delimited_list delimited_parameter.regular).regular

theorem delimited_constructor : Delimited constructor :=
  delimited_record ⟨regular_parameters.map _, regular_boolean.map _⟩

theorem delimited_property : Delimited property :=
  delimited_record ⟨regular_string.map _, delimited_typeReference.regular.map _,
    regular_boolean.map _, regular_boolean.map _, regular_boolean.map _, regular_boolean.map _,
    regular_parameters.map _, regular_boolean.map _⟩

theorem delimited_field : Delimited field :=
  delimited_record ⟨regular_string.map _, delimited_typeReference.regular.map _,
    regular_boolean.map _, regular_boolean.map _, regular_boolean.map _, regular_boolean.map _⟩

theorem delimited_method : Delimited method :=
  delimited_record ⟨regular_string.map _, regular_parameters.map _,
    delimited_typeReference.regular.map _, regular_boolean.map _, regular_string.optional.map _,
    regular_boolean.map _, regular_boolean.map _, regular_boolean.map _⟩

theorem delimited_enumConstant : Delimited enumConstant :=
  delimited_record ⟨regular_string.map _, ((regular_bounded _ _ _).map _).map _⟩

theorem delimited_member : Delimited member := delimited_tagged _

theorem delimited_typeInfo : Delimited typeInfo := by
  have hconstants := (delimited_list delimited_enumConstant.regular).regular
  have hmembers := (delimited_list delimited_member.regular).regular
  exact delimited_record ⟨regular_string.optional.map _, regular_string.map _,
    (delimited_bareChoice _ _).regular.map _, regular_string.optional.map _,
    ((regular_bounded _ _ _).map _).map _, regular_boolean.map _,
    (delimited_bareChoice _ _).regular.map _, regular_boolean.map _, regular_boolean.map _,
    hconstants.map _, hmembers.map _, regular_string.map _⟩

theorem delimited_documentName : Delimited documentName :=
  delimited_record (regular_string.optional.map _)

theorem delimited_documentTypes : Delimited documentTypes :=
  delimited_record ((delimited_list delimited_typeInfo.regular).regular.map _)

/-- What a text may be read as. -/
inductive Target where
  | documentName | documentTypes | typeInfo | typeInfos | kind | visibility | enumConstant
  | member | constructor | property | field | method | parameter | direction | defaultValue
  | typeReference | primitive | collection

namespace Target

def Result : Target → Type
  | documentName => Option String
  | documentTypes | typeInfos => List TypeInfo
  | typeInfo => TypeInfo
  | kind => Kind
  | visibility => Visibility
  | enumConstant => EnumConstant
  | member => Member
  | constructor => Constructor
  | property => Property
  | field => Field
  | method => Method
  | parameter => Parameter
  | direction => Direction
  | defaultValue => DefaultValue
  | typeReference => TypeReference
  | primitive => Primitive
  | collection => Collection

def decoder : (t : Target) → Decoder t.Result
  | documentName => Metadata.documentName
  | documentTypes => Metadata.documentTypes
  | typeInfo => Metadata.typeInfo
  | typeInfos => list Metadata.typeInfo
  | kind => Metadata.kind
  | visibility => Metadata.visibility
  | enumConstant => Metadata.enumConstant
  | member => Metadata.member
  | constructor => Metadata.constructor
  | property => Metadata.property
  | field => Metadata.field
  | method => Metadata.method
  | parameter => Metadata.parameter
  | direction => Metadata.direction
  | defaultValue => Metadata.defaultValue
  | typeReference => Metadata.typeReference
  | primitive => Metadata.primitive
  | collection => Metadata.collection

theorem delimited (t : Target) : Delimited t.decoder := by
  cases t with
  | documentName => exact delimited_documentName
  | documentTypes => exact delimited_documentTypes
  | typeInfo => exact delimited_typeInfo
  | typeInfos => exact delimited_list delimited_typeInfo.regular
  | enumConstant => exact delimited_enumConstant
  | member => exact delimited_member
  | constructor => exact delimited_constructor
  | property => exact delimited_property
  | field => exact delimited_field
  | method => exact delimited_method
  | parameter => exact delimited_parameter
  | defaultValue => exact delimited_defaultValue
  | typeReference => exact delimited_typeReference
  | kind | visibility | direction | primitive | collection => exact delimited_bareChoice _ _

end Target

theorem ofText_eq_ok {α : Type} {d : Decoder α} {text : List UInt8} {a : α} :
    d.ofText text = .ok a ↔ ∃ rest, d.read depthLimit text = .ok a rest := by
  simp only [ofText]
  cases d.read depthLimit text <;> simp

/-- A text is accepted if it begins with a document that is accepted by itself. The text is a
document as well if nothing but blanks is behind that document; anything else behind it is
accepted all the same. -/
theorem texts_read_up_to_leftovers (t : Target) (text : List UInt8) (a : t.Result) :
    t.decoder.ofText text = .ok a ↔ ∃ document behind, text = document ++ behind ∧
      IsDocument document ∧ t.decoder.ofText document = .ok a ∧
        (IsDocument text ↔ Grammar.Blanks behind []) := by
  have hdelimited := t.delimited
  constructor
  · intro hread
    obtain ⟨rest, hread⟩ := ofText_eq_ok.mp hread
    have hleftovers := hdelimited.isDocument_iff hread
    obtain ⟨used, -, rfl, hanywhere⟩ := hdelimited.ends depthLimit a _ _ hread
    have hwhole := hanywhere []
    rw [List.append_nil] at hwhole
    exact ⟨used, rest, rfl, (hdelimited.isDocument_iff hwhole).mpr .refl,
      ofText_eq_ok.mpr ⟨[], hwhole⟩, hleftovers⟩
  · rintro ⟨document, behind, rfl, -, hread, -⟩
    obtain ⟨rest, hread⟩ := ofText_eq_ok.mp hread
    obtain ⟨used, -, rfl, hanywhere⟩ := hdelimited.ends depthLimit a _ _ hread
    rw [List.append_assoc]
    exact ofText_eq_ok.mpr ⟨rest ++ behind, hanywhere (rest ++ behind)⟩

theorem two_documents_accepted_as_one :
    Target.documentTypes.decoder.ofText ("\x7b\x7d \x7b\x7d".toList.map ascii) = .ok [] ∧
      ¬ IsDocument ("\x7b\x7d \x7b\x7d".toList.map ascii) := by
  refine ⟨rfl, fun h => ?_⟩
  obtain ⟨rest, hskip, hblanks⟩ := isDocument_iff.mp h
  obtain rfl : " \x7b\x7d".toList.map ascii = rest := by
    cases hskip
    rfl
  exact absurd (Grammar.pastBlanks_of_blanks hblanks) (by decide)

end StubTree.Metadata
