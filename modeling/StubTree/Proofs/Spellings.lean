import StubTree.Metadata.Encoding
import StubTree.Proofs.Records

/-!
Admissible spellings of metadata. A record has a slot for each of its fields; a
field that has the value which a missing entry stands for may be left out. The
tag of a variant is a slot among the others. What `encode` writes is one of the
spellings.
-/

namespace StubTree.Metadata

open Json (Value Slot ObjectSpells ListSpells Written)

mutual

def TypeReference.slots : TypeReference → List Slot
  | .primitive p =>
    [.required "kind" (· = .string "primitive"),
      .required "primitive" (· = .string (spelled Primitive.spellings p))]
  | .nullable inner =>
    [.required "kind" (· = .string "nullable"), .required "inner" (ObjectSpells inner.slots)]
  | .array element =>
    [.required "kind" (· = .string "array"), .required "element" (ObjectSpells element.slots)]
  | .collection c args =>
    [.required "kind" (· = .string "container"),
      .required "container" (· = .string (spelled Collection.spellings c)),
      .required "args" (ListSpells (referenceSpellings args))]
  | .named name args =>
    [.required "kind" (· = .string "generic"),
      .required "name" (· = .string name),
      .optional "args" args [] (ListSpells (referenceSpellings args))]
  | .delegate => [.required "kind" (· = .string "delegate")]
  | .unresolved name =>
    [.required "kind" (· = .string "unresolved"), .required "name" (· = .string name)]

def referenceSpellings : List TypeReference → List (Value → Prop)
  | [] => []
  | t :: rest => ObjectSpells t.slots :: referenceSpellings rest

end

def TypeReference.Spells (t : TypeReference) : Value → Prop := ObjectSpells t.slots

def encodeDefault? (d : Option DefaultValue) : Value := d.elim .null DefaultValue.encode

def Parameter.slots (p : Parameter) : List Slot :=
  [.optional "name" p.name "" (· = .string p.name),
    .required "type" p.type.Spells,
    .optional "variadic" p.variadic false (· = .boolean p.variadic),
    .optional "direction" p.direction .normal
      (· = .string (spelled Direction.spellings p.direction)),
    .optional "default" p.defaultValue none (· = encodeDefault? p.defaultValue)]

def Parameter.Spells (p : Parameter) : Value → Prop := ObjectSpells p.slots

def Constructor.slots (c : Constructor) : List Slot :=
  [.optional "parameters" c.parameters [] (ListSpells (c.parameters.map Parameter.Spells)),
    .optional "deprecated" c.deprecated false (· = .boolean c.deprecated)]

def Property.slots (p : Property) : List Slot :=
  [.required "name" (· = .string p.name),
    .required "type" p.type.Spells,
    .optional "readable" p.readable true (· = .boolean p.readable),
    .optional "writable" p.writable false (· = .boolean p.writable),
    .optional "has_public_setter" p.hasPublicSetter false (· = .boolean p.hasPublicSetter),
    .optional "is_static" p.isStatic false (· = .boolean p.isStatic),
    .optional "index_parameters" p.indexParameters []
      (ListSpells (p.indexParameters.map Parameter.Spells)),
    .optional "deprecated" p.deprecated false (· = .boolean p.deprecated)]

def Field.slots (f : Field) : List Slot :=
  [.required "name" (· = .string f.name),
    .required "type" f.type.Spells,
    .optional "is_static" f.isStatic false (· = .boolean f.isStatic),
    .optional "special_name" f.specialName false (· = .boolean f.specialName),
    .optional "literal" f.literal false (· = .boolean f.literal),
    .optional "deprecated" f.deprecated false (· = .boolean f.deprecated)]

def Method.slots (m : Method) : List Slot :=
  [.required "name" (· = .string m.name),
    .optional "parameters" m.parameters [] (ListSpells (m.parameters.map Parameter.Spells)),
    .required "return_type" m.returnType.Spells,
    .optional "is_static" m.isStatic false (· = .boolean m.isStatic),
    .optional "operator" m.operator none (· = encodeText? m.operator),
    .optional "special_name" m.specialName false (· = .boolean m.specialName),
    .optional "generic_definition" m.genericDefinition false (· = .boolean m.genericDefinition),
    .optional "deprecated" m.deprecated false (· = .boolean m.deprecated)]

def EnumConstant.slots (c : EnumConstant) : List Slot :=
  [.required "name" (· = .string c.name), .required "value" (· = encodeWhole c.value.toInt)]

def EnumConstant.Spells (c : EnumConstant) : Value → Prop := ObjectSpells c.slots

/-- The slots of a type, given that of its members. -/
def TypeHeader.slotsWith (h : TypeHeader) (members : Slot) : List Slot :=
  [.optional "namespace" h.home none (· = encodeText? h.home),
    .required "name" (· = .string h.name),
    .required "kind" (· = .string (spelled Kind.spellings h.kind)),
    .optional "base" h.base none (· = encodeText? h.base),
    .optional "generic_arity" h.genericArity 0 (· = encodeWhole h.genericArity.toNat),
    .optional "generic_definition" h.genericDefinition false (· = .boolean h.genericDefinition),
    .optional "visibility" h.visibility .isPublic
      (· = .string (spelled Visibility.spellings h.visibility)),
    .optional "special_name" h.specialName false (· = .boolean h.specialName),
    .optional "deprecated" h.deprecated false (· = .boolean h.deprecated),
    .optional "enum_members" h.constants [] (ListSpells (h.constants.map EnumConstant.Spells)),
    members,
    .optional "origin" h.origin "" (· = .string h.origin)]

mutual

def TypeInfo.slots : TypeInfo → List Slot
  | ⟨header, members⟩ =>
    header.slotsWith (.optional "members" members [] (ListSpells (memberSpellings members)))

def memberSpellings : List Member → List (Value → Prop)
  | [] => []
  | m :: rest => ObjectSpells m.slots :: memberSpellings rest

def Member.slots : Member → List Slot
  | .constructor c => .required "member" (· = .string "constructor") :: c.slots
  | .property p => .required "member" (· = .string "property") :: p.slots
  | .field f => .required "member" (· = .string "field") :: f.slots
  | .method m => .required "member" (· = .string "method") :: m.slots
  | .nested t => .required "member" (· = .string "nested") :: t.slots

end

def TypeInfo.Spells (t : TypeInfo) : Value → Prop := ObjectSpells t.slots

def Member.Spells (m : Member) : Value → Prop := ObjectSpells m.slots

theorem referenceSpellings_eq_map (args : List TypeReference) :
    referenceSpellings args = args.map TypeReference.Spells := by
  induction args with
  | nil => rfl
  | cons t rest ih => rw [referenceSpellings, ih, List.map_cons, TypeReference.Spells]

theorem memberSpellings_eq_map (members : List Member) :
    memberSpellings members = members.map Member.Spells := by
  induction members with
  | nil => rfl
  | cons m rest ih => rw [memberSpellings, ih, List.map_cons, Member.Spells]

theorem listSpells_of_map {α : Type} {spells : α → Value → Prop} {encode : α → Value}
    (h : ∀ a, spells a (encode a)) (as : List α) :
    ListSpells (as.map spells) (.list (as.map encode)) := by
  refine ⟨_, rfl, ?_⟩
  rw [List.forall₂_map_left_iff, List.forall₂_map_right_iff, List.forall₂_same]
  exact fun a _ => h a

mutual

theorem TypeReference.written : (t : TypeReference) → Written t.slots t.fields
  | .primitive _ => .entry rfl (.entry rfl .nil)
  | .nullable inner => .entry rfl (.entry inner.written.spells .nil)
  | .array element => .entry rfl (.entry element.written.spells .nil)
  | .collection _ args =>
    .entry rfl (.entry rfl (.entry ⟨_, rfl, spells_encodeReferences args⟩ .nil))
  | .named _ args => .entry rfl (.entry rfl (.entry ⟨_, rfl, spells_encodeReferences args⟩ .nil))
  | .delegate => .entry rfl .nil
  | .unresolved _ => .entry rfl (.entry rfl .nil)

theorem spells_encodeReferences : (args : List TypeReference) →
    List.Forall₂ (fun spells v => spells v) (referenceSpellings args) (encodeReferences args)
  | [] => .nil
  | t :: rest => .cons t.written.spells (spells_encodeReferences rest)

end

theorem TypeReference.spells_encode (t : TypeReference) : t.Spells t.encode := t.written.spells

theorem Parameter.spells_encode (p : Parameter) : p.Spells p.encode := by
  refine Written.spells (.entry rfl (.entry p.type.spells_encode (.entry rfl (.entry rfl
    (.entry ?_ .nil)))))
  change _ = encodeDefault? p.defaultValue
  cases p.defaultValue <;> rfl

theorem Constructor.written (c : Constructor) : Written c.slots c.fields :=
  .entry (listSpells_of_map Parameter.spells_encode _) (.entry rfl .nil)

theorem Property.written (p : Property) : Written p.slots p.fields :=
  .entry rfl (.entry p.type.spells_encode (.entry rfl (.entry rfl (.entry rfl (.entry rfl
    (.entry (listSpells_of_map Parameter.spells_encode _) (.entry rfl .nil)))))))

theorem Field.written (f : Field) : Written f.slots f.fields :=
  .entry rfl (.entry f.type.spells_encode (.entry rfl (.entry rfl (.entry rfl (.entry rfl .nil)))))

theorem Method.written (m : Method) : Written m.slots m.fields :=
  .entry rfl (.entry (listSpells_of_map Parameter.spells_encode _)
    (.entry m.returnType.spells_encode (.entry rfl (.entry rfl (.entry rfl (.entry rfl
      (.entry rfl .nil)))))))

theorem EnumConstant.spells_encode (c : EnumConstant) : c.Spells c.encode :=
  Written.spells (.entry rfl (.entry rfl .nil))

theorem TypeHeader.written (h : TypeHeader) {members : Slot} {items : List Value}
    (hkey : members.key = "members") (hmembers : members.spells (.list items)) :
    Written (h.slotsWith members) (h.fieldsWith items) := by
  obtain ⟨_, omissible, spells⟩ := members
  subst hkey
  exact .entry rfl (.entry rfl (.entry rfl (.entry rfl (.entry rfl (.entry rfl (.entry rfl
    (.entry rfl (.entry rfl (.entry (listSpells_of_map EnumConstant.spells_encode _)
      (.entry hmembers (.entry rfl .nil)))))))))))

mutual

theorem TypeInfo.written : (t : TypeInfo) → Written t.slots t.fields
  | ⟨header, members⟩ => header.written rfl ⟨_, rfl, spells_encodeMembers members⟩

theorem spells_encodeMembers : (members : List Member) →
    List.Forall₂ (fun spells v => spells v) (memberSpellings members) (encodeMembers members)
  | [] => .nil
  | m :: rest => .cons m.spells_encode (spells_encodeMembers rest)

theorem Member.spells_encode : (m : Member) → ObjectSpells m.slots m.encode
  | .constructor c => Written.spells (.entry rfl c.written)
  | .property p => Written.spells (.entry rfl p.written)
  | .field f => Written.spells (.entry rfl f.written)
  | .method m => Written.spells (.entry rfl m.written)
  | .nested t => Written.spells (.entry rfl t.written)

end

theorem TypeInfo.spells_encode (t : TypeInfo) : t.Spells t.encode := t.written.spells

end StubTree.Metadata
