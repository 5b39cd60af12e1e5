import StubTree.Metadata.Decoding
import StubTree.Proofs.Spellings

/-!
Metadata is restored from each of its spellings.
-/

namespace StubTree.Metadata

open Json (Decoder Value Slot Fits depthLimit)
open Json.Decoder Json.Reader

theorem takes_bareChoice {α : Type} [DecidableEq α] {spellings : List (String × α)}
    {fallback : Option α} {a : α} (h : spellings.lookup (spelled spellings a) = some a) :
    Takes (bareChoice spellings fallback) (.string (spelled spellings a)) a := by
  refine takes_bare ?_
  generalize spelled spellings a = name at h
  induction spellings with
  | nil => simp at h
  | cons entry spellings ih =>
      obtain ⟨word, b⟩ := entry
      rw [List.map_cons, List.lookup_cons]
      rw [List.lookup_cons] at h
      cases hword : name == word with
      | true =>
          rw [hword] at h
          cases h
          rfl
      | false =>
          rw [hword] at h
          exact ih h

theorem takes_direction (d : Direction) :
    Takes direction (.string (spelled Direction.spellings d)) d :=
  takes_bareChoice (by cases d <;> rfl)

theorem takes_primitive (p : Primitive) :
    Takes primitive (.string (spelled Primitive.spellings p)) p :=
  takes_bareChoice (by cases p <;> rfl)

theorem takes_collection (c : Collection) :
    Takes collection (.string (spelled Collection.spellings c)) c :=
  takes_bareChoice (by cases c <;> rfl)

theorem takes_kind (k : Kind) : Takes kind (.string (spelled Kind.spellings k)) k :=
  takes_bareChoice (by cases k <;> rfl)

theorem takes_visibility (v : Visibility) :
    Takes visibility (.string (spelled Visibility.spellings v)) v :=
  takes_bareChoice (by cases v <;> rfl)

theorem takes_encodeText? (s : Option String) : Takes (optional string) (encodeText? s) s := by
  cases s with
  | none => exact takes_none string
  | some s => exact takes_some (takes_string s) Value.noConfusion

theorem takes_defaultValue (d : DefaultValue) : Takes defaultValue d.encode d := by
  cases d with
  | null => exact takes_bare rfl
  | boolean b => exact takes_carrying rfl ((takes_boolean b).map DefaultValue.boolean)
  | literal token => exact takes_carrying rfl ((takes_string token).map DefaultValue.literal)
  | nonPrimitive => exact takes_bare rfl

/-- A missing default is `null`, a default that is `null` is a word. -/
theorem takes_encodeDefault? (d : Option DefaultValue) :
    Takes (optional defaultValue) (encodeDefault? d) d := by
  cases d with
  | none => exact takes_none defaultValue
  | some d => exact takes_some (takes_defaultValue d) (by cases d <;> exact Value.noConfusion)

@[simp] theorem tag_typeReferenceWithin (n : Nat) : (typeReferenceWithin n).tag = "kind" := by
  cases n <;> rfl

@[simp] theorem tag_memberWithin (n : Nat) : (memberWithin n).tag = "member" := by
  cases n <;> rfl

/-- The levels of references inside are counted by the depth of the value. -/
theorem takes_reference (n : Nat) : ∀ (t : TypeReference) (v : Value), v.depth ≤ n → t.Spells v →
    Takes (tagged (typeReferenceWithin n)) v t := by
  induction n with
  | zero =>
      rintro t v hdepth ⟨_, _, entries, -, -, -, rfl⟩
      simp [Value.depth] at hdepth
  | succ n ih =>
      intro t v hdepth hspells
      cases t with
      | primitive p =>
          exact Restores.takes_variant hspells (by simp) rfl
            (.required (takes_primitive p).exactly .nil) (by simp) hdepth rfl
      | nullable inner =>
          exact Restores.takes_variant hspells (by simp) rfl (.required (ih inner) .nil) (by simp)
            hdepth rfl
      | array element =>
          exact Restores.takes_variant hspells (by simp) rfl (.required (ih element) .nil) (by simp)
            hdepth rfl
      | collection c args =>
          rw [TypeReference.Spells, TypeReference.slots, referenceSpellings_eq_map] at hspells
          refine takes_variant hspells (by simp) rfl fun others hfits hle => Takes.ofValue ?_
          refine Takes.map (a := (c, args)) ?_ _
          exact Restores.takes (.required (takes_collection c).exactly
            (.required (takes_listSpells ih) .nil)) (by simp) (by simp) hfits (hle.trans hdepth) rfl
      | named name args =>
          rw [TypeReference.Spells, TypeReference.slots, referenceSpellings_eq_map] at hspells
          refine takes_variant hspells (by simp) rfl fun others hfits hle => Takes.ofValue ?_
          refine Takes.map (a := (name, args)) ?_ _
          exact Restores.takes (.required (takes_string name).exactly
            (.optional (takes_listSpells ih) rfl .nil)) (by simp) (by simp) hfits
            (hle.trans hdepth) rfl
      | delegate => exact takes_variant hspells (by simp) rfl fun others _ _ => rfl
      | unresolved name =>
          exact Restores.takes_variant hspells (by simp) rfl
            (.required (takes_string name).exactly .nil) (by simp) hdepth rfl

theorem takes_typeReference (t : TypeReference) (v : Value) (hdepth : v.depth ≤ depthLimit)
    (hspells : t.Spells v) : Takes typeReference v t :=
  takes_reference depthLimit t v hdepth hspells

theorem takes_parameter (p : Parameter) (v : Value) (hdepth : v.depth ≤ depthLimit)
    (hspells : p.Spells v) : Takes parameter v p := by
  have hkeys : (p.slots.map Slot.key).Nodup := by simp [Parameter.slots]
  obtain ⟨entries, rfl, hfits⟩ := hspells.fits hkeys
  exact Restores.takes (.optional (takes_string p.name).exactly rfl
    (.required (takes_typeReference p.type) (.optional (takes_boolean p.variadic).exactly rfl
      (.optional (takes_direction p.direction).exactly rfl
        (.optional (takes_encodeDefault? p.defaultValue).exactly rfl .nil)))))
    hkeys (by simp) hfits (Nat.le_succ_of_le hdepth) rfl

theorem takes_enumConstant (c : EnumConstant) {v : Value} (hspells : c.Spells v) :
    Takes enumConstant v c := by
  have hkeys : (c.slots.map Slot.key).Nodup := by simp [EnumConstant.slots]
  obtain ⟨entries, rfl, hfits⟩ := hspells.fits hkeys
  exact Restores.takes (.required (takes_string c.name).exactly
    (.required (takes_int64 c.value).exactly .nil)) hkeys (by simp) hfits (Nat.le_succ _) rfl

section Contents

variable {entries : List (String × Value)} (hdepth : (Value.object entries).depth ≤ depthLimit + 1)
include hdepth

theorem takes_constructor {c : Constructor} (hfits : Fits c.slots entries []) :
    Takes constructor (.object entries) c :=
  Restores.takes (.optional (takes_listSpells takes_parameter) rfl
    (.optional (takes_boolean c.deprecated).exactly rfl .nil))
    (by simp) (by simp) hfits hdepth rfl

theorem takes_property {p : Property} (hfits : Fits p.slots entries []) :
    Takes property (.object entries) p :=
  Restores.takes (.required (takes_string p.name).exactly (.required (takes_typeReference p.type)
    (.optional (takes_boolean p.readable).exactly rfl
      (.optional (takes_boolean p.writable).exactly rfl
        (.optional (takes_boolean p.hasPublicSetter).exactly rfl
          (.optional (takes_boolean p.isStatic).exactly rfl
            (.optional (takes_listSpells takes_parameter) rfl
              (.optional (takes_boolean p.deprecated).exactly rfl .nil))))))))
    (by simp) (by simp) hfits hdepth rfl

theorem takes_field {f : Field} (hfits : Fits f.slots entries []) :
    Takes field (.object entries) f :=
  Restores.takes (.required (takes_string f.name).exactly (.required (takes_typeReference f.type)
    (.optional (takes_boolean f.isStatic).exactly rfl
      (.optional (takes_boolean f.specialName).exactly rfl
        (.optional (takes_boolean f.literal).exactly rfl
          (.optional (takes_boolean f.deprecated).exactly rfl .nil))))))
    (by simp) (by simp) hfits hdepth rfl

theorem takes_method {m : Method} (hfits : Fits m.slots entries []) :
    Takes method (.object entries) m :=
  Restores.takes (.required (takes_string m.name).exactly
    (.optional (takes_listSpells takes_parameter) rfl
      (.required (takes_typeReference m.returnType)
        (.optional (takes_boolean m.isStatic).exactly rfl
          (.optional (takes_encodeText? m.operator).exactly rfl
            (.optional (takes_boolean m.specialName).exactly rfl
              (.optional (takes_boolean m.genericDefinition).exactly rfl
                (.optional (takes_boolean m.deprecated).exactly rfl .nil))))))))
    (by simp) (by simp) hfits hdepth rfl

end Contents

theorem keys_typeInfo (t : TypeInfo) : (t.slots.map Slot.key).Nodup ∧
    "member" ∉ t.slots.map Slot.key := by
  cases t
  simp [TypeInfo.slots, TypeHeader.slotsWith]

theorem takes_typeInfoOf {n : Nat} {d : Decoder Member}
    (hd : ∀ m v, v.depth ≤ n → m.Spells v → Takes d v m) {t : TypeInfo}
    {entries : List (String × Value)} (hdepth : (Value.object entries).depth ≤ n + 1)
    (hfits : Fits t.slots entries []) : Takes (typeInfoOf d) (.object entries) t := by
  have hkeys := (keys_typeInfo t).1
  obtain ⟨header, members⟩ := t
  rw [TypeInfo.slots, memberSpellings_eq_map] at hfits hkeys
  exact Restores.takes (.optional (takes_encodeText? header.home).exactly rfl
    (.required (takes_string header.name).exactly (.required (takes_kind header.kind).exactly
      (.optional (takes_encodeText? header.base).exactly rfl
        (.optional (takes_uint32 header.genericArity).exactly rfl
          (.optional (takes_boolean header.genericDefinition).exactly rfl
            (.optional (takes_visibility header.visibility).exactly rfl
              (.optional (takes_boolean header.specialName).exactly rfl
                (.optional (takes_boolean header.deprecated).exactly rfl
                  (.optional (takes_listSpells fun c _ _ => takes_enumConstant c) rfl
                    (.optional (takes_listSpells hd) rfl
                      (.optional (takes_string header.origin).exactly rfl .nil))))))))))))
    hkeys (by simp) hfits hdepth rfl

theorem takes_memberWithin (n : Nat) (hn : n ≤ depthLimit) : ∀ (m : Member) (v : Value),
    v.depth ≤ n → m.Spells v → Takes (tagged (memberWithin n)) v m := by
  induction n with
  | zero =>
      rintro m v hdepth ⟨_, _, entries, -, -, -, rfl⟩
      simp [Value.depth] at hdepth
  | succ n ih =>
      intro m v hdepth hspells
      have hlimit : v.depth ≤ depthLimit + 1 := Nat.le_succ_of_le (hdepth.trans hn)
      cases m with
      | constructor c =>
          refine takes_variant hspells (by simp [Constructor.slots]) rfl fun others hfits hle => ?_
          exact ((takes_constructor (hle.trans hlimit) hfits).map Member.constructor).ofValue
      | property p =>
          refine takes_variant hspells (by simp [Property.slots]) rfl fun others hfits hle => ?_
          exact ((takes_property (hle.trans hlimit) hfits).map Member.property).ofValue
      | field f =>
          refine takes_variant hspells (by simp [Field.slots]) rfl fun others hfits hle => ?_
          exact ((takes_field (hle.trans hlimit) hfits).map Member.field).ofValue
      | method m =>
          refine takes_variant hspells (by simp [Method.slots]) rfl fun others hfits hle => ?_
          exact ((takes_method (hle.trans hlimit) hfits).map Member.method).ofValue
      | nested t =>
          rw [Member.Spells, Member.slots] at hspells
          refine takes_variant hspells ?_ rfl fun others hfits hle => ?_
          · rw [List.map_cons, List.nodup_cons]
            exact (keys_typeInfo t).symm
          · have hmembers := ih (Nat.le_of_succ_le hn)
            exact ((takes_typeInfoOf hmembers (hle.trans hdepth) hfits).map Member.nested).ofValue

theorem takes_member (m : Member) (v : Value) (hdepth : v.depth ≤ depthLimit)
    (hspells : m.Spells v) : Takes member v m :=
  takes_memberWithin depthLimit le_rfl m v hdepth hspells

theorem takes_typeInfo (t : TypeInfo) (v : Value) (hdepth : v.depth ≤ depthLimit)
    (hspells : t.Spells v) : Takes typeInfo v t := by
  obtain ⟨entries, rfl, hfits⟩ := hspells.fits (keys_typeInfo t).1
  exact takes_typeInfoOf takes_member (Nat.le_succ_of_le hdepth) hfits

/-- Decoding restores whatever is spelled, from values and from texts. What `encode` writes is one
of the spellings. -/
structure Undoes {α : Type} (d : Decoder α) (encode : α → Value) (spells : α → Value → Prop) :
    Prop where
  encoded : ∀ a, spells a (encode a)
  ofValue : ∀ a v, spells a v → v.depth ≤ depthLimit → d.ofValue v = .ok a
  ofText : ∀ a v text, spells a v → Value.ofText? depthLimit text = .ok v → d.ofText text = .ok a

theorem undoes_of_takes {α : Type} {d : Decoder α} {encode : α → Value}
    {spells : α → Value → Prop} (hencoded : ∀ a, spells a (encode a))
    (htakes : ∀ a v, v.depth ≤ depthLimit → spells a v → Takes d v a) : Undoes d encode spells := by
  refine ⟨hencoded, fun a v hspells hdepth => (htakes a v hdepth hspells).ofValue, ?_⟩
  intro a v text hspells htext
  obtain ⟨rest, hread⟩ := exists_value_of_ofText? htext
  rw [Decoder.ofText, (htakes a v (depth_le_of_value hread) hspells).read hread]

theorem decoding_undoes_encoding :
    Undoes typeInfo TypeInfo.encode TypeInfo.Spells ∧ Undoes member Member.encode Member.Spells ∧
      Undoes parameter Parameter.encode Parameter.Spells ∧
        Undoes typeReference TypeReference.encode TypeReference.Spells :=
  ⟨undoes_of_takes TypeInfo.spells_encode takes_typeInfo,
    undoes_of_takes Member.spells_encode takes_member,
    undoes_of_takes Parameter.spells_encode takes_parameter,
    undoes_of_takes TypeReference.spells_encode takes_typeReference⟩

set_option maxRecDepth 4000 in
/-- The tag behind another field, an unknown field, and fewer fields than there are. -/
theorem decoding_of_rearranged_class :
    typeInfo.ofText "\x7b\"kind\": \"class\", \"note\": [1], \"members\": [\x7b\"name\": \"size\",
      \"member\": \"field\", \"type\": \x7b\"primitive\": \"int32\",
      \"kind\": \"primitive\"\x7d\x7d], \"name\": \"Sprite\"\x7d".toUTF8.data.toList =
      .ok { name := "Sprite", kind := .reference, members :=
        [.field { name := "size", type := .primitive .int32 }] } := by
  have htype : (TypeReference.primitive .int32).Spells
      (.object [("primitive", .string "int32"), ("kind", .string "primitive")]) :=
    ⟨_, [], _, .entry rfl (.entry rfl .nil), by simp, .swap _ _ _, rfl⟩
  have hfield : (Member.field { name := "size", type := .primitive .int32 }).Spells (.object
      [("name", .string "size"), ("member", .string "field"),
        ("type", .object [("primitive", .string "int32"), ("kind", .string "primitive")])]) :=
    ⟨_, [], _, .entry rfl (.entry rfl (.entry htype (.omitted rfl (.omitted rfl (.omitted rfl
      (.omitted rfl .nil)))))), by simp, .swap _ _ _, rfl⟩
  have hclass : TypeInfo.Spells { name := "Sprite", kind := .reference, members :=
      [.field { name := "size", type := .primitive .int32 }] } (.object [("kind", .string "class"),
        ("note", .list [.number (.integer 1)]), ("members", .list [.object
          [("name", .string "size"), ("member", .string "field"),
            ("type", .object [("primitive", .string "int32"), ("kind", .string "primitive")])]]),
        ("name", .string "Sprite")]) := by
    refine ⟨_, [("note", .list [.number (.integer 1)])], _, .omitted rfl (.entry rfl (.entry rfl
      (.omitted rfl (.omitted rfl (.omitted rfl (.omitted rfl (.omitted rfl (.omitted rfl
        (.omitted rfl (.entry ⟨_, rfl, .cons hfield .nil⟩ (.omitted rfl .nil))))))))))),
      ?_, ?_, rfl⟩
    · simp [TypeInfo.slots, TypeHeader.slotsWith]
    · exact (List.perm_append_singleton _ [_, _, _]).trans (.cons _ (.cons _ (.swap _ _ _)))
  exact decoding_undoes_encoding.1.ofText _ _ _ hclass rfl

end StubTree.Metadata
