import Mathlib.Tactic.IntervalCases
import StubTree.Proofs.Replacements
import StubTree.Source

/-!
Documents in which one value has a wrong JSON type. A source refuses such a
document with the path to the value, unless the value lies within a member: then
the path is that of the member, or that of its tag if this is the value.
-/

namespace StubTree.Metadata

open Files Json
open Json.Decoder hiding Field

section Formats

def choiceFormat {α : Type} (spellings : List (String × α)) (fallback : Option α) : Format :=
  .words fun name => (spellings.lookup name).isSome || fallback.isSome

def enumConstantFormat : Format :=
  .record [⟨"name", true, .string⟩,
    ⟨"value", true, .bounded (-9223372036854775808) 9223372036854775807⟩]

def memberFormat : Format := .tagged (memberWithin depthLimit)

def typeInfoParts : List Format.Part :=
  [⟨"namespace", false, .optional .string⟩, ⟨"name", true, .string⟩,
    ⟨"kind", true, choiceFormat Kind.spellings (some .unsupported)⟩,
    ⟨"base", false, .optional .string⟩, ⟨"generic_arity", false, .bounded 0 4294967295⟩,
    ⟨"generic_definition", false, .boolean⟩,
    ⟨"visibility", false, choiceFormat Visibility.spellings none⟩,
    ⟨"special_name", false, .boolean⟩, ⟨"deprecated", false, .boolean⟩,
    ⟨"enum_members", false, .list enumConstantFormat⟩, ⟨"members", false, .list memberFormat⟩,
    ⟨"origin", false, .string⟩]

def typeInfoFormat : Format := .record typeInfoParts

def documentFormat : Format := .record [⟨"types", false, .list typeInfoFormat⟩]

theorem lookup_map_bare {α : Type} (spellings : List (String × α)) (name : String) :
    (spellings.map fun (name, a) => (name, Payload.bare a)).lookup name =
      (spellings.lookup name).map .bare := by
  induction spellings with
  | nil => rfl
  | cons entry spellings ih =>
      obtain ⟨word, a⟩ := entry
      rw [List.map_cons, List.lookup_cons, List.lookup_cons, ih]
      cases name == word <;> rfl

theorem describes_bareChoice {α : Type} (spellings : List (String × α)) (fallback : Option α) :
    (choiceFormat spellings fallback).Describes (bareChoice spellings fallback) := by
  refine describes_words (fun name hknown => ?_) fun name hunknown => ?_
  · simp only [variant?, lookup_map_bare]
    cases hlookup : spellings.lookup name with
    | some a => exact ⟨a, rfl⟩
    | none =>
        cases fallback with
        | some a => exact ⟨a, rfl⟩
        | none => simp [hlookup] at hknown
  · simp only [variant?, lookup_map_bare]
    rw [Bool.or_eq_false_iff, Option.isSome_eq_false_iff, Option.isSome_eq_false_iff,
      Option.isNone_iff_eq_none, Option.isNone_iff_eq_none] at hunknown
    rw [hunknown.1, hunknown.2]
    exact ⟨_, rfl⟩

theorem describes_enumConstant : enumConstantFormat.Describes enumConstant :=
  describes_record _ (.cons (matches_required describes_string _ _)
    (.cons (matches_required (describes_map (describes_bounded _ _ _) _) _ _) .nil)) _

theorem describes_typeInfo : typeInfoFormat.Describes typeInfo := by
  have htext : (Format.optional .string).Describes (optional string) :=
    describes_optional describes_string
  exact describes_record _
    (.cons (matches_optional htext _ _) <|
      .cons (matches_required describes_string _ _) <|
      .cons (matches_required (describes_bareChoice _ _) _ _) <|
      .cons (matches_optional htext _ _) <|
      .cons (matches_optional (describes_map (describes_bounded _ _ _) _) _ _) <|
      .cons (matches_optional describes_boolean _ _) <|
      .cons (matches_optional (describes_bareChoice _ _) _ _) <|
      .cons (matches_optional describes_boolean _ _) <|
      .cons (matches_optional describes_boolean _ _) <|
      .cons (matches_optional (describes_list describes_enumConstant) _ _) <|
      .cons (matches_optional (describes_list (describes_tagged _)) _ _) <|
      .cons (matches_optional describes_string _ _) .nil) _

/-- The format of documents says what is done to each text that holds a value. -/
theorem describes_documentTypes : documentFormat.Describes documentTypes :=
  describes_record _ (.cons (matches_optional (describes_list describes_typeInfo) _ _) .nil) _

theorem points_choiceFormat {α : Type} {spellings : List (String × α)} {fallback : Option α}
    (word : String) (h : ((spellings.lookup word).isSome || fallback.isSome) = true) :
    (choiceFormat spellings fallback).Points :=
  Format.points_words h

theorem points_enumConstant : enumConstantFormat.Points := by
  refine Format.points_record ?_ ?_ ?_
  · simp only [List.forall_mem_cons]
    exact ⟨Format.points_string, Format.points_bounded _ _, fun _ h => by cases h⟩
  · exact ⟨[("name", .string ""), ("value", .number (.integer 0))], by decide +kernel⟩
  · exact ⟨[.string "", .number (.integer 0)], by decide +kernel⟩

theorem points_member : memberFormat.Points := by
  refine Format.points_tagged ?_ ?_
  · exact ⟨[("member", .string "constructor")], by decide +kernel⟩
  · exact ⟨[.string "constructor"], by decide +kernel⟩

theorem points_typeInfo : typeInfoFormat.Points := by
  have htext : (Format.optional .string).Points := Format.points_optional Format.points_string
  have hflag := Format.points_boolean
  refine Format.points_record ?_ ?_ ?_
  · simp only [typeInfoParts, List.forall_mem_cons]
    refine ⟨htext, Format.points_string, points_choiceFormat "class" rfl, htext,
      Format.points_bounded _ _, hflag, points_choiceFormat "public" (by decide +kernel), hflag,
      hflag, Format.points_list points_enumConstant, Format.points_list points_member,
      Format.points_string, fun _ h => by cases h⟩
  · exact ⟨[("name", .string ""), ("kind", .string "")], by decide +kernel⟩
  · exact ⟨[.null, .string "", .string ""], by decide +kernel⟩

theorem points_document : documentFormat.Points := by
  refine Format.points_record ?_ ⟨[], rfl⟩ ⟨[], rfl⟩
  simp only [List.forall_mem_cons]
  exact ⟨Format.points_list points_typeInfo, fun _ h => by cases h⟩

end Formats

section Paths

/-- The path that is reported for a place: within a member, only the tag has one of its own. Types
and members are found by their keys or at their positions in a list. -/
def reportedPath : Path → Path
  | types :: .index i :: members :: .index j :: rest =>
    if (types = .key "types" ∨ types = .index 0) ∧
        (members = .key "members" ∨ members = .index 10) ∧
        ¬(rest = [.key "member"] ∨ rest = [.index 0]) then
      [types, .index i, members, .index j]
    else types :: .index i :: members :: .index j :: rest
  | path => path

/-- A format that shows paths in full. -/
def IsTransparent (F : Format) : Prop := ∀ path, F.shown path = path

theorem isTransparent_list {F : Format} (h : IsTransparent F) : IsTransparent (.list F) := by
  intro path
  cases path with
  | nil => rfl
  | cons step path =>
      cases step with
      | index i => exact congrArg (.index i :: ·) (h path)
      | key | unknown => rfl

/-- The part of a record that a step leads into. -/
def partAt (parts : List Format.Part) : Step → Option Format.Part
  | .key name => parts.find? (·.name = name)
  | .index i => parts[i]?
  | .unknown => none

theorem shown_record (parts : List Format.Part) (step : Step) (path : Path) :
    (Format.record parts).shown (step :: path) =
      step :: Format.shownIn (partAt parts step) path := by
  cases step <;> rfl

theorem mem_of_partAt {parts : List Format.Part} {step : Step} {part : Format.Part}
    (h : partAt parts step = some part) : part ∈ parts := by
  cases step with
  | key name => exact List.mem_of_find?_eq_some h
  | index i => exact List.mem_of_getElem? h
  | unknown => cases h

theorem shownIn_of_isTransparent {part : Option Format.Part} (path : Path)
    (h : ∀ p ∈ part, IsTransparent p.format) : Format.shownIn part path = path := by
  cases part with
  | none => rfl
  | some part => exact h part rfl path

theorem isTransparent_record {parts : List Format.Part}
    (h : ∀ part ∈ parts, IsTransparent part.format) : IsTransparent (.record parts) := by
  intro path
  cases path with
  | nil => rfl
  | cons step path =>
      rw [shown_record, shownIn_of_isTransparent]
      exact fun part hpart => h part (mem_of_partAt hpart)

theorem isTransparent_enumConstant : IsTransparent enumConstantFormat := by
  refine isTransparent_record ?_
  simp only [List.forall_mem_cons]
  exact ⟨fun _ => rfl, fun _ => rfl, fun _ h => by cases h⟩

/-- Of the parts of a type only the members hide paths. -/
theorem isTransparent_of_name {part : Format.Part} (hpart : part ∈ typeInfoParts)
    (hname : part.name ≠ "members") : IsTransparent part.format := by
  simp only [typeInfoParts, List.mem_cons, List.not_mem_nil, or_false] at hpart
  rcases hpart with rfl | rfl | rfl | rfl | rfl | rfl | rfl | rfl | rfl | rfl | rfl | rfl
  case inr.inr.inr.inr.inr.inr.inr.inr.inr.inl =>
    exact isTransparent_list isTransparent_enumConstant
  case inr.inr.inr.inr.inr.inr.inr.inr.inr.inr.inl => exact absurd rfl hname
  all_goals exact fun _ => rfl

/-- The members of a type are found by their key or at their position in a list. -/
theorem name_of_partAt {step : Step} {part : Format.Part}
    (h : partAt typeInfoParts step = some part) :
    part.name = "members" ↔ step = .key "members" ∨ step = .index 10 := by
  cases step with
  | unknown => cases h
  | key name =>
      have hname := List.find?_some h
      rw [decide_eq_true_iff] at hname
      simp [hname]
  | index i =>
      obtain ⟨hless, rfl⟩ := List.getElem?_eq_some_iff.mp h
      simp only [typeInfoParts, List.length_cons, List.length_nil] at hless
      interval_cases i <;> simp [typeInfoParts]

theorem partAt_members {step : Step} (h : step = .key "members" ∨ step = .index 10) :
    partAt typeInfoParts step = some ⟨"members", false, .list memberFormat⟩ := by
  rcases h with rfl | rfl
  · simp [partAt, typeInfoParts]
  · rfl

/-- What a type shows of a path: of one that goes through a member, the path of the member. -/
theorem shown_typeInfo (step : Step) (path : Path) :
    typeInfoFormat.shown (step :: path) =
      if step = .key "members" ∨ step = .index 10 then step :: (Format.list memberFormat).shown path
      else step :: path := by
  rw [typeInfoFormat, shown_record]
  split
  · rename_i hstep
    rw [partAt_members hstep]
    rfl
  · rename_i hstep
    rw [shownIn_of_isTransparent]
    intro part hpart
    exact isTransparent_of_name (mem_of_partAt hpart) fun hname =>
      hstep ((name_of_partAt hpart).mp hname)

theorem shown_list_member (path : Path) :
    (Format.list memberFormat).shown path =
      match path with
      | .index j :: rest =>
        if rest = [.key "member"] ∨ rest = [.index 0] then path else [.index j]
      | path => path := by
  cases path with
  | nil => rfl
  | cons step rest =>
      cases step with
      | key | unknown => rfl
      | index j =>
          have htag : (memberWithin depthLimit).tag = "member" := rfl
          simp only [Format.list, memberFormat, Format.tagged, htag]
          split <;> rfl

theorem partAt_types (step : Step) :
    partAt [⟨"types", false, .list typeInfoFormat⟩] step =
      if step = .key "types" ∨ step = .index 0 then some ⟨"types", false, .list typeInfoFormat⟩
      else none := by
  cases step with
  | unknown => rfl
  | key name => simp [partAt, List.find?_singleton, eq_comm]
  | index i => cases i <;> rfl

theorem shown_document (path : Path) : documentFormat.shown path = reportedPath path := by
  cases path with
  | nil => rfl
  | cons types path =>
      rw [documentFormat, shown_record, partAt_types]
      by_cases htypes : types = .key "types" ∨ types = .index 0
      · rw [if_pos htypes]
        match path with
        | [] | .key _ :: _ | .unknown :: _ | [.index _] => rfl
        | .index i :: members :: rest =>
            change types :: .index i :: typeInfoFormat.shown (members :: rest) = _
            rw [shown_typeInfo, shown_list_member]
            match rest with
            | [] | .key _ :: _ | .unknown :: _ =>
                simp only [ite_self]
                rfl
            | .index j :: rest =>
                simp only [reportedPath, htypes, true_and]
                by_cases hmembers : members = .key "members" ∨ members = .index 10
                · by_cases hrest : rest = [.key "member"] ∨ rest = [.index 0]
                  · simp only [hmembers, hrest, not_true_eq_false, and_false, if_true, if_false]
                  · simp only [hmembers, hrest, not_false_eq_true, and_true, if_true, if_false]
                · simp only [hmembers, false_and, if_false]
      · rw [if_neg htypes]
        match path with
        | [] | .key _ :: _ | .unknown :: _ | [.index _] | [.index _, _]
        | .index _ :: _ :: .key _ :: _ | .index _ :: _ :: .unknown :: _ => rfl
        | .index i :: members :: .index j :: rest =>
            simp only [reportedPath, htypes, false_and, if_false]
            rfl

end Paths

section Replacing

/-- What the format of documents has no fault in holds types, see `isTaken_iff`. -/
def IsTaken (v : Value) : Prop := documentFormat.fault? v = none

instance : DecidablePred IsTaken := fun v =>
  inferInstanceAs (Decidable (documentFormat.fault? v = none))

/-- No value of the JSON type of this one can stand in the document here. Lists of what a record
holds stand for the record, so they do not have a wrong type. -/
def HasWrongType (c : Context) (y : Value) : Prop := ∀ y', y'.form = y.form → ¬IsTaken (c.fill y')

theorem isTaken_iff {text : List UInt8} {v : Value}
    (h : Value.ofText? depthLimit text = .ok v) :
    (∃ types, documentTypes.ofText text = .ok types) ↔ IsTaken v := by
  obtain ⟨rest, hread⟩ := Reader.exists_value_of_ofText? h
  have hsettles := describes_documentTypes hread
  rw [IsTaken, ofText]
  cases hfault : documentFormat.fault? v with
  | none =>
      rw [hfault] at hsettles
      obtain ⟨types, htypes⟩ := hsettles
      simp [htypes]
  | some path =>
      rw [hfault] at hsettles
      obtain ⟨fault, left, hread, -⟩ := hsettles
      simp [hread]

/-- The fault of a document with one value of a wrong JSON type has the path that is reported. -/
theorem ofText_of_hasWrongType {c : Context} {x y : Value} {text : List UInt8}
    (hx : IsTaken (c.fill x)) (hy : HasWrongType c y)
    (htext : Value.ofText? depthLimit text = .ok (c.fill y)) :
    ∃ fault, documentTypes.ofText text = .error fault ∧ fault.path = reportedPath c.path := by
  obtain ⟨rest, hread⟩ := Reader.exists_value_of_ofText? htext
  have hfault : documentFormat.fault? (c.fill y) = some (reportedPath c.path) := by
    rw [← shown_document]
    rcases points_document.anywhere c y hx with ⟨y', hform, htaken⟩ | hfault
    · exact absurd htaken (hy y' hform)
    · exact hfault
  have hsettles := describes_documentTypes hread
  rw [hfault] at hsettles
  obtain ⟨fault, left, hread, hpath⟩ := hsettles
  exact ⟨fault, by rw [ofText, hread], hpath⟩

end Replacing

end StubTree.Metadata

namespace StubTree.Source

open Metadata Files Json

section Reasons

theorem textFrom_append (first : Bool) (path rest : Path) :
    Path.textFrom first (path ++ rest) =
      Path.textFrom first path ++ Path.textFrom (first && path.isEmpty) rest := by
  induction path generalizing first with
  | nil => simp [Path.textFrom]
  | cons step path ih => cases step <;> simp [Path.textFrom, ih, String.append_assoc]

theorem text_append {path : Path} (h : path ≠ []) (rest : Path) :
    Path.text (path ++ rest) = Path.text path ++ Path.textFrom false rest := by
  cases path with
  | nil => exact absurd rfl h
  | cons step path => exact textFrom_append true (step :: path) rest

/-- The reason begins with this path, and an arrow ends it. -/
def LeadsTo (reason : String) (path : Path) : Prop :=
  ∃ rest, reason = "at JSON path " ++ Path.text path ++ " → " ++ rest

theorem leadsTo_message (document : List UInt8) (fault : Json.Fault) :
    LeadsTo (fault.message document) fault.path :=
  ⟨_, String.append_assoc⟩

/-- An arrow does not look like a step. -/
theorem arrow_ne_textFrom (step : Step) (path : Path) (before after : String) :
    " → " ++ before ≠ Path.textFrom false (step :: path) ++ after := by
  intro h
  have hchars := congrArg (List.head? ∘ String.toList) h
  cases step with
  | index i => simp [Path.textFrom, toString] at hchars
  | key | unknown => simp [Path.textFrom] at hchars

theorem eq_nil_of_leadsTo {reason : String} {path rest : Path} (hpath : path ≠ [])
    (h : LeadsTo reason path) (hlonger : LeadsTo reason (path ++ rest)) : rest = [] := by
  obtain ⟨after, rfl⟩ := h
  obtain ⟨after', heq⟩ := hlonger
  cases rest with
  | nil => rfl
  | cons step rest =>
      rw [text_append hpath] at heq
      simp only [String.append_assoc, String.append_right_inj] at heq
      exact absurd heq (arrow_ne_textFrom step rest _ _)

theorem reportedPath_cases (path : Path) :
    reportedPath path = path ∨
      ∃ rest, reportedPath path ≠ [] ∧ path = reportedPath path ++ rest := by
  fun_cases reportedPath path with
  | case1 types i members j rest => exact .inr ⟨rest, List.cons_ne_nil _ _, rfl⟩
  | case2 | case3 => exact .inl rfl

theorem leadsTo_iff {reason : String} {path : Path} (h : LeadsTo reason (reportedPath path)) :
    LeadsTo reason path ↔ reportedPath path = path := by
  constructor
  · intro hpath
    rcases reportedPath_cases path with heq | ⟨rest, hne, heq⟩
    · exact heq
    · rw [heq] at hpath
      rw [eq_nil_of_leadsTo hne h hpath, List.append_nil] at heq
      exact heq.symm
  · intro heq
    rwa [heq] at h

end Reasons

section Replacing

variable {tree : Tree} {file : String} {text : List UInt8} {c : Context} {x y : Value}

theorem leadsTo_reportedPath (id : String) (hx : IsTaken (c.fill x)) (hy : HasWrongType c y)
    (hread : tree.read file = .ok text)
    (htext : Value.ofText? depthLimit text = .ok (c.fill y)) :
    ∃ reason, (document file id).types tree = .error (.undecodable file reason) ∧
      LeadsTo reason (reportedPath c.path) := by
  obtain ⟨fault, hfault, hpath⟩ := ofText_of_hasWrongType hx hy htext
  refine ⟨fault.message text, ?_, hpath ▸ leadsTo_message text fault⟩
  simp only [types, decodeFile, hread, hfault]
  rfl

/-- A document with one value of a wrong JSON type is refused with the path to this value, as far as
it is reported. -/
theorem types_of_wrong_type (id : String) (hx : IsTaken (c.fill x)) (hy : HasWrongType c y)
    (hread : tree.read file = .ok text)
    (htext : Value.ofText? depthLimit text = .ok (c.fill y)) :
    ∃ reason, (document file id).types tree = .error (.undecodable file reason) ∧
      LeadsTo reason (reportedPath c.path) ∧
      (LeadsTo reason c.path ↔ reportedPath c.path = c.path) := by
  obtain ⟨reason, htypes, hreported⟩ := leadsTo_reportedPath id hx hy hread htext
  exact ⟨reason, htypes, hreported, leadsTo_iff hreported⟩

/-- The number of an enum constant. -/
def constantPlace : Context :=
  [.entry [] "types" [], .item [] [],
    .entry [("name", .string "Hue"), ("kind", .string "enum")] "enum_members" [], .item [] [],
    .entry [("name", .string "Red")] "value" []]

def constantText : List UInt8 :=
  bytes "\x7b\"types\": [\x7b\"name\": \"Hue\", \"kind\": \"enum\",
    \"enum_members\": [\x7b\"name\": \"Red\", \"value\": true\x7d]\x7d]\x7d"

def constantTree : Tree := ⟨"/w", [(["hue.json"], .file constantText)]⟩

theorem constant_of_wrong_type :
    IsTaken (constantPlace.fill (.number (.integer 0))) ∧
      HasWrongType constantPlace (.boolean true) ∧
      constantTree.read "hue.json" = .ok constantText ∧
      Value.ofText? depthLimit constantText = .ok (constantPlace.fill (.boolean true)) ∧
      ∃ rest, (document "hue.json" "hue").types constantTree = .error (.undecodable "hue.json"
        ("at JSON path types[0].enum_members[0].value → " ++ rest)) := by
  have hx : IsTaken (constantPlace.fill (.number (.integer 0))) := by decide +kernel
  have hy : HasWrongType constantPlace (.boolean true) := by
    intro y' hform
    cases y' with
    | boolean b => cases b <;> decide +kernel
    | null | number | string | list | object => cases hform
  have hread : constantTree.read "hue.json" = .ok constantText := by decide +kernel
  have htext : Value.ofText? depthLimit constantText = .ok (constantPlace.fill (.boolean true)) :=
    rfl
  obtain ⟨reason, htypes, -, hfull⟩ := types_of_wrong_type "hue" hx hy hread htext
  obtain ⟨rest, rfl⟩ := hfull.mpr (by decide +kernel)
  have hpath : "at JSON path " ++ Path.text constantPlace.path ++ " → " =
      "at JSON path types[0].enum_members[0].value → " := by decide +kernel
  exact ⟨hx, hy, hread, htext, rest, by rw [htypes, hpath]⟩

/-- The name of a field. -/
def fieldPlace : Context :=
  [.entry [] "types" [], .item [] [],
    .entry [("name", .string "X"), ("kind", .string "class")] "members" [], .item [] [],
    .entry [("member", .string "field")] "name" [("type", .object [("kind", .string "delegate")])]]

def fieldText : List UInt8 :=
  bytes "\x7b\"types\":[\x7b\"name\":\"X\",\"kind\":\"class\",\"members\":[
    \x7b\"member\":\"field\",\"name\":1,\"type\":\x7b\"kind\":\"delegate\"\x7d\x7d]\x7d]\x7d"

def fieldTree : Tree := ⟨"/w", [(["m.json"], .file fieldText)]⟩

set_option maxRecDepth 4000 in
/-- The name of a field is refused with the path of the field. -/
theorem field_name_reported_as_field :
    IsTaken (fieldPlace.fill (.string "")) ∧
      HasWrongType fieldPlace (.number (.integer 1)) ∧
      fieldTree.read "m.json" = .ok fieldText ∧
      Value.ofText? depthLimit fieldText = .ok (fieldPlace.fill (.number (.integer 1))) ∧
      fieldPlace.path = [.key "types", .index 0, .key "members", .index 0, .key "name"] ∧
      ∃ reason, (document "m.json" "m").types fieldTree = .error (.undecodable "m.json" reason) ∧
        LeadsTo reason [.key "types", .index 0, .key "members", .index 0] ∧
        ¬LeadsTo reason fieldPlace.path := by
  have hx : IsTaken (fieldPlace.fill (.string "")) := by decide +kernel
  have hy : HasWrongType fieldPlace (.number (.integer 1)) := by
    intro y' hform
    cases y' with
    | number n =>
        have hfault : documentFormat.fault? (fieldPlace.fill (.number n)) =
            some [.key "types", .index 0, .key "members", .index 0] := by
          cases n <;> rfl
        rw [IsTaken, hfault]
        exact Option.some_ne_none _
    | null | boolean | string | list | object => cases hform
  have hread : fieldTree.read "m.json" = .ok fieldText := by decide +kernel
  have htext : Value.ofText? depthLimit fieldText = .ok (fieldPlace.fill (.number (.integer 1))) :=
    rfl
  obtain ⟨reason, htypes, hreported⟩ := leadsTo_reportedPath "m" hx hy hread htext
  have hpath : reportedPath fieldPlace.path =
      [.key "types", .index 0, .key "members", .index 0] := by decide +kernel
  refine ⟨hx, hy, hread, htext, rfl, reason, htypes, hpath ▸ hreported, fun hfull => ?_⟩
  exact absurd ((leadsTo_iff hreported).mp hfull) (by decide +kernel)

end Replacing

end StubTree.Source
