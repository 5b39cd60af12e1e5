import StubTree.Proofs.ParameterNames
import StubTree.Proofs.Roles

/-!
Reserved words among the names that a stub declares. Constants and parameters
are kept clear of them, at every level. Properties, fields and methods are
declared as they are called, so a reserved word is declared exactly if one of
them is called so.
-/

namespace StubTree.Stub

open Metadata Python
open Statement (piecesOfBody)

/-- The name under which a member declares itself. Constructors, indexers and operators are declared
under names that they do not choose. -/
def ownName? : Member → Option String
  | .property p => if p.isIndexer then none else some p.name
  | .field f => some f.name
  | .method m => if m.operator.isNone then some m.name else none
  | .constructor _ | .nested _ => none

/-- A class whose stub has a member that declares itself under the name. -/
def HasMemberCalled (t : TypeInfo) (name : String) : Prop :=
  t.kind ≠ .enumeration ∧ ∃ m ∈ accepted t.members, ownName? m = some name

instance (t : TypeInfo) (name : String) : Decidable (HasMemberCalled t name) :=
  inferInstanceAs (Decidable (_ ∧ _))

/-- A piece of a type's own stub declares no reserved word, unless a member is called so. -/
structure Guarded (t : TypeInfo) (p : Piece) : Prop where
  kept : p.role ∈ [Role.constant, .parameter] → p.text ∉ reservedWords
  called : p.role ∈ [Role.attribute, .function] → p.text ∈ reservedWords →
    HasMemberCalled t p.text

section Declared

variable {t : TypeInfo}

theorem operatorSlot_not_reserved {symbol slot : String} (h : operatorSlot? symbol = some slot) :
    slot ∉ reservedWords := by
  have hslots : ∀ pair ∈ operatorSlots, pair.2 ∉ reservedWords := by decide +kernel
  obtain ⟨before, after, hsplit, -⟩ := List.lookup_eq_some_iff.mp h
  exact hslots (symbol, slot) (by simp [hsplit])

theorem initializer_not_reserved : initializer ∉ reservedWords := by decide

/-- Pieces that declare nothing. -/
theorem Guarded.of_role {p : Piece}
    (h : p.role ∉ [Role.constant, .parameter] ++ [Role.attribute, .function]) : Guarded t p := by
  rw [List.mem_append, not_or] at h
  exact ⟨fun hrole => absurd hrole h.1, fun hrole => absurd hrole h.2⟩

theorem guarded_parameter {q : Python.Parameter} (h : q.name ∉ reservedWords) :
    ∀ p ∈ meaning q.pieces, Guarded t p :=
  forall_mem_parameter ⟨fun _ => h, fun hrole => by simp at hrole⟩
    (fun _ _ => .of_role (by simp)) (fun _ _ => .of_role (by simp))

theorem parameters_not_reserved (ps : List Metadata.Parameter) :
    ∀ name ∈ (parameters ps).map (·.name), name ∉ reservedWords := by
  intro name hname
  rw [names_parameters] at hname
  obtain ⟨given, -, rfl⟩ := List.mem_map.mp hname
  exact safeName_not_reserved given

theorem withReceiver_not_reserved (ps : List Metadata.Parameter) :
    ∀ name ∈ (withReceiver ps).map (·.name), name ∉ reservedWords :=
  List.forall_mem_cons.mpr ⟨by decide, parameters_not_reserved ps⟩

theorem guarded_function {f : Function}
    (hname : f.name ∈ reservedWords → HasMemberCalled t f.name)
    (hparameters : ∀ name ∈ f.parameters.map (·.name), name ∉ reservedWords) :
    Throughout (Guarded t) [.function f] :=
  .function (fun _ _ _ => .of_role (by simp)) ⟨by simp, fun _ => hname⟩
    (fun _ hq => guarded_parameter (hparameters _ (List.mem_map_of_mem hq))) (.of_role (by simp))

theorem guarded_declare {name : String} (type : TypeExpr)
    (hname : name ∈ reservedWords → HasMemberCalled t name) :
    Throughout (Guarded t) [.declare name type] :=
  .declare ⟨by simp, fun _ => hname⟩ (.of_role (by simp))

theorem guarded_indexerStubs (p : Property) (index : Metadata.Parameter) :
    Throughout (Guarded t) (indexerStubs p index) := by
  have hgetter : "__getitem__" ∉ reservedWords := by decide
  have hsetter : "__setitem__" ∉ reservedWords := by decide
  have hparameters : ∀ name ∈ ["self", "key", "value"], name ∉ reservedWords := by decide
  refine .append ?_ ?_ <;> split
  · exact guarded_function (fun h => absurd h hgetter) fun name hname =>
      hparameters name (List.mem_append_left ["value"] hname)
  · exact .nil
  · exact guarded_function (fun h => absurd h hsetter) hparameters
  · exact .nil

theorem guarded_propertyStubs {p : Property} (hclass : t.kind ≠ .enumeration)
    (hp : .property p ∈ accepted t.members) : Throughout (Guarded t) (propertyStubs p) := by
  rw [propertyStubs]
  split
  · exact guarded_indexerStubs p _
  · rename_i hindex
    have hcalled : p.name ∈ reservedWords → HasMemberCalled t p.name := by
      intro hreserved
      refine ⟨hclass, .property p, hp, ?_⟩
      rw [ownName?, Property.isIndexer, hindex]
      rfl
    split
    · exact guarded_declare _ hcalled
    · have hvalue : ∀ name ∈ ["self", "value"], name ∉ reservedWords := by decide
      refine .cons (guarded_function hcalled fun name hname => ?_) ?_
      · exact hvalue name (List.mem_append_left ["value"] hname)
      · split
        · exact guarded_function hcalled hvalue
        · exact .nil

theorem guarded_initializer {marks : List String} (ps : List Metadata.Parameter) :
    Throughout (Guarded t) [.function ⟨marks, initializer, withReceiver ps, noneType⟩] :=
  guarded_function (fun h => absurd h initializer_not_reserved) (withReceiver_not_reserved ps)

theorem guarded_operatorStubs (m : Method) (symbol : String) :
    Throughout (Guarded t) (operatorStubs m symbol) := by
  rw [operatorStubs]
  split
  · exact .nil
  · rename_i slot hslot
    split
    · exact guarded_initializer m.parameters
    · exact guarded_function (fun h => absurd h (operatorSlot_not_reserved hslot))
        (withReceiver_not_reserved m.parameters)

theorem guarded_of_leaves {m : Member} {chunk : List Statement} (h : Leaves m chunk)
    (hclass : t.kind ≠ .enumeration) (hm : m ∈ accepted t.members) :
    Throughout (Guarded t) chunk := by
  cases h with
  | constructor overloaded c => exact guarded_initializer c.parameters
  | property p => exact guarded_propertyStubs hclass hm
  | field f => exact guarded_declare _ fun _ => ⟨hclass, _, hm, rfl⟩
  | operator hsymbol => exact guarded_operatorStubs _ _
  | @method overloaded m hplain =>
      refine guarded_function (fun _ => ⟨hclass, _, hm, ?_⟩) ?_
      · rw [ownName?, hplain]
        rfl
      · split
        · exact parameters_not_reserved m.parameters
        · exact withReceiver_not_reserved m.parameters

theorem guarded_of_mem_ownPieces : ∀ p ∈ ownPieces t, Guarded t p :=
  forall_mem_ownPieces (.of_role (by simp)) (.of_role (by simp))
    (fun c _ => ⟨⟨fun _ => safeName_not_reserved c.name, by simp⟩, .of_role (by simp)⟩)
    fun hclass _ hm _ hleaves => guarded_of_leaves hleaves hclass hm

end Declared

section Called

/-- The name of an attribute or a function, at its declaration. -/
def declared? : Statement → Option String
  | .declare name _ => some name
  | .function f => some f.name
  | _ => none

theorem exists_piece_of_declared {s : Statement} {name : String} (h : declared? s = some name)
    (properties : List String) : ∃ p ∈ meaning (s.pieces 1 properties),
      p.role ∈ [Role.attribute, .function] ∧ p.text = name := by
  cases s with
  | declare name' type =>
      obtain rfl := Option.some.inj h
      exact ⟨_, List.mem_cons_self, List.mem_cons_self, rfl⟩
  | function f =>
      obtain rfl := Option.some.inj h
      refine ⟨{ role := .function, text := f.name }, ?_, by simp, rfl⟩
      simp [meaning, Statement.pieces, Function.pieces, isMeaningful]
  | blank | comment | pass | assign | classDef => cases h

theorem mem_meaning_piecesOfBody {s : Statement} {body : List Statement} (hs : s ∈ body)
    (properties : List String) : ∃ properties', ∀ p ∈ meaning (s.pieces 1 properties'),
      p ∈ meaning (piecesOfBody 1 properties body) := by
  induction body generalizing properties with
  | nil => cases hs
  | cons first rest ih =>
      simp only [piecesOfBody, meaning_append, List.mem_append]
      rcases List.mem_cons.mp hs with rfl | hs
      · exact ⟨properties, fun p hp => .inl hp⟩
      · obtain ⟨properties', hmem⟩ := ih hs (properties ++ first.property?.toList)
        exact ⟨properties', fun p hp => .inr (hmem p hp)⟩

/-- What a member leaves declares its own name. -/
theorem declared_of_leaves {m : Member} {chunk : List Statement} (h : Leaves m chunk)
    {name : String} (hname : ownName? m = some name) : ∃ s ∈ chunk, declared? s = some name := by
  cases h with
  | constructor overloaded c => cases hname
  | property p =>
      rw [ownName?, Property.isIndexer] at hname
      cases hindex : p.indexParameters with
      | cons index rest =>
          rw [hindex] at hname
          cases hname
      | nil =>
          rw [hindex] at hname
          obtain rfl := Option.some.inj hname
          simp only [propertyStubs, hindex]
          split <;> exact ⟨_, List.mem_cons_self, rfl⟩
  | field f =>
      obtain rfl := Option.some.inj hname
      exact ⟨_, List.mem_cons_self, rfl⟩
  | operator hsymbol =>
      rw [ownName?, hsymbol] at hname
      cases hname
  | method overloaded hplain =>
      rw [ownName?, hplain] at hname
      obtain rfl := Option.some.inj hname
      exact ⟨_, List.mem_cons_self, rfl⟩

theorem HasMemberCalled.exists_piece {t : TypeInfo} {name : String} (h : HasMemberCalled t name) :
    ∃ p ∈ ownPieces t, p.role ∈ [Role.attribute, .function] ∧ p.text = name := by
  obtain ⟨hclass, m, hm, hname⟩ := h
  have hnested : ∀ u, m ≠ .nested u := by
    rintro u rfl
    cases hname
  obtain ⟨chunk, hleaves, hchunk⟩ := leaves_in_sections hm hnested
  obtain ⟨s, hs, hdeclared⟩ := declared_of_leaves hleaves hname
  obtain ⟨properties, hmem⟩ := mem_meaning_piecesOfBody (hchunk s hs) []
  obtain ⟨p, hp, hpiece⟩ := exists_piece_of_declared hdeclared properties
  refine ⟨p, ?_, hpiece⟩
  rw [ownPieces, ownStub, if_neg hclass, meaning_classDef]
  exact List.mem_cons_of_mem _ (List.mem_append_right _ (hmem p hp))

/-- Constants and parameters are no reserved words; and a word is declared as the name of an
attribute or a function exactly if a member of one of the types is called so. -/
theorem reserved_declared_iff_called (t : TypeInfo) (h : t.kind ≠ .unsupported) (depth : Nat) :
    ∃ s, stub? t = some s ∧ text? depth t = some (joined (s.pieces depth [])) ∧
      (∀ p ∈ s.pieces depth [], p.role ∈ [Role.constant, .parameter] →
        p.text ∉ reservedWords) ∧
      ∀ word ∈ reservedWords,
        (∃ p ∈ s.pieces depth [],
            p.role ∈ [Role.attribute, .function] ∧ p.text = word) ↔
          ∃ u ∈ stubbed t, HasMemberCalled u word := by
  obtain ⟨s, hs, htext, hpieces⟩ := exists_pieces_of_stub h depth
  refine ⟨s, hs, htext, fun p hp hrole => ?_, fun word hword => ⟨?_, ?_⟩⟩
  · obtain ⟨u, -, hp⟩ := (hpieces p (isMeaningful_of_role hrole (by decide))).mp hp
    exact (guarded_of_mem_ownPieces p hp).kept hrole
  · rintro ⟨p, hp, hrole, rfl⟩
    obtain ⟨u, hu, hp⟩ := (hpieces p (isMeaningful_of_role hrole (by decide))).mp hp
    exact ⟨u, hu, (guarded_of_mem_ownPieces p hp).called hrole hword⟩
  · rintro ⟨u, hu, hcalled⟩
    obtain ⟨p, hp, hrole, htext⟩ := hcalled.exists_piece
    have hmeant : isMeaningful p = true := isMeaningful_of_role hrole (by decide)
    exact ⟨p, (hpieces p hmeant).mpr ⟨u, hu, hp⟩, hrole, htext⟩

end Called

/-- A class with a parameter that is called like a reserved word, a property that would be but is
left out, and a nested type with a field that is. -/
def grammarRule : TypeInfo where
  name := "GrammarRule"
  kind := .reference
  members :=
    [.property { name := "in", type := .primitive .int32, deprecated := true },
      .method { name := "Match", returnType := .primitive .bool,
                parameters := [{ name := "from", type := .primitive .int32 }] },
      .nested
        { name := "Step", kind := .value,
          members := [.field { name := "yield", type := .named "GrammarRule" [] }] }]

theorem reserved_declared_in_grammarRule :
    grammarRule.kind ≠ .unsupported ∧
      ∃ s, stub? grammarRule = some s ∧
        (∃ p ∈ s.pieces 0 [], p.role ∈ [Role.attribute, .function] ∧ p.text = "yield") ∧
        ¬ ∃ p ∈ s.pieces 0 [], p.role ∈ [Role.attribute, .function] ∧ p.text = "in" := by
  have hkind : grammarRule.kind ≠ .unsupported := by decide
  obtain ⟨s, hs, -, -, hcalled⟩ := reserved_declared_iff_called grammarRule hkind 0
  refine ⟨hkind, s, hs, (hcalled "yield" (by decide)).mpr (by decide), fun hdeclared => ?_⟩
  exact absurd ((hcalled "in" (by decide)).mp hdeclared) (by decide)

/-- A class whose members are all called like reserved words. -/
def tokenKind : TypeInfo where
  name := "Token"
  kind := .reference
  members :=
    [.property { name := "None", type := .primitive .int32 },
      .field { name := "from", type := .primitive .int32 },
      .method { name := "pass", returnType := .primitive .void }]

theorem reserved_words_declared_in_tokenKind :
    tokenKind.kind ≠ .unsupported ∧
      text? 0 tokenKind = some ("class Token:\n" ++
        "    # Properties\n    @property\n    def None(self) -> int: ...\n" ++
        "    # Fields\n    from: int\n" ++
        "    # Methods\n    def pass(self) -> None: ...\n") ∧
      ∃ s, stub? tokenKind = some s ∧ ∀ word ∈ ["None", "from", "pass"], word ∈ reservedWords ∧
        ∃ p ∈ s.pieces 0 [], p.role ∈ [Role.attribute, .function] ∧ p.text = word := by
  refine ⟨by decide, by decide +kernel, _, rfl, ?_⟩
  decide +kernel

end StubTree.Stub
