import StubTree.Proofs.Shifting

/-!
Texts of statements, cut into pieces that each stand for one thing. The pieces
of a type's stub that are more than layout are those of the type itself and,
after them, those of the types nested in it, at every level.
-/

namespace StubTree.Python

/-- What a piece of a text stands for. -/
inductive Role where
  | layout
  | remark
  | className
  | base
  | constant
  | attribute
  | function
  | parameter
  | decorator
  | type
  | value
deriving DecidableEq, Repr

structure Piece where
  role : Role
  text : String
  /-- For a decorator, the properties that stand above it in the same suite. -/
  properties : List String := []
deriving DecidableEq, Repr

def layout (text : String) : Piece := { role := .layout, text := text }

/-- The text that is cut into pieces. -/
def joined (ps : List Piece) : String := String.join (ps.map Piece.text)

namespace Parameter

def pieces (p : Parameter) : List Piece :=
  (if p.starred then [layout "*"] else []) ++ { role := .parameter, text := p.name } ::
    (match p.annotation with
      | none => []
      | some t => [layout ": ", { role := .type, text := t.text }]) ++
    (match p.defaultText with
      | none => []
      | some d => [layout " = ", { role := .value, text := d }])

end Parameter

def parametersPieces : List Parameter → List Piece
  | [] => []
  | [p] => p.pieces
  | p :: next :: rest => p.pieces ++ layout ", " :: parametersPieces (next :: rest)

def decoratorPieces (depth : Nat) (properties : List String) (mark : String) : List Piece :=
  [layout (indentation depth ++ "@"), ⟨.decorator, mark, properties⟩, layout "\n"]

namespace Function

def pieces (depth : Nat) (properties : List String) (f : Function) : List Piece :=
  f.decorators.flatMap (decoratorPieces depth properties) ++
    layout (indentation depth ++ "def ") :: { role := .function, text := f.name } :: layout "(" ::
      parametersPieces f.parameters ++
    [layout ") -> ", { role := .type, text := f.result.text }, layout ": ...",
      layout "\n"]

end Function

def Heading.pieces : Heading → List Piece
  | plain => [layout ":"]
  | derived base => [layout ": # Inherits from ", { role := .remark, text := base }]
  | enumeration => [layout "(", { role := .base, text := "Enum" }, layout "):"]

namespace Statement

/-- The name of a property, at its getter. -/
def property? : Statement → Option String
  | .function f => if f.decorators = ["property"] then some f.name else none
  | _ => none

mutual

def pieces (depth : Nat) (properties : List String) : Statement → List Piece
  | .blank => [layout "\n"]
  | .comment text =>
    [layout (indentation depth ++ "# "), { role := .remark, text := text }, layout "\n"]
  | .pass => [layout (indentation depth ++ "pass"), layout "\n"]
  | .assign name value =>
    [layout (indentation depth), { role := .constant, text := name }, layout " = ",
      { role := .value, text := toString value }, layout "\n"]
  | .declare name type =>
    [layout (indentation depth), { role := .attribute, text := name }, layout ": ",
      { role := .type, text := type.text }, layout "\n"]
  | .function f => f.pieces depth properties
  | .classDef name heading body =>
    layout (indentation depth ++ "class ") :: { role := .className, text := name } ::
      heading.pieces ++ layout "\n" :: piecesOfBody (depth + 1) [] body

def piecesOfBody (depth : Nat) (properties : List String) : List Statement → List Piece
  | [] => []
  | s :: rest => s.pieces depth properties ++
      piecesOfBody depth (properties ++ s.property?.toList) rest

end

end Statement

section Joining

@[simp] theorem joined_nil : joined [] = "" := rfl

@[simp] theorem joined_cons (p : Piece) (ps : List Piece) :
    joined (p :: ps) = p.text ++ joined ps := by
  rw [joined, List.map_cons, String.join_cons, joined]

@[simp] theorem joined_append (ps ps' : List Piece) :
    joined (ps ++ ps') = joined ps ++ joined ps' := by
  rw [joined, List.map_append, String.join_append, joined, joined]

theorem joined_parameter (p : Parameter) : joined p.pieces = p.text := by
  obtain ⟨starred, name, annotation, value⟩ := p
  cases starred <;> cases annotation <;> cases value <;>
    simp [Parameter.pieces, Parameter.text, layout, String.append_assoc]

theorem joined_parameters : (ps : List Parameter) →
    joined (parametersPieces ps) = parametersText ps
  | [] => rfl
  | [p] => by
      rw [parametersPieces, joined_parameter, parametersText, List.map_singleton,
        String.intercalate_singleton]
  | p :: next :: rest => by
      have hcut : parametersText (p :: next :: rest) =
          p.text ++ ", " ++ parametersText (next :: rest) := String.intercalate_cons_cons
      rw [parametersPieces, joined_append, joined_cons, joined_parameter,
        joined_parameters (next :: rest), hcut, String.append_assoc]
      rfl

/-- Lines, each of them ended. -/
def ended (lines : List String) : String := String.join (lines.map (· ++ "\n"))

@[simp] theorem ended_nil : ended [] = "" := rfl

@[simp] theorem ended_cons (line : String) (lines : List String) :
    ended (line :: lines) = line ++ "\n" ++ ended lines := by
  rw [ended, List.map_cons, String.join_cons, ended]

@[simp] theorem ended_append (lines lines' : List String) :
    ended (lines ++ lines') = ended lines ++ ended lines' := by
  rw [ended, List.map_append, String.join_append, ended, ended]

theorem joined_decorators (depth : Nat) (properties marks : List String) :
    joined (marks.flatMap (decoratorPieces depth properties)) =
      ended (marks.map ((indentation depth ++ ·) ∘ ("@" ++ ·))) := by
  induction marks with
  | nil => rfl
  | cons mark rest ih =>
      rw [List.flatMap_cons, joined_append, ih, List.map_cons, ended_cons]
      simp only [decoratorPieces, joined_cons, joined_nil, layout, Function.comp_apply,
        String.append_assoc, String.append_empty]

theorem joined_function (depth : Nat) (properties : List String) (f : Function) :
    joined (f.pieces depth properties) = ended ((Statement.function f).lines depth) := by
  simp only [Statement.lines, Function.lines, List.map_append, List.map_map, ended_append,
    Function.pieces, joined_append, joined_decorators, joined_cons, joined_nil, joined_parameters,
    layout, List.map_cons, List.map_nil, ended_cons, ended_nil, String.append_assoc,
    String.append_empty]

theorem joined_heading (heading : Heading) : joined heading.pieces = heading.text := by
  cases heading with
  | plain => decide +kernel
  | derived base =>
      rw [Heading.pieces, joined_cons, joined_cons, joined_nil, String.append_empty]
      rfl
  | enumeration => decide +kernel

mutual

theorem joined_pieces (depth : Nat) (properties : List String) (s : Statement) :
    joined (s.pieces depth properties) = ended (s.lines depth) := by
  match s with
  | .blank => simp [Statement.pieces, Statement.lines, layout]
  | .comment _ | .pass | .assign _ _ | .declare _ _ =>
    simp only [Statement.pieces, Statement.lines, joined_cons, joined_nil, layout, ended_cons,
      ended_nil, String.append_assoc, String.append_empty]
  | .function f => exact joined_function depth properties f
  | .classDef name heading body =>
    simp only [Statement.pieces, Statement.lines, joined_cons, joined_append, joined_heading,
      joined_piecesOfBody, layout, ended_cons, String.append_assoc]

theorem joined_piecesOfBody (depth : Nat) (properties : List String) (body : List Statement) :
    joined (Statement.piecesOfBody depth properties body) =
      ended (Statement.linesOfBody depth body) := by
  match body with
  | [] => rfl
  | s :: rest =>
    rw [Statement.piecesOfBody, joined_append, joined_pieces, joined_piecesOfBody,
      Statement.linesOfBody, ended_append]

end

theorem text_eq_joined (depth : Nat) (s : Statement) :
    s.text depth = joined (s.pieces depth []) := (joined_pieces depth [] s).symm

end Joining

section Meaning

/-- Pieces that name or tell something. -/
def isMeaningful (p : Piece) : Bool := p.role ≠ .layout && p.role ≠ .remark

theorem isMeaningful_of_role {p : Piece} {roles : List Role} (h : p.role ∈ roles)
    (hroles : ∀ role ∈ roles, role ≠ .layout ∧ role ≠ .remark) : isMeaningful p = true := by
  obtain ⟨hlayout, hremark⟩ := hroles _ h
  simp [isMeaningful, hlayout, hremark]

def meaning (ps : List Piece) : List Piece := ps.filter isMeaningful

@[simp] theorem meaning_append (ps ps' : List Piece) :
    meaning (ps ++ ps') = meaning ps ++ meaning ps' := List.filter_append ..

@[simp] theorem meaning_layout (text : String) (ps : List Piece) :
    meaning (layout text :: ps) = meaning ps := rfl

theorem meaning_decorators (depth depth' : Nat) (properties marks : List String) :
    meaning (marks.flatMap (decoratorPieces depth properties)) =
      meaning (marks.flatMap (decoratorPieces depth' properties)) := by
  induction marks with
  | nil => rfl
  | cons mark rest ih =>
      rw [List.flatMap_cons, List.flatMap_cons, meaning_append, meaning_append, ih]
      rfl

open Statement (piecesOfBody)

theorem meaning_classDef (depth : Nat) (properties : List String) (name : String)
    (heading : Heading) (body : List Statement) :
    meaning ((Statement.classDef name heading body).pieces depth properties) =
      { role := .className, text := name } ::
        (meaning heading.pieces ++ meaning (piecesOfBody (depth + 1) [] body)) := by
  have hrest : meaning (heading.pieces ++ layout "\n" :: piecesOfBody (depth + 1) [] body) =
      meaning heading.pieces ++ meaning (piecesOfBody (depth + 1) [] body) := by
    rw [meaning_append, meaning_layout]
  rw [← hrest, Statement.pieces, List.cons_append, List.cons_append, meaning_layout]
  rfl

mutual

/-- The depth matters to the layout alone. -/
theorem meaning_pieces (depth depth' : Nat) (properties : List String) (s : Statement) :
    meaning (s.pieces depth properties) = meaning (s.pieces depth' properties) := by
  match s with
  | .blank | .comment _ | .pass | .assign _ _ | .declare _ _ => rfl
  | .function f =>
    simp only [Statement.pieces, Function.pieces, meaning_append, meaning_layout,
      meaning_decorators depth depth']
  | .classDef name heading body =>
    have hbody := meaning_piecesOfBody (depth + 1) (depth' + 1) [] body
    rw [meaning_classDef, meaning_classDef, hbody]

theorem meaning_piecesOfBody (depth depth' : Nat) (properties : List String)
    (body : List Statement) : meaning (piecesOfBody depth properties body) =
      meaning (piecesOfBody depth' properties body) := by
  match body with
  | [] => rfl
  | s :: rest =>
    simp only [piecesOfBody, meaning_append, meaning_pieces depth depth' properties s,
      meaning_piecesOfBody depth depth' _ rest]

end

theorem piecesOfBody_append (depth : Nat) (properties : List String)
    (body body' : List Statement) :
    piecesOfBody depth properties (body ++ body') = piecesOfBody depth properties body ++
      piecesOfBody depth (properties ++ body.filterMap Statement.property?) body' := by
  induction body generalizing properties with
  | nil => simp [piecesOfBody]
  | cons s rest ih =>
      have hproperties : properties ++ s.property?.toList ++ rest.filterMap Statement.property? =
          properties ++ (s :: rest).filterMap Statement.property? := by
        rw [List.append_assoc, List.filterMap_cons]
        cases s.property? <;> rfl
      rw [List.cons_append, piecesOfBody, piecesOfBody, ih, hproperties, List.append_assoc]

end Meaning

end StubTree.Python

namespace StubTree.Stub

open Metadata Python
open Statement (piecesOfBody)

section Levels

mutual

/-- A type and the types nested in it that have stubs of their own, at every level. -/
def stubbed : TypeInfo → List TypeInfo
  | ⟨header, members⟩ =>
    ⟨header, members⟩ :: (if header.kind = .enumeration then [] else stubbedIn members)

def stubbedIn : List Member → List TypeInfo
  | [] => []
  | .nested t :: rest =>
    (if (typeRejection? t.toTypeHeader).isSome || t.kind = .unsupported then [] else stubbed t) ++
      stubbedIn rest
  | _ :: rest => stubbedIn rest

end

/-- The stub of a type without the types nested in it. -/
def ownStub (t : TypeInfo) : Statement :=
  if t.kind = .enumeration then .classDef t.name .enumeration (enumBody t.constants)
  else .classDef t.name (classHeading t.base) (sectionsOf (accepted t.members))

def ownPieces (t : TypeInfo) : List Piece := meaning ((ownStub t).pieces 0 [])

theorem meaning_titled (depth : Nat) (properties : List String) (title : String)
    (body : List Statement) : meaning (piecesOfBody depth properties (titled title body)) =
      meaning (piecesOfBody depth properties body) := by
  rw [titled]
  split
  · rename_i hbody
    rw [List.isEmpty_iff.mp hbody]
  · rw [piecesOfBody, meaning_append]
    simp [Statement.property?, Statement.pieces, meaning, isMeaningful, layout]

theorem meaning_classBody (depth : Nat) (members : List Member) (nested : List Statement) :
    ∃ properties, meaning (piecesOfBody depth [] (classBody members nested)) =
      meaning (piecesOfBody depth [] (sectionsOf (accepted members))) ++
        meaning (piecesOfBody depth properties nested) := by
  rw [classBody_eq]
  split
  · rename_i hbody
    obtain ⟨hsections, hnested⟩ := List.append_eq_nil_iff.mp (List.isEmpty_iff.mp hbody)
    rw [hsections, titled_eq_nil.mp hnested]
    exact ⟨[], rfl⟩
  · rw [piecesOfBody_append, meaning_append, meaning_titled]
    exact ⟨_, rfl⟩

mutual

/-- The stub of a type tells what its own stub tells, and those of the types nested in it. -/
theorem meaning_stub (t : TypeInfo) {s : Statement} (h : stub? t = some s) (depth : Nat)
    (properties : List String) :
    meaning (s.pieces depth properties) = (stubbed t).flatMap ownPieces := by
  obtain ⟨header, members⟩ := t
  have hkind : header.kind ≠ .unsupported := by
    intro hkind
    rw [stub?_of_unsupported hkind] at h
    cases h
  by_cases henum : header.kind = .enumeration
  · simp only [stub?, henum] at h
    obtain rfl := Option.some.inj h
    rw [stubbed, if_pos henum, List.flatMap_singleton, ownPieces, ownStub, if_pos henum,
      meaning_pieces depth 0, meaning_classDef, meaning_classDef]
  · rw [stub?_of_class hkind henum] at h
    obtain rfl := Option.some.inj h
    obtain ⟨above, hbody⟩ := meaning_classBody (depth + 1) members (nestedStubs members)
    rw [stubbed, if_neg henum, List.flatMap_cons, ownPieces, ownStub, if_neg henum,
      meaning_classDef, meaning_classDef, hbody, meaning_nestedStubs, ← List.append_assoc,
      meaning_piecesOfBody (depth + 1) (0 + 1)]
    rfl

theorem meaning_nestedStubs (members : List Member) (depth : Nat) (properties : List String) :
    meaning (piecesOfBody depth properties (nestedStubs members)) =
      (stubbedIn members).flatMap ownPieces := by
  match members with
  | [] => rfl
  | .nested t :: rest =>
    rw [nestedStubs, stubbedIn, piecesOfBody_append, meaning_append, List.flatMap_append,
      meaning_nestedStubs rest]
    congr 1
    -- a rejected type leaves nothing, and neither does one whose kind has no stub
    by_cases hrejected : (typeRejection? t.toTypeHeader).isSome = true
    · simp only [hrejected, Bool.true_or, ↓reduceIte]
      rfl
    · by_cases hkind : t.kind = .unsupported
      · simp only [hrejected, hkind, stub?_of_unsupported hkind]
        rfl
      · obtain ⟨s, hs⟩ := isSome_stub? hkind
        simp only [hrejected, hkind, hs, decide_false, Bool.or_false, Bool.false_eq_true,
          ↓reduceIte, piecesOfBody, meaning_append, meaning_stub t hs]
        exact List.append_nil _
  | .constructor c :: rest | .property c :: rest | .field c :: rest | .method c :: rest =>
    exact meaning_nestedStubs rest depth properties

end

/-- The text of a stub is cut into pieces, and what they name or tell is what one of the types
does. -/
theorem exists_pieces_of_stub {t : TypeInfo} (h : t.kind ≠ .unsupported) (depth : Nat) :
    ∃ s, stub? t = some s ∧ text? depth t = some (joined (s.pieces depth [])) ∧
      ∀ p, isMeaningful p = true → (p ∈ s.pieces depth [] ↔ ∃ u ∈ stubbed t, p ∈ ownPieces u) := by
  obtain ⟨s, hs⟩ := isSome_stub? h
  refine ⟨s, hs, ?_, fun p hp => ?_⟩
  · rw [text?, hs, Option.map_some, text_eq_joined]
  · rw [← List.mem_flatMap, ← meaning_stub t hs depth [], meaning, List.mem_filter,
      and_iff_left hp]

end Levels

section Members

/-- The statements that a member leaves in the stub of its class. -/
inductive Leaves : Member → List Statement → Prop
  | constructor (overloaded : Bool) (c : Constructor) :
      Leaves (.constructor c) [constructorStub overloaded c]
  | property (p : Property) : Leaves (.property p) (propertyStubs p)
  | field (f : Field) : Leaves (.field f) [fieldStub f]
  | operator {m : Method} {symbol : String} (h : m.operator = some symbol) :
      Leaves (.method m) (operatorStubs m symbol)
  | method (overloaded : Bool) {m : Method} (h : m.operator = none) :
      Leaves (.method m) [methodStub overloaded m]

/-- What holds of all that a body names or tells, wherever it stands. -/
def Throughout (P : Piece → Prop) (body : List Statement) : Prop :=
  ∀ properties, ∀ p ∈ meaning (piecesOfBody 1 properties body), P p

variable {P : Piece → Prop}

theorem Throughout.nil : Throughout P [] := by
  intro properties p hp
  cases hp

theorem Throughout.append {body body' : List Statement} (h : Throughout P body)
    (h' : Throughout P body') : Throughout P (body ++ body') := by
  intro properties p hp
  rw [piecesOfBody_append, meaning_append, List.mem_append] at hp
  exact hp.elim (h _ p) (h' _ p)

theorem Throughout.cons {s : Statement} {body : List Statement} (h : Throughout P [s])
    (h' : Throughout P body) : Throughout P (s :: body) := h.append h'

theorem Throughout.flatMap {α : Type} {items : List α} {f : α → List Statement}
    (h : ∀ a ∈ items, Throughout P (f a)) : Throughout P (items.flatMap f) := by
  induction items with
  | nil => exact .nil
  | cons a rest ih =>
      rw [List.forall_mem_cons] at h
      exact h.1.append (ih h.2)

theorem Throughout.map {α : Type} {items : List α} {f : α → Statement}
    (h : ∀ a ∈ items, Throughout P [f a]) : Throughout P (items.map f) := by
  rw [List.map_eq_flatMap]
  exact .flatMap h

theorem Throughout.titled {title : String} {body : List Statement} (h : Throughout P body) :
    Throughout P (titled title body) := by
  intro properties p hp
  rw [meaning_titled] at hp
  exact h properties p hp

theorem throughout_methodStubs {ms : List Method}
    (h : ∀ m ∈ ms, ∀ chunk, Leaves (.method m) chunk → Throughout P chunk) :
    Throughout P (methodStubs ms) := by
  refine .flatMap fun group hgroup => .append (.flatMap fun m hm => ?_) (.map fun m hm => ?_)
  · split
    · rename_i symbol hsymbol
      exact h m (mem_group_methods hgroup hm) _ (.operator hsymbol)
    · exact .nil
  · obtain ⟨hm, hplain⟩ := List.mem_filter.mp hm
    exact h m (mem_group_methods hgroup hm) _ (.method _ (Option.isNone_iff_eq_none.mp hplain))

theorem throughout_sectionsOf {members : List Member}
    (h : ∀ m ∈ members, ∀ chunk, Leaves m chunk → Throughout P chunk) :
    Throughout P (sectionsOf members) := by
  have hconstructors : Throughout P (constructorStubs (constructorsOf members)) :=
    .map fun c hc => h _ (mem_constructorsOf.mp hc) _ (.constructor _ c)
  have hproperties : Throughout P ((propertiesOf members).flatMap propertyStubs) :=
    .flatMap fun p hp => h _ (mem_propertiesOf.mp hp) _ (.property p)
  have hfields : Throughout P ((fieldsOf members).map fieldStub) :=
    .map fun f hf => h _ (mem_fieldsOf.mp hf) _ (.field f)
  have hmethods : Throughout P (methodStubs (methodsOf members)) :=
    throughout_methodStubs fun m hm => h _ (mem_methodsOf.mp hm)
  exact ((hconstructors.titled.append hproperties.titled).append hfields.titled).append
    hmethods.titled

theorem mem_titled {s : Statement} {title : String} {body : List Statement} (h : s ∈ body) :
    s ∈ titled title body := by
  rw [titled, if_neg (by simpa using List.ne_nil_of_mem h)]
  exact List.mem_cons_of_mem _ h

theorem leaves_in_methodGroupStubs {ms : List Method} {m : Method} (hm : m ∈ ms) :
    ∃ chunk, Leaves (.method m) chunk ∧ ∀ s ∈ chunk, s ∈ methodGroupStubs ms := by
  cases hoperator : m.operator with
  | some symbol =>
      refine ⟨operatorStubs m symbol, .operator hoperator, fun s hs => ?_⟩
      refine List.mem_append_left _ (List.mem_flatMap.mpr ⟨m, hm, ?_⟩)
      rw [hoperator]
      exact hs
  | none =>
      have hplain : m ∈ ms.filter (·.operator.isNone) :=
        List.mem_filter.mpr ⟨hm, Option.isNone_iff_eq_none.mpr hoperator⟩
      refine ⟨[methodStub (isSeveral (ms.filter (·.operator.isNone))) m], .method _ hoperator,
        fun s hs => ?_⟩
      rw [List.mem_singleton.mp hs]
      exact List.mem_append_right _ (List.mem_map_of_mem hplain)

/-- What a member leaves stands in the sections of its class. -/
theorem leaves_in_sections {members : List Member} {m : Member} (hm : m ∈ members)
    (hnested : ∀ t, m ≠ .nested t) :
    ∃ chunk, Leaves m chunk ∧ ∀ s ∈ chunk, s ∈ sectionsOf members := by
  simp only [sectionsOf, List.mem_append]
  cases m with
  | constructor c =>
      refine ⟨_, .constructor (isSeveral (constructorsOf members)) c, fun s hs => ?_⟩
      rw [List.mem_singleton.mp hs]
      exact .inl (.inl (.inl (mem_titled (List.mem_map_of_mem (mem_constructorsOf.mpr hm)))))
  | property p =>
      refine ⟨_, .property p, fun s hs => .inl (.inl (.inr (mem_titled ?_)))⟩
      exact List.mem_flatMap.mpr ⟨p, mem_propertiesOf.mpr hm, hs⟩
  | field f =>
      refine ⟨_, .field f, fun s hs => ?_⟩
      rw [List.mem_singleton.mp hs]
      exact .inl (.inr (mem_titled (List.mem_map_of_mem (mem_fieldsOf.mpr hm))))
  | method m =>
      have hm := mem_methodsOf.mpr hm
      have hgroup : (m.name, (methodsOf members).filter fun m' => m'.name = m.name) ∈
          Text.groupBy Method.name (methodsOf members) :=
        (Text.mem_groupBy Method.name).mpr ⟨List.mem_map_of_mem hm, rfl⟩
      have hmem : m ∈ (methodsOf members).filter fun m' => m'.name = m.name :=
        List.mem_filter.mpr ⟨hm, decide_eq_true rfl⟩
      obtain ⟨chunk, hleaves, hchunk⟩ := leaves_in_methodGroupStubs hmem
      refine ⟨chunk, hleaves, fun s hs => .inr (mem_titled ?_)⟩
      exact List.mem_flatMap.mpr ⟨_, hgroup, hchunk s hs⟩
  | nested t => exact absurd rfl (hnested t)

theorem throughout_enumBody {constants : List EnumConstant}
    (h : ∀ c ∈ constants, P { role := .constant, text := safeName c.name } ∧
      P { role := .value, text := toString c.value.toInt }) :
    Throughout P (enumBody constants) := by
  rw [enumBody]
  split
  · exact fun properties p hp => by cases hp
  · refine .append (.map fun c hc => fun properties p hp => ?_) fun properties p hp => by cases hp
    rcases List.mem_cons.mp hp with rfl | hp
    · exact (h c hc).1
    · rw [List.mem_singleton.mp hp]
      exact (h c hc).2

/-- What holds of the name, of the base of an enumeration, and throughout what constants and
members leave holds of all that a stub tells. -/
theorem forall_mem_ownPieces {t : TypeInfo} (hname : P { role := .className, text := t.name })
    (hbase : P { role := .base, text := "Enum" })
    (hconstants : ∀ c ∈ t.constants, P { role := .constant, text := safeName c.name } ∧
      P { role := .value, text := toString c.value.toInt })
    (hmembers : t.kind ≠ .enumeration →
      ∀ m ∈ accepted t.members, ∀ chunk, Leaves m chunk → Throughout P chunk) :
    ∀ p ∈ ownPieces t, P p := by
  rw [ownPieces, ownStub]
  split
  · rw [meaning_classDef]
    refine List.forall_mem_cons.mpr ⟨hname, List.forall_mem_append.mpr ⟨?_, ?_⟩⟩
    · exact fun p hp => List.mem_singleton.mp hp ▸ hbase
    · exact throughout_enumBody hconstants []
  · rename_i hclass
    rw [meaning_classDef]
    refine List.forall_mem_cons.mpr ⟨hname, List.forall_mem_append.mpr ⟨?_, ?_⟩⟩
    · cases t.base <;> exact fun p hp => by cases hp
    · exact throughout_sectionsOf (hmembers hclass) []

theorem forall_mem_parameter {q : Python.Parameter}
    (hname : P { role := .parameter, text := q.name })
    (htype : ∀ t ∈ q.annotation, P { role := .type, text := t.text })
    (hvalue : ∀ d ∈ q.defaultText, P { role := .value, text := d }) :
    ∀ p ∈ meaning q.pieces, P p := by
  obtain ⟨starred, name, annotation, value⟩ := q
  rw [Parameter.pieces, meaning_append, meaning_append, List.forall_mem_append,
    List.forall_mem_append]
  refine ⟨⟨?_, List.forall_mem_cons.mpr ⟨hname, ?_⟩⟩, ?_⟩
  · cases starred <;> exact fun p hp => by cases hp
  · cases annotation with
    | none => exact fun p hp => by cases hp
    | some t => exact fun p hp => List.mem_singleton.mp hp ▸ htype t rfl
  · cases value with
    | none => exact fun p hp => by cases hp
    | some d => exact fun p hp => List.mem_singleton.mp hp ▸ hvalue d rfl

theorem forall_mem_parameters {ps : List Python.Parameter}
    (h : ∀ q ∈ ps, ∀ p ∈ meaning q.pieces, P p) : ∀ p ∈ meaning (parametersPieces ps), P p := by
  match ps with
  | [] => exact fun p hp => by cases hp
  | [q] => exact h q List.mem_cons_self
  | q :: next :: rest =>
    rw [List.forall_mem_cons] at h
    rw [parametersPieces, meaning_append, meaning_layout, List.forall_mem_append]
    exact ⟨h.1, forall_mem_parameters h.2⟩

theorem forall_mem_function {f : Function} {properties : List String}
    (hmarks : ∀ mark ∈ f.decorators, P ⟨.decorator, mark, properties⟩)
    (hname : P { role := .function, text := f.name })
    (hparameters : ∀ q ∈ f.parameters, ∀ p ∈ meaning q.pieces, P p)
    (hresult : P { role := .type, text := f.result.text }) :
    ∀ p ∈ meaning (f.pieces 1 properties), P p := by
  have hdecorators : ∀ p ∈ meaning (f.decorators.flatMap (decoratorPieces 1 properties)), P p := by
    intro p hp
    obtain ⟨hp, hmeant⟩ := List.mem_filter.mp hp
    obtain ⟨mark, hmark, hp⟩ := List.mem_flatMap.mp hp
    simp only [decoratorPieces, List.mem_cons, List.not_mem_nil, or_false] at hp
    rcases hp with rfl | rfl | rfl
    · cases hmeant
    · exact hmarks mark hmark
    · cases hmeant
  simp only [Function.pieces, meaning_append, meaning_layout, List.forall_mem_append]
  refine ⟨⟨hdecorators, List.forall_mem_cons.mpr ⟨hname, ?_⟩⟩, fun p hp => ?_⟩
  · exact forall_mem_parameters hparameters
  · rw [List.mem_singleton.mp hp]
    exact hresult

theorem Throughout.function {f : Function}
    (hmarks : ∀ mark ∈ f.decorators, ∀ properties, P ⟨.decorator, mark, properties⟩)
    (hname : P { role := .function, text := f.name })
    (hparameters : ∀ q ∈ f.parameters, ∀ p ∈ meaning q.pieces, P p)
    (hresult : P { role := .type, text := f.result.text }) : Throughout P [.function f] := by
  intro properties
  rw [piecesOfBody, piecesOfBody, List.append_nil]
  exact forall_mem_function (fun mark hmark => hmarks mark hmark properties) hname hparameters
    hresult

theorem Throughout.declare {name : String} {type : TypeExpr}
    (hname : P { role := .attribute, text := name })
    (htype : P { role := .type, text := type.text }) : Throughout P [.declare name type] := by
  intro properties p hp
  rcases List.mem_cons.mp hp with rfl | hp
  · exact hname
  · rw [List.mem_singleton.mp hp]
    exact htype

end Members

end StubTree.Stub
