import StubTree.Proofs.Suites

/-!
Which functions of a class are marked as overloads. Constructors are overloads
of one another, and so are the methods of one name that overload no operator.
Conversions are always marked, and the other operators never are, for each of
them is declared once for itself. Properties and indexers are never marked
either, so functions of one name that come from members of different sorts are
not told apart as overloads.
-/

namespace StubTree.Stub

open Metadata Python

/-- The functions of a body; those of classes within it do not belong to it. -/
def functionsIn (body : List Statement) : List Function :=
  body.filterMap fun
    | .function f => some f
    | _ => none

/-- Overloads an operator that becomes an initializer. -/
def isConversion (m : Method) : Bool :=
  match m.operator with
  | some symbol => operatorSlot? symbol = some initializer
  | none => false

/-- A function together with the member for which it is written. -/
structure Definition where
  member : Member
  function : Function

namespace Definition

def isConstructor (d : Definition) : Bool :=
  match d.member with
  | .constructor _ => true
  | _ => false

/-- Written for a property, with or without an index. -/
def isAccess (d : Definition) : Bool :=
  match d.member with
  | .property _ => true
  | _ => false

/-- Written for a method that overloads no operator. -/
def isPlain (d : Definition) : Bool :=
  match d.member with
  | .method m => m.operator.isNone
  | _ => false

/-- Written for a method that overloads an operator. -/
def isOperator (d : Definition) : Bool :=
  match d.member with
  | .method m => m.operator.isSome
  | _ => false

/-- Written for a method that overloads an operator that becomes an initializer. -/
def isFromConversion (d : Definition) : Bool :=
  match d.member with
  | .method m => isConversion m
  | _ => false

def isMarked (d : Definition) : Bool := d.function.decorators.contains overloadMark

end Definition

def definitions (m : Member) (stubs : List Statement) : List Definition :=
  (functionsIn stubs).map (Definition.mk m)

def constructorDefinitions (cs : List Constructor) : List Definition :=
  cs.flatMap fun c => definitions (.constructor c) [constructorStub (isSeveral cs) c]

def propertyDefinitions (ps : List Property) : List Definition :=
  ps.flatMap fun p => definitions (.property p) (propertyStubs p)

def operatorDefinitions (ms : List Method) : List Definition :=
  ms.flatMap fun m =>
    match m.operator with
    | some symbol => definitions (.method m) (operatorStubs m symbol)
    | none => []

def plainDefinitions (ms : List Method) : List Definition :=
  (ms.filter (·.operator.isNone)).flatMap fun m =>
    definitions (.method m) [methodStub (isSeveral (ms.filter (·.operator.isNone))) m]

def methodDefinitions (ms : List Method) : List Definition :=
  (Text.groupBy Method.name ms).flatMap fun group =>
    operatorDefinitions group.2 ++ plainDefinitions group.2

/-- The functions that members leave in the body of their class, in order. -/
def definitionsOf (members : List Member) : List Definition :=
  constructorDefinitions (constructorsOf members) ++
    propertyDefinitions (propertiesOf members) ++ methodDefinitions (methodsOf members)

section Functions

@[simp] theorem functionsIn_append (body body' : List Statement) :
    functionsIn (body ++ body') = functionsIn body ++ functionsIn body' := List.filterMap_append

theorem functionsIn_flatMap {α : Type} (items : List α) (f : α → List Statement) :
    functionsIn (items.flatMap f) = items.flatMap fun a => functionsIn (f a) :=
  List.filterMap_flatMap ..

theorem functionsIn_map {α : Type} (items : List α) (f : α → Statement) :
    functionsIn (items.map f) = items.flatMap fun a => functionsIn [f a] := by
  rw [List.map_eq_flatMap, functionsIn_flatMap]

@[simp] theorem functionsIn_titled (title : String) (body : List Statement) :
    functionsIn (titled title body) = functionsIn body := by
  rw [titled]
  split
  next h => rw [List.isEmpty_iff.mp h]
  next => rfl

@[simp] theorem functions_definitions (m : Member) (stubs : List Statement) :
    (definitions m stubs).map Definition.function = functionsIn stubs := by
  rw [definitions, List.map_map]
  exact List.map_id _

theorem functionsIn_fieldStubs (fs : List Field) : functionsIn (fs.map fieldStub) = [] := by
  rw [functionsIn, List.filterMap_map]
  exact List.filterMap_eq_nil_iff.mpr fun _ _ => rfl

theorem functionsIn_constructorStubs (cs : List Constructor) :
    functionsIn (constructorStubs cs) = (constructorDefinitions cs).map Definition.function := by
  simp only [constructorStubs, constructorDefinitions, List.map_flatMap, functions_definitions,
    functionsIn_map]

theorem functionsIn_propertyStubs (ps : List Property) :
    functionsIn (ps.flatMap propertyStubs) =
      (propertyDefinitions ps).map Definition.function := by
  simp only [propertyDefinitions, List.map_flatMap, functions_definitions, functionsIn_flatMap]

theorem functionsIn_methodGroupStubs (ms : List Method) :
    functionsIn (methodGroupStubs ms) =
      (operatorDefinitions ms ++ plainDefinitions ms).map Definition.function := by
  have hoperators : functionsIn (ms.flatMap fun m => match m.operator with
      | some symbol => operatorStubs m symbol
      | none => []) = (operatorDefinitions ms).map Definition.function := by
    rw [functionsIn_flatMap, operatorDefinitions, List.map_flatMap]
    congr 1
    funext m
    cases m.operator with
    | some symbol => exact (functions_definitions _ _).symm
    | none => rfl
  rw [methodGroupStubs, functionsIn_append, List.map_append]
  refine congrArg₂ (· ++ ·) hoperators ?_
  simp only [plainDefinitions, List.map_flatMap, functions_definitions, functionsIn_map]

theorem functionsIn_methodStubs (ms : List Method) :
    functionsIn (methodStubs ms) = (methodDefinitions ms).map Definition.function := by
  simp only [methodStubs, methodDefinitions, functionsIn_flatMap, functionsIn_methodGroupStubs,
    List.map_flatMap]

theorem functionsIn_nestedStubs (members : List Member) :
    functionsIn (nestedStubs members) = [] := by
  induction members with
  | nil => rfl
  | cons m rest hrest =>
    cases m with
    | nested t =>
      rw [nestedStubs, functionsIn_append, hrest, List.append_nil]
      split
      · rfl
      · obtain ⟨header, inner⟩ := t
        rw [stub?]
        cases header.kind <;> rfl
    | constructor _ => exact hrest
    | property _ => exact hrest
    | field _ => exact hrest
    | method _ => exact hrest

theorem functionsIn_classBody (members : List Member) :
    functionsIn (classBody members (nestedStubs members)) =
      (definitionsOf (accepted members)).map Definition.function := by
  have hsections : functionsIn (sectionsOf (accepted members) ++
      titled "Nested Types" (nestedStubs members)) =
        (definitionsOf (accepted members)).map Definition.function := by
    simp only [sectionsOf, definitionsOf, functionsIn_append, functionsIn_titled,
      functionsIn_constructorStubs, functionsIn_propertyStubs, functionsIn_fieldStubs,
      functionsIn_methodStubs, functionsIn_nestedStubs, List.map_append, List.append_nil]
  rw [classBody_eq]
  split
  next h =>
    rw [List.isEmpty_iff.mp h] at hsections
    exact hsections
  next => exact hsections

end Functions

section Marks

variable {d : Definition}

theorem mem_definitions {m : Member} {stubs : List Statement} :
    d ∈ definitions m stubs ↔ d.member = m ∧ .function d.function ∈ stubs := by
  obtain ⟨member, f⟩ := d
  simp only [definitions, functionsIn, List.mem_map, List.mem_filterMap, Definition.mk.injEq]
  constructor
  · intro ⟨g, ⟨s, hs, hg⟩, hmember, hf⟩
    subst hf hmember
    split at hg
    · cases hg
      exact ⟨rfl, hs⟩
    · cases hg
  · intro ⟨hmember, hf⟩
    exact ⟨f, ⟨_, hf, rfl⟩, hmember.symm, rfl⟩

theorem isMarked_of_decorators {marked : Bool} {more : List String}
    (h : d.function.decorators = overloadIf marked ++ more) (hmore : overloadMark ∉ more) :
    d.isMarked = marked := by
  rw [Definition.isMarked, h]
  cases marked <;> simp [overloadIf, hmore]

theorem isMarked_constructor {cs : List Constructor} (h : d ∈ constructorDefinitions cs) :
    (∃ c, d.member = .constructor c) ∧ d.isMarked = isSeveral cs := by
  obtain ⟨c, -, hd⟩ := List.mem_flatMap.mp h
  obtain ⟨hmember, hf⟩ := mem_definitions.mp hd
  have hfunction := Statement.function.inj (List.mem_singleton.mp hf)
  refine ⟨⟨c, hmember⟩, ?_⟩
  have hdecorators : d.function.decorators = overloadIf (isSeveral cs) ++ [] := by
    rw [hfunction, List.append_nil]
  exact isMarked_of_decorators hdecorators List.not_mem_nil

/-- The mark of a setter has a dot in it, which that of overloads has not. -/
theorem isMarked_property {ps : List Property} (h : d ∈ propertyDefinitions ps) :
    (∃ p, d.member = .property p) ∧ d.isMarked = false := by
  obtain ⟨p, -, hd⟩ := List.mem_flatMap.mp h
  obtain ⟨hmember, hf⟩ := mem_definitions.mp hd
  refine ⟨⟨p, hmember⟩, ?_⟩
  have hsetter : overloadMark ≠ p.name ++ ".setter" := by
    intro heq
    have hdot : '.' ∈ overloadMark.toList := by simp [heq]
    revert hdot
    decide
  have hnone : overloadMark ∉ d.function.decorators := by
    simp only [propertyStubs, indexerStubs] at hf
    split at hf
    · simp only [List.mem_append] at hf
      rcases hf with hf | hf
      all_goals
        split at hf
        · rw [Statement.function.inj (List.mem_singleton.mp hf)]
          exact List.not_mem_nil
        · cases hf
    · split at hf
      · cases List.mem_singleton.mp hf
      · rcases List.mem_cons.mp hf with hf | hf
        · rw [Statement.function.inj hf, List.mem_singleton]
          decide
        · split at hf
          · rw [Statement.function.inj (List.mem_singleton.mp hf), List.mem_singleton]
            exact hsetter
          · cases hf
  rw [Definition.isMarked, List.contains_eq_mem, decide_eq_false_iff_not]
  exact hnone

theorem isMarked_plain {ms : List Method} (h : d ∈ plainDefinitions ms) :
    ∃ m ∈ ms, m.operator = none ∧ d.member = .method m ∧ d.function.name = m.name ∧
      d.isMarked = isSeveral (ms.filter (·.operator.isNone)) := by
  obtain ⟨m, hm, hd⟩ := List.mem_flatMap.mp h
  obtain ⟨hmember, hf⟩ := mem_definitions.mp hd
  have hfunction := Statement.function.inj (List.mem_singleton.mp hf)
  obtain ⟨hm, hnone⟩ := List.mem_filter.mp hm
  refine ⟨m, hm, Option.isNone_iff_eq_none.mp hnone, hmember, by rw [hfunction], ?_⟩
  refine isMarked_of_decorators (by rw [hfunction]) ?_
  split <;> decide

/-- An operator is marked for itself, whatever others there are. -/
theorem isMarked_operator {ms : List Method} (h : d ∈ operatorDefinitions ms) :
    ∃ m, m.operator.isSome = true ∧ d.member = .method m ∧ d.isMarked = isConversion m := by
  obtain ⟨m, -, hd⟩ := List.mem_flatMap.mp h
  split at hd
  next symbol hsymbol =>
    obtain ⟨hmember, hf⟩ := mem_definitions.mp hd
    refine ⟨m, by rw [hsymbol]; rfl, hmember, ?_⟩
    rw [isConversion, hsymbol]
    simp only [operatorStubs] at hf
    cases hslot : operatorSlot? symbol with
    | none => simp [hslot] at hf
    | some slot =>
        by_cases hinit : slot = initializer
        · simp only [hslot, hinit, ↓reduceIte, List.mem_singleton, Statement.function.injEq] at hf
          simp [Definition.isMarked, hf, hslot, hinit]
        · simp only [hslot, hinit, ↓reduceIte, List.mem_singleton, Statement.function.injEq] at hf
          simp [Definition.isMarked, hf, hslot, hinit]
  next => cases hd

theorem mem_methodDefinitions {ms : List Method} (h : d ∈ methodDefinitions ms) :
    ∃ m, d.member = .method m := by
  obtain ⟨group, -, hd⟩ := List.mem_flatMap.mp h
  rcases List.mem_append.mp hd with hd | hd
  · obtain ⟨m, -, hmember, -⟩ := isMarked_operator hd
    exact ⟨m, hmember⟩
  · obtain ⟨m, -, -, hmember, -⟩ := isMarked_plain hd
    exact ⟨m, hmember⟩

end Marks

section Counting

/-- Where each item is written once, as many functions count as there are items that do. -/
theorem countP_flatMap_definitions {α : Type} {items : List α} {member : α → Member}
    {stub : α → Function} {p : Definition → Bool} {q : α → Bool}
    (h : ∀ a, p ⟨member a, stub a⟩ = q a) :
    (items.flatMap fun a => definitions (member a) [.function (stub a)]).countP p =
      items.countP q := by
  induction items with
  | nil => rfl
  | cons a rest ih =>
      have hone : definitions (member a) [.function (stub a)] = [⟨member a, stub a⟩] := rfl
      rw [List.flatMap_cons, List.countP_append, ih, hone, List.countP_singleton, h,
        List.countP_cons, Nat.add_comm]

theorem countP_operatorDefinitions (ms : List Method) (name : String) :
    (operatorDefinitions ms).countP (fun d => d.isPlain && d.function.name = name) = 0 := by
  refine List.countP_eq_zero.mpr fun d hd => ?_
  obtain ⟨m, hsome, hmember, -⟩ := isMarked_operator hd
  simp [Definition.isPlain, hmember, Option.isSome_iff_ne_none.mp hsome]

theorem countP_methodDefinitions (ms : List Method) (name : String) :
    (methodDefinitions ms).countP (fun d => d.isPlain && d.function.name = name) =
      ms.countP fun m => m.operator.isNone && m.name = name := by
  have hgroup (group : String × List Method) :
      (operatorDefinitions group.2 ++ plainDefinitions group.2).countP
          (fun d => d.isPlain && d.function.name = name) =
        group.2.countP fun m => m.operator.isNone && m.name = name := by
    rw [List.countP_append, countP_operatorDefinitions, plainDefinitions, Nat.zero_add]
    refine (countP_flatMap_definitions fun _ => rfl).trans ?_
    rw [List.countP_filter]
    refine List.countP_congr fun m _ => ?_
    simp only [Definition.isPlain, Bool.and_eq_true]
    exact ⟨fun h => h.1, fun h => ⟨h, h.1⟩⟩
  have hperm := (Text.perm_flatMap_groupBy Method.name ms).countP_eq
    fun m => m.operator.isNone && m.name = name
  rw [← hperm, methodDefinitions, List.countP_flatMap, List.countP_flatMap]
  congr 1
  exact List.map_congr_left fun group _ => hgroup group

variable (members : List Member)

theorem countP_isConstructor :
    (definitionsOf members).countP Definition.isConstructor =
      (constructorsOf members).length := by
  have hproperties : (propertyDefinitions (propertiesOf members)).countP
      Definition.isConstructor = 0 := by
    refine List.countP_eq_zero.mpr fun d hd => ?_
    obtain ⟨⟨p, hmember⟩, -⟩ := isMarked_property hd
    simp [Definition.isConstructor, hmember]
  have hmethods : (methodDefinitions (methodsOf members)).countP Definition.isConstructor = 0 := by
    refine List.countP_eq_zero.mpr fun d hd => ?_
    obtain ⟨m, hmember⟩ := mem_methodDefinitions hd
    simp [Definition.isConstructor, hmember]
  rw [definitionsOf, List.countP_append, List.countP_append, hproperties, hmethods]
  exact (countP_flatMap_definitions fun _ => rfl).trans (congrFun List.countP_true _)

theorem countP_isPlain (name : String) :
    (definitionsOf members).countP (fun d => d.isPlain && d.function.name = name) =
      (methodsOf members).countP fun m => m.operator.isNone && m.name = name := by
  have hothers : (constructorDefinitions (constructorsOf members) ++
      propertyDefinitions (propertiesOf members)).countP
        (fun d => d.isPlain && d.function.name = name) = 0 := by
    refine List.countP_eq_zero.mpr fun d hd => ?_
    rcases List.mem_append.mp hd with hd | hd
    · obtain ⟨⟨c, hmember⟩, -⟩ := isMarked_constructor hd
      simp [Definition.isPlain, hmember]
    · obtain ⟨⟨p, hmember⟩, -⟩ := isMarked_property hd
      simp [Definition.isPlain, hmember]
  rw [definitionsOf, List.countP_append, hothers, Nat.zero_add, countP_methodDefinitions]

end Counting

section Classes

/-- When a function is marked among those of its class, by the member that it is written for. -/
structure MarkedAmong (ds : List Definition) (d : Definition) : Prop where
  constructor : d.isConstructor = true →
    (d.isMarked = true ↔ 1 < ds.countP Definition.isConstructor)
  plain : d.isPlain = true →
    (d.isMarked = true ↔ 1 < ds.countP fun e => e.isPlain && e.function.name = d.function.name)
  operator : d.isOperator = true → (d.isMarked = true ↔ d.isFromConversion = true)
  access : d.isAccess = true → d.isMarked = false

theorem markedAmong_definitionsOf {members : List Member} {d : Definition}
    (h : d ∈ definitionsOf members) : MarkedAmong (definitionsOf members) d := by
  have hcases := List.mem_append.mp h
  rw [List.mem_append] at hcases
  rcases hcases with (h | h) | h
  · obtain ⟨⟨c, hmember⟩, hmarked⟩ := isMarked_constructor h
    refine ⟨fun _ => ?_, fun hplain => ?_, fun hoperator => ?_, fun haccess => ?_⟩
    · rw [hmarked, countP_isConstructor, isSeveral, decide_eq_true_eq]
    · simp [Definition.isPlain, hmember] at hplain
    · simp [Definition.isOperator, hmember] at hoperator
    · simp [Definition.isAccess, hmember] at haccess
  · obtain ⟨⟨p, hmember⟩, hmarked⟩ := isMarked_property h
    refine ⟨fun hconstructor => ?_, fun hplain => ?_, fun hoperator => ?_, fun _ => hmarked⟩
    · simp [Definition.isConstructor, hmember] at hconstructor
    · simp [Definition.isPlain, hmember] at hplain
    · simp [Definition.isOperator, hmember] at hoperator
  · obtain ⟨group, hgroup, hd⟩ := List.mem_flatMap.mp h
    rcases List.mem_append.mp hd with hd | hd
    · obtain ⟨m, hsome, hmember, hmarked⟩ := isMarked_operator hd
      refine ⟨fun hconstructor => ?_, fun hplain => ?_, fun _ => ?_, fun haccess => ?_⟩
      · simp [Definition.isConstructor, hmember] at hconstructor
      · simp [Definition.isPlain, hmember, Option.isSome_iff_ne_none.mp hsome] at hplain
      · rw [hmarked, Definition.isFromConversion, hmember]
      · simp [Definition.isAccess, hmember] at haccess
    · obtain ⟨m, hm, hnone, hmember, hname, hmarked⟩ := isMarked_plain hd
      refine ⟨fun hconstructor => ?_, fun _ => ?_, fun hoperator => ?_, fun haccess => ?_⟩
      · simp [Definition.isConstructor, hmember] at hconstructor
      · have hmembers := ((Text.mem_groupBy Method.name).mp hgroup).2
        rw [hmembers] at hm hmarked
        have hkey : m.name = group.1 := by simpa using (List.mem_filter.mp hm).2
        rw [hmarked, isSeveral, decide_eq_true_eq, countP_isPlain, List.filter_filter, hname, hkey,
          List.countP_eq_length_filter]
      · simp [Definition.isOperator, hmember, hnone] at hoperator
      · simp [Definition.isAccess, hmember] at haccess

/-- Constructors, and methods of one name that are no operators, are marked exactly if there are
several of them, operators exactly if they are conversions, and properties never. -/
theorem overloads_marked_within_sorts (t : TypeInfo) (hkind : t.kind ≠ .unsupported)
    (hclass : t.kind ≠ .enumeration) :
    ∃ body, stub? t = some (.classDef t.name (classHeading t.base) body) ∧
      functionsIn body = (definitionsOf (accepted t.members)).map Definition.function ∧
      ∀ d ∈ definitionsOf (accepted t.members),
        MarkedAmong (definitionsOf (accepted t.members)) d := by
  obtain ⟨header, members⟩ := t
  refine ⟨classBody members (nestedStubs members), ?_, functionsIn_classBody members,
    fun d hd => markedAmong_definitionsOf hd⟩
  rw [stub?]
  cases hheader : header.kind with
  | unsupported => exact absurd hheader hkind
  | enumeration => exact absurd hheader hclass
  | reference | value | interface => rfl

theorem overloads_marked_within_sorts_of_canvas :
    ∃ body, stub? canvas = some (.classDef "Canvas" (.derived "Game.Surface") body) ∧
      functionsIn body = (definitionsOf (accepted canvas.members)).map Definition.function ∧
      ∀ d ∈ definitionsOf (accepted canvas.members),
        MarkedAmong (definitionsOf (accepted canvas.members)) d :=
  overloads_marked_within_sorts canvas (by decide) (by decide)

/-- Functions of one name are marked, except for the two sides of one property. -/
def MarksSameNames (body : List Statement) : Prop :=
  (functionsIn body).Pairwise fun f g => f.name = g.name →
    f.decorators = ["property"] ∧ g.decorators = [f.name ++ ".setter"] ∨
      overloadMark ∈ f.decorators ∧ overloadMark ∈ g.decorators

instance (body : List Statement) : Decidable (MarksSameNames body) :=
  inferInstanceAs (Decidable (List.Pairwise _ _))

/-- A class with two indexers, with a property and a method of one name, with a method that is
named like its constructor, and with one operator twice. -/
def grid : TypeInfo where
  name := "Grid"
  kind := .reference
  members :=
    [.constructor {},
      .property { name := "Item", type := .primitive .string,
                  indexParameters := [{ name := "row", type := .primitive .int32 }] },
      .property { name := "Item", type := .primitive .string,
                  indexParameters := [{ name := "key", type := .primitive .string }] },
      .property { name := "Size", type := .primitive .int32 },
      .method { name := "Size", returnType := .primitive .bool },
      .method { name := initializer, returnType := .primitive .bool },
      .method (.ofOperator "op_Multiply"
        [{ name := "grid", type := .primitive .int32 },
          { name := "by", type := .primitive .int32 }]
        (.primitive .int32)),
      .method (.ofOperator "op_Multiply"
        [{ name := "by", type := .primitive .double },
          { name := "grid", type := .primitive .int32 }]
        (.primitive .double))]

/-- Without a conversion, there are four names with two functions each that are not marked. -/
theorem same_names_unmarked_in_grid :
    Printable grid ∧ (∀ m ∈ methodsOf grid.members, isConversion m = false) ∧
      ∃ body, stub? grid = some (.classDef "Grid" .plain body) ∧ ¬ MarksSameNames body ∧
        ∀ name ∈ ["__getitem__", "Size", initializer, "__mul__"],
          (functionsIn body).countP (·.name = name) = 2 ∧
            ∀ f ∈ functionsIn body, f.name = name → overloadMark ∉ f.decorators :=
  ⟨by decide +kernel, by decide +kernel, _, rfl, by decide +kernel, by decide +kernel⟩

end Classes

end StubTree.Stub
