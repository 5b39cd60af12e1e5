import Mathlib.Data.List.FinRange
import StubTree.Proofs.Suites

/-!
The methods of a class as they are written. Every accepted method has its turn
once: names in the order in which they first appear, and among the methods of
one name the operators before the others. At its turn a method leaves its
declaration, or is reported if it is an operator without a slot.
-/

namespace StubTree.Stub

open Metadata Python
open Python.Statement (linesOfBody)
open Log (Event)

section Sections

/-- The title that a statement gives to those after it. -/
def title? : Statement → Option String
  | .comment text => some text
  | _ => none

/-- The statements under a title, up to the next title. -/
def sectionOf (title : String) (body : List Statement) : List Statement :=
  ((body.dropWhile fun s => title? s != some title).drop 1).takeWhile fun s => (title? s).isNone

variable {title : String} {front body back : List Statement}

theorem sectionOf_titled (hfront : ∀ s ∈ front, title? s ≠ some title)
    (hbody : ∀ s ∈ body, title? s = none) (hback : ∀ s ∈ back, title? s ≠ some title)
    (hnext : ∀ s ∈ back.head?, title? s ≠ none) :
    sectionOf title (front ++ titled title body ++ back) = body := by
  rw [sectionOf, List.append_assoc, List.dropWhile_append_of_pos (by simpa using hfront), titled]
  split
  · rename_i hempty
    rw [List.isEmpty_iff.mp hempty, List.nil_append,
      List.dropWhile_eq_nil_iff.mpr (by simpa using hback)]
    rfl
  · rw [List.cons_append, List.dropWhile_cons_of_neg (by simp [title?]), List.drop_one,
      List.tail_cons, List.takeWhile_append_of_pos (by simpa using hbody)]
    cases back with
    | nil => simp
    | cons s rest =>
        rw [List.takeWhile_cons_of_neg (by simpa using hnext s rfl), List.append_nil]

theorem title?_of_mem_titled {title' : String} {s : Statement} (h : s ∈ titled title body)
    (hbody : ∀ s ∈ body, title? s = none) (hne : title ≠ title') : title? s ≠ some title' := by
  rw [titled] at h
  split at h
  · cases h
  · rcases List.mem_cons.mp h with rfl | h
    · simpa [title?] using hne
    · simp [hbody s h]

theorem title?_constructorStubs (cs : List Constructor) :
    ∀ s ∈ constructorStubs cs, title? s = none :=
  List.forall_mem_map.mpr fun _ _ => rfl

theorem title?_propertyStubs (p : Property) : ∀ s ∈ propertyStubs p, title? s = none := by
  intro s hs
  simp only [propertyStubs, indexerStubs] at hs
  grind [title?]

theorem title?_fieldStubs (fs : List Field) : ∀ s ∈ fs.map fieldStub, title? s = none :=
  List.forall_mem_map.mpr fun _ _ => rfl

theorem title?_nestedStubs (members : List Member) :
    ∀ s ∈ nestedStubs members, title? s = none := by
  induction members with
  | nil => exact List.forall_mem_nil _
  | cons m rest ih =>
      cases m with
      | nested t =>
          rw [nestedStubs, List.forall_mem_append]
          refine ⟨?_, ih⟩
          split
          · exact List.forall_mem_nil _
          · obtain ⟨header, inner⟩ := t
            rw [stub?]
            cases header.kind <;> simp [title?]
      | constructor _ | property _ | field _ | method _ => exact ih

theorem title?_methodStubs (ms : List Method) : ∀ s ∈ methodStubs ms, title? s = none := by
  intro s hs
  obtain ⟨group, -, hs⟩ := List.mem_flatMap.mp hs
  simp only [methodGroupStubs, operatorStubs, List.mem_append, List.mem_flatMap, List.mem_map] at hs
  grind [title?, methodStub]

/-- The section of the methods holds their declarations, and nothing else does. -/
theorem sectionOf_methods (members : List Member) :
    sectionOf "Methods" (classBody members (nestedStubs members)) =
      methodStubs (methodsOf (accepted members)) := by
  have hsections : sectionOf "Methods" (sectionsOf (accepted members) ++
      titled "Nested Types" (nestedStubs members)) = methodStubs (methodsOf (accepted members)) := by
    refine sectionOf_titled (fun s hs => ?_) (title?_methodStubs _) (fun s hs => ?_)
      fun s hs => ?_
    · simp only [List.mem_append] at hs
      rcases hs with (hs | hs) | hs
      · exact title?_of_mem_titled hs (title?_constructorStubs _) (by decide)
      · exact title?_of_mem_titled hs (List.forall_mem_flatMap.mpr fun p _ => title?_propertyStubs p)
          (by decide)
      · exact title?_of_mem_titled hs (title?_fieldStubs _) (by decide)
    · exact title?_of_mem_titled hs (title?_nestedStubs members) (by decide)
    · rw [titled] at hs
      split at hs
      · cases hs
      · cases hs
        simp [title?]
  rw [classBody_eq]
  split
  next h =>
    rw [List.isEmpty_iff.mp h] at hsections
    exact hsections
  next => exact hsections

end Sections

section Order

variable {β : Type} (ms : List Method)

/-- The places of the methods in the order in which they have their turn: for each name, in the order
in which names first appear, those of the operators and then those of the others. -/
def writingOrder : List (Fin ms.length) :=
  (Text.distinct (ms.map Method.name)).flatMap fun name =>
    ((List.finRange ms.length).filter fun i => ms[i].operator.isSome && ms[i].name = name) ++
      (List.finRange ms.length).filter fun i => ms[i].operator.isNone && ms[i].name = name

/-- The place at which the name of a method first appears. -/
def firstPlace (i : Fin ms.length) : Nat := (ms.map Method.name).idxOf ms[i].name

/-- Which of two methods has its turn first, by their places alone. -/
def Precedes (i j : Fin ms.length) : Prop :=
  firstPlace ms i < firstPlace ms j ∨
    firstPlace ms i = firstPlace ms j ∧
      (ms[i].operator.isSome ∧ ms[j].operator.isNone ∨
        ms[i].operator.isSome = ms[j].operator.isSome ∧ i < j)

theorem Precedes.ne {i j : Fin ms.length} (h : Precedes ms i j) : i ≠ j := by
  rintro rfl
  rcases h with hlt | ⟨-, ⟨hsome, hnone⟩ | ⟨-, hlt⟩⟩
  · exact absurd hlt (Nat.lt_irrefl _)
  · rw [Option.isNone_iff_eq_none.mp hnone] at hsome
    cases hsome
  · exact absurd hlt (lt_irrefl i)

/-- Where names and operators do not tell methods apart, their places do. -/
theorem pairwise_places (p : Method → Bool)
    (hsame : ∀ m m', p m = true → p m' = true →
      m.name = m'.name ∧ m.operator.isSome = m'.operator.isSome) :
    ((List.finRange ms.length).filter fun i => p ms[i]).Pairwise (Precedes ms) := by
  refine List.Pairwise.imp_of_mem (fun {i j} hi hj hlt => ?_)
    ((List.pairwise_lt_finRange ms.length).filter _)
  obtain ⟨hname, hoperator⟩ := hsame _ _ (List.mem_filter.mp hi).2 (List.mem_filter.mp hj).2
  exact .inr ⟨by rw [firstPlace, firstPlace, hname], .inr ⟨hoperator, hlt⟩⟩

theorem pairwise_writingOrder : (writingOrder ms).Pairwise (Precedes ms) := by
  rw [writingOrder, List.pairwise_flatMap]
  constructor
  · -- Among the methods of one name.
    intro name _
    refine List.pairwise_append.mpr ⟨?_, ?_, fun i hi j hj => ?_⟩
    · refine pairwise_places ms (fun m => m.operator.isSome && m.name = name) fun m m' hm hm' => ?_
      simp only [Bool.and_eq_true, decide_eq_true_eq] at hm hm'
      exact ⟨hm.2.trans hm'.2.symm, hm.1.trans hm'.1.symm⟩
    · refine pairwise_places ms (fun m => m.operator.isNone && m.name = name) fun m m' hm hm' => ?_
      simp only [Bool.and_eq_true, decide_eq_true_eq, Option.isNone_iff_eq_none] at hm hm'
      exact ⟨hm.2.trans hm'.2.symm, by rw [hm.1, hm'.1]⟩
    · simp only [List.mem_filter, Bool.and_eq_true, decide_eq_true_eq] at hi hj
      exact .inr ⟨by rw [firstPlace, firstPlace, hi.2.2, hj.2.2], .inl ⟨hi.2.1, hj.2.1⟩⟩
  · -- Of different names, that which appears first comes first.
    refine (Text.pairwise_distinct (ms.map Method.name)).imp fun {name name'} hlt i hi j hj => ?_
    simp only [List.mem_append, List.mem_filter, Bool.and_eq_true, decide_eq_true_eq] at hi hj
    have hname : ms[i].name = name := hi.elim (·.2.2) (·.2.2)
    have hname' : ms[j].name = name' := hj.elim (·.2.2) (·.2.2)
    refine .inl ?_
    rw [firstPlace, firstPlace, hname, hname']
    exact hlt

theorem mem_writingOrder (i : Fin ms.length) : i ∈ writingOrder ms := by
  refine List.mem_flatMap.mpr ⟨ms[i].name, ?_, ?_⟩
  · exact Text.mem_distinct.mpr (List.mem_map_of_mem (List.getElem_mem i.isLt))
  · simp only [List.mem_append, List.mem_filter, List.mem_finRange, true_and, Bool.and_eq_true,
      decide_eq_true_eq, and_true]
    cases ms[i].operator with
    | none => exact .inr rfl
    | some symbol => exact .inl rfl

/-- Every method has its turn exactly once. -/
theorem perm_writingOrder : (writingOrder ms).Perm (List.finRange ms.length) := by
  have hnodup : (writingOrder ms).Nodup := (pairwise_writingOrder ms).imp (Precedes.ne ms)
  refine (List.perm_ext_iff_of_nodup hnodup (List.nodup_finRange _)).mpr fun i => ?_
  exact ⟨fun _ => List.mem_finRange i, fun _ => mem_writingOrder ms i⟩

/-- As many methods of a sort have their turn as there are. -/
theorem countP_writingOrder (p : Method → Bool) :
    (writingOrder ms).countP (fun i => p ms[i]) = ms.countP p := by
  rw [(perm_writingOrder ms).countP_eq]
  conv_rhs => rw [← List.map_getElem_finRange ms, List.countP_map]
  rfl

theorem flatMap_places (p : Method → Bool) (f : Method → List β) :
    (((List.finRange ms.length).filter fun i => p ms[i]).flatMap fun i => f ms[i]) =
      (ms.filter p).flatMap f := by
  conv_rhs => rw [← List.map_getElem_finRange ms, List.filter_map, List.flatMap_map]
  rfl

/-- What methods leave at their turns is what the operators and the others of each name leave. -/
theorem flatMap_writingOrder (f : Method → List β) :
    ((writingOrder ms).flatMap fun i => f ms[i]) =
      (Text.groupBy Method.name ms).flatMap fun group =>
        (group.2.filter (·.operator.isSome)).flatMap f ++
          (group.2.filter (·.operator.isNone)).flatMap f := by
  rw [writingOrder, Text.groupBy, List.flatMap_assoc, List.flatMap_map]
  refine List.flatMap_congr fun name _ => ?_
  rw [List.flatMap_append, flatMap_places ms fun m => m.operator.isSome && m.name = name,
    flatMap_places ms fun m => m.operator.isNone && m.name = name, List.filter_filter,
    List.filter_filter]

end Order

section Declarations

/-- The number of methods of a name that overload no operator. -/
def plainCount (ms : List Method) (name : String) : Nat :=
  ms.countP fun m => m.operator.isNone && m.name = name

/-- Methods of one name that overload no operator are overloads of one another. -/
def isOverloaded (ms : List Method) (m : Method) : Bool := 1 < plainCount ms m.name

def definitionLine (name : String) (ps : List Python.Parameter) (result : String) : String :=
  "def " ++ name ++ "(" ++ parametersText ps ++ ") -> " ++ result ++ ": ..."

/-- The lines of the declaration of a method, apart from their indentation. -/
def declarationLines (ms : List Method) (m : Method) : List String :=
  match m.operator with
  | some symbol =>
    match operatorSlot? symbol with
    | none => []
    | some slot =>
      if slot = "__init__" then
        ["@overload", definitionLine "__init__" (withReceiver m.parameters) "None"]
      else [definitionLine slot (withReceiver m.parameters) (typeExpr m.returnType).text]
  | none =>
    (if isOverloaded ms m then ["@overload"] else []) ++
      if m.isStatic then
        ["@staticmethod", definitionLine m.name (parameters m.parameters)
          (typeExpr m.returnType).text]
      else [definitionLine m.name (withReceiver m.parameters) (typeExpr m.returnType).text]

/-- A method for which nothing is written is reported. -/
def methodEvents (owner : String) (m : Method) : List Event :=
  match m.operator with
  | some symbol =>
    if (operatorSlot? symbol).isNone then [.operatorUnsupported owner symbol] else []
  | none => []

/-- The statement of a method among the methods of its class. -/
def methodStatements (ms : List Method) (m : Method) : List Statement :=
  match m.operator with
  | some symbol => operatorStubs m symbol
  | none => [methodStub (isOverloaded ms m) m]

/-- Items that leave nothing may be left out. -/
theorem flatMap_filter {α β : Type} {items : List α} {p : α → Bool} {f g : α → List β}
    (hkept : ∀ a ∈ items, p a = true → f a = g a) (hnil : ∀ a ∈ items, p a = false → f a = []) :
    items.flatMap f = (items.filter p).flatMap g := by
  induction items with
  | nil => rfl
  | cons a rest ih =>
      rw [List.forall_mem_cons] at hkept hnil
      rw [List.flatMap_cons, ih hkept.2 hnil.2]
      cases hp : p a with
      | true => rw [List.filter_cons_of_pos hp, List.flatMap_cons, hkept.1 hp]
      | false => rw [List.filter_cons_of_neg (by simp [hp]), hnil.1 hp, List.nil_append]

theorem methodGroupStubs_eq (ms : List Method) (name : String) :
    methodGroupStubs (ms.filter fun m => m.name = name) =
      ((ms.filter fun m => m.name = name).filter (·.operator.isSome)).flatMap
          (methodStatements ms) ++
        ((ms.filter fun m => m.name = name).filter (·.operator.isNone)).flatMap
          (methodStatements ms) := by
  rw [methodGroupStubs]
  refine congrArg₂ (· ++ ·) (flatMap_filter (fun m _ hsome => ?_) fun m _ hnone => ?_) ?_
  · obtain ⟨symbol, hsymbol⟩ := Option.isSome_iff_exists.mp hsome
    rw [methodStatements, hsymbol]
  · rw [Option.isSome_eq_false_iff, Option.isNone_iff_eq_none] at hnone
    rw [hnone]
  · rw [List.map_eq_flatMap]
    refine List.flatMap_congr fun m hm => ?_
    simp only [List.mem_filter, decide_eq_true_eq, Option.isNone_iff_eq_none] at hm
    obtain ⟨⟨-, rfl⟩, hnone⟩ := hm
    rw [methodStatements, hnone, isSeveral, isOverloaded, plainCount, List.filter_filter,
      List.countP_eq_length_filter]

theorem methodStubs_eq (ms : List Method) :
    methodStubs ms = (writingOrder ms).flatMap fun i => methodStatements ms ms[i] := by
  rw [flatMap_writingOrder, methodStubs]
  refine List.flatMap_congr fun group hgroup => ?_
  rw [((Text.mem_groupBy Method.name).mp hgroup).2]
  exact methodGroupStubs_eq ms group.1

theorem operatorEvents_eq (owner : String) (ms : List Method) :
    operatorEvents owner ms = (writingOrder ms).flatMap fun i => methodEvents owner ms[i] := by
  rw [flatMap_writingOrder, operatorEvents]
  refine List.flatMap_congr fun group _ => ?_
  have hothers : (group.2.filter (·.operator.isNone)).flatMap (methodEvents owner) = [] := by
    refine List.flatMap_eq_nil_iff.mpr fun m hm => ?_
    rw [methodEvents, Option.isNone_iff_eq_none.mp (List.mem_filter.mp hm).2]
  rw [hothers, List.append_nil, List.filterMap_eq_flatMap_toList]
  refine flatMap_filter (fun m _ hsome => ?_) fun m _ hnone => ?_
  · obtain ⟨symbol, hsymbol⟩ := Option.isSome_iff_exists.mp hsome
    rw [methodEvents, hsymbol]
    dsimp only
    split <;> rfl
  · rw [Option.isSome_eq_false_iff, Option.isNone_iff_eq_none] at hnone
    rw [hnone]
    rfl

theorem lines_function (depth : Nat) (decorators : List String) (name : String)
    (ps : List Python.Parameter) (result : TypeExpr) :
    (Statement.function ⟨decorators, name, ps, result⟩).lines depth =
      (decorators.map ("@" ++ ·) ++ [definitionLine name ps result.text]).map
        (indentation depth ++ ·) := rfl

theorem lines_methodStatements (depth : Nat) (ms : List Method) (m : Method) :
    linesOfBody depth (methodStatements ms m) =
      (declarationLines ms m).map (indentation depth ++ ·) := by
  rw [linesOfBody_eq, methodStatements, declarationLines]
  cases m.operator with
  | some symbol =>
      simp only [operatorStubs]
      cases operatorSlot? symbol with
      | none => rfl
      | some slot =>
          by_cases hslot : slot = initializer
          · simp only [hslot, if_true, List.flatMap_singleton, lines_function]
            rfl
          · have hne : slot ≠ "__init__" := hslot
            simp only [hslot, hne, if_false, List.flatMap_singleton, lines_function]
            rfl
  | none =>
      simp only [List.flatMap_singleton, methodStub, lines_function, overloadIf]
      cases isOverloaded ms m <;> cases m.isStatic <;> rfl

end Declarations

section Classes

def acceptedMethods (t : TypeInfo) : List Method := methodsOf (accepted t.members)

theorem events_of_class {t : TypeInfo} (hkind : t.kind ≠ .unsupported)
    (hclass : t.kind ≠ .enumeration) :
    events t = skippedMembers t.name t.members ++ operatorEvents t.name (acceptedMethods t) ++
      nestedEvents t.members := by
  obtain ⟨header, members⟩ := t
  rw [events]
  cases hheader : header.kind with
  | unsupported => exact absurd hheader hkind
  | enumeration => exact absurd hheader hclass
  | reference | value | interface => rfl

/-- In the section of the methods of a class, every accepted method has its turn once, and leaves its
declaration or is reported. -/
theorem methods_written_in_order (t : TypeInfo) (hkind : t.kind ≠ .unsupported)
    (hclass : t.kind ≠ .enumeration) :
    ∃ body, stub? t = some (.classDef t.name (classHeading t.base) body) ∧
      (∀ depth, linesOfBody depth (sectionOf "Methods" body) =
        (writingOrder (acceptedMethods t)).flatMap fun i =>
          (declarationLines (acceptedMethods t) (acceptedMethods t)[i]).map
            (indentation depth ++ ·)) ∧
      events t = skippedMembers t.name t.members ++
        ((writingOrder (acceptedMethods t)).flatMap fun i =>
          methodEvents t.name (acceptedMethods t)[i]) ++ nestedEvents t.members ∧
      (writingOrder (acceptedMethods t)).Perm (List.finRange (acceptedMethods t).length) ∧
      (writingOrder (acceptedMethods t)).Pairwise (Precedes (acceptedMethods t)) := by
  refine ⟨_, stub?_of_class hkind hclass, fun depth => ?_, ?_, perm_writingOrder _,
    pairwise_writingOrder _⟩
  · rw [sectionOf_methods, methodStubs_eq, linesOfBody_eq, List.flatMap_assoc]
    refine List.flatMap_congr fun i _ => ?_
    rw [← linesOfBody_eq, lines_methodStatements]
    rfl
  · rw [events_of_class hkind hclass, operatorEvents_eq]

/-- Methods of two names that take turns, one of them an operator by the name of a method, and an
operator without a slot. -/
def vector : TypeInfo where
  name := "Vector"
  kind := .value
  members :=
    [.method { name := "Scale", returnType := .primitive .void, isStatic := true },
      .method (.ofOperator "op_Increment" [] (.primitive .int32)),
      .method { name := "Log", returnType := .primitive .void },
      .method { name := "get_Length", returnType := .primitive .double },
      .method { name := "Scale", returnType := .primitive .bool,
                parameters := [{ name := "by", type := .primitive .single }] },
      .method { name := "Scale", returnType := .named "Vector" [], operator := some "op_Explicit",
                parameters := [{ name := "from", type := .array (.primitive .single) }] }]

theorem methods_written_in_order_of_vector :
    vector.kind ≠ .unsupported ∧ vector.kind ≠ .enumeration ∧
      ∃ body, stub? vector = some (.classDef "Vector" .plain body) ∧
        linesOfBody 1 (sectionOf "Methods" body) =
          ["    @overload", "    def __init__(self, from_: List[float]) -> None: ...",
            "    @overload", "    @staticmethod", "    def Scale() -> None: ...",
            "    @overload", "    def Scale(self, by: float) -> bool: ...",
            "    def Log(self) -> None: ..."] ∧
        events vector =
          [.memberSkipped "Vector" "get_Length" "accessor shadow",
            .operatorUnsupported "Vector" "op_Increment"] := by
  have hkind : vector.kind ≠ .unsupported := by decide
  have hclass : vector.kind ≠ .enumeration := by decide
  obtain ⟨body, hstub, hlines, hevents, -, -⟩ := methods_written_in_order vector hkind hclass
  exact ⟨hkind, hclass, body, hstub, (hlines 1).trans (by decide +kernel),
    hevents.trans (by decide +kernel)⟩

end Classes

end StubTree.Stub
