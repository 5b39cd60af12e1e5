import StubTree.Proofs.Entries
import StubTree.Proofs.Grouping
import StubTree.Proofs.TypeNames

/-!
Members of a printable type leave statements that declare something under a
name, and those that leave none are told apart by their descriptions alone.
-/

namespace StubTree.Stub

open Metadata Python

section Texts

theorem oneLine_int (n : Int) : OneLine (toString n) := by
  have hnat (m : Nat) : OneLine m.repr := fun hc => by
    rw [Nat.toList_repr] at hc
    exact absurd (Nat.isDigit_of_mem_toDigits (by decide) (by decide) hc) (by decide)
  cases n with
  | ofNat m => exact hnat m
  | negSucc m => exact oneLine_append.mpr ⟨by decide, hnat _⟩

theorem oneLine_stripArity {name : String} (h : OneLine name) : OneLine (stripArity name) :=
  fun hc => h (mem_stripArity hc)

theorem oneLine_textOfRest {args : List TypeExpr} (h : ∀ e ∈ args, OneLine e.text) :
    OneLine (TypeExpr.textOfRest args) := by
  induction args with
  | nil => simp [TypeExpr.textOfRest, OneLine]
  | cons e rest ih =>
      simp only [TypeExpr.textOfRest, oneLine_append]
      exact ⟨⟨by decide, h e List.mem_cons_self⟩,
        ih fun e he => h e (List.mem_cons_of_mem _ he)⟩

theorem oneLine_applied {name : String} {args : List TypeExpr} (hname : OneLine name)
    (h : ∀ e ∈ args, OneLine e.text) : OneLine (TypeExpr.applied name args).text := by
  cases args with
  | nil => exact hname
  | cons e rest =>
      simp only [TypeExpr.text, oneLine_append]
      exact ⟨⟨⟨⟨hname, by decide⟩, h e List.mem_cons_self⟩,
        oneLine_textOfRest fun e he => h e (List.mem_cons_of_mem _ he)⟩, by decide⟩

theorem oneLine_firstOrAny {args : List TypeExpr} (h : ∀ e ∈ args, OneLine e.text) :
    OneLine (firstOrAny args).text := by
  cases args with
  | nil => simp [firstOrAny, anyType, TypeExpr.leaf, TypeExpr.text, OneLine]
  | cons e rest => exact h e List.mem_cons_self

theorem oneLine_collectionType (c : Collection) {args : List TypeExpr}
    (h : ∀ e ∈ args, OneLine e.text) : OneLine (collectionType c args).text := by
  have hfirst := oneLine_firstOrAny h
  have hsecond := oneLine_firstOrAny fun e he => h e (List.mem_of_mem_tail he)
  cases c with
  | list | sequence | set =>
      refine oneLine_applied (by decide) fun e he => ?_
      rw [List.mem_singleton.mp he]
      exact hfirst
  | dictionary =>
      refine oneLine_applied (by decide) fun e he => ?_
      cases he with
      | head => exact hfirst
      | tail _ he =>
          rw [List.mem_singleton.mp he]
          exact hsecond

mutual

theorem oneLine_typeExpr (t : TypeReference) (h : OneLineType t) : OneLine (typeExpr t).text := by
  match t with
  | .primitive p => cases p <;> simp [typeExpr, primitiveName, TypeExpr.leaf, TypeExpr.text, OneLine]
  | .nullable t | .array t =>
    refine oneLine_applied (by decide) fun e he => ?_
    rw [List.mem_singleton.mp he]
    exact oneLine_typeExpr t h
  | .collection c args => exact oneLine_collectionType c (oneLine_typeExprs args h)
  | .named name args => exact oneLine_applied (oneLine_stripArity h.1) (oneLine_typeExprs args h.2)
  | .delegate => simp [typeExpr, anyType, TypeExpr.leaf, TypeExpr.text, TypeExpr.textOfRest, OneLine]
  | .unresolved name =>
    simp only [typeExpr, TypeExpr.text, oneLine_append]
    exact ⟨⟨by decide, h⟩, by decide⟩

theorem oneLine_typeExprs (ts : List TypeReference) (h : OneLineTypes ts) :
    ∀ e ∈ typeExprs ts, OneLine e.text := by
  match ts with
  | [] => simp [typeExprs]
  | t :: rest =>
    intro e he
    cases he with
    | head => exact oneLine_typeExpr t h.1
    | tail _ he => exact oneLine_typeExprs rest h.2 e he

end

theorem oneLine_text {p : Python.Parameter} (hname : OneLine p.name)
    (htype : ∀ t, p.annotation = some t → OneLine t.text)
    (hvalue : ∀ d, p.defaultText = some d → OneLine d) : OneLine p.text := by
  obtain ⟨starred, name, annotation, defaultText⟩ := p
  simp only [Parameter.text, oneLine_append]
  refine ⟨⟨⟨?_, hname⟩, ?_⟩, ?_⟩
  · split <;> decide
  · cases annotation with
    | none => decide
    | some t => exact oneLine_append.mpr ⟨by decide, htype t rfl⟩
  · cases defaultText with
    | none => decide
    | some d => exact oneLine_append.mpr ⟨by decide, hvalue d rfl⟩

theorem oneLine_receiver : OneLine Parameter.receiver.text := by decide

theorem oneLine_typed {name : String} {t : TypeExpr} (hname : OneLine name) (ht : OneLine t.text) :
    OneLine (typed name t).text :=
  oneLine_text hname (fun _ h => Option.some.inj h ▸ ht) fun _ h => nomatch h

theorem oneLine_typedDefault {t : TypeExpr} {d : Option DefaultValue} (ht : OneLine t.text)
    (hd : ∀ value ∈ d, OneLineDefault value) :
    OneLine (typedDefault t d).1.text ∧
      ∀ text, (typedDefault t d).2 = some text → OneLine text := by
  cases d with
  | none => exact ⟨ht, fun _ h => nomatch h⟩
  | some d =>
      cases d with
      | null =>
          refine ⟨oneLine_applied (by decide) fun e he => ?_, fun _ h => Option.some.inj h ▸ by decide⟩
          rw [List.mem_singleton.mp he]
          exact ht
      | boolean b => exact ⟨ht, fun _ h => Option.some.inj h ▸ by cases b <;> decide⟩
      | literal token => exact ⟨ht, fun _ h => Option.some.inj h ▸ hd _ rfl⟩
      | nonPrimitive => exact ⟨ht, fun _ h => Option.some.inj h ▸ by decide⟩

theorem oneLine_safeName {name : String} (h : OneLine name) : OneLine (safeName name) := by
  rw [safeName]
  split
  · decide
  · split
    · exact oneLine_append.mpr ⟨h, by decide⟩
    · exact h

theorem oneLine_parameter {p : Metadata.Parameter} (h : OneLineParameter p) :
    OneLine (parameter p).text := by
  have hname := oneLine_safeName h.name
  simp only [parameter]
  split
  · rename_i element helement
    refine oneLine_text hname (fun t ht => Option.some.inj ht ▸ ?_) fun _ hd => nomatch hd
    have htype := h.type
    obtain ⟨name, type, variadic, direction, defaultValue⟩ := p
    split at helement
    · cases type <;> simp only [element?, Option.some.injEq, reduceCtorEq] at helement
      exact oneLine_typeExpr element (helement ▸ htype)
    · exact nomatch helement
  · split
    · exact oneLine_text hname (fun t ht => Option.some.inj ht ▸ by decide)
        fun d hd => Option.some.inj hd ▸ by decide
    · obtain ⟨htype, hvalue⟩ := oneLine_typedDefault (oneLine_typeExpr p.type h.type) h.value
      exact oneLine_text hname (fun t ht => Option.some.inj ht ▸ htype) hvalue

theorem oneLine_parameters {ps : List Metadata.Parameter} (h : ∀ p ∈ ps, OneLineParameter p) :
    ∀ p ∈ parameters ps, OneLine p.text := by
  intro p hp
  obtain ⟨p', hp', rfl⟩ := List.mem_map.mp hp
  exact oneLine_parameter (h p' hp')

theorem oneLine_withReceiver {ps : List Metadata.Parameter} (h : ∀ p ∈ ps, OneLineParameter p) :
    ∀ p ∈ withReceiver ps, OneLine p.text := by
  intro p hp
  cases hp with
  | head => exact oneLine_receiver
  | tail _ hp => exact oneLine_parameters h p hp

theorem oneLine_parametersText {ps : List Python.Parameter} (h : ∀ p ∈ ps, OneLine p.text) :
    OneLine (parametersText ps) := by
  rw [parametersText]
  induction ps with
  | nil => decide
  | cons p rest ih =>
      have hrest := ih fun p' hp' => h p' (List.mem_cons_of_mem _ hp')
      cases rest with
      | nil => simpa using h p List.mem_cons_self
      | cons p' more =>
          rw [List.map_cons, List.map_cons, String.intercalate_cons_cons, oneLine_append,
            oneLine_append]
          exact ⟨⟨h p List.mem_cons_self, by decide⟩, hrest⟩

end Texts

section Declaring

/-- Statements that declare a name and have no statements inside. -/
inductive Declaring : Statement → Prop
  | assign {name : String} (value : Int) (hname : IsName name) : Declaring (.assign name value)
  | declare {name : String} {type : TypeExpr} (hname : IsName name) (htype : OneLine type.text) :
      Declaring (.declare name type)
  | function {marks : List String} {name : String} {ps : List Python.Parameter} {result : TypeExpr}
      (hmarks : ∀ mark ∈ marks, OneLine mark) (hname : IsName name)
      (hparameters : ∀ p ∈ ps, OneLine p.text) (hresult : OneLine result.text) :
      Declaring (.function ⟨marks, name, ps, result⟩)

/-- Decorators come first, each on a line, and only functions have any. -/
theorem Declaring.lines_eq {s : Statement} (h : Declaring s) (level : Nat) :
    ∃ marks code, s.lines level =
        (marks.map ("@" ++ ·) ++ [code]).map (indentation level ++ ·) ∧
      (∀ mark ∈ marks, OneLine mark) ∧ Declares code ∧ OneLine code ∧
      (marks ≠ [] → "def ".toList <+: code.toList) := by
  cases h with
  | @assign name value hname =>
      refine ⟨[], name ++ " = " ++ toString value, ?_, by simp, .assigned hname, ?_, by simp⟩
      · simp [Statement.lines, String.append_assoc]
      · simp only [oneLine_append]
        exact ⟨⟨hname.oneLine, by decide⟩, oneLine_int value⟩
  | @declare name type hname htype =>
      refine ⟨[], name ++ ": " ++ type.text, ?_, by simp, .typed hname, ?_, by simp⟩
      · simp [Statement.lines, String.append_assoc]
      · simp only [oneLine_append]
        exact ⟨⟨hname.oneLine, by decide⟩, htype⟩
  | @function marks name ps result hmarks hname hparameters hresult =>
      refine ⟨marks, "def " ++ name ++ "(" ++
        (parametersText ps ++ ") -> " ++ result.text ++ ": ..."), ?_, hmarks,
        .function hname, ?_, fun _ => ?_⟩
      · simp [Statement.lines, Function.lines, String.append_assoc]
      · simp only [oneLine_append]
        exact ⟨⟨⟨by decide, hname.oneLine⟩, by decide⟩,
          ⟨⟨oneLine_parametersText hparameters, by decide⟩, hresult⟩, by decide⟩
      · simp only [String.append_assoc, String.toList_append]
        exact List.prefix_append _ _

theorem indentOf_decorator (level : Nat) (mark : String) :
    indentOf (indentation level ++ ("@" ++ mark)) = 4 * level := indentOf_indented (by simp) level

theorem Declaring.indentOf_eq {s : Statement} (h : Declaring s) {level : Nat} {line : String}
    (hline : line ∈ s.lines level) : indentOf line = 4 * level := by
  obtain ⟨marks, code, hlines, -, hcode, -⟩ := h.lines_eq level
  obtain ⟨c, hc, hblank, -⟩ := hcode.head?
  rw [hlines, List.map_append, List.mem_append, List.map_map] at hline
  cases hline with
  | inl hline =>
      obtain ⟨mark, -, rfl⟩ := List.mem_map.mp hline
      exact indentOf_decorator level mark
  | inr hline =>
      rw [List.mem_singleton.mp hline]
      exact indentOf_indented (by simp [hc, hblank]) level

theorem everyTail_decorated {level : Nat} {marks : List String} {code : String}
    (hcode : Declares code) (hdefinition : marks ≠ [] → "def ".toList <+: code.toList) :
    EveryTail Decorated ((marks.map ("@" ++ ·) ++ [code]).map (indentation level ++ ·)) := by
  obtain ⟨c, hc, hblank, -⟩ := hcode.head?
  have hindent : indentOf (indentation level ++ code) = 4 * level :=
    indentOf_indented (by simp [hc, hblank]) level
  induction marks with
  | nil =>
      refine ⟨fun hdecorator => ?_, trivial⟩
      exact absurd hdecorator (not_decorator_of_declaration ⟨code, rfl, hcode⟩)
  | cons mark rest ih =>
      refine ⟨fun _ => ?_, ih fun _ => hdefinition (by simp)⟩
      rw [indentOf_decorator]
      cases rest with
      | nil =>
          refine ⟨_, rfl, hindent, .inr ?_⟩
          rw [IsDefinition, codeOf_indented (by simp [hc, hblank])]
          exact hdefinition (by simp)
      | cons next more =>
          refine ⟨_, rfl, indentOf_decorator level next, .inl ?_⟩
          rw [IsDecorator, codeOf_indented (by simp)]
          simp

theorem Declaring.entries {s : Statement} (h : Declaring s) (level : Nat) :
    Entries level [] (s.lines level) := by
  obtain ⟨marks, code, hlines, hmarks, hcode, honeLine, hdefinition⟩ := h.lines_eq level
  rw [hlines]
  refine .of_lines (fun line hline => ?_) (everyTail_decorated hcode hdefinition)
    ⟨indentation level ++ code, by simp, code, rfl, hcode⟩
  rw [List.map_append, List.mem_append, List.map_map] at hline
  cases hline with
  | inl hline =>
      obtain ⟨mark, hmark, rfl⟩ := List.mem_map.mp hline
      exact entryLine_decorator (hmarks mark hmark)
  | inr hline =>
      rw [List.mem_singleton.mp hline]
      exact entryLine_of_declares hcode honeLine

end Declaring

section Members

theorem declaring_constructorStubs {cs : List Constructor}
    (h : ∀ c ∈ cs, PrintableMember (.constructor c)) : ∀ s ∈ constructorStubs cs, Declaring s := by
  intro s hs
  obtain ⟨c, hc, rfl⟩ := List.mem_map.mp hs
  refine .function (fun mark hmark => ?_) (by decide)
    (oneLine_withReceiver fun p hp => (h c hc p hp).oneLine) (by decide)
  simp only [overloadIf] at hmark
  split at hmark
  · rw [List.mem_singleton.mp hmark]
    decide
  · cases hmark

theorem declaring_indexerStubs {p : Property} {index : Metadata.Parameter}
    (htype : OneLineType p.type) (hindex : OneLineType index.type) :
    ∀ s ∈ indexerStubs p index, Declaring s := by
  have hkey : OneLine (typed "key" (typeExpr index.type)).text :=
    oneLine_typed (by decide) (oneLine_typeExpr _ hindex)
  have hvalue : OneLine (typed "value" (typeExpr p.type)).text :=
    oneLine_typed (by decide) (oneLine_typeExpr _ htype)
  intro s hs
  simp only [indexerStubs, List.mem_append] at hs
  cases hs with
  | inl hs =>
      split at hs
      · rw [List.mem_singleton.mp hs]
        refine .function (by simp) (by decide) (fun p hp => ?_) (oneLine_typeExpr _ htype)
        cases hp with
        | head => exact oneLine_receiver
        | tail _ hp => exact List.mem_singleton.mp hp ▸ hkey
      · cases hs
  | inr hs =>
      split at hs
      · rw [List.mem_singleton.mp hs]
        refine .function (by simp) (by decide) (fun p hp => ?_) (by decide)
        cases hp with
        | head => exact oneLine_receiver
        | tail _ hp =>
            cases hp with
            | head => exact hkey
            | tail _ hp => exact List.mem_singleton.mp hp ▸ hvalue
      · cases hs

theorem declaring_propertyStubs {p : Property} (h : PrintableMember (.property p)) :
    ∀ s ∈ propertyStubs p, Declaring s := by
  obtain ⟨hname, htype, hindices⟩ := h
  have hvalue : OneLine (typed "value" (typeExpr p.type)).text :=
    oneLine_typed (by decide) (oneLine_typeExpr _ htype)
  intro s hs
  simp only [propertyStubs] at hs
  split at hs
  · rename_i index rest hp
    exact declaring_indexerStubs htype (hindices index (hp ▸ List.mem_cons_self)).type s hs
  · split at hs
    · rw [List.mem_singleton.mp hs]
      exact .declare hname (oneLine_typeExpr _ htype)
    · cases hs with
      | head =>
          refine .function (fun mark hmark => ?_) hname (fun p hp => ?_) (oneLine_typeExpr _ htype)
          · rw [List.mem_singleton.mp hmark]
            decide
          · rw [List.mem_singleton.mp hp]
            exact oneLine_receiver
      | tail _ hs =>
          split at hs
          · rw [List.mem_singleton.mp hs]
            refine .function (fun mark hmark => ?_) hname (fun p hp => ?_) (by decide)
            · rw [List.mem_singleton.mp hmark]
              exact oneLine_append.mpr ⟨hname.oneLine, by decide⟩
            · cases hp with
              | head => exact oneLine_receiver
              | tail _ hp => exact List.mem_singleton.mp hp ▸ hvalue
          · cases hs

theorem declaring_fieldStub {f : Field} (h : PrintableMember (.field f)) :
    Declaring (fieldStub f) := by
  have htype := oneLine_typeExpr _ h.2
  refine .declare h.1 ?_
  split
  · refine oneLine_applied (by decide) fun e he => ?_
    rw [List.mem_singleton.mp he]
    exact htype
  · exact htype

theorem isName_of_operatorSlot? {symbol slot : String} (h : operatorSlot? symbol = some slot) :
    IsName slot := by
  have hslots : ∀ pair ∈ operatorSlots, IsName pair.2 := by decide +kernel
  obtain ⟨before, after, hsplit, -⟩ := List.lookup_eq_some_iff.mp h
  exact hslots (symbol, slot) (by simp [hsplit])

theorem declaring_operatorStubs {m : Method} (h : PrintableMember (.method m)) (symbol : String) :
    ∀ s ∈ operatorStubs m symbol, Declaring s := by
  obtain ⟨-, htype, hprintable⟩ := h
  have hparameters := oneLine_withReceiver fun p hp => (hprintable p hp).oneLine
  intro s hs
  simp only [operatorStubs] at hs
  split at hs
  · cases hs
  · rename_i slot hslot
    split at hs
    · rw [List.mem_singleton.mp hs]
      refine .function (fun mark hmark => ?_) (by decide) hparameters (by decide)
      rw [List.mem_singleton.mp hmark]
      decide
    · rw [List.mem_singleton.mp hs]
      exact .function (by simp) (isName_of_operatorSlot? hslot) hparameters
        (oneLine_typeExpr _ htype)

theorem declaring_methodStub {m : Method} (h : PrintableMember (.method m)) (overloaded : Bool) :
    Declaring (methodStub overloaded m) := by
  obtain ⟨hname, htype, hprintable⟩ := h
  have hparameters := fun p hp => (hprintable p hp).oneLine
  refine .function (fun mark hmark => ?_) hname ?_ (oneLine_typeExpr _ htype)
  · have hmarks : ∀ mark ∈ overloadIf overloaded ++ (if m.isStatic then ["staticmethod"] else []),
        OneLine mark := by
      cases overloaded <;> cases m.isStatic <;> decide
    exact hmarks mark hmark
  · intro p hp
    split at hp
    · exact oneLine_parameters hparameters p hp
    · exact oneLine_withReceiver hparameters p hp

theorem mem_group_methods {ms : List Method} {group : String × List Method} {m : Method}
    (hgroup : group ∈ Text.groupBy Method.name ms) (hm : m ∈ group.2) : m ∈ ms := by
  rw [((Text.mem_groupBy Method.name).mp hgroup).2] at hm
  exact (List.mem_filter.mp hm).1

theorem declaring_methodStubs {ms : List Method} (h : ∀ m ∈ ms, PrintableMember (.method m)) :
    ∀ s ∈ methodStubs ms, Declaring s := by
  intro s hs
  obtain ⟨group, hgroup, hs⟩ := List.mem_flatMap.mp hs
  simp only [methodGroupStubs, List.mem_append] at hs
  cases hs with
  | inl hs =>
      obtain ⟨m, hm, hs⟩ := List.mem_flatMap.mp hs
      split at hs
      · exact declaring_operatorStubs (h m (mem_group_methods hgroup hm)) _ s hs
      · cases hs
  | inr hs =>
      obtain ⟨m, hm, rfl⟩ := List.mem_map.mp hs
      exact declaring_methodStub
        (h m (mem_group_methods hgroup (List.mem_filter.mp hm).1)) _

end Members

section Nothing

theorem propertyStubs_eq_nil {p : Property} :
    propertyStubs p = [] ↔ LeavesNothing (.property p) := by
  simp only [propertyStubs, LeavesNothing, Property.isIndexer]
  cases p.indexParameters with
  | nil =>
      cases p.isStatic <;> simp
  | cons index rest =>
      simp only [indexerStubs, List.append_eq_nil_iff]
      cases p.readable <;> cases p.writable <;> simp

theorem operatorStubs_eq_nil {m : Method} {symbol : String} :
    operatorStubs m symbol = [] ↔ operatorSlot? symbol = none := by
  simp only [operatorStubs]
  cases operatorSlot? symbol with
  | none => simp
  | some slot =>
      simp only [reduceCtorEq, iff_false]
      split <;> simp

theorem methodGroupStubs_eq_nil {ms : List Method} :
    methodGroupStubs ms = [] ↔ ∀ m ∈ ms, LeavesNothing (.method m) := by
  simp only [methodGroupStubs, List.append_eq_nil_iff, List.flatMap_eq_nil_iff,
    List.map_eq_nil_iff, List.filter_eq_nil_iff, LeavesNothing]
  constructor
  · intro h m hm
    have hoperator := h.1 m hm
    have hplain := h.2 m hm
    cases hsymbol : m.operator with
    | none => simp [hsymbol] at hplain
    | some symbol =>
        rw [hsymbol] at hoperator
        exact ⟨symbol, rfl, operatorStubs_eq_nil.mp hoperator⟩
  · intro h
    refine ⟨fun m hm => ?_, fun m hm => ?_⟩
    · obtain ⟨symbol, hsymbol, hslot⟩ := h m hm
      rw [hsymbol]
      exact operatorStubs_eq_nil.mpr hslot
    · obtain ⟨symbol, hsymbol, -⟩ := h m hm
      simp [hsymbol]

theorem methodStubs_eq_nil {ms : List Method} :
    methodStubs ms = [] ↔ ∀ m ∈ ms, LeavesNothing (.method m) := by
  simp only [methodStubs, List.flatMap_eq_nil_iff, methodGroupStubs_eq_nil]
  constructor
  · intro h m hm
    refine h (m.name, ms.filter fun m' => m'.name = m.name) ?_ m (by simp [hm])
    exact (Text.mem_groupBy Method.name).mpr ⟨List.mem_map_of_mem hm, rfl⟩
  · intro h group hgroup m hm
    exact h m (mem_group_methods hgroup hm)

end Nothing

end StubTree.Stub
