import StubTree.Package.Context
import StubTree.Proofs.ParameterTexts
import StubTree.Proofs.Roles

/-!
Names that a stub uses. Outside quotes, the words of an annotation are those
that the mapping writes and names of declared types; the former, and all that
decorators and bases are called, are built in or imported by the header, apart
from setters, which are called after a property above them.
-/

namespace StubTree.Python

section Words

/-- The word whose characters have been read, the last of them first. -/
def wordOf (run : List Char) : List String :=
  if run.isEmpty then [] else [String.ofList run.reverse]

def wordsFrom (quoted : Bool) (run : List Char) : List Char → List String
  | [] => wordOf run
  | c :: rest =>
    if c = '"' then wordOf run ++ wordsFrom (!quoted) [] rest
    else if !quoted && isNamePart c then wordsFrom quoted (c :: run) rest
    else wordOf run ++ wordsFrom quoted [] rest

/-- The longest runs of characters of names outside quotes. -/
def words (text : String) : List String := wordsFrom false [] text.toList

/-- Whether what follows is inside quotes. -/
def quotedAfter (quoted : Bool) (cs : List Char) : Bool :=
  cs.foldl (fun quoted c => if c = '"' then !quoted else quoted) quoted

/-- A text that leaves no quotes open. -/
def Closed (text : String) : Prop := quotedAfter false text.toList = false

instance (text : String) : Decidable (Closed text) := inferInstanceAs (Decidable (_ = _))

/-- What follows does not go on with a word. -/
def Parts (cs : List Char) : Prop := ∀ c ∈ cs.head?, isNamePart c = false

/-- Stands between words, and leaves quotes alone. -/
def IsSeparator (c : Char) : Prop := isNamePart c = false ∧ c ≠ '"'

instance : DecidablePred IsSeparator := fun c =>
  inferInstanceAs (Decidable (isNamePart c = false ∧ c ≠ '"'))

theorem parts_cons {c : Char} (h : isNamePart c = false) (cs : List Char) : Parts (c :: cs) :=
  fun _ hc => Option.some.inj hc ▸ h

theorem wordsFrom_of_parts (quoted : Bool) (run : List Char) {cs : List Char} (h : Parts cs) :
    wordsFrom quoted run cs = wordOf run ++ wordsFrom quoted [] cs := by
  cases cs with
  | nil => simp [wordsFrom, wordOf]
  | cons c rest =>
      have hpart := h c rfl
      simp only [wordsFrom, hpart, Bool.and_false, Bool.false_eq_true, ↓reduceIte]
      split <;> simp [wordOf]

/-- Words are read piece by piece where the pieces meet at a boundary. -/
theorem wordsFrom_append (quoted : Bool) (run cs : List Char) {cs' : List Char} (h : Parts cs') :
    wordsFrom quoted run (cs ++ cs') =
      wordsFrom quoted run cs ++ wordsFrom (quotedAfter quoted cs) [] cs' := by
  -- the word read so far may go on in the first piece, and ends with it at the latest
  induction cs generalizing quoted run with
  | nil => exact wordsFrom_of_parts quoted run h
  | cons c rest ih =>
      by_cases hquote : c = '"'
      · simp only [List.cons_append, wordsFrom, quotedAfter, List.foldl_cons, hquote, ↓reduceIte]
        rw [ih, List.append_assoc, quotedAfter]
      · simp only [List.cons_append, wordsFrom, quotedAfter, List.foldl_cons, hquote, ↓reduceIte]
        split
        · rw [ih, quotedAfter]
        · rw [ih, List.append_assoc, quotedAfter]

theorem words_append {s s' : String} (hs : Closed s) (hs' : Parts s'.toList) :
    words (s ++ s') = words s ++ words s' := by
  rw [words, String.toList_append, wordsFrom_append false [] s.toList hs', hs, words, words]

theorem Closed.append {s s' : String} (hs : Closed s) (hs' : Closed s') : Closed (s ++ s') := by
  rw [Closed, String.toList_append, quotedAfter, List.foldl_append]
  rw [Closed, quotedAfter] at hs
  rw [hs]
  exact hs'

theorem quotedAfter_of_not_mem (quoted : Bool) {cs : List Char} (h : '"' ∉ cs) :
    quotedAfter quoted cs = quoted := by
  induction cs with
  | nil => rfl
  | cons c rest ih =>
      rw [List.mem_cons, not_or] at h
      rw [quotedAfter, List.foldl_cons, if_neg (Ne.symm h.1)]
      exact ih h.2

theorem wordsFrom_quoted {cs : List Char} (h : '"' ∉ cs) : wordsFrom true [] cs = [] := by
  induction cs with
  | nil => rfl
  | cons c rest ih =>
      rw [List.mem_cons, not_or] at h
      rw [wordsFrom, if_neg (Ne.symm h.1)]
      exact ih h.2

theorem wordsFrom_name (run : List Char) {cs : List Char} (h : ∀ c ∈ cs, isNamePart c = true) :
    wordsFrom false run cs = wordOf (cs.reverse ++ run) := by
  induction cs generalizing run with
  | nil => rfl
  | cons c rest ih =>
      rw [List.forall_mem_cons] at h
      have hquote : c ≠ '"' := by
        rintro rfl
        exact absurd h.1 (by decide)
      rw [wordsFrom, if_neg hquote, h.1, Bool.not_false, Bool.true_and, if_pos rfl, ih _ h.2,
        List.reverse_cons, List.append_assoc]
      rfl

theorem isNamePart_of_isIdentifier {name : String} (h : isIdentifier name = true) :
    name.toList ≠ [] ∧ ∀ c ∈ name.toList, isNamePart c = true := by
  rw [isIdentifier] at h
  split at h
  · cases h
  · rename_i first rest hchars
    rw [Bool.and_eq_true, List.all_eq_true] at h
    rw [hchars]
    refine ⟨List.cons_ne_nil _ _, List.forall_mem_cons.mpr ⟨?_, h.2⟩⟩
    rw [isNamePart, h.1, Bool.true_or]

theorem words_of_isIdentifier {name : String} (h : isIdentifier name = true) :
    words name = [name] := by
  obtain ⟨hne, hparts⟩ := isNamePart_of_isIdentifier h
  rw [words, wordsFrom_name [] hparts, List.append_nil, wordOf, List.reverse_reverse,
    String.ofList_toList, if_neg (by simpa using hne)]

theorem closed_of_isIdentifier {name : String} (h : isIdentifier name = true) : Closed name :=
  quotedAfter_of_not_mem false fun hc =>
    absurd ((isNamePart_of_isIdentifier h).2 _ hc) (by decide)

theorem linesOf_ended {lines : List String} (h : ∀ line ∈ lines, OneLine line) :
    linesOf (ended lines) = lines := by
  rw [linesOf, ended, segments_ended h]
  simp

end Words

section Drawn

/-- A text whose words are all of a sort. -/
structure Drawn (sort : String → Prop) (text : String) : Prop where
  closed : Closed text
  each : ∀ word ∈ words text, sort word

variable {sort : String → Prop}

theorem Drawn.append {s s' : String} (hs : Drawn sort s) (hs' : Drawn sort s')
    (hparts : Parts s'.toList) : Drawn sort (s ++ s') := by
  refine ⟨hs.closed.append hs'.closed, ?_⟩
  rw [words_append hs.closed hparts, List.forall_mem_append]
  exact ⟨hs.each, hs'.each⟩

theorem drawn_of_isIdentifier {name : String} (h : isIdentifier name = true) (hsort : sort name) :
    Drawn sort name := by
  refine ⟨closed_of_isIdentifier h, ?_⟩
  rw [words_of_isIdentifier h, List.forall_mem_singleton]
  exact hsort

/-- Marks in front of a text add no words to it. -/
theorem Drawn.marked {marks s : String} (hs : Drawn sort s)
    (hmarks : Text.ConsistsOf IsSeparator marks) : Drawn sort (marks ++ s) := by
  have hquotes : '"' ∉ marks.toList := fun hc => (hmarks _ hc).2 rfl
  have hwords (cs : List Char) (hcs : ∀ c ∈ cs, IsSeparator c) :
      wordsFrom false [] (cs ++ s.toList) = wordsFrom false [] s.toList := by
    induction cs with
    | nil => rfl
    | cons c rest ih =>
        rw [List.forall_mem_cons] at hcs
        rw [List.cons_append, wordsFrom, if_neg hcs.1.2, hcs.1.1, Bool.and_false,
          if_neg Bool.false_ne_true, ih hcs.2]
        rfl
  refine ⟨Closed.append (quotedAfter_of_not_mem false hquotes) hs.closed, ?_⟩
  rw [words, String.toList_append, hwords _ hmarks]
  exact hs.each

theorem drawn_forward {name : String} (h : '"' ∉ name.toList) :
    Drawn sort (TypeExpr.forward name).text := by
  have hchars : (TypeExpr.forward name).text.toList = '"' :: (name.toList ++ ['"']) := by
    simp [TypeExpr.text]
  have hquoted : quotedAfter true name.toList = true := quotedAfter_of_not_mem true h
  refine ⟨?_, fun word hword => ?_⟩
  · rw [Closed, hchars, quotedAfter, List.foldl_cons, List.foldl_append]
    rw [quotedAfter] at hquoted
    exact congrArg (quotedAfter · ['"']) hquoted
  · have hnone : words (TypeExpr.forward name).text = [] := by
      have hend : Parts ['"'] := parts_cons (by decide) []
      rw [words, hchars, wordsFrom, if_pos rfl, Bool.not_false, wordsFrom_append true [] _ hend,
        wordsFrom_quoted h, hquoted]
      rfl
    rw [hnone] at hword
    cases hword

theorem drawn_arguments {args : List TypeExpr} (h : ∀ e ∈ args, Drawn sort e.text) :
    Drawn sort (TypeExpr.textOfRest args ++ "]") ∧
      Parts (TypeExpr.textOfRest args ++ "]").toList := by
  induction args with
  | nil => exact ⟨⟨rfl, fun word hword => by cases hword⟩, parts_cons (by decide) []⟩
  | cons e rest ih =>
      rw [List.forall_mem_cons] at h
      obtain ⟨hdrawn, hparts⟩ := ih h.2
      rw [TypeExpr.textOfRest, String.append_assoc, String.append_assoc]
      refine ⟨(h.1.append hdrawn hparts).marked (by decide), ?_⟩
      rw [String.toList_append]
      exact parts_cons (by decide) _

theorem drawn_applied {name : String} {args : List TypeExpr} (hname : Drawn sort name)
    (hargs : ∀ e ∈ args, Drawn sort e.text) : Drawn sort (TypeExpr.applied name args).text := by
  cases args with
  | nil => exact hname
  | cons first rest =>
      rw [List.forall_mem_cons] at hargs
      obtain ⟨hrest, hparts⟩ := drawn_arguments hargs.2
      -- from the right, so that each piece is followed by a mark
      have hcut : (TypeExpr.applied name (first :: rest)).text =
          name ++ ("[" ++ (first.text ++ (TypeExpr.textOfRest rest ++ "]"))) := by
        simp only [TypeExpr.text, String.append_assoc]
      rw [hcut]
      refine hname.append ((hargs.1.append hrest hparts).marked (by decide)) ?_
      rw [String.toList_append]
      exact parts_cons (by decide) _

end Drawn

end StubTree.Python

namespace StubTree.Stub

open Metadata Python
open Statement (piecesOfBody)

section References

mutual

/-- The names of the declared types in a reference. -/
def declaredNames : TypeReference → List String
  | .primitive _ | .delegate | .unresolved _ => []
  | .nullable t | .array t => declaredNames t
  | .collection _ args => declaredNamesOfAll args
  | .named name args => name :: declaredNamesOfAll args

def declaredNamesOfAll : List TypeReference → List String
  | [] => []
  | t :: rest => declaredNames t ++ declaredNamesOfAll rest

end

mutual

/-- The names of the unknown types in a reference. -/
def unknownNames : TypeReference → List String
  | .primitive _ | .delegate => []
  | .nullable t | .array t => unknownNames t
  | .collection _ args | .named _ args => unknownNamesOfAll args
  | .unresolved name => [name]

def unknownNamesOfAll : List TypeReference → List String
  | [] => []
  | t :: rest => unknownNames t ++ unknownNamesOfAll rest

end

/-- Declared types are called by identifiers, apart from their arities; and the names of unknown
types do not end the quotes they stand in. -/
structure Legible (t : TypeReference) : Prop where
  declared : ∀ name ∈ declaredNames t, isIdentifier (stripArity name) = true
  unknown : ∀ name ∈ unknownNames t, '"' ∉ name.toList

instance (t : TypeReference) : Decidable (Legible t) :=
  decidable_of_iff ((∀ name ∈ declaredNames t, isIdentifier (stripArity name) = true) ∧
      ∀ name ∈ unknownNames t, '"' ∉ name.toList)
    ⟨fun h => ⟨h.1, h.2⟩, fun h => ⟨h.declared, h.unknown⟩⟩

def builtinTypes : List String := ["None", "bool", "int", "float", "str"]

/-- The names that a line binds, if it imports any from a module. -/
def importedBy (line : String) : List String :=
  if "from ".toList.isPrefixOf line.toList then ((words line).dropWhile (· ≠ "import")).drop 1
  else []

def importedNames (text : String) : List String := (linesOf text).flatMap importedBy

def headerLines : List String :=
  ["# Auto-generated Python type stubs", "# Generated by stubgen", "",
    "from __future__ import annotations",
    "from typing import Any, List, Set, Dict, Tuple, Optional, Union, Callable, ClassVar, overload",
    "from enum import Enum", "from datetime import datetime", ""]

theorem importedNames_header : importedNames Package.header =
    ["annotations", "Any", "List", "Set", "Dict", "Tuple", "Optional", "Union", "Callable",
      "ClassVar", "overload", "Enum", "datetime"] := by
  have hlines : Package.header = ended headerLines := by decide +kernel
  have honeLine : ∀ line ∈ headerLines, OneLine line := by simp [headerLines, OneLine]
  rw [importedNames, hlines, linesOf_ended honeLine]
  decide +kernel

/-- Names that an annotation may use where the given types are declared. -/
def IsBound (declared : List String) (name : String) : Prop :=
  name ∈ builtinTypes ∨ name ∈ importedNames Package.header ∨ ∃ d ∈ declared, name = stripArity d

variable {declared : List String}

theorem drawn_mapped {name : String} (h : name ∈ mappedNames) :
    Drawn (IsBound declared) name := by
  have hmapped : ∀ name ∈ mappedNames, Closed name ∧
      ∀ word ∈ words name, word ∈ builtinTypes ∨ word ∈ importedNames Package.header := by
    rw [importedNames_header]
    decide +kernel
  obtain ⟨hclosed, hwords⟩ := hmapped name h
  exact ⟨hclosed, fun word hword => (hwords word hword).imp id .inl⟩

theorem drawn_anyType : Drawn (IsBound declared) anyType.text := drawn_mapped (by decide)

theorem drawn_firstOrAny {es : List TypeExpr} (h : ∀ e ∈ es, Drawn (IsBound declared) e.text) :
    Drawn (IsBound declared) (firstOrAny es).text := by
  cases es with
  | nil => exact drawn_anyType
  | cons e rest => exact h e List.mem_cons_self

theorem drawn_collectionType (c : Collection) {es : List TypeExpr}
    (h : ∀ e ∈ es, Drawn (IsBound declared) e.text) :
    Drawn (IsBound declared) (collectionType c es).text := by
  have htail : ∀ e ∈ es.tail, Drawn (IsBound declared) e.text :=
    fun e he => h e (List.mem_of_mem_tail he)
  cases c with
  | list | sequence | set =>
      exact drawn_applied (drawn_mapped (by decide))
        (List.forall_mem_singleton.mpr (drawn_firstOrAny h))
  | dictionary =>
      exact drawn_applied (drawn_mapped (by decide))
        (List.forall_mem_cons.mpr
          ⟨drawn_firstOrAny h, List.forall_mem_singleton.mpr (drawn_firstOrAny htail)⟩)

mutual

theorem drawn_typeExpr (t : TypeReference)
    (hdeclared : ∀ name ∈ declaredNames t,
      isIdentifier (stripArity name) = true ∧ name ∈ declared)
    (hunknown : ∀ name ∈ unknownNames t, '"' ∉ name.toList) :
    Drawn (IsBound declared) (typeExpr t).text := by
  match t with
  | .primitive p => exact drawn_mapped (by cases p <;> decide)
  | .nullable t | .array t =>
    exact drawn_applied (drawn_mapped (by decide))
      (List.forall_mem_singleton.mpr (drawn_typeExpr t hdeclared hunknown))
  | .collection c args =>
    exact drawn_collectionType c (drawn_typeExprs args hdeclared hunknown)
  | .named name args =>
    rw [declaredNames, List.forall_mem_cons] at hdeclared
    obtain ⟨⟨hname, hmem⟩, hargs⟩ := hdeclared
    exact drawn_applied (drawn_of_isIdentifier hname (.inr (.inr ⟨name, hmem, rfl⟩)))
      (drawn_typeExprs args hargs hunknown)
  | .delegate =>
    exact drawn_applied (drawn_mapped (by decide))
      (List.forall_mem_cons.mpr
        ⟨drawn_mapped (by decide), List.forall_mem_singleton.mpr drawn_anyType⟩)
  | .unresolved name => exact drawn_forward (hunknown name List.mem_cons_self)

theorem drawn_typeExprs (ts : List TypeReference)
    (hdeclared : ∀ name ∈ declaredNamesOfAll ts,
      isIdentifier (stripArity name) = true ∧ name ∈ declared)
    (hunknown : ∀ name ∈ unknownNamesOfAll ts, '"' ∉ name.toList) :
    ∀ e ∈ typeExprs ts, Drawn (IsBound declared) e.text := by
  match ts with
  | [] => exact fun e he => by cases he
  | t :: rest =>
    rw [declaredNamesOfAll, List.forall_mem_append] at hdeclared
    rw [unknownNamesOfAll, List.forall_mem_append] at hunknown
    exact List.forall_mem_cons.mpr ⟨drawn_typeExpr t hdeclared.1 hunknown.1,
      drawn_typeExprs rest hdeclared.2 hunknown.2⟩

end

/-- The expression of a reference uses the declared types of the reference alone, which may be some
of many. -/
theorem Legible.drawn {t : TypeReference} (h : Legible t)
    (hdeclared : ∀ name ∈ declaredNames t, name ∈ declared) :
    Drawn (IsBound declared) (typeExpr t).text :=
  drawn_typeExpr t (fun name hname => ⟨h.declared name hname, hdeclared name hname⟩) h.unknown

end References

section Members

/-- The references in a member itself. -/
def references : Member → List TypeReference
  | .constructor c => c.parameters.map (·.type)
  | .property p => p.type :: p.indexParameters.map (·.type)
  | .field f => [f.type]
  | .method m => m.returnType :: m.parameters.map (·.type)
  | .nested _ => []

/-- The references in the members that are stubbed, at every level. -/
def referencesIn (t : TypeInfo) : List TypeReference :=
  (stubbed t).flatMap fun u => (accepted u.members).flatMap references

def builtinDecorators : List String := ["property", "staticmethod"]

/-- Decorators and the words of bases and annotations are bound where the given types are declared.
A setter is bound by the property above it. -/
structure Bound (declared : List String) (p : Piece) : Prop where
  decorator : p.role = .decorator → p.text ∈ builtinDecorators ∨
    p.text ∈ importedNames Package.header ∨ ∃ name ∈ p.properties, p.text = name ++ ".setter"
  used : p.role ∈ [Role.base, .type] → ∀ word ∈ words p.text, IsBound declared word

/-- A reference whose expression uses the given types only. -/
structure Usable (declared : List String) (t : TypeReference) : Prop where
  legible : Legible t
  declared : ∀ name ∈ declaredNames t, name ∈ declared

variable {declared : List String}

theorem Usable.drawn {t : TypeReference} (h : Usable declared t) :
    Drawn (IsBound declared) (typeExpr t).text := h.legible.drawn h.declared

theorem Bound.of_role {p : Piece} (h : p.role ∉ [Role.decorator, .base, .type]) :
    Bound declared p := by
  rw [List.mem_cons, not_or] at h
  exact ⟨fun hrole => absurd hrole h.1, fun hrole => absurd hrole h.2⟩

theorem bound_type {text : String} (h : Drawn (IsBound declared) text) :
    Bound declared { role := .type, text := text } :=
  ⟨fun hrole => by simp at hrole, fun _ => h.each⟩

theorem bound_mark {mark : String} (h : mark ∈ builtinDecorators ++ importedNames Package.header)
    (properties : List String) : Bound declared ⟨.decorator, mark, properties⟩ :=
  ⟨fun _ => (List.mem_append.mp h).imp id .inl, by simp⟩

/-- The types that parameters are annotated with. -/
def DrawnParameters (declared : List String) (qs : List Python.Parameter) : Prop :=
  ∀ q ∈ qs, ∀ t ∈ q.annotation, Drawn (IsBound declared) t.text

theorem DrawnParameters.bound {qs : List Python.Parameter} (h : DrawnParameters declared qs) :
    ∀ q ∈ qs, ∀ p ∈ meaning q.pieces, Bound declared p := by
  intro q hq
  exact forall_mem_parameter (.of_role (by simp)) (fun t ht => bound_type (h q hq t ht))
    (fun _ _ => .of_role (by simp))

theorem drawn_typedDefault {e : TypeExpr} (h : Drawn (IsBound declared) e.text)
    (value : Option DefaultValue) :
    Drawn (IsBound declared) (typedDefault e value).1.text := by
  match value with
  | some .null =>
    exact drawn_applied (drawn_mapped (by decide)) (List.forall_mem_singleton.mpr h)
  | none | some (.boolean _) | some (.literal _) | some .nonPrimitive => exact h

theorem drawnParameters_parameters {ps : List Metadata.Parameter}
    (h : ∀ t ∈ ps.map (·.type), Usable declared t) :
    DrawnParameters declared (parameters ps) := by
  intro q hq t ht
  obtain ⟨p, hp, rfl⟩ := List.mem_map.mp hq
  have husable := h p.type (List.mem_map_of_mem hp)
  rcases parameter_cases p with ⟨element, htype, heq⟩ | heq | heq <;>
    rw [heq] at ht <;> obtain rfl := Option.some.inj ht
  · rw [htype] at husable
    exact Usable.drawn ⟨⟨husable.legible.declared, husable.legible.unknown⟩, husable.declared⟩
  · exact drawn_anyType
  · exact drawn_typedDefault husable.drawn p.defaultValue

theorem drawnParameters_receiver {qs : List Python.Parameter} (h : DrawnParameters declared qs) :
    DrawnParameters declared (.receiver :: qs) :=
  List.forall_mem_cons.mpr ⟨fun _ ht => (by cases ht), h⟩

theorem drawnParameters_typed {name : String} {e : TypeExpr} {qs : List Python.Parameter}
    (he : Drawn (IsBound declared) e.text) (h : DrawnParameters declared qs) :
    DrawnParameters declared (typed name e :: qs) :=
  List.forall_mem_cons.mpr ⟨fun _ ht => Option.some.inj ht ▸ he, h⟩

theorem drawnParameters_nil : DrawnParameters declared [] := fun q hq => by cases hq

theorem drawn_noneType : Drawn (IsBound declared) noneType.text := drawn_mapped (by decide)

theorem bound_function {f : Function}
    (hmarks : ∀ mark ∈ f.decorators, mark ∈ builtinDecorators ++ importedNames Package.header)
    (hparameters : DrawnParameters declared f.parameters)
    (hresult : Drawn (IsBound declared) f.result.text) :
    Throughout (Bound declared) [.function f] :=
  .function (fun mark hmark => bound_mark (hmarks mark hmark)) (.of_role (by simp))
    hparameters.bound (bound_type hresult)

theorem bound_declare (name : String) {e : TypeExpr} (h : Drawn (IsBound declared) e.text) :
    Throughout (Bound declared) [.declare name e] :=
  .declare (.of_role (by simp)) (bound_type h)

theorem bound_indexerStubs {p : Property} {index : Metadata.Parameter}
    (htype : Usable declared p.type) (hindex : Usable declared index.type) :
    Throughout (Bound declared) (indexerStubs p index) := by
  have hkey := hindex.drawn
  refine .append ?_ ?_ <;> split
  · exact bound_function (by simp)
      (drawnParameters_receiver (drawnParameters_typed hkey drawnParameters_nil)) htype.drawn
  · exact .nil
  · exact bound_function (by simp) (drawnParameters_receiver (drawnParameters_typed hkey
      (drawnParameters_typed htype.drawn drawnParameters_nil))) drawn_noneType
  · exact .nil

/-- The setter stands below the getter of its property. -/
theorem bound_accessors (name : String) {value : TypeExpr}
    (hvalue : Drawn (IsBound declared) value.text) :
    Throughout (Bound declared)
      [.function ⟨["property"], name, [.receiver], value⟩,
        .function ⟨[name ++ ".setter"], name, [.receiver, typed "value" value], noneType⟩] := by
  intro properties
  have hself : DrawnParameters declared [.receiver] := drawnParameters_receiver drawnParameters_nil
  have hboth : DrawnParameters declared [.receiver, typed "value" value] :=
    drawnParameters_receiver (drawnParameters_typed hvalue drawnParameters_nil)
  have hproperty : name ∈ properties ++ [name] := List.mem_append_right _ List.mem_cons_self
  -- the getter stands in the same suite, so the setter finds its property
  rw [piecesOfBody, piecesOfBody, piecesOfBody, List.append_nil, meaning_append,
    List.forall_mem_append]
  refine ⟨?_, forall_mem_function (fun mark hmark => ?_) (.of_role (by simp)) hboth.bound
    (bound_type drawn_noneType)⟩
  · exact forall_mem_function (fun mark hmark => bound_mark (by simp_all [builtinDecorators]) _)
      (.of_role (by simp)) hself.bound (bound_type hvalue)
  · rw [List.mem_singleton.mp hmark]
    exact ⟨fun _ => .inr (.inr ⟨name, hproperty, rfl⟩), by simp⟩

theorem bound_propertyStubs {p : Property}
    (h : ∀ t ∈ references (.property p), Usable declared t) :
    Throughout (Bound declared) (propertyStubs p) := by
  rw [references, List.forall_mem_cons] at h
  obtain ⟨htype, hindices⟩ := h
  have hself : DrawnParameters declared [.receiver] := drawnParameters_receiver drawnParameters_nil
  rw [propertyStubs]
  split
  · rename_i index rest hindex
    rw [hindex] at hindices
    exact bound_indexerStubs htype (hindices index.type List.mem_cons_self)
  · split
    · exact bound_declare p.name htype.drawn
    · split
      · exact bound_accessors p.name htype.drawn
      · exact bound_function (by simp [builtinDecorators]) hself htype.drawn

theorem bound_fieldStub {f : Field} (h : Usable declared f.type) :
    Throughout (Bound declared) [fieldStub f] := by
  have hclassVar : "ClassVar" ∈ importedNames Package.header := by
    rw [importedNames_header]
    decide
  refine bound_declare f.name ?_
  split
  · exact drawn_applied (drawn_of_isIdentifier (by decide) (.inr (.inl hclassVar)))
      (List.forall_mem_singleton.mpr h.drawn)
  · exact h.drawn

theorem overload_imported : ∀ several, ∀ mark ∈ overloadIf several,
    mark ∈ builtinDecorators ++ importedNames Package.header := by
  rw [importedNames_header]
  decide

theorem bound_operatorStubs {m : Method} (symbol : String)
    (h : ∀ t ∈ references (.method m), Usable declared t) :
    Throughout (Bound declared) (operatorStubs m symbol) := by
  rw [references, List.forall_mem_cons] at h
  have hparameters := drawnParameters_receiver (drawnParameters_parameters h.2)
  rw [operatorStubs]
  split
  · exact .nil
  · split
    · exact bound_function (overload_imported true) hparameters drawn_noneType
    · exact bound_function (by simp) hparameters h.1.drawn

theorem bound_methodStub {m : Method} (overloaded : Bool)
    (h : ∀ t ∈ references (.method m), Usable declared t) :
    Throughout (Bound declared) [methodStub overloaded m] := by
  rw [references, List.forall_mem_cons] at h
  have hparameters := drawnParameters_parameters h.2
  refine bound_function (List.forall_mem_append.mpr ⟨overload_imported overloaded, ?_⟩) ?_
    h.1.drawn
  · split
    · simp [builtinDecorators]
    · simp
  · split
    · exact hparameters
    · exact drawnParameters_receiver hparameters

theorem bound_of_leaves {m : Member} {chunk : List Statement} (h : Leaves m chunk)
    (husable : ∀ t ∈ references m, Usable declared t) : Throughout (Bound declared) chunk := by
  cases h with
  | constructor overloaded c =>
      exact bound_function (overload_imported overloaded)
        (drawnParameters_receiver (drawnParameters_parameters husable)) drawn_noneType
  | property p => exact bound_propertyStubs husable
  | field f => exact bound_fieldStub (husable f.type List.mem_cons_self)
  | operator hsymbol => exact bound_operatorStubs _ husable
  | method overloaded hplain => exact bound_methodStub overloaded husable

theorem bound_of_mem_ownPieces {t : TypeInfo}
    (h : ∀ m ∈ accepted t.members, ∀ r ∈ references m, Usable declared r) :
    ∀ p ∈ ownPieces t, Bound declared p := by
  have hbase : ∀ word ∈ words "Enum", word ∈ importedNames Package.header := by
    rw [importedNames_header]
    decide +kernel
  refine forall_mem_ownPieces (.of_role (by simp))
    ⟨by simp, fun _ word hword => .inr (.inl (hbase word hword))⟩
    (fun c _ => ⟨.of_role (by simp), .of_role (by simp)⟩) fun _ m hm chunk hleaves => ?_
  exact bound_of_leaves hleaves (h m hm)

end Members

/-- Outside quotes, the expression of a reference uses built-in types, what the header imports and
the declared types of the reference. So do all annotations of a stub, and its bases; its decorators
are built in, imported, or the setter of a property above. -/
theorem used_names_bound :
    (∀ r, Legible r →
      ∀ word ∈ words (typeExpr r).text, IsBound (declaredNames r) word) ∧
    ∀ t : TypeInfo, t.kind ≠ .unsupported → (∀ r ∈ referencesIn t, Legible r) → ∀ depth,
      ∃ s, stub? t = some s ∧ text? depth t = some (joined (s.pieces depth [])) ∧
        ∀ p ∈ s.pieces depth [], Bound ((referencesIn t).flatMap declaredNames) p := by
  refine ⟨fun r hr => (hr.drawn fun _ => id).each, fun t hkind hlegible depth => ?_⟩
  obtain ⟨s, hs, htext, hpieces⟩ := exists_pieces_of_stub hkind depth
  refine ⟨s, hs, htext, fun p hp => ?_⟩
  by_cases hmeant : isMeaningful p = true
  · obtain ⟨u, hu, hp⟩ := (hpieces p hmeant).mp hp
    refine bound_of_mem_ownPieces (fun m hm r hr => ?_) p hp
    have hmem : r ∈ referencesIn t :=
      List.mem_flatMap.mpr ⟨u, hu, List.mem_flatMap.mpr ⟨m, hm, hr⟩⟩
    exact ⟨hlegible r hmem, fun name hname => List.mem_flatMap.mpr ⟨r, hmem, hname⟩⟩
  · exact .of_role fun hrole => hmeant (isMeaningful_of_role hrole (by decide))

/-- A reference whose unknown type is not called by an identifier. -/
def regionsByName : TypeReference :=
  .collection .dictionary [.primitive .string, .named "Region`1" [.unresolved "a-b c"]]

/-- A class with a setter, an attribute of the class and a nested enumeration. -/
def atlas : TypeInfo where
  name := "Atlas"
  kind := .reference
  base := some "Game.Map"
  members :=
    [.property { name := "Regions", type := regionsByName, writable := true,
                 hasPublicSetter := true },
      .field { name := "Origin", type := .nullable (.named "Point" []), isStatic := true },
      .method { name := "Find", returnType := .primitive .bool, isStatic := true,
                parameters := [{ name := "at", type := .named "Point" [] },
                  { name := "hit", type := .primitive .object, direction := .outReference }] },
      .nested { name := "Scale", kind := .enumeration, constants := [⟨"Coarse", 0⟩] }]

theorem used_names_bound_in_atlas :
    Legible regionsByName ∧ words (typeExpr regionsByName).text = ["Dict", "str", "Region"] ∧
      (∀ word ∈ ["Dict", "str", "Region"], IsBound ["Region`1"] word) ∧
      atlas.kind ≠ .unsupported ∧ (∀ r ∈ referencesIn atlas, Legible r) ∧
      ∃ s, stub? atlas = some s ∧
        ∀ p ∈ s.pieces 1 [], Bound ["Region`1", "Point", "Point"] p := by
  have hlegible : Legible regionsByName := by decide +kernel
  have hwords : words (typeExpr regionsByName).text = ["Dict", "str", "Region"] := by
    decide +kernel
  have hreferences : ∀ r ∈ referencesIn atlas, Legible r := by decide +kernel
  obtain ⟨s, hs, -, hbound⟩ := used_names_bound.2 atlas (by decide) hreferences 1
  exact ⟨hlegible, hwords, hwords ▸ used_names_bound.1 regionsByName hlegible, by decide,
    hreferences, s, hs, hbound⟩

end StubTree.Stub
