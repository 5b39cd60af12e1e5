import Mathlib.Data.List.Forall2
import Mathlib.Data.List.TakeWhile
import StubTree.Proofs.TypeNames
import StubTree.Stub.Signature
import StubTree.Text.Blank

/-!
Parameter lists can be read back from their texts. A reader that keeps count of
brackets and quotes stands outside of them again behind every parameter, so the
commas that it sees there are those between parameters; and each piece shows
the star, the name, the type and the default value of one parameter.
-/

namespace StubTree.Python

open Text (ConsistsOf)
open TypeExpr (IsPlain isMark)

section Cutting

/-- The number of brackets that are open where a reader stands, and whether it is in quotes. -/
structure Nesting where
  depth : Nat
  quoted : Bool
deriving DecidableEq

namespace Nesting

def outside : Nesting := ⟨0, false⟩

/-- In quotes, a bracket is a character like any other. -/
def after (n : Nesting) (c : Char) : Nesting :=
  if c = '"' then ⟨n.depth, !n.quoted⟩
  else if n.quoted then n
  else if c = '[' then ⟨n.depth + 1, false⟩
  else if c = ']' then ⟨n.depth - 1, false⟩
  else n

def cutsAt (n : Nesting) (c : Char) : Bool := c = ',' && n = outside

/-- Goes on, unless the text is to be cut here. -/
def pass (n : Nesting) (c : Char) : Option Nesting :=
  if n.cutsAt c then none else some (n.after c)

end Nesting

/-- The parts of a text between the commas outside of brackets and quotes. -/
def cut (n : Nesting) : List Char → List (List Char)
  | [] => [[]]
  | c :: rest =>
    if n.cutsAt c then [] :: cut n rest else (cut (n.after c) rest).modifyHead (c :: ·)

/-- The pieces of a list, each without the blanks in front of it. An empty list has none. -/
def pieces (text : String) : List String :=
  if text = "" then []
  else (cut .outside text.toList).map fun cs => String.ofList (cs.dropWhile Text.isWhiteSpace)

theorem cut_append {n n' : Nesting} {cs : List Char} (h : cs.foldlM Nesting.pass n = some n')
    (rest : List Char) : cut n (cs ++ rest) = (cut n' rest).modifyHead (cs ++ ·) := by
  induction cs generalizing n with
  | nil =>
      cases h
      exact (congrFun List.modifyHead_id _).symm
  | cons c cs ih =>
      rw [List.foldlM_cons, Nesting.pass] at h
      split at h
      · cases h
      · rename_i hon
        rw [List.cons_append, cut, if_neg hon, ih h, List.modifyHead_modifyHead]
        rfl

theorem pass_of_plain (n : Nesting) {c : Char} (h : isMark c = false) : n.pass c = some n := by
  simp only [isMark, Bool.or_eq_false_iff, decide_eq_false_iff_not] at h
  obtain ⟨⟨⟨hopen, hclose⟩, hcomma⟩, hquote⟩ := h
  simp [Nesting.pass, Nesting.cutsAt, Nesting.after, hopen, hclose, hcomma, hquote]

theorem passes_plain (n : Nesting) {cs : List Char} (h : ∀ c ∈ cs, isMark c = false) :
    cs.foldlM Nesting.pass n = some n := by
  induction cs with
  | nil => rfl
  | cons c cs ih =>
      rw [List.forall_mem_cons] at h
      rw [List.foldlM_cons, pass_of_plain n h.1]
      exact ih h.2

mutual

theorem passes_text (e : TypeExpr) (h : e.Plain) (depth : Nat) :
    e.text.toList.foldlM Nesting.pass ⟨depth, false⟩ = some ⟨depth, false⟩ := by
  match e with
  | .applied name [] => exact passes_plain _ h.1
  | .applied name (first :: rest) =>
    obtain ⟨hname, hfirst, hrest⟩ := h
    have hopen : Nesting.pass ⟨depth, false⟩ '[' = some ⟨depth + 1, false⟩ := rfl
    have hclose : Nesting.pass ⟨depth + 1, false⟩ ']' = some ⟨depth, false⟩ := rfl
    simp only [TypeExpr.text, String.toList_append, List.foldlM_append, passes_plain _ hname]
    simp [hopen, passes_text first hfirst, passes_textOfRest rest hrest, hclose]
  | .forward name =>
    have hopen : Nesting.pass ⟨depth, false⟩ '"' = some ⟨depth, true⟩ := rfl
    have hclose : Nesting.pass ⟨depth, true⟩ '"' = some ⟨depth, false⟩ := rfl
    simp only [TypeExpr.text, String.toList_append, List.foldlM_append]
    simp [hopen, passes_plain _ h, hclose]

/-- The commas between arguments are inside of brackets. -/
theorem passes_textOfRest (es : List TypeExpr) (h : TypeExpr.AllPlain es) (depth : Nat) :
    (TypeExpr.textOfRest es).toList.foldlM Nesting.pass ⟨depth + 1, false⟩ =
      some ⟨depth + 1, false⟩ := by
  match es with
  | [] => rfl
  | e :: rest =>
    have hcomma : Nesting.pass ⟨depth + 1, false⟩ ',' = some ⟨depth + 1, false⟩ := by
      simp [Nesting.pass, Nesting.cutsAt, Nesting.after, Nesting.outside]
    have hblank : Nesting.pass ⟨depth + 1, false⟩ ' ' = some ⟨depth + 1, false⟩ := rfl
    simp only [TypeExpr.textOfRest, String.toList_append, List.foldlM_append]
    simp [hcomma, hblank, passes_text e h.1, passes_textOfRest rest h.2]

end

end Cutting

section Parameters

/-- What a name is made of, if the parts of a parameter are to be told apart. -/
def IsNameLike (c : Char) : Prop :=
  Text.isWhiteSpace c = false ∧ c ∉ [',', ':', '=', '*', '[', ']', '"']

instance (c : Char) : Decidable (IsNameLike c) := inferInstanceAs (Decidable (_ ∧ _))

/-- A type that is printed without a sign of equality, and with marks only around names. -/
def IsClear (t : TypeExpr) : Prop :=
  ∀ name ∈ t.names, ConsistsOf (fun c => isMark c = false ∧ c ≠ '=') name

instance (t : TypeExpr) : Decidable (IsClear t) := inferInstanceAs (Decidable (∀ _ ∈ t.names, _))

/-- A parameter whose parts can be told apart in its text. -/
structure IsReadable (p : Parameter) : Prop where
  named : p.name ≠ ""
  name : ConsistsOf IsNameLike p.name
  type : ∀ t, p.annotation = some t → IsClear t
  value : ∀ d, p.defaultText = some d → IsPlain d
  /-- There is no default value without a type. -/
  typed : p.annotation = none → p.defaultText = none

/-- What the text of a parameter shows. -/
structure Shown where
  starred : Bool
  name : String
  type : Option String
  value : Option String
deriving DecidableEq, Repr

namespace Parameter

def typeText? (p : Parameter) : Option String := p.annotation.map TypeExpr.text

def shown (p : Parameter) : Shown := ⟨p.starred, p.name, p.typeText?, p.defaultText⟩

end Parameter

namespace Shown

def text (s : Shown) : String :=
  (if s.starred then "*" else "") ++ s.name
    ++ (match s.type with
      | none => ""
      | some t => ": " ++ t)
    ++ (match s.value with
      | none => ""
      | some d => " = " ++ d)

/-- The type behind a colon, up to the sign of equality in front of the value. -/
def readType (rest : List Char) : Option String :=
  if rest.isEmpty then none
  else
    let type := (rest.drop 2).takeWhile (· != '=')
    some (String.ofList (if '=' ∈ rest then type.dropLast else type))

def readValue (rest : List Char) : Option String :=
  match rest.dropWhile (· != '=') with
  | [] => none
  | _ :: value => some (String.ofList (value.drop 1))

def readParts (starred : Bool) (chars : List Char) : Shown :=
  let rest := chars.dropWhile (· != ':')
  ⟨starred, String.ofList (chars.takeWhile (· != ':')), readType rest, readValue rest⟩

/-- What a piece of a list shows. -/
def read (piece : String) : Shown :=
  match piece.toList with
  | '*' :: chars => readParts true chars
  | chars => readParts false chars

end Shown

variable {p q : Parameter} {ps qs : List Parameter}

theorem IsReadable.plain (h : IsReadable p) {t : TypeExpr} (ht : p.annotation = some t) :
    t.Plain :=
  TypeExpr.plain_of_names t fun name hname c hc => (h.type t ht name hname c hc).1

theorem IsReadable.no_equals (h : IsReadable p) {t : TypeExpr} (ht : p.annotation = some t) :
    '=' ∉ t.text.toList := by
  intro hmem
  rcases TypeExpr.mem_text t hmem with hmark | hblank | ⟨name, hname, hc⟩
  · exact absurd hmark (by decide)
  · exact absurd hblank (by decide)
  · exact (h.type t ht name hname _ hc).2 rfl

theorem IsNameLike.not_mark {c : Char} (h : IsNameLike c) : isMark c = false := by
  have hmarks := h.2
  simp only [List.mem_cons, not_or] at hmarks
  simp [isMark, hmarks]

/-- The first character of a text is a star or belongs to the name. -/
theorem IsReadable.head (h : IsReadable p) :
    ∃ c rest, p.text.toList = c :: rest ∧ Text.isWhiteSpace c = false ∧
      (p.starred = false → c ≠ '*') := by
  obtain ⟨starred, name, annotation, value⟩ := p
  cases starred with
  | true => exact ⟨'*', _, by simp [Parameter.text]; rfl, by decide, by simp⟩
  | false =>
      cases hname : name.toList with
      | nil => exact absurd (String.toList_eq_nil_iff.mp hname) h.named
      | cons c rest =>
          have hlike : IsNameLike c := h.name c (by simp [hname])
          refine ⟨c, _, by simp [Parameter.text, hname]; rfl, hlike.1, fun _ hstar => ?_⟩
          exact hlike.2 (by simp [hstar])

/-- A reader that was outside of brackets and quotes is there again behind the text. -/
def EndsOutside (s : String) : Prop :=
  s.toList.foldlM Nesting.pass .outside = some .outside

theorem EndsOutside.append {s s' : String} (h : EndsOutside s) (h' : EndsOutside s') :
    EndsOutside (s ++ s') := by
  rw [EndsOutside, String.toList_append, List.foldlM_append, h]
  exact h'

theorem endsOutside_of_plain {s : String} (h : IsPlain s) : EndsOutside s :=
  passes_plain .outside h

theorem IsReadable.endsOutside (h : IsReadable p) : EndsOutside p.text := by
  refine EndsOutside.append (.append (.append ?_ ?_) ?_) ?_
  · split <;> exact endsOutside_of_plain (by decide)
  · exact endsOutside_of_plain fun c hc => (h.name c hc).not_mark
  · split
    · exact endsOutside_of_plain (by decide)
    · rename_i t ht
      exact (endsOutside_of_plain (by decide)).append (passes_text t (h.plain ht) 0)
  · split
    · exact endsOutside_of_plain (by decide)
    · rename_i d hd
      exact (endsOutside_of_plain (by decide)).append (endsOutside_of_plain (h.value d hd))

theorem parametersText_cons_cons (p q : Parameter) (rest : List Parameter) :
    parametersText (p :: q :: rest) = p.text ++ ", " ++ parametersText (q :: rest) :=
  String.intercalate_cons_cons

/-- Behind a comma, a piece begins with a blank. -/
theorem cut_parametersText (h : ∀ q ∈ p :: ps, IsReadable q) :
    cut .outside (parametersText (p :: ps)).toList =
      p.text.toList :: ps.map fun q => ' ' :: q.text.toList := by
  induction ps generalizing p with
  | nil =>
      have hcut := cut_append (h p List.mem_cons_self).endsOutside []
      rw [List.append_nil] at hcut
      rw [parametersText, List.map_singleton, String.intercalate_singleton, hcut]
      simp [cut]
  | cons q rest ih =>
      rw [List.forall_mem_cons] at h
      have hcomma : Nesting.cutsAt .outside ',' = true := rfl
      have hblank : Nesting.cutsAt .outside ' ' = false := rfl
      have hstays : Nesting.after .outside ' ' = .outside := rfl
      have hcut := cut_append h.1.endsOutside (", ".toList ++ (parametersText (q :: rest)).toList)
      rw [parametersText_cons_cons, String.toList_append, String.toList_append, List.append_assoc,
        hcut]
      simp [cut, hcomma, hblank, hstays, ih h.2]

theorem IsReadable.dropWhile_text (h : IsReadable p) :
    p.text.toList.dropWhile Text.isWhiteSpace = p.text.toList := by
  obtain ⟨c, rest, htext, hblank, -⟩ := h.head
  rw [htext, List.dropWhile_cons_of_neg (by simp [hblank])]

/-- The pieces of a list are the texts of its parameters. -/
theorem pieces_parametersText (h : ∀ p ∈ ps, IsReadable p) :
    pieces (parametersText ps) = ps.map Parameter.text := by
  cases ps with
  | nil => rfl
  | cons p rest =>
      have hcut := cut_parametersText h
      have hne : parametersText (p :: rest) ≠ "" := by
        intro hempty
        obtain ⟨c, more, htext, -⟩ := (h p List.mem_cons_self).head
        rw [hempty, htext] at hcut
        cases hcut
      have hmore : ∀ q ∈ rest,
          String.ofList ((' ' :: q.text.toList).dropWhile Text.isWhiteSpace) = q.text := by
        intro q hq
        rw [List.dropWhile_cons_of_pos (by decide),
          (h q (List.mem_cons_of_mem _ hq)).dropWhile_text, String.ofList_toList]
      rw [pieces, if_neg hne, hcut, List.map_cons, (h p List.mem_cons_self).dropWhile_text,
        String.ofList_toList, List.map_map, List.map_cons]
      exact congrArg _ (List.map_congr_left hmore)

section Reading

/-- Whatever contains no `c` is cut off at the first `c`, or at the end. -/
theorem span_ne {c : Char} {cs : List Char} (h : c ∉ cs) (rest : List Char)
    (hrest : ∀ d ∈ rest.head?, d = c) :
    (cs ++ rest).takeWhile (· != c) = cs ∧ (cs ++ rest).dropWhile (· != c) = rest := by
  have hall : ∀ d ∈ cs, (d != c) = true := by
    intro d hd
    rw [bne_iff_ne]
    rintro rfl
    exact h hd
  rw [List.takeWhile_append_of_pos hall, List.dropWhile_append_of_pos hall]
  cases rest with
  | nil => simp
  | cons d more => simp [hrest d rfl]

/-- The text of a parameter behind its name. -/
def Parameter.rest (p : Parameter) : List Char :=
  match p.annotation with
  | none => []
  | some t =>
    ": ".toList ++ t.text.toList ++
      match p.defaultText with
      | none => []
      | some d => " = ".toList ++ d.toList

theorem IsReadable.toList_text (h : IsReadable p) :
    p.text.toList = (if p.starred then ['*'] else []) ++ (p.name.toList ++ p.rest) := by
  obtain ⟨starred, name, annotation, value⟩ := p
  cases annotation with
  | none =>
      have hvalue : value = none := h.typed rfl
      subst hvalue
      cases starred <;> simp [Parameter.text, Parameter.rest]
  | some t => cases value <;> cases starred <;> simp [Parameter.text, Parameter.rest]

theorem IsReadable.read_rest (h : IsReadable p) :
    Shown.readType p.rest = p.typeText? ∧ Shown.readValue p.rest = p.defaultText := by
  obtain ⟨starred, name, annotation, value⟩ := p
  cases annotation with
  | none =>
      have hvalue : value = none := h.typed rfl
      subst hvalue
      exact ⟨rfl, rfl⟩
  | some t =>
      have hequals : '=' ∉ t.text.toList := h.no_equals rfl
      cases value with
      | none =>
          obtain ⟨htake, hdrop⟩ := span_ne hequals [] (by simp)
          rw [List.append_nil] at htake hdrop
          simp [Parameter.rest, Parameter.typeText?, Shown.readType, Shown.readValue, htake, hdrop,
            hequals]
      | some d =>
          -- The blank in front of the sign of equality is read with the type.
          have hblank : '=' ∉ t.text.toList ++ [' '] := by simp [hequals]
          obtain ⟨htake, hdrop⟩ := span_ne hblank ('=' :: ' ' :: d.toList) (by simp)
          rw [List.append_assoc, List.singleton_append] at htake hdrop
          simp [Parameter.rest, Parameter.typeText?, Shown.readType, Shown.readValue, htake, hdrop]

/-- A piece shows what the parameter is printed from. -/
theorem IsReadable.read_text (h : IsReadable p) : Shown.read p.text = p.shown := by
  have hcolon : ':' ∉ p.name.toList := fun hc => (h.name _ hc).2 (by simp)
  have hrest : ∀ d ∈ p.rest.head?, d = ':' := by
    rw [Parameter.rest]
    split <;> simp
  have hparts : Shown.readParts p.starred (p.name.toList ++ p.rest) = p.shown := by
    obtain ⟨hname, hbehind⟩ := span_ne hcolon p.rest hrest
    obtain ⟨htype, hvalue⟩ := h.read_rest
    rw [Shown.readParts, hname, hbehind, htype, hvalue, String.ofList_toList]
    rfl
  have htext := h.toList_text
  cases hstarred : p.starred with
  | true =>
      rw [hstarred] at hparts htext
      rw [Shown.read, htext]
      exact hparts
  | false =>
      obtain ⟨c, chars, hchars, -, hstar⟩ := h.head
      rw [hstarred] at hparts htext
      rw [Shown.read]
      split
      · rename_i chars' hchars'
        rw [hchars'] at hchars
        exact absurd (List.cons.inj hchars).1.symm (hstar hstarred)
      · rw [htext]
        exact hparts

theorem read_pieces (h : ∀ p ∈ ps, IsReadable p) :
    (pieces (parametersText ps)).map Shown.read = ps.map Parameter.shown := by
  rw [pieces_parametersText h, List.map_map]
  exact List.map_congr_left fun p hp => (h p hp).read_text

theorem text_shown (p : Parameter) : p.shown.text = p.text := by
  obtain ⟨starred, name, annotation, value⟩ := p
  cases annotation <;> rfl

/-- Readable lists have the same text exactly if their parameters show the same. -/
theorem parametersText_eq_iff (hp : ∀ p ∈ ps, IsReadable p) (hq : ∀ q ∈ qs, IsReadable q) :
    parametersText ps = parametersText qs ↔ ps.map Parameter.shown = qs.map Parameter.shown := by
  constructor
  · intro heq
    rw [← read_pieces hp, ← read_pieces hq, heq]
  · intro heq
    have htexts : ps.map Parameter.text = qs.map Parameter.text := by
      simpa only [List.map_map, Function.comp_def, text_shown] using
        congrArg (List.map Shown.text) heq
    rw [parametersText, htexts, parametersText]

end Reading

end Parameters

section Names

theorem safeName_cases (name : String) :
    (name = "" ∧ safeName name = "arg") ∨
      (name ∈ reservedWords ∧ safeName name = name ++ "_") ∨
      (name ≠ "" ∧ name ∉ reservedWords ∧ safeName name = name) := by
  rw [safeName]
  split
  · rename_i hempty
    exact .inl ⟨by simpa using hempty, rfl⟩
  · rename_i hne
    split
    · rename_i hreserved
      exact .inr (.inl ⟨by simpa [isReserved] using hreserved, rfl⟩)
    · rename_i hfree
      exact .inr (.inr ⟨by simpa using hne, by simpa [isReserved] using hfree, rfl⟩)

theorem safeName_ne_empty (name : String) : safeName name ≠ "" := by
  rcases safeName_cases name with ⟨-, hname⟩ | ⟨-, hname⟩ | ⟨hne, -, hname⟩ <;> rw [hname]
  · decide
  · intro hempty
    have hmark : '_' ∈ (name ++ "_").toList := by simp
    rw [hempty] at hmark
    cases hmark
  · exact hne

theorem consistsOf_safeName {sort : Char → Prop} {name : String} (h : ConsistsOf sort name)
    (hnameless : ConsistsOf sort "arg") (hmark : sort '_') : ConsistsOf sort (safeName name) := by
  rcases safeName_cases name with ⟨-, hname⟩ | ⟨-, hname⟩ | ⟨-, -, hname⟩ <;> rw [hname]
  · exact hnameless
  · rw [ConsistsOf, String.toList_append, List.forall_mem_append]
    exact ⟨h, fun c hc => List.mem_singleton.mp hc ▸ hmark⟩
  · exact h

end Names

end StubTree.Python

namespace StubTree.Stub

open Metadata Python
open Text (ConsistsOf)

/-- A default value without what separates parameters or types. -/
def SeparableDefault : Option DefaultValue → Prop
  | some (.literal token) => ConsistsOf (· ∉ [',', '[', ']', '"']) token
  | _ => True

instance : (value : Option DefaultValue) → Decidable (SeparableDefault value)
  | some (.literal token) => inferInstanceAs (Decidable (ConsistsOf _ token))
  | none | some .null | some (.boolean _) | some .nonPrimitive => .isTrue trivial

/-- A type whose names keep clear of what stands between types and around a type. -/
def SeparableType (t : TypeReference) : Prop :=
  ∀ name ∈ userNames t, ConsistsOf (· ∉ ['[', ']', ',', '"', ':', '=']) name

instance (t : TypeReference) : Decidable (SeparableType t) :=
  inferInstanceAs (Decidable (∀ _ ∈ userNames t, _))

/-- A parameter of the metadata whose texts keep clear of what separates parameters and their
parts. -/
structure IsSeparable (p : Metadata.Parameter) : Prop where
  name : ConsistsOf IsNameLike p.name
  type : SeparableType p.type
  value : SeparableDefault p.defaultValue

instance (p : Metadata.Parameter) : Decidable (IsSeparable p) :=
  decidable_of_iff
    (ConsistsOf IsNameLike p.name ∧ SeparableType p.type ∧ SeparableDefault p.defaultValue)
    ⟨fun h => ⟨h.1, h.2.1, h.2.2⟩, fun h => ⟨h.name, h.type, h.value⟩⟩

theorem isClear_typeExpr {t : TypeReference} (h : SeparableType t) : IsClear (typeExpr t) := by
  refine consistsOf_names_typeExpr (by decide) fun name hname c hc => ?_
  have hmarks := h name hname c hc
  simp only [List.mem_cons, not_or] at hmarks
  simp [TypeExpr.isMark, hmarks]

variable {p q : Metadata.Parameter} {ps qs : List Metadata.Parameter}

theorem IsSeparable.typedDefault (h : IsSeparable p) :
    IsClear (typedDefault (typeExpr p.type) p.defaultValue).1 ∧
      ∀ d, (typedDefault (typeExpr p.type) p.defaultValue).2 = some d → TypeExpr.IsPlain d := by
  have htype := isClear_typeExpr h.type
  have hliteral := h.value
  cases hvalue : p.defaultValue with
  | none => exact ⟨htype, by simp [Stub.typedDefault]⟩
  | some value =>
      cases value with
      | null =>
          refine ⟨fun name hname => ?_, fun d hd => ?_⟩
          · simp only [Stub.typedDefault, TypeExpr.names, TypeExpr.namesOfAll, List.append_nil,
              List.mem_cons] at hname
            rcases hname with rfl | hname
            · decide
            · exact htype name hname
          · cases hd
            decide
      | boolean b =>
          refine ⟨htype, fun d hd => ?_⟩
          cases hd
          cases b <;> decide
      | literal token =>
          refine ⟨htype, fun d hd c hc => ?_⟩
          cases hd
          rw [hvalue] at hliteral
          have hmarks := hliteral c hc
          simp only [List.mem_cons, not_or] at hmarks
          simp [TypeExpr.isMark, hmarks]
      | nonPrimitive =>
          refine ⟨htype, fun d hd => ?_⟩
          cases hd
          decide

theorem element?_eq_some {t element : TypeReference} :
    element? t = some element ↔ t = .array element := by
  cases t <;> simp [element?]

/-- The forms in which a parameter is written: with a star, as a result that is handed out, and with
the type and the default value that it declares. -/
theorem parameter_cases (p : Metadata.Parameter) :
    (∃ element, p.type = .array element ∧
        parameter p = ⟨true, safeName p.name, some (typeExpr element), none⟩) ∨
      parameter p = ⟨false, safeName p.name, some anyType, some noneText⟩ ∨
      parameter p = ⟨false, safeName p.name, some (typedDefault (typeExpr p.type) p.defaultValue).1,
        (typedDefault (typeExpr p.type) p.defaultValue).2⟩ := by
  rw [parameter]
  split
  · rename_i element helement
    refine .inl ⟨element, ?_, rfl⟩
    split at helement
    · exact element?_eq_some.mp helement
    · cases helement
  · split
    · exact .inr (.inl rfl)
    · exact .inr (.inr rfl)

theorem name_parameter (p : Metadata.Parameter) : (parameter p).name = safeName p.name := by
  rcases parameter_cases p with ⟨element, -, h⟩ | h | h <;> rw [h]

theorem IsSeparable.readable (h : IsSeparable p) : IsReadable (parameter p) := by
  have hname : ConsistsOf IsNameLike (safeName p.name) :=
    consistsOf_safeName h.name (by decide) (by decide)
  have hnamed := safeName_ne_empty p.name
  rcases parameter_cases p with ⟨element, htype, heq⟩ | heq | heq <;> rw [heq]
  · refine ⟨hnamed, hname, fun t ht => ?_, by simp, by simp⟩
    cases ht
    refine isClear_typeExpr fun name hmem => h.type name ?_
    rw [htype]
    exact hmem
  · refine ⟨hnamed, hname, fun t ht => ?_, fun d hd => ?_, by simp⟩
    · cases ht
      decide
    · cases hd
      decide
  · obtain ⟨htype, hvalue⟩ := h.typedDefault
    refine ⟨hnamed, hname, fun t ht => ?_, hvalue, by simp⟩
    cases ht
    exact htype

theorem readable_parameters (h : ∀ p ∈ ps, IsSeparable p) :
    ∀ p ∈ parameters ps, IsReadable p :=
  List.forall_mem_map.mpr fun p hp => (h p hp).readable

theorem readable_withReceiver (h : ∀ p ∈ ps, IsSeparable p) :
    ∀ p ∈ withReceiver ps, IsReadable p := by
  refine List.forall_mem_cons.mpr ⟨⟨by decide, by decide, ?_, ?_, fun _ => rfl⟩,
    readable_parameters h⟩
  · intro t ht
    cases ht
  · intro d hd
    cases hd

/-- The texts of two parameters show the same. -/
structure PrintedAlike (p q : Metadata.Parameter) : Prop where
  starred : (parameter p).starred = (parameter q).starred
  name : safeName p.name = safeName q.name
  type : (parameter p).typeText? = (parameter q).typeText?
  value : (parameter p).defaultText = (parameter q).defaultText

theorem shown_parameter_eq_iff :
    (parameter p).shown = (parameter q).shown ↔ PrintedAlike p q := by
  simp only [Parameter.shown, Shown.mk.injEq, name_parameter]
  exact ⟨fun ⟨hstarred, hname, htype, hvalue⟩ => ⟨hstarred, hname, htype, hvalue⟩,
    fun h => ⟨h.starred, h.name, h.type, h.value⟩⟩

theorem shown_parameters_eq_iff :
    (parameters ps).map Parameter.shown = (parameters qs).map Parameter.shown ↔
      List.Forall₂ PrintedAlike ps qs := by
  rw [parameters, parameters, List.map_map, List.map_map, ← List.forall₂_eq_eq_eq,
    List.forall₂_map_left_iff, List.forall₂_map_right_iff]
  simp only [Function.comp_apply, shown_parameter_eq_iff]

/-- A list is cut into one piece for each parameter, behind the receiver if there is one, and two
lists have the same text exactly if they show the same position by position. -/
theorem parameter_lists_read_back (hps : ∀ p ∈ ps, IsSeparable p) (hqs : ∀ q ∈ qs, IsSeparable q) :
    pieces (parametersText (parameters ps)) = ps.map (fun p => (parameter p).text) ∧
      pieces (parametersText (withReceiver ps)) =
        "self" :: ps.map (fun p => (parameter p).text) ∧
      (parametersText (parameters ps) = parametersText (parameters qs) ↔
        List.Forall₂ PrintedAlike ps qs) ∧
      (parametersText (withReceiver ps) = parametersText (withReceiver qs) ↔
        List.Forall₂ PrintedAlike ps qs) := by
  have hreceiver : (withReceiver ps).map Parameter.shown = (withReceiver qs).map Parameter.shown ↔
      (parameters ps).map Parameter.shown = (parameters qs).map Parameter.shown :=
    ⟨fun h => (List.cons.inj h).2, congrArg _⟩
  refine ⟨?_, ?_, ?_, ?_⟩
  · rw [pieces_parametersText (readable_parameters hps), parameters, List.map_map]
    rfl
  · rw [pieces_parametersText (readable_withReceiver hps), withReceiver, List.map_cons, parameters,
      List.map_map]
    rfl
  · rw [parametersText_eq_iff (readable_parameters hps) (readable_parameters hqs),
      shown_parameters_eq_iff]
  · rw [parametersText_eq_iff (readable_withReceiver hps) (readable_withReceiver hqs), hreceiver,
      shown_parameters_eq_iff]

/-- A table of prices, a rate, a callback that may be missing and any number of names. -/
def tariffParameters : List Metadata.Parameter :=
  [{ name := "from",
     type := .collection .dictionary [.primitive .string, .array (.nullable (.primitive .int64))] },
    { name := "rate", type := .named "Rate`1" [.unresolved "Unit"],
      defaultValue := some (.literal "1.5") },
    { type := .delegate, defaultValue := some .null },
    { name := "names", type := .array (.primitive .char), variadic := true }]

/-- Other types under other names that are printed alike. -/
def likeTariffParameters : List Metadata.Parameter :=
  [{ name := "from_",
     type := .named "Dict`2" [.named "str" [],
      .collection .sequence [.named "Optional" [.primitive .byte], .delegate]] },
    { name := "rate", type := .named "Rate" [.unresolved "Unit"], variadic := true,
      defaultValue := some (.literal "1.5") },
    { name := "arg", type := .delegate, direction := .inReference, defaultValue := some .null },
    { name := "names", type := .array (.primitive .string), variadic := true,
      defaultValue := some .nonPrimitive }]

theorem isSeparable_tariffParameters : ∀ p ∈ tariffParameters, IsSeparable p := by decide +kernel

theorem isSeparable_likeTariffParameters : ∀ p ∈ likeTariffParameters, IsSeparable p := by
  decide +kernel

theorem printedAlike_tariffParameters :
    List.Forall₂ PrintedAlike tariffParameters likeTariffParameters := by
  refine .cons ?_ (.cons ?_ (.cons ?_ (.cons ?_ .nil)))
  all_goals exact ⟨by decide +kernel, by decide +kernel, by decide +kernel, by decide +kernel⟩

theorem tariff_lists_read_back :
    (∀ p ∈ tariffParameters, IsSeparable p) ∧ (∀ q ∈ likeTariffParameters, IsSeparable q) ∧
      pieces (parametersText (withReceiver tariffParameters)) =
        ["self", "from_: Dict[str, List[Optional[int]]]", "rate: Rate[\"Unit\"] = 1.5",
          "arg: Optional[Callable[..., Any]] = None", "*names: str"] ∧
      parametersText (withReceiver tariffParameters) =
        parametersText (withReceiver likeTariffParameters) := by
  have hread := parameter_lists_read_back isSeparable_tariffParameters
    isSeparable_likeTariffParameters
  refine ⟨isSeparable_tariffParameters, isSeparable_likeTariffParameters, ?_,
    hread.2.2.2.mpr printedAlike_tariffParameters⟩
  rw [hread.2.1]
  decide +kernel

end StubTree.Stub
