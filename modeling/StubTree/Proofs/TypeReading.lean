import StubTree.Stub.TypeMapping

/-!
Type expressions can be read back from their texts. A text is read from left to
right, with the expressions around the present one kept on a stack; what is read
is the only expression with this text. So two references have the same text
exactly if they are the same up to what the mapping is meant to forget.
-/

namespace StubTree.Python.TypeExpr

section Reading

/-- The characters that give a type expression its structure. -/
def isMark (c : Char) : Bool := c = '[' || c = ']' || c = ',' || c = '"'

def IsPlain (name : String) : Prop := ∀ c ∈ name.toList, isMark c = false

instance (name : String) : Decidable (IsPlain name) :=
  List.decidableBAll (isMark · = false) name.toList

mutual

/-- No name holds a character that belongs to the structure. -/
def Plain : TypeExpr → Prop
  | .applied name args => IsPlain name ∧ AllPlain args
  | .forward name => IsPlain name

def AllPlain : List TypeExpr → Prop
  | [] => True
  | e :: rest => e.Plain ∧ AllPlain rest

end

/-- An expression whose arguments are being read, with those before the present one, the last of
them first. -/
structure Around where
  name : String
  args : List TypeExpr

/-- What has been read of the present expression. Characters are kept in reverse. -/
inductive Part where
  | name (chars : List Char)
  | quoted (chars : List Char)
  | whole (e : TypeExpr)
  /-- A comma, which is followed by a blank. -/
  | comma

structure Reading where
  around : List Around
  part : Part

/-- The expression that has been read if nothing more belongs to it. -/
def Part.finished? : Part → Option TypeExpr
  | .name chars => some (.leaf (String.ofList chars.reverse))
  | .whole e => some e
  | .quoted _ | .comma => none

/-- Ends an argument by a comma or by the bracket that closes the arguments. -/
def endArgument (e : TypeExpr) (c : Char) : List Around → Option Reading
  | [] => none
  | ⟨name, args⟩ :: outer =>
    if c = ',' then some ⟨⟨name, e :: args⟩ :: outer, .comma⟩
    else if c = ']' then some ⟨outer, .whole (.applied name (e :: args).reverse)⟩
    else none

def advance (r : Reading) (c : Char) : Option Reading :=
  match r.part with
  | .name chars =>
    if !isMark c then some ⟨r.around, .name (c :: chars)⟩
    else if c = '[' then some ⟨⟨String.ofList chars.reverse, []⟩ :: r.around, .name []⟩
    else if c = '"' then
      if chars.isEmpty then some ⟨r.around, .quoted []⟩ else none
    else endArgument (.leaf (String.ofList chars.reverse)) c r.around
  | .quoted chars =>
    if !isMark c then some ⟨r.around, .quoted (c :: chars)⟩
    else if c = '"' then some ⟨r.around, .whole (.forward (String.ofList chars.reverse))⟩
    else none
  | .whole e => endArgument e c r.around
  | .comma => if c = ' ' then some ⟨r.around, .name []⟩ else none

/-- The expression that a text stands for. -/
def read? (text : String) : Option TypeExpr :=
  match text.toList.foldlM advance ⟨[], .name []⟩ with
  | some ⟨[], part⟩ => part.finished?
  | _ => none

end Reading

section Texts

variable {around : List Around} {name : String}

/-- A comma or a closing bracket ends whatever expression came before it. -/
theorem advance_finished (around : List Around) {part : Part} {e : TypeExpr} {c : Char}
    (hpart : part.finished? = some e) (hc : c = ',' ∨ c = ']') :
    advance ⟨around, part⟩ c = endArgument e c around := by
  have hmark : isMark c = true ∧ c ≠ '[' ∧ c ≠ '"' := by
    rcases hc with rfl | rfl <;> decide
  cases part with
  | name chars =>
      cases hpart
      simp [advance, hmark]
  | whole e' =>
      cases hpart
      rfl
  | quoted _ | comma => cases hpart

/-- A name is taken up character by character, with quotes around it or without. -/
theorem reads_plain {part : List Char → Part}
    (hstep : ∀ chars c, isMark c = false →
      advance ⟨around, part chars⟩ c = some ⟨around, part (c :: chars)⟩)
    (h : IsPlain name) :
    name.toList.foldlM advance ⟨around, part []⟩ = some ⟨around, part name.toList.reverse⟩ := by
  have hread (read rest : List Char) (hrest : ∀ c ∈ rest, isMark c = false) :
      rest.foldlM advance ⟨around, part read⟩ = some ⟨around, part (rest.reverse ++ read)⟩ := by
    induction rest generalizing read with
    | nil => rfl
    | cons c rest ih =>
        rw [List.forall_mem_cons] at hrest
        rw [List.foldlM_cons, hstep read c hrest.1]
        simpa using ih (c :: read) hrest.2
  simpa using hread [] name.toList h

theorem reads_name (h : IsPlain name) :
    name.toList.foldlM advance ⟨around, .name []⟩ = some ⟨around, .name name.toList.reverse⟩ :=
  reads_plain (fun chars c hc => by simp [advance, hc]) h

theorem reads_quoted (h : IsPlain name) :
    name.toList.foldlM advance ⟨around, .quoted []⟩ =
      some ⟨around, .quoted name.toList.reverse⟩ :=
  reads_plain (fun chars c hc => by simp [advance, hc]) h

mutual

/-- At the place of an expression, its text is read as the expression, whatever is around it. -/
theorem reads_text (e : TypeExpr) (h : e.Plain) (around : List Around) :
    ∃ part, e.text.toList.foldlM advance ⟨around, .name []⟩ = some ⟨around, part⟩ ∧
      part.finished? = some e := by
  match e with
  | .applied name [] =>
    refine ⟨_, reads_name h.1, ?_⟩
    simp [Part.finished?, leaf, text]
  | .applied name (first :: rest) =>
    obtain ⟨hname, hfirst, hrest⟩ := h
    obtain ⟨part, hpart, hfinished⟩ := reads_text first hfirst (⟨name, []⟩ :: around)
    refine ⟨.whole (.applied name (first :: rest)), ?_, rfl⟩
    have hopen : advance ⟨around, .name name.toList.reverse⟩ '[' =
        some ⟨⟨name, []⟩ :: around, .name []⟩ := by
      simp [advance, isMark]
    have hread := reads_rest rest hrest hfinished name [] around
    simp only [text, String.toList_append, List.foldlM_append, reads_name hname] at hread ⊢
    simpa [hopen, hpart] using hread
  | .forward name =>
    refine ⟨.whole (.forward name), ?_, rfl⟩
    simp only [text, String.toList_append, List.foldlM_append]
    have hopen : advance ⟨around, .name []⟩ '"' = some ⟨around, .quoted []⟩ := rfl
    have hclose : advance ⟨around, .quoted name.toList.reverse⟩ '"' =
        some ⟨around, .whole (.forward name)⟩ := by
      simp [advance, isMark]
    simp [hopen, reads_quoted h, hclose]

/-- Behind an argument, the others are read up to the closing bracket. -/
theorem reads_rest (es : List TypeExpr) (h : AllPlain es) {part : Part} {e : TypeExpr}
    (hpart : part.finished? = some e) (name : String) (args : List TypeExpr)
    (outer : List Around) :
    (textOfRest es ++ "]").toList.foldlM advance ⟨⟨name, args⟩ :: outer, part⟩ =
      some ⟨outer, .whole (.applied name (args.reverse ++ e :: es))⟩ := by
  match es with
  | [] =>
    have hclose := advance_finished (⟨name, args⟩ :: outer) hpart (.inr rfl)
    simp [textOfRest, hclose, endArgument]
  | t :: rest =>
    obtain ⟨part', hpart', hfinished⟩ := reads_text t h.1 (⟨name, e :: args⟩ :: outer)
    have hcomma := advance_finished (⟨name, args⟩ :: outer) hpart (.inl rfl)
    have hblank : advance ⟨⟨name, e :: args⟩ :: outer, .comma⟩ ' ' =
        some ⟨⟨name, e :: args⟩ :: outer, .name []⟩ := rfl
    have hread := reads_rest rest h.2 hfinished name (e :: args) outer
    simp only [textOfRest, String.toList_append, List.foldlM_append] at hread ⊢
    simpa [hcomma, endArgument, hblank, hpart'] using hread

end

theorem read?_text {e : TypeExpr} (h : e.Plain) : read? e.text = some e := by
  obtain ⟨part, hread, hfinished⟩ := reads_text e h []
  rw [read?, hread]
  exact hfinished

/-- No two plain expressions have the same text. -/
theorem text_injective {e e' : TypeExpr} (h : e.Plain) (h' : e'.Plain)
    (heq : e.text = e'.text) : e = e' := by
  have hread := read?_text h
  rw [heq, read?_text h'] at hread
  exact (Option.some.inj hread).symm

end Texts

end StubTree.Python.TypeExpr

namespace StubTree.Stub

open Metadata Python

section Erasure

/-- The name under which a collection is written. -/
def collectionName : Collection → String
  | .list | .sequence => "List"
  | .set => "Set"
  | .dictionary => "Dict"

def collectionArity : Collection → Nat
  | .list | .sequence | .set => 1
  | .dictionary => 2

/-- The first `n` arguments. Those that are missing may be anything. -/
def exactly (n : Nat) (args : List TypeExpr) : List TypeExpr :=
  (args ++ List.replicate n (TypeExpr.leaf "Any")).take n

mutual

/-- What is left of a reference: a tree of names. Primitives of one name become the same, and a
collection keeps as many arguments as it calls for. -/
def erased : TypeReference → TypeExpr
  | .primitive p => .leaf (primitiveName p)
  | .nullable inner => .applied "Optional" [erased inner]
  | .array element => .applied "List" [erased element]
  | .collection c args => .applied (collectionName c) (exactly (collectionArity c) (erasedAll args))
  | .named name args => .applied (stripArity name) (erasedAll args)
  | .delegate => .applied "Callable" [.leaf "...", .leaf "Any"]
  | .unresolved name => .forward name

def erasedAll : List TypeReference → List TypeExpr
  | [] => []
  | t :: rest => erased t :: erasedAll rest

end

mutual

/-- The names of declared and of unknown types, as they are written, are plain. -/
def PlainNames : TypeReference → Prop
  | .primitive _ | .delegate => True
  | .nullable t | .array t => PlainNames t
  | .collection _ args => AllPlainNames args
  | .named name args => TypeExpr.IsPlain (stripArity name) ∧ AllPlainNames args
  | .unresolved name => TypeExpr.IsPlain name

def AllPlainNames : List TypeReference → Prop
  | [] => True
  | t :: rest => PlainNames t ∧ AllPlainNames rest

end

mutual

def decidablePlainNames : (t : TypeReference) → Decidable (PlainNames t)
  | .primitive _ | .delegate => .isTrue trivial
  | .nullable t | .array t => decidablePlainNames t
  | .collection _ args => decidableAllPlainNames args
  | .named _ args => @instDecidableAnd _ _ inferInstance (decidableAllPlainNames args)
  | .unresolved name => inferInstanceAs (Decidable (TypeExpr.IsPlain name))

def decidableAllPlainNames : (ts : List TypeReference) → Decidable (AllPlainNames ts)
  | [] => .isTrue trivial
  | t :: rest => @instDecidableAnd _ _ (decidablePlainNames t) (decidableAllPlainNames rest)

end

instance (t : TypeReference) : Decidable (PlainNames t) := decidablePlainNames t

theorem collectionType_eq (c : Collection) (args : List TypeExpr) :
    collectionType c args = .applied (collectionName c) (exactly (collectionArity c) args) := by
  cases c with
  | list | sequence | set => cases args <;> rfl
  | dictionary =>
      match args with
      | [] | [_] | _ :: _ :: _ => rfl

mutual

theorem typeExpr_eq_erased (t : TypeReference) : typeExpr t = erased t := by
  match t with
  | .primitive _ | .delegate | .unresolved _ => rfl
  | .nullable t | .array t => simp only [typeExpr, erased, typeExpr_eq_erased t]
  | .collection c args => simp only [typeExpr, erased, collectionType_eq, typeExprs_eq args]
  | .named name args => simp only [typeExpr, erased, typeExprs_eq args]

theorem typeExprs_eq (ts : List TypeReference) : typeExprs ts = erasedAll ts := by
  match ts with
  | [] => rfl
  | t :: rest => simp only [typeExprs, erasedAll, typeExpr_eq_erased t, typeExprs_eq rest]

end

theorem allPlain_iff {es : List TypeExpr} : TypeExpr.AllPlain es ↔ ∀ e ∈ es, e.Plain := by
  induction es with
  | nil => simp [TypeExpr.AllPlain]
  | cons e rest ih => simp [TypeExpr.AllPlain, ih]

theorem allPlain_exactly {args : List TypeExpr} (h : TypeExpr.AllPlain args) (n : Nat) :
    TypeExpr.AllPlain (exactly n args) := by
  rw [allPlain_iff] at h ⊢
  intro e he
  cases List.mem_append.mp (List.mem_of_mem_take he) with
  | inl he => exact h e he
  | inr he =>
      rw [List.eq_of_mem_replicate he]
      exact ⟨by decide, trivial⟩

mutual

theorem plain_erased (t : TypeReference) (h : PlainNames t) : (erased t).Plain := by
  match t with
  | .primitive p => exact ⟨by cases p <;> decide, trivial⟩
  | .nullable t | .array t => exact ⟨by decide, plain_erased t h, trivial⟩
  | .collection c args =>
    exact ⟨by cases c <;> decide, allPlain_exactly (allPlain_erasedAll args h) _⟩
  | .named name args => exact ⟨h.1, allPlain_erasedAll args h.2⟩
  | .delegate => exact ⟨by decide, ⟨by decide, trivial⟩, ⟨by decide, trivial⟩, trivial⟩
  | .unresolved name => exact h

theorem allPlain_erasedAll (ts : List TypeReference) (h : AllPlainNames ts) :
    TypeExpr.AllPlain (erasedAll ts) := by
  match ts with
  | [] => trivial
  | t :: rest => exact ⟨plain_erased t h.1, allPlain_erasedAll rest h.2⟩

end

end Erasure

/-- The text of a reference is read back as what is left of the reference, so two references have
the same text exactly if the same is left of them. -/
theorem mapped_texts_eq_iff {a b : TypeReference} (ha : PlainNames a) (hb : PlainNames b) :
    TypeExpr.read? (typeExpr a).text = some (erased a) ∧
      ((typeExpr a).text = (typeExpr b).text ↔ erased a = erased b) := by
  rw [typeExpr_eq_erased, typeExpr_eq_erased]
  have hplain := plain_erased a ha
  refine ⟨TypeExpr.read?_text hplain, fun heq => ?_, fun heq => congrArg _ heq⟩
  exact TypeExpr.text_injective hplain (plain_erased b hb) heq

/-- A dictionary without the type of its values. -/
def keysOnly : TypeReference :=
  .collection .dictionary [.named "Key Part`1" [.unresolved ""]]

/-- A declared type that goes by the name of a dictionary. -/
def likeADictionary : TypeReference :=
  .named "Dict`2" [.named "Key Part" [.unresolved ""], .named "Any" []]

theorem plainNames_keysOnly : PlainNames keysOnly := by decide +kernel

theorem plainNames_likeADictionary : PlainNames likeADictionary := by decide +kernel

theorem erased_likeADictionary : erased keysOnly = erased likeADictionary := by
  simp only [keysOnly, likeADictionary, erased, erasedAll,
    show stripArity "Key Part`1" = "Key Part" by decide +kernel,
    show stripArity "Dict`2" = "Dict" by decide +kernel,
    show stripArity "Key Part" = "Key Part" by decide +kernel,
    show stripArity "Any" = "Any" by decide +kernel]
  rfl

/-- The two cannot be told apart by their texts, and not by what is left of them. -/
theorem mapped_texts_eq_of_same_tree :
    PlainNames keysOnly ∧ PlainNames likeADictionary ∧
      (typeExpr keysOnly).text = (typeExpr likeADictionary).text :=
  ⟨plainNames_keysOnly, plainNames_likeADictionary,
    (mapped_texts_eq_iff plainNames_keysOnly plainNames_likeADictionary).2.mpr
      erased_likeADictionary⟩

end StubTree.Stub
