import StubTree.Proofs.TypeReading

/-!
The names in a type expression. A text has no other characters than those of
its names, brackets, quotes, commas and blanks; and the names in the expression
of a reference are those of the reference, without their arities, and a few of
the mapping itself.
-/

namespace StubTree

/-- Every character of a text is of a sort. -/
def Text.ConsistsOf (sort : Char → Prop) (s : String) : Prop := ∀ c ∈ s.toList, sort c

instance (sort : Char → Prop) [DecidablePred sort] (s : String) :
    Decidable (Text.ConsistsOf sort s) :=
  List.decidableBAll sort s.toList

end StubTree

namespace StubTree.Python.TypeExpr

mutual

/-- From left to right. -/
def names : TypeExpr → List String
  | .applied name args => name :: namesOfAll args
  | .forward name => [name]

def namesOfAll : List TypeExpr → List String
  | [] => []
  | e :: rest => e.names ++ namesOfAll rest

end

theorem mem_namesOfAll {name : String} {es : List TypeExpr} :
    name ∈ namesOfAll es ↔ ∃ e ∈ es, name ∈ e.names := by
  induction es with
  | nil => simp [namesOfAll]
  | cons e rest ih => simp [namesOfAll, ih]

mutual

theorem plain_of_names (e : TypeExpr) (h : ∀ name ∈ e.names, IsPlain name) : e.Plain := by
  match e with
  | .applied name args =>
    simp only [names, List.forall_mem_cons] at h
    exact ⟨h.1, allPlain_of_names args h.2⟩
  | .forward name => exact h name (List.mem_singleton.mpr rfl)

theorem allPlain_of_names (es : List TypeExpr) (h : ∀ name ∈ namesOfAll es, IsPlain name) :
    AllPlain es := by
  match es with
  | [] => trivial
  | e :: rest =>
    simp only [namesOfAll, List.forall_mem_append] at h
    exact ⟨plain_of_names e h.1, allPlain_of_names rest h.2⟩

end

mutual

theorem mem_text (e : TypeExpr) {c : Char} (h : c ∈ e.text.toList) :
    isMark c = true ∨ c = ' ' ∨ ∃ name ∈ e.names, c ∈ name.toList := by
  match e with
  | .applied name [] => exact .inr (.inr ⟨name, List.mem_cons_self, h⟩)
  | .applied name (first :: rest) =>
    simp only [text, String.toList_append, List.mem_append] at h
    rcases h with (((h | h) | h) | h) | h
    · exact .inr (.inr ⟨name, List.mem_cons_self, h⟩)
    · rw [List.mem_singleton.mp h]
      exact .inl rfl
    · refine (mem_text first h).imp id (Or.imp id fun ⟨n, hn, hc⟩ => ⟨n, ?_, hc⟩)
      exact List.mem_cons_of_mem _ (List.mem_append_left _ hn)
    · refine (mem_textOfRest rest h).imp id (Or.imp id fun ⟨n, hn, hc⟩ => ⟨n, ?_, hc⟩)
      exact List.mem_cons_of_mem _ (List.mem_append_right _ hn)
    · rw [List.mem_singleton.mp h]
      exact .inl rfl
  | .forward name =>
    simp only [text, String.toList_append, List.mem_append] at h
    rcases h with (h | h) | h
    · rw [List.mem_singleton.mp h]
      exact .inl rfl
    · exact .inr (.inr ⟨name, List.mem_singleton.mpr rfl, h⟩)
    · rw [List.mem_singleton.mp h]
      exact .inl rfl

theorem mem_textOfRest (es : List TypeExpr) {c : Char} (h : c ∈ (textOfRest es).toList) :
    isMark c = true ∨ c = ' ' ∨ ∃ name ∈ namesOfAll es, c ∈ name.toList := by
  match es with
  | [] => cases h
  | e :: rest =>
    simp only [textOfRest, String.toList_append, List.mem_append] at h
    rcases h with (h | h) | h
    · have hseparator : c = ',' ∨ c = ' ' := by simpa using h
      rcases hseparator with rfl | rfl
      · exact .inl rfl
      · exact .inr (.inl rfl)
    · refine (mem_text e h).imp id (Or.imp id fun ⟨n, hn, hc⟩ => ⟨n, ?_, hc⟩)
      exact List.mem_append_left _ hn
    · refine (mem_textOfRest rest h).imp id (Or.imp id fun ⟨n, hn, hc⟩ => ⟨n, ?_, hc⟩)
      exact List.mem_append_right _ hn

end

end StubTree.Python.TypeExpr

namespace StubTree.Stub

open Metadata Python
open Text (ConsistsOf)

mutual

/-- The names of declared and of unknown types. -/
def userNames : TypeReference → List String
  | .primitive _ | .delegate => []
  | .nullable t | .array t => userNames t
  | .collection _ args => userNamesOfAll args
  | .named name args => name :: userNamesOfAll args
  | .unresolved name => [name]

def userNamesOfAll : List TypeReference → List String
  | [] => []
  | t :: rest => userNames t ++ userNamesOfAll rest

end

/-- The names that the mapping brings in. -/
def mappedNames : List String :=
  ["None", "bool", "int", "float", "str", "Any", "datetime", "Optional", "List", "Set", "Dict",
    "Callable", "..."]

section Arities

variable {rest mark : String}

/-- A backtick with decimal digits behind it, of any script, but at least one. -/
def IsArityMark (mark : String) : Prop :=
  ∃ digits : List Char, mark.toList = '\x60' :: digits ∧ digits ≠ [] ∧
    ∀ c ∈ digits, Text.isDecimalDigit c = true

theorem stripArity_append (h : IsArityMark mark) (rest : String) :
    stripArity (rest ++ mark) = rest := by
  obtain ⟨digits, hmark, hne, hdigits⟩ := h
  have hreversed : (rest ++ mark).toList.reverse =
      digits.reverse ++ '\x60' :: rest.toList.reverse := by
    rw [String.toList_append, hmark, List.reverse_append, List.reverse_cons, List.append_assoc]
    rfl
  have hall : ∀ c ∈ digits.reverse, Text.isDecimalDigit c = true := fun c hc =>
    hdigits c (List.mem_reverse.mp hc)
  -- the backtick is no digit, so the digits end there
  have hend : ¬ Text.isDecimalDigit '\x60' = true := by decide +kernel
  have htaken : (rest ++ mark).toList.reverse.takeWhile Text.isDecimalDigit = digits.reverse := by
    rw [hreversed, List.takeWhile_append_of_pos hall, List.takeWhile_cons_of_neg hend,
      List.append_nil]
  have hleft : (rest ++ mark).toList.reverse.dropWhile Text.isDecimalDigit =
      '\x60' :: rest.toList.reverse := by
    rw [hreversed, List.dropWhile_append_of_pos hall, List.dropWhile_cons_of_neg hend]
  obtain ⟨d, ds, hcons⟩ := List.exists_cons_of_ne_nil (mt List.reverse_eq_nil_iff.mp hne)
  simp only [stripArity, htaken, hleft, hcons]
  rw [List.reverse_reverse, String.ofList_toList]

/-- Either nothing is taken off a name, or a mark at its end. -/
theorem stripArity_cases (name : String) :
    stripArity name = name ∨ ∃ mark, IsArityMark mark ∧ name = stripArity name ++ mark := by
  have hsplit := List.takeWhile_append_dropWhile
    (p := Text.isDecimalDigit) (l := name.toList.reverse)
  simp only [stripArity]
  split
  · rename_i d ds others hdigits hothers
    refine .inr ⟨String.ofList ('\x60' :: (d :: ds).reverse), ⟨_, String.toList_ofList, by simp,
      fun c hc => ?_⟩, ?_⟩
    · rw [List.mem_reverse, ← hdigits] at hc
      exact List.all_eq_true.mp List.all_takeWhile c hc
    · apply String.toList_injective
      rw [hdigits, hothers] at hsplit
      rw [String.toList_append, String.toList_ofList, String.toList_ofList,
        ← List.reverse_reverse name.toList, ← hsplit]
      simp
  · exact .inl rfl

/-- A name ends in one mark at most, and loses that and nothing else. -/
theorem stripArity_removes_final_mark (name : String) :
    (∃ rest mark, IsArityMark mark ∧ name = rest ++ mark ∧ stripArity name = rest ∧
      ∀ rest' mark', IsArityMark mark' → name = rest' ++ mark' → rest' = rest ∧ mark' = mark) ∨
    (∀ rest mark, IsArityMark mark → name ≠ rest ++ mark) ∧ stripArity name = name := by
  by_cases hends : ∃ rest mark, IsArityMark mark ∧ name = rest ++ mark
  · obtain ⟨rest, mark, hmark, rfl⟩ := hends
    refine .inl ⟨rest, mark, hmark, rfl, stripArity_append hmark rest, ?_⟩
    intro rest' mark' hmark' heq
    have hrest : rest' = rest := by
      rw [← stripArity_append hmark' rest', ← heq, stripArity_append hmark]
    subst hrest
    exact ⟨rfl, ((String.append_right_inj rest').mp heq).symm⟩
  · refine .inr ⟨fun rest mark hmark heq => hends ⟨rest, mark, hmark, heq⟩, ?_⟩
    rcases stripArity_cases name with hsame | ⟨mark, hmark, heq⟩
    · exact hsame
    · exact absurd ⟨_, mark, hmark, heq⟩ hends

example : stripArity "A`1`2" = "A`1" ∧ stripArity "A`" = "A`" ∧ stripArity "A`1\n" = "A`1\n" := by
  decide +kernel

end Arities

/-- The rest of a name is a part of it. -/
theorem mem_stripArity {name : String} {c : Char} (h : c ∈ (stripArity name).toList) :
    c ∈ name.toList := by
  rcases stripArity_cases name with hsame | ⟨mark, -, heq⟩
  · rwa [hsame] at h
  · rw [heq, String.toList_append]
    exact List.mem_append_left _ h

theorem mem_names_exactly {args : List TypeExpr} {n : Nat} {name : String}
    (h : name ∈ TypeExpr.namesOfAll (exactly n args)) :
    name = "Any" ∨ name ∈ TypeExpr.namesOfAll args := by
  obtain ⟨e, he, hname⟩ := TypeExpr.mem_namesOfAll.mp h
  cases List.mem_append.mp (List.mem_of_mem_take he) with
  | inl he => exact .inr (TypeExpr.mem_namesOfAll.mpr ⟨e, he, hname⟩)
  | inr he =>
      rw [List.eq_of_mem_replicate he] at hname
      exact .inl (List.mem_singleton.mp hname)

/-- A name that is written for a reference. -/
def IsWritten (names : List String) (name : String) : Prop :=
  name ∈ mappedNames ∨ ∃ user ∈ names, name = user ∨ name = stripArity user

theorem IsWritten.mono {names names' : List String} {name : String} (h : IsWritten names name)
    (hmore : ∀ user ∈ names, user ∈ names') : IsWritten names' name :=
  h.imp id fun ⟨user, huser, hname⟩ => ⟨user, hmore user huser, hname⟩

mutual

theorem isWritten_erased (t : TypeReference) {name : String} (h : name ∈ (erased t).names) :
    IsWritten (userNames t) name := by
  match t with
  | .primitive p =>
    refine .inl ?_
    rw [List.mem_singleton.mp h]
    cases p <;> decide
  | .delegate =>
    refine .inl ?_
    revert name
    decide
  | .nullable t | .array t =>
    simp only [erased, TypeExpr.names, TypeExpr.namesOfAll, List.append_nil, List.mem_cons] at h
    rcases h with rfl | h
    · exact .inl (by decide)
    · exact isWritten_erased t h
  | .collection c args =>
    rcases List.mem_cons.mp h with rfl | h
    · exact .inl (by cases c <;> decide)
    · rcases mem_names_exactly h with rfl | h
      · exact .inl (by decide)
      · exact isWritten_erasedAll args h
  | .named user args =>
    rcases List.mem_cons.mp h with rfl | h
    · exact .inr ⟨user, List.mem_cons_self, .inr rfl⟩
    · exact (isWritten_erasedAll args h).mono fun _ => List.mem_cons_of_mem _
  | .unresolved user => exact .inr ⟨user, List.mem_cons_self, .inl (List.mem_singleton.mp h)⟩

theorem isWritten_erasedAll (ts : List TypeReference) {name : String}
    (h : name ∈ TypeExpr.namesOfAll (erasedAll ts)) : IsWritten (userNamesOfAll ts) name := by
  match ts with
  | [] => cases h
  | t :: rest =>
    rcases List.mem_append.mp h with h | h
    · exact (isWritten_erased t h).mono fun _ => List.mem_append_left _
    · exact (isWritten_erasedAll rest h).mono fun _ => List.mem_append_right _

end

/-- Where the names of a reference consist of a sort of characters that includes those of the mapping
itself, so do the names in its expression. -/
theorem consistsOf_names_typeExpr {sort : Char → Prop} {t : TypeReference}
    (hmapped : ∀ name ∈ mappedNames, ConsistsOf sort name)
    (h : ∀ name ∈ userNames t, ConsistsOf sort name) :
    ∀ name ∈ (typeExpr t).names, ConsistsOf sort name := by
  intro name hname
  rw [typeExpr_eq_erased] at hname
  rcases isWritten_erased t hname with hmem | ⟨user, huser, rfl | rfl⟩
  · exact hmapped name hmem
  · exact h name huser
  · exact fun c hc => h user huser c (mem_stripArity hc)

end StubTree.Stub
