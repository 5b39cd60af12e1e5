import StubTree.Proofs.Segments
import StubTree.Python.Identifier
import StubTree.Python.Statement

/-!
Lines of a stub as their reader sees them: how far a line is indented, what
stands behind the blanks, and what it declares. A condition on a line and what
follows it is asked of every line of a text by `EveryTail`.
-/

namespace StubTree.Python

def OneLine (s : String) : Prop := '\n' ∉ s.toList

instance (s : String) : Decidable (OneLine s) := inferInstanceAs (Decidable ('\n' ∉ s.toList))

/-- The last line of a text may be left without an end. -/
def linesOf (text : String) : List String :=
  let pieces := Text.segments '\n' text
  if pieces.getLast? = some "" then pieces.dropLast else pieces

def indentOf (line : String) : Nat := (line.toList.takeWhile (· = ' ')).length

/-- What stands behind the blanks at the beginning of a line. -/
def codeOf (line : String) : List Char := line.toList.dropWhile (· = ' ')

section Names

def keywords : List String :=
  ["False", "None", "True", "and", "as", "assert", "async", "await", "break", "class",
    "continue", "def", "del", "elif", "else", "except", "finally", "for", "from", "global",
    "if", "import", "in", "is", "lambda", "nonlocal", "not", "or", "pass", "raise", "return",
    "try", "while", "with", "yield"]

/-- All characters beyond ASCII are taken for letters. -/
def isNameStart (c : Char) : Bool := c.isAlpha || c = '_' || 127 < c.toNat

def isNamePart (c : Char) : Bool := isNameStart c || c.isDigit

def isIdentifier (s : String) : Bool :=
  match s.toList with
  | [] => false
  | c :: rest => isNameStart c && rest.all isNamePart

/-- Identifiers that are not keywords. -/
structure IsName (s : String) : Prop where
  identifier : isIdentifier s = true
  not_keyword : s ∉ keywords

instance (s : String) : Decidable (IsName s) :=
  decidable_of_iff (isIdentifier s = true ∧ s ∉ keywords)
    ⟨fun h => ⟨h.1, h.2⟩, fun h => ⟨h.identifier, h.not_keyword⟩⟩

variable {name : String}

theorem IsName.eq_cons (h : IsName name) :
    ∃ c rest, name.toList = c :: rest ∧ isNameStart c = true := by
  have hidentifier := h.identifier
  simp only [isIdentifier] at hidentifier
  split at hidentifier
  · exact absurd hidentifier (by simp)
  · rename_i c rest heq
    exact ⟨c, rest, heq, (Bool.and_eq_true _ _ ▸ hidentifier).1⟩

theorem IsName.isNamePart_of_mem (h : IsName name) {c : Char} (hc : c ∈ name.toList) :
    isNamePart c = true := by
  have hidentifier := h.identifier
  simp only [isIdentifier] at hidentifier
  split at hidentifier
  · exact absurd hidentifier (by simp)
  · rename_i first rest heq
    simp only [Bool.and_eq_true, List.all_eq_true] at hidentifier
    rw [heq] at hc
    cases hc with
    | head => rw [isNamePart, hidentifier.1, Bool.true_or]
    | tail _ hc => exact hidentifier.2 c hc

theorem IsName.oneLine (h : IsName name) : OneLine name := fun hc =>
  absurd (h.isNamePart_of_mem hc) (by decide)

/-- The name under which a constant stands is a name also if it was changed. -/
theorem IsName.safeName (h : IsName name) : IsName (safeName name) := by
  have hmarked : ∀ word ∈ reservedWords, word ∉ keywords → IsName (word ++ "_") := by
    decide +kernel
  rw [Python.safeName]
  split
  · decide
  · split
    · rename_i hreserved
      exact hmarked name (by simpa [isReserved] using hreserved) h.not_keyword
    · exact h

end Names

section Declarations

/-- The code of a line that declares a name. -/
inductive Declares : String → Prop
  | typed {name type : String} (h : IsName name) : Declares (name ++ ": " ++ type)
  | assigned {name value : String} (h : IsName name) : Declares (name ++ " = " ++ value)
  | function {name rest : String} (h : IsName name) : Declares ("def " ++ name ++ "(" ++ rest)
  | type {name : String} (h : IsName name) (heading : Heading) :
      Declares ("class " ++ name ++ heading.text)

def IsDeclaration (level : Nat) (line : String) : Prop :=
  ∃ code, line = indentation level ++ code ∧ Declares code

def passLine (level : Nat) : String := indentation level ++ "pass"

def commentLine (level : Nat) (title : String) : String := indentation level ++ "# " ++ title

def isComment (level : Nat) (line : String) : Bool :=
  indentOf line = 4 * level && (codeOf line).head? = some '#'

def IsDecorator (line : String) : Prop := (codeOf line).head? = some '@'

def IsDefinition (line : String) : Prop := "def ".toList <+: codeOf line

/-- What a condition on a line and the rest of the lines says of all of them. -/
def EveryTail (P : String → List String → Prop) : List String → Prop
  | [] => True
  | line :: rest => P line rest ∧ EveryTail P rest

/-- A decorator is followed by what it decorates, other decorators coming first. -/
def Decorated (line : String) (rest : List String) : Prop :=
  IsDecorator line → ∃ next, rest.head? = some next ∧ indentOf next = indentOf line ∧
    (IsDecorator next ∨ IsDefinition next)

/-- A comment is followed by a declaration of its own. -/
def Filled (level : Nat) (line : String) (rest : List String) : Prop :=
  isComment level line = true →
    ∃ next ∈ rest.takeWhile (!isComment level ·), IsDeclaration level next

end Declarations

section Texts

@[simp] theorem oneLine_append {s s' : String} : OneLine (s ++ s') ↔ OneLine s ∧ OneLine s' := by
  simp only [OneLine, String.toList_append, List.mem_append, not_or]

theorem segments_ended {lines : List String} (h : ∀ line ∈ lines, OneLine line) :
    Text.segments '\n' (String.join (lines.map (· ++ "\n"))) = lines ++ [""] := by
  induction lines with
  | nil => rfl
  | cons line rest ih =>
      have hline := h line List.mem_cons_self
      have hcut : (String.join ((line :: rest).map (· ++ "\n"))).toList =
          line.toList ++ '\n' :: (String.join (rest.map (· ++ "\n"))).toList := by
        simp only [List.map_cons, String.join_cons, String.toList_append, List.append_assoc]
        rfl
      rw [Text.segments_of_toList_eq hcut, Text.segments_of_not_mem hline,
        ih fun l hl => h l (List.mem_cons_of_mem _ hl)]
      rfl

theorem linesOf_text {depth : Nat} {s : Statement} (h : ∀ line ∈ s.lines depth, OneLine line) :
    linesOf (s.text depth) = s.lines depth := by
  rw [linesOf, Statement.text, segments_ended h]
  simp

theorem toList_indentation (level : Nat) :
    (indentation level).toList = List.replicate (4 * level) ' ' := String.toList_ofList

theorem oneLine_indentation (level : Nat) : OneLine (indentation level) := by
  rw [OneLine, toList_indentation]
  intro hmem
  exact absurd (List.eq_of_mem_replicate hmem) (by decide)

theorem indentOf_indented {code : String} (h : code.toList.head? ≠ some ' ') (level : Nat) :
    indentOf (indentation level ++ code) = 4 * level := by
  have hcode : code.toList.takeWhile (· = ' ') = [] := by
    cases hchars : code.toList with
    | nil => rfl
    | cons c rest =>
        simp only [hchars, List.head?_cons, ne_eq, Option.some.injEq] at h
        simp [h]
  rw [indentOf, String.toList_append, toList_indentation,
    List.takeWhile_append_of_pos (by simp), hcode]
  simp

theorem codeOf_indented {code : String} (h : code.toList.head? ≠ some ' ') (level : Nat) :
    codeOf (indentation level ++ code) = code.toList := by
  rw [codeOf, String.toList_append, toList_indentation, List.dropWhile_append_of_pos (by simp)]
  cases hchars : code.toList with
  | nil => rfl
  | cons c rest =>
      simp only [hchars, List.head?_cons, ne_eq, Option.some.injEq] at h
      simp [h]

theorem isNameStart_ne {c : Char} (h : isNameStart c = true) : c ≠ ' ' ∧ c ≠ '#' ∧ c ≠ '@' := by
  refine ⟨?_, ?_, ?_⟩ <;> intro hc <;> subst hc <;> exact absurd h (by decide)

/-- Neither a comment nor a decorator declares anything. -/
theorem Declares.head? {code : String} (h : Declares code) :
    ∃ c, code.toList.head? = some c ∧ c ≠ ' ' ∧ c ≠ '#' ∧ c ≠ '@' := by
  cases h with
  | typed h | assigned h =>
      obtain ⟨c, rest, hchars, hstart⟩ := h.eq_cons
      exact ⟨c, by simp [hchars], isNameStart_ne hstart⟩
  | function h => exact ⟨'d', by simp, by decide⟩
  | type h heading => exact ⟨'c', by simp, by decide⟩

theorem Declares.ne_pass {code : String} (h : Declares code) : code ≠ "pass" := by
  have hblank : ' ' ∈ code.toList := by cases h <;> simp
  intro hpass
  rw [hpass] at hblank
  exact absurd hblank (by decide)

end Texts

section Tails

variable {P : String → List String → Prop} {lines lines' : List String}

/-- Conditions that later lines cannot undo hold of lines one after the other. -/
theorem EveryTail.append (hmore : ∀ line rest more, P line rest → P line (rest ++ more))
    (h : EveryTail P lines) (h' : EveryTail P lines') : EveryTail P (lines ++ lines') := by
  induction lines with
  | nil => exact h'
  | cons line rest ih => exact ⟨hmore line rest lines' h.1, ih h.2⟩

theorem EveryTail.of_forall (h : ∀ line ∈ lines, ∀ rest, P line rest) : EveryTail P lines := by
  induction lines with
  | nil => trivial
  | cons line rest ih =>
      exact ⟨h line List.mem_cons_self rest, ih fun l hl => h l (List.mem_cons_of_mem _ hl)⟩

theorem Decorated.append (line : String) (rest more : List String) (h : Decorated line rest) :
    Decorated line (rest ++ more) := by
  intro hdecorator
  obtain ⟨next, hnext, hlaid⟩ := h hdecorator
  exact ⟨next, by rw [List.head?_append, hnext, Option.some_or], hlaid⟩

theorem Filled.append (level : Nat) (line : String) (rest more : List String)
    (h : Filled level line rest) : Filled level line (rest ++ more) := by
  intro hcomment
  obtain ⟨next, hnext, hdeclares⟩ := h hcomment
  refine ⟨next, ?_, hdeclares⟩
  rw [List.takeWhile_append]
  split
  · exact List.mem_append_left _ ((List.takeWhile_sublist _).subset hnext)
  · exact hnext

end Tails

end StubTree.Python
