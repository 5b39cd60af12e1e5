import StubTree.Proofs.Lines
import StubTree.Stub.Body

/-!
How the lines of a type's stub are laid out: a heading, and below it a suite
with sections, in which the stubs of nested types are laid out in the same way.
Names have to be identifiers and all other texts to fit on a line, or else the
text would not be read as it was written.
-/

namespace StubTree.Stub

open Metadata Python

section Printable

mutual

def OneLineType : TypeReference → Prop
  | .primitive _ | .delegate => True
  | .nullable t | .array t => OneLineType t
  | .collection _ args => OneLineTypes args
  | .named name args => OneLine name ∧ OneLineTypes args
  | .unresolved name => OneLine name

def OneLineTypes : List TypeReference → Prop
  | [] => True
  | t :: rest => OneLineType t ∧ OneLineTypes rest

end

def OneLineDefault : DefaultValue → Prop
  | .literal token => OneLine token
  | .null | .boolean _ | .nonPrimitive => True

/-- Nothing that is printed of a parameter has a line end. -/
structure OneLineParameter (p : Metadata.Parameter) : Prop where
  name : OneLine p.name
  type : OneLineType p.type
  value : ∀ d ∈ p.defaultValue, OneLineDefault d

structure PrintableParameter (p : Metadata.Parameter) : Prop where
  name : IsName p.name
  type : OneLineType p.type
  value : ∀ d ∈ p.defaultValue, OneLineDefault d

theorem PrintableParameter.oneLine {p : Metadata.Parameter} (h : PrintableParameter p) :
    OneLineParameter p := ⟨h.name.oneLine, h.type, h.value⟩

structure PrintableHeader (t : TypeHeader) : Prop where
  name : IsName t.name
  base : ∀ base ∈ t.base, OneLine base
  constants : ∀ c ∈ t.constants, IsName c.name

mutual

/-- Names are identifiers other than keywords, and other texts have no line ends. -/
def Printable : TypeInfo → Prop
  | ⟨header, members⟩ => PrintableHeader header ∧ PrintableMembers members

def PrintableMembers : List Member → Prop
  | [] => True
  | m :: rest => PrintableMember m ∧ PrintableMembers rest

def PrintableMember : Member → Prop
  | .constructor c => ∀ p ∈ c.parameters, PrintableParameter p
  | .property p =>
    IsName p.name ∧ OneLineType p.type ∧ ∀ index ∈ p.indexParameters, PrintableParameter index
  | .field f => IsName f.name ∧ OneLineType f.type
  | .method m =>
    IsName m.name ∧ OneLineType m.returnType ∧ ∀ p ∈ m.parameters, PrintableParameter p
  | .nested t => Printable t

end

mutual

def decidableOneLineType : (t : TypeReference) → Decidable (OneLineType t)
  | .primitive _ | .delegate => .isTrue trivial
  | .nullable t | .array t => decidableOneLineType t
  | .collection _ args => decidableOneLineTypes args
  | .named _ args => @instDecidableAnd _ _ inferInstance (decidableOneLineTypes args)
  | .unresolved name => inferInstanceAs (Decidable (OneLine name))

def decidableOneLineTypes : (ts : List TypeReference) → Decidable (OneLineTypes ts)
  | [] => .isTrue trivial
  | t :: rest => @instDecidableAnd _ _ (decidableOneLineType t) (decidableOneLineTypes rest)

end

instance (t : TypeReference) : Decidable (OneLineType t) := decidableOneLineType t

instance (d : DefaultValue) : Decidable (OneLineDefault d) :=
  match d with
  | .literal token => inferInstanceAs (Decidable (OneLine token))
  | .null | .boolean _ | .nonPrimitive => .isTrue trivial

instance (p : Metadata.Parameter) : Decidable (OneLineParameter p) :=
  decidable_of_iff
    (OneLine p.name ∧ OneLineType p.type ∧ ∀ d ∈ p.defaultValue, OneLineDefault d)
    ⟨fun h => ⟨h.1, h.2.1, h.2.2⟩, fun h => ⟨h.name, h.type, h.value⟩⟩

instance (p : Metadata.Parameter) : Decidable (PrintableParameter p) :=
  decidable_of_iff
    (IsName p.name ∧ OneLineType p.type ∧ ∀ d ∈ p.defaultValue, OneLineDefault d)
    ⟨fun h => ⟨h.1, h.2.1, h.2.2⟩, fun h => ⟨h.name, h.type, h.value⟩⟩

instance (t : TypeHeader) : Decidable (PrintableHeader t) :=
  decidable_of_iff
    (IsName t.name ∧ (∀ base ∈ t.base, OneLine base) ∧ ∀ c ∈ t.constants, IsName c.name)
    ⟨fun h => ⟨h.1, h.2.1, h.2.2⟩, fun h => ⟨h.name, h.base, h.constants⟩⟩

mutual

def decidablePrintable : (t : TypeInfo) → Decidable (Printable t)
  | ⟨_, members⟩ => @instDecidableAnd _ _ inferInstance (decidablePrintableMembers members)

def decidablePrintableMembers : (members : List Member) → Decidable (PrintableMembers members)
  | [] => .isTrue trivial
  | m :: rest => @instDecidableAnd _ _ (decidablePrintableMember m) (decidablePrintableMembers rest)

def decidablePrintableMember : (m : Member) → Decidable (PrintableMember m)
  | .constructor c => inferInstanceAs (Decidable (∀ p ∈ c.parameters, PrintableParameter p))
  | .property p =>
    inferInstanceAs (Decidable (IsName p.name ∧ OneLineType p.type ∧
      ∀ index ∈ p.indexParameters, PrintableParameter index))
  | .field f => inferInstanceAs (Decidable (IsName f.name ∧ OneLineType f.type))
  | .method m =>
    inferInstanceAs (Decidable (IsName m.name ∧ OneLineType m.returnType ∧
      ∀ p ∈ m.parameters, PrintableParameter p))
  | .nested t => decidablePrintable t

end

instance (t : TypeInfo) : Decidable (Printable t) := decidablePrintable t

end Printable

section Contents

/-- Members that leave no line although they are accepted. -/
def LeavesNothing : Member → Prop
  | .property p => p.isIndexer = true ∧ p.readable = false ∧ p.writable = false
  | .method m => ∃ symbol, m.operator = some symbol ∧ operatorSlot? symbol = none
  | .nested t => t.kind = .unsupported
  | _ => False

/-- Types without anything to declare in their suites. -/
def IsBare (t : TypeInfo) : Prop :=
  if t.kind = .enumeration then t.constants = []
  else ∀ m ∈ t.members, (memberRejection? m).isSome = true ∨ LeavesNothing m

def nestedIn (members : List Member) : List TypeInfo :=
  (accepted members).filterMap fun
    | .nested t => if t.kind = .unsupported then none else some t
    | _ => none

/-- The nested types with a stub of their own. Enumerations have constants only. -/
def nestedOf (t : TypeInfo) : List TypeInfo :=
  if t.kind = .enumeration then [] else nestedIn t.members

end Contents

section Suites

def sectionTitles : List String :=
  ["Constructors", "Properties", "Fields", "Methods", "Nested Types"]

/-- Lines below a heading. The comments at their level are titles, each at most once and in the
given order. -/
structure Laid (level : Nat) (titles lines : List String) : Prop where
  deeper : ∀ line ∈ lines, line ≠ "" → 4 * level ≤ indentOf line
  comments : (lines.filter (isComment level)).Sublist (titles.map (commentLine level))
  sections : EveryTail (Filled level) lines
  decorators : EveryTail Decorated lines

/-- The whole of a suite, that of a type with nothing to declare being a single line. -/
structure SuiteLaid (level : Nat) (bare : Prop) (suite : List String) : Prop extends
    Laid level sectionTitles suite where
  statement : ∃ line ∈ suite, line = passLine level ∨ IsDeclaration level line
  single_iff : suite = [passLine level] ↔ bare
  no_pass : ¬bare → passLine level ∉ suite

/-- The lines of a type: its heading, the lines of its own, and a block for each nested type behind
a blank line. -/
inductive WellLaid : Nat → TypeInfo → List String → Prop
  | intro {depth : Nat} {t : TypeInfo} {heading : Heading} {own : List String}
      {blocks : List (List String)}
      (hsuite : SuiteLaid (depth + 1) (IsBare t) (own ++ blocks.flatMap ("" :: ·)))
      (hown : ∀ line ∈ own, line ≠ "" → indentOf line = 4 * (depth + 1))
      (hlength : blocks.length = (nestedOf t).length)
      (hblocks : ∀ pair ∈ (nestedOf t).zip blocks, WellLaid (depth + 1) pair.1 pair.2) :
      WellLaid depth t ((indentation depth ++ ("class " ++ t.name ++ heading.text)) ::
        (own ++ blocks.flatMap ("" :: ·)))

end Suites

end StubTree.Stub
