import StubTree.Json.Value
import StubTree.Text.Quoted

/-!
Texts of JSON values: on one line without blanks, or with every element and entry on a line of its
own. A string escapes the quote, the backslash and the characters below the space, nothing else.
-/

namespace StubTree.Json

def escapedChar (c : Char) : List Char :=
  if c = '"' ∨ c = '\\' then ['\\', c]
  else if 32 ≤ c.toNat then [c]
  else if c = '\n' then ['\\', 'n']
  else if c = '\r' then ['\\', 'r']
  else if c = '\t' then ['\\', 't']
  else if c.toNat = 8 then ['\\', 'b']
  else if c.toNat = 12 then ['\\', 'f']
  else ['\\', 'u', '0', '0', Text.hexDigit (c.toNat / 16), Text.hexDigit (c.toNat % 16)]

def stringText (s : String) : List Char :=
  '"' :: s.toList.flatMap escapedChar ++ ['"']

def Numeral.text : Numeral → List Char
  | .integer n => (toString n).toList
  | .double x => x.text.toList

namespace Value

mutual

def compact : Value → List Char
  | .null => "null".toList
  | .boolean b => (toString b).toList
  | .number n => n.text
  | .string s => stringText s
  | .list items => '[' :: compactItems true items
  | .object entries => '\x7b' :: compactEntries true entries

def compactItems : Bool → List Value → List Char
  | _, [] => [']']
  | first, v :: rest => (if first then [] else [',']) ++ v.compact ++ compactItems false rest

def compactEntries : Bool → List (String × Value) → List Char
  | _, [] => ['\x7d']
  | first, (name, v) :: rest =>
    (if first then [] else [',']) ++ stringText name ++ ':' :: v.compact ++
      compactEntries false rest

end

/-- A new line at a nesting depth of two blanks a level. -/
def newLine (depth : Nat) : List Char := '\n' :: List.replicate (2 * depth) ' '

mutual

def pretty (depth : Nat) : Value → List Char
  | .null => "null".toList
  | .boolean b => (toString b).toList
  | .number n => n.text
  | .string s => stringText s
  | .list items => '[' :: prettyItems depth true items
  | .object entries => '\x7b' :: prettyEntries depth true entries

/-- The end of an empty container stays on the line of its beginning. -/
def prettyItems (depth : Nat) : Bool → List Value → List Char
  | first, [] => (if first then [] else newLine depth) ++ [']']
  | first, v :: rest =>
    (if first then [] else [',']) ++ newLine (depth + 1) ++ v.pretty (depth + 1) ++
      prettyItems depth false rest

def prettyEntries (depth : Nat) : Bool → List (String × Value) → List Char
  | first, [] => (if first then [] else newLine depth) ++ ['\x7d']
  | first, (name, v) :: rest =>
    (if first then [] else [',']) ++ newLine (depth + 1) ++ stringText name ++ ':' :: ' ' ::
      v.pretty (depth + 1) ++ prettyEntries depth false rest

end

end Value

end StubTree.Json
