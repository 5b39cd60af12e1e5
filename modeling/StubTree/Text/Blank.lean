import StubTree.Text.CharSet

/-!
Blank texts: those made of characters with the property White_Space alone.
-/

namespace StubTree.Text

def whiteSpaceTurns : List Nat :=
  [
    0x9, 0xE, 0x20, 0x21, 0x85, 0x86, 0xA0, 0xA1, 0x1680, 0x1681, 0x2000, 0x200B, 0x2028, 0x202A,
    0x202F, 0x2030, 0x205F, 0x2060, 0x3000, 0x3001]

def isWhiteSpace (c : Char) : Bool :=
  inSet whiteSpaceTurns c

/-- The empty text is blank as well. -/
def isBlank (s : String) : Bool :=
  s.toList.all isWhiteSpace

end StubTree.Text
