/-!
How far bytes are UTF-8: no overlong forms, no surrogates, nothing beyond the last code point.
-/

namespace StubTree.Text

def isBetween (low high b : UInt8) : Bool := low ≤ b && b ≤ high

def isContinuation (b : UInt8) : Bool := isBetween 0x80 0xBF b

/-- The second bytes that may follow a first byte, and the number of bytes after those; nothing if
the byte begins no character of several bytes. -/
def leading? (b : UInt8) : Option (UInt8 × UInt8 × Nat) :=
  if isBetween 0xC2 0xDF b then some (0x80, 0xBF, 0)
  else if b = 0xE0 then some (0xA0, 0xBF, 1)
  else if b = 0xED then some (0x80, 0x9F, 1)
  else if isBetween 0xE1 0xEF b then some (0x80, 0xBF, 1)
  else if b = 0xF0 then some (0x90, 0xBF, 2)
  else if isBetween 0xF1 0xF3 b then some (0x80, 0xBF, 2)
  else if b = 0xF4 then some (0x80, 0x8F, 2)
  else none

/-- What is left after one character. -/
def afterChar? : List UInt8 → Option (List UInt8)
  | [] => none
  | b :: rest =>
    if b < 0x80 then some rest
    else
      match leading? b, rest with
      | some (low, high, more), second :: rest =>
        if isBetween low high second && (rest.take more).length = more
            && (rest.take more).all isContinuation
        then some (rest.drop more)
        else none
      | _, _ => none

/-- What is left from the first byte on that does not belong to a character. `fuel` bounds the
number of characters before it. -/
def fromInvalid : Nat → List UInt8 → List UInt8
  | 0, bytes => bytes
  | fuel + 1, bytes =>
    match afterChar? bytes with
    | none => bytes
    | some rest => fromInvalid fuel rest

end StubTree.Text
