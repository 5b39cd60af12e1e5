import StubTree.Json.Reader
import StubTree.Text.Utf8

/-!
Scalars of a text: the words `null`, `true` and `false`, strings, and numbers.

A number is read as a significand of at most 64 bits and a power of ten, which are rounded one after
the other. Digits that the significand cannot hold are dropped: those before the point raise the
power, those after it are ignored.
-/

namespace StubTree.Json

namespace Reader

def hexValue (b : UInt8) : Option Nat :=
  if ascii '0' ≤ b ∧ b ≤ ascii '9' then some (b.toNat - 48)
  else if ascii 'a' ≤ b ∧ b ≤ ascii 'f' then some (b.toNat - 87)
  else if ascii 'A' ≤ b ∧ b ≤ ascii 'F' then some (b.toNat - 55)
  else none

/-- Four hexadecimal digits. If fewer than four bytes are left, they are all lost. -/
def hexUnit : Reader Nat := do
  match ← get with
  | a :: b :: c :: d :: rest =>
    set rest
    match hexValue a, hexValue b, hexValue c, hexValue d with
    | some a, some b, some c, some d => return ((a * 16 + b) * 16 + c) * 16 + d
    | _, _, _, _ => failHere .invalidEscape
  | _ =>
    set ([] : List UInt8)
    failHere .endOfString

def utf8 (codePoint : Nat) : List UInt8 :=
  String.utf8EncodeChar (Char.ofNat codePoint)

/-- The byte that has to come before the second half of a surrogate pair. -/
def pairByte (c : Char) : Reader Unit := do
  match ← next with
  | none => failHere .endOfString
  | some b => if b = ascii c then pure () else failHere .unfinishedSurrogatePair

/-- The character after `\u`. The first half of a surrogate pair needs the second. -/
def unicodeEscape : Reader (List UInt8) := do
  let high ← hexUnit
  if 0xDC00 ≤ high ∧ high ≤ 0xDFFF then failHere .loneSurrogate
  else if high < 0xD800 ∨ 0xDBFF < high then return utf8 high
  else
    pairByte '\\'
    pairByte 'u'
    let low ← hexUnit
    if low < 0xDC00 ∨ 0xDFFF < low then failHere .loneSurrogate
    else return utf8 (0x10000 + (high - 0xD800) * 0x400 + (low - 0xDC00))

def simpleEscape (b : UInt8) : Option UInt8 :=
  if b = ascii '"' ∨ b = ascii '\\' ∨ b = ascii '/' then some b
  else if b = ascii 'b' then some 8
  else if b = ascii 'f' then some 12
  else if b = ascii 'n' then some 10
  else if b = ascii 'r' then some 13
  else if b = ascii 't' then some 9
  else none

/-- What an escape stands for, after its backslash. -/
def escape : Reader (List UInt8) := do
  match ← next with
  | none => failHere .endOfString
  | some b =>
    if b = ascii 'u' then unicodeEscape
    else
      match simpleEscape b with
      | some b => return [b]
      | none => failHere .invalidEscape

/-- Bytes that stand for themselves in a string. -/
def isPlainByte (b : UInt8) : Bool :=
  32 ≤ b && b ≠ ascii '"' && b ≠ ascii '\\'

/-- All plain bytes that come next. -/
def plainBytes : Reader (List UInt8) := do
  let text ← get
  set (text.dropWhile isPlainByte)
  return text.takeWhile isPlainByte

/-- What comes next in a string: some plain bytes and one escape, or the plain bytes before its
closing quote. -/
def stringPiece : Reader (List UInt8 × Bool) := do
  let plain ← plainBytes
  match ← next with
  | none => failHere .endOfString
  | some b =>
    if b = ascii '"' then return (plain, true)
    else if b = ascii '\\' then return (plain ++ (← escape), false)
    else failHere .controlCharacter

/-- The bytes of a string up to its closing quote. -/
def stringBytes : Fuel → Reader (List UInt8)
  | [] => failHere .endOfString
  | _ :: fuel => do
    let (piece, last) ← stringPiece
    if last then return piece else return piece ++ (← stringBytes fuel)

/-- A string after its opening quote. That its bytes are not UTF-8 is noticed at the closing quote,
and the fault is placed as many bytes before the end of the string as its content has from the first
bad byte on. -/
def stringBody : Reader String := do
  let bytes ← stringBytes (← fuel)
  match String.fromUTF8? (ByteArray.mk bytes.toArray) with
  | some s => return s
  | none =>
    let bad := Text.fromInvalid bytes.length bytes
    throw ⟨.invalidCodePoint, some ((← get).length + bad.length), []⟩

def isDigit (b : UInt8) : Bool := ascii '0' ≤ b && b ≤ ascii '9'

/-- All digits that come next. -/
def digits : Reader (List Nat) := do
  let text ← get
  set (text.dropWhile isDigit)
  return (text.takeWhile isDigit).map fun b => b.toNat - 48

/-- Appends digits to a number as long as it does not exceed `limit`; returns the digits left over. -/
def appendDigits (limit : Nat) : Nat → List Nat → Nat × List Nat
  | n, [] => (n, [])
  | n, d :: rest => if n * 10 + d ≤ limit then appendDigits limit (n * 10 + d) rest else (n, d :: rest)

/-- Whether the next byte is one of the two letters that open an exponent. -/
def atExponent : Reader Bool := do
  match ← peek with
  | none => return false
  | some b => return b = ascii 'e' || b = ascii 'E'

def powerOfTen (k : Nat) : Number.Magnitude :=
  (Number.double.round (Nat.pow 10 k) 1).getD ⟨0, 0⟩

/-- The largest power of ten among the doubles. -/
def largestPower : Nat := 308

def dividedBy (x : Number.Magnitude) (power : Nat) : Number.Magnitude :=
  (Number.double.div x (powerOfTen power)).getD x

/-- Divides by the largest power of ten a number of times, and by one more power at the end. -/
def scaledDown (last : Nat) : Nat → Number.Magnitude → Number.Magnitude
  | 0, x => dividedBy x last
  | rounds + 1, x =>
    if x.significand = 0 then x else scaledDown last rounds (dividedBy x largestPower)

/-- `significand · 10 ^ exponent`, rounded after each of the two steps. -/
def scaled (significand : Nat) (exponent : Int) : Option Number.Magnitude := do
  let x ← Number.double.round significand 1
  if x.significand = 0 then return x
  else if exponent < 0 then
    let rounds := (exponent.natAbs - 1) / largestPower
    return scaledDown (exponent.natAbs - rounds * largestPower) rounds x
  else if largestPower < exponent then none
  else Number.double.mul x (powerOfTen exponent.toNat)

def scaledNumber (negative : Bool) (significand : Nat) (exponent : Int) : Reader Numeral :=
  match scaled significand exponent with
  | some x => return .double ⟨negative, x⟩
  | none => failHere .numberOutOfRange

/-- The sign of an exponent, if it has one. -/
def exponentSign : Reader Bool := do
  match ← peek with
  | none => return false
  | some b =>
    if b = ascii '-' then discard; return true
    else if b = ascii '+' then discard; return false
    else return false

def largestExponent : Nat := 2147483647

/-- The rest of a number from the letter of its exponent on. -/
def exponentPart (negative : Bool) (significand : Nat) (exponent : Int) : Reader Numeral := do
  discard
  let down ← exponentSign
  match ← peek with
  | none => failHere .endOfValue
  | some b =>
    if isDigit b then
      let (power, beyond) := appendDigits largestExponent 0 (← digits)
      if beyond.isEmpty then
        scaledNumber negative significand (if down then exponent - power else exponent + power)
      else if significand ≠ 0 ∧ !down then
        throw ⟨.numberOutOfRange, some ((← get).length + (beyond.length - 1)), []⟩
      else scaledNumber negative 0 0
    else
      discard
      failHere .invalidNumber

def largestSignificand : Nat := 18446744073709551615

/-- The rest of a number from its point on. -/
def fractionPart (negative : Bool) (significand : Nat) (exponent : Int) : Reader Numeral := do
  discard
  let written ← digits
  if written.isEmpty then
    match ← peek with
    | none => failAtNext .endOfValue
    | some _ => failAtNext .invalidNumber
  else
    let (significand, beyond) := appendDigits largestSignificand significand written
    let exponent := exponent - (written.length - beyond.length : Nat)
    if ← atExponent then exponentPart negative significand exponent
    else scaledNumber negative significand exponent

/-- The largest magnitude of a negative whole number in 64 bits. -/
def largestNegated : Nat := 9223372036854775808

/-- A whole number is kept as such if 64 bits hold it; there is no whole negative zero. -/
def wholeNumber (negative : Bool) (significand : Nat) : Reader Numeral :=
  if !negative then return .integer significand
  else if 1 ≤ significand ∧ significand ≤ largestNegated then return .integer (-significand)
  else scaledNumber true significand 0

/-- What follows the digits before the point. -/
def numberTail (negative : Bool) (significand beyond : Nat) : Reader Numeral := do
  if (← peek) = some (ascii '.') then fractionPart negative significand beyond
  else if ← atExponent then exponentPart negative significand beyond
  else if beyond = 0 then wholeNumber negative significand
  else scaledNumber negative significand beyond

/-- A number after its sign. -/
def unsignedNumber (negative : Bool) : Reader Numeral := do
  match ← peek with
  | none => failHere .endOfValue
  | some b =>
    if b = ascii '0' then
      discard
      match ← peek with
      | some d => if isDigit d then failAtNext .invalidNumber else numberTail negative 0 0
      | none => numberTail negative 0 0
    else if isDigit b then
      let (significand, beyond) := appendDigits largestSignificand 0 (← digits)
      numberTail negative significand beyond.length
    else
      discard
      failHere .invalidNumber

/-- The shape of the next value. Scalars are read, containers are left where they are. -/
def shape : Reader Shape := do
  match ← peekPastBlanks with
  | none => failAtNext .endOfValue
  | some b =>
    if b = ascii 'n' then literal "null".toList; return .null
    else if b = ascii 't' then literal "true".toList; return .boolean true
    else if b = ascii 'f' then literal "false".toList; return .boolean false
    else if b = ascii '-' then discard; return .number (← unsignedNumber true)
    else if isDigit b then return .number (← unsignedNumber false)
    else if b = ascii '"' then discard; return .string (← stringBody)
    else if b = ascii '[' then return .list
    else if b = ascii '\x7b' then return .object
    else failAtNext .expectedValue

end Reader

end StubTree.Json
