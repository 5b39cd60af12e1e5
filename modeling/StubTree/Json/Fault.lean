import StubTree.Json.Value
import StubTree.Text.Quoted

/-!
What can be wrong with a document: the cause, where in the text it was noticed, and the way from the
root to the value that was being read. The wording is in `Cause.message` and `Fault.message` alone.
-/

namespace StubTree.Json

/-- What a decoder was ready to read. -/
inductive Expectation where
  | string
  | boolean
  | int64
  | uint32
  | list
  | unit
  | record (name : String)
  | recordOf (name : String) (fields : Nat)
  | internallyTagged (name : String)
  | variantName
  | variantIndex (below : Nat)
  | payloadVariant
  | stringOrObject
  | singleKeyObject
  | listOf (length : Nat)
deriving DecidableEq, Repr

def countedElements (n : Nat) : String :=
  if n = 1 then "1 element" else s!"{n} elements"

namespace Expectation

def words : Expectation → String
  | string => "a string"
  | boolean => "a boolean"
  | int64 => "i64"
  | uint32 => "u32"
  | list => "a sequence"
  | unit => "unit"
  | record name => name
  | recordOf name fields => s!"{name} with {countedElements fields}"
  | internallyTagged name => s!"internally tagged enum {name}"
  | variantName => "variant identifier"
  | variantIndex below => s!"variant index 0 <= i < {below}"
  | payloadVariant => "newtype variant"
  | stringOrObject => "string or map"
  | singleKeyObject => "map with a single key"
  | listOf length => s!"{countedElements length} in sequence"

end Expectation

namespace Shape

def words : Shape → String
  | null => "null"
  | boolean b => s!"boolean `{b}`"
  | number (.integer n) => s!"integer `{n}`"
  | number (.double x) => s!"floating point `{x.text}`"
  | string s => "string " ++ Text.quoted s
  | list => "sequence"
  | object => "map"

end Shape

inductive Cause where
  | endOfValue
  | endOfList
  | endOfObject
  | endOfString
  | expectedColon
  | expectedListCommaOrEnd
  | expectedObjectCommaOrEnd
  | expectedLiteral
  | expectedValue
  | keyNotString
  | trailingComma
  | trailingCharacters
  | invalidNumber
  | numberOutOfRange
  | invalidEscape
  | loneSurrogate
  | unfinishedSurrogatePair
  | controlCharacter
  | invalidCodePoint
  | tooDeep
  | mismatch (found : Shape) (wanted : Expectation)
  | bareVariant (wanted : Expectation)
  | unfit (found : Shape) (wanted : Expectation)
  | wrongLength (length : Nat) (wanted : Expectation)
  | unknownVariant (name : String) (known : List String)
  | missingField (name : String)
  | duplicateField (name : String)
deriving DecidableEq, Repr

/-- Names between backticks: one alone, two joined by `or`, more introduced by `one of`. -/
def alternatives : List String → String
  | [] => "there are no variants"
  | [a] => s!"expected `{a}`"
  | [a, b] => s!"expected `{a}` or `{b}`"
  | names => "expected one of " ++ ", ".intercalate (names.map fun name => s!"`{name}`")

namespace Cause

def message : Cause → String
  | endOfValue => "EOF while parsing a value"
  | endOfList => "EOF while parsing a list"
  | endOfObject => "EOF while parsing an object"
  | endOfString => "EOF while parsing a string"
  | expectedColon => "expected `:`"
  | expectedListCommaOrEnd => "expected `,` or `]`"
  | expectedObjectCommaOrEnd => "expected `,` or `\x7d`"
  | expectedLiteral => "expected ident"
  | expectedValue => "expected value"
  | keyNotString => "key must be a string"
  | trailingComma => "trailing comma"
  | trailingCharacters => "trailing characters"
  | invalidNumber => "invalid number"
  | numberOutOfRange => "number out of range"
  | invalidEscape => "invalid escape"
  | loneSurrogate => "lone leading surrogate in hex escape"
  | unfinishedSurrogatePair => "unexpected end of hex escape"
  | controlCharacter => "control character (\\u0000-\\u001F) found while parsing a string"
  | invalidCodePoint => "invalid unicode code point"
  | tooDeep => "recursion limit exceeded"
  | mismatch found wanted => s!"invalid type: {found.words}, expected {wanted.words}"
  | bareVariant wanted => s!"invalid type: unit variant, expected {wanted.words}"
  | unfit found wanted => s!"invalid value: {found.words}, expected {wanted.words}"
  | wrongLength length wanted => s!"invalid length {length}, expected {wanted.words}"
  | unknownVariant name known => s!"unknown variant `{name}`, {alternatives known}"
  | missingField name => s!"missing field `{name}`"
  | duplicateField name => s!"duplicate field `{name}`"

end Cause

/-- One step from a container towards a value inside it. -/
inductive Step where
  | key (name : String)
  | index (i : Nat)
  | unknown
deriving DecidableEq, Repr

abbrev Path := List Step

namespace Path

def textFrom : Bool → Path → String
  | _, [] => ""
  | _, .index i :: rest => s!"[{i}]" ++ textFrom false rest
  | first, .key name :: rest => (if first then "" else ".") ++ name ++ textFrom false rest
  | first, .unknown :: rest => (if first then "" else ".") ++ "?" ++ textFrom false rest

/-- The root alone is a single point. -/
def text (path : Path) : String :=
  if path.isEmpty then "." else textFrom true path

end Path

/-- `left` counts the bytes that were still unread where the fault was noticed. -/
structure Fault where
  cause : Cause
  left : Option Nat
  path : Path
deriving DecidableEq, Repr

/-- Line and column of the place just after the given bytes. Lines count from one, and the column is
the number of bytes since the last line feed. -/
def lineAndColumn (before : List UInt8) : Nat × Nat :=
  before.foldl (fun (place : Nat × Nat) b => if b = 10 then (place.1 + 1, 0) else (place.1, place.2 + 1)) (1, 0)

namespace Fault

def message (document : List UInt8) (fault : Fault) : String :=
  let place := match fault.left with
    | none => ""
    | some left =>
      let (line, column) := lineAndColumn (document.take (document.length - left))
      s!" at line {line} column {column}"
  s!"at JSON path {Path.text fault.path} → {fault.cause.message}{place}"

end Fault

end StubTree.Json
