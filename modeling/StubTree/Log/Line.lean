import StubTree.Json.Printer
import StubTree.Log.Event

/-!
Events as lines, in words or as JSON objects.
-/

namespace StubTree.Log

open Json (Value)

inductive Format where
  | text
  | json
deriving DecidableEq, Repr

namespace FieldValue

def text : FieldValue → String
  | plain s => s
  | words s => Text.quoted s
  | count n => toString n

def json : FieldValue → Value
  | plain s => .string s
  | words s => .string s
  | count n => .number (.integer n)

end FieldValue

/-- Characters that could steer a terminal, written out. -/
def visible (c : Char) : List Char :=
  if c.toNat = 0x07 then "\\x07".toList
  else if c.toNat = 0x08 then "\\x08".toList
  else if c.toNat = 0x0C then "\\x0c".toList
  else if c.toNat = 0x1B then "\\x1b".toList
  else if c.toNat = 0x7F then "\\x7f".toList
  else if 0x80 ≤ c.toNat ∧ c.toNat ≤ 0x9F then Text.codePoint c
  else [c]

def padLeft (width : Nat) (s : String) : String :=
  String.ofList (List.replicate (width - s.length) ' ') ++ s

namespace Event

def textLine (time : String) (e : Event) : String :=
  time ++ " " ++ padLeft 5 e.level.name ++ " " ++ e.target ++ ": " ++
    String.ofList (e.message.toList.flatMap visible) ++
    String.join (e.fields.map fun (name, v) => " " ++ name ++ "=" ++ v.text)

/-- The message comes first among the fields. -/
def jsonLine (time : String) (e : Event) : String :=
  let fields : List (String × Value) :=
    ("message", .string e.message) :: e.fields.map fun (name, v) => (name, v.json)
  String.ofList
    (Value.object
      [("timestamp", .string time), ("level", .string e.level.name), ("fields", .object fields),
        ("target", .string e.target)]).compact

def line (format : Format) (time : String) (e : Event) : String :=
  match format with
  | .text => e.textLine time ++ "\n"
  | .json => e.jsonLine time ++ "\n"

end Event

end StubTree.Log
