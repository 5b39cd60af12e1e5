import StubTree.Number.Shortest

/-!
JSON values. An object keeps its entries in the order of the text, repeated keys included, and a
number keeps the difference between a whole number and a floating-point one.
-/

namespace StubTree.Json

/-- A floating-point number with its sign; zero has two. -/
structure Double where
  negative : Bool
  magnitude : Number.Magnitude
deriving DecidableEq, Repr

namespace Double

def text (x : Double) : String :=
  (if x.negative then "-" else "") ++ x.magnitude.text

end Double

inductive Numeral where
  | integer (n : Int)
  | double (x : Double)
deriving DecidableEq, Repr

inductive Value where
  | null
  | boolean (b : Bool)
  | number (n : Numeral)
  | string (s : String)
  | list (items : List Value)
  | object (entries : List (String × Value))
deriving Repr

/-- What a mismatch says about the value that was found: scalars in full, containers by kind. -/
inductive Shape where
  | null
  | boolean (b : Bool)
  | number (n : Numeral)
  | string (s : String)
  | list
  | object
deriving DecidableEq, Repr

namespace Value

def shape : Value → Shape
  | .null => .null
  | .boolean b => .boolean b
  | .number n => .number n
  | .string s => .string s
  | .list _ => .list
  | .object _ => .object

mutual

/-- How many containers enclose the innermost value, the value itself counted if it is one. -/
def depth : Value → Nat
  | .list items => depthOfItems items + 1
  | .object entries => depthOfEntries entries + 1
  | _ => 0

def depthOfItems : List Value → Nat
  | [] => 0
  | v :: rest => max v.depth (depthOfItems rest)

def depthOfEntries : List (String × Value) → Nat
  | [] => 0
  | (_, v) :: rest => max v.depth (depthOfEntries rest)

end

end Value

end StubTree.Json
