/-!
Sets of characters given by the code points at which membership changes. The first entry opens the
set, the next closes it again, and so on; the entries ascend.
-/

namespace StubTree.Text

/-- Scans the turning points up to `n`; `inside` is the state before the first of them. -/
def insideAfter (inside : Bool) : List Nat → Nat → Bool
  | [], _ => inside
  | turn :: rest, n => if n < turn then inside else insideAfter (!inside) rest n

/-- Whether `c` lies in the set whose turning points are `turns`. -/
def inSet (turns : List Nat) (c : Char) : Bool :=
  insideAfter false turns c.toNat

end StubTree.Text
