/-!
Distinct texts in the order of their first appearance, and the grouping of a list by a key. A group
keeps the order of the list.
-/

namespace StubTree.Text

/-- Keeps the first of equal texts. -/
def distinct : List String → List String
  | [] => []
  | x :: rest => x :: (distinct rest).filter (· ≠ x)

def groupBy {α : Type} (key : α → String) (items : List α) : List (String × List α) :=
  (distinct (items.map key)).map fun k => (k, items.filter fun a => key a = k)

end StubTree.Text
