/-!
Type expressions of annotations: a name with its arguments in brackets, or a name in quotes that is
looked up later.
-/

namespace StubTree.Python

inductive TypeExpr where
  /-- Without arguments, the name alone. -/
  | applied (name : String) (args : List TypeExpr)
  | forward (name : String)
deriving Repr

namespace TypeExpr

def leaf (name : String) : TypeExpr := .applied name []

mutual

def text : TypeExpr → String
  | .applied name [] => name
  | .applied name (first :: rest) => name ++ "[" ++ first.text ++ textOfRest rest ++ "]"
  | .forward name => "\"" ++ name ++ "\""

def textOfRest : List TypeExpr → String
  | [] => ""
  | t :: rest => ", " ++ t.text ++ textOfRest rest

end

end TypeExpr

end StubTree.Python
