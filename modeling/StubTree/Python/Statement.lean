import StubTree.Python.TypeExpr

/-!
The statements a stub is made of, and their lines. A statement inside a class is indented four
blanks deeper than the class; blank lines are not indented at all.
-/

namespace StubTree.Python

structure Parameter where
  /-- Takes all further positional arguments. -/
  starred : Bool := false
  name : String
  annotation : Option TypeExpr := none
  /-- The text of the default value. -/
  defaultText : Option String := none
deriving Repr

namespace Parameter

def receiver : Parameter := { name := "self" }

def text (p : Parameter) : String :=
  (if p.starred then "*" else "") ++ p.name
    ++ (match p.annotation with
      | none => ""
      | some t => ": " ++ t.text)
    ++ (match p.defaultText with
      | none => ""
      | some d => " = " ++ d)

end Parameter

def parametersText (ps : List Parameter) : String := ", ".intercalate (ps.map Parameter.text)

/-- A function without a body. -/
structure Function where
  decorators : List String := []
  name : String
  parameters : List Parameter
  result : TypeExpr
deriving Repr

namespace Function

def lines (f : Function) : List String :=
  (f.decorators.map fun d => "@" ++ d) ++
    ["def " ++ f.name ++ "(" ++ parametersText f.parameters ++ ") -> " ++ f.result.text ++ ": ..."]

end Function

/-- What stands behind the name of a class. A base is mentioned in a comment only. -/
inductive Heading where
  | plain
  | derived (base : String)
  | enumeration
deriving DecidableEq, Repr

namespace Heading

def text : Heading → String
  | plain => ":"
  | derived base => ": # Inherits from " ++ base
  | enumeration => "(Enum):"

end Heading

inductive Statement where
  | blank
  | comment (text : String)
  | pass
  | assign (name : String) (value : Int)
  | declare (name : String) (type : TypeExpr)
  | function (f : Function)
  | classDef (name : String) (heading : Heading) (body : List Statement)
deriving Repr

def indentation (depth : Nat) : String := String.ofList (List.replicate (4 * depth) ' ')

namespace Statement

mutual

def lines (depth : Nat) : Statement → List String
  | .blank => [""]
  | .comment text => [indentation depth ++ "# " ++ text]
  | .pass => [indentation depth ++ "pass"]
  | .assign name value => [indentation depth ++ name ++ " = " ++ toString value]
  | .declare name type => [indentation depth ++ name ++ ": " ++ type.text]
  | .function f => f.lines.map (indentation depth ++ ·)
  | .classDef name heading body =>
    (indentation depth ++ "class " ++ name ++ heading.text) :: linesOfBody (depth + 1) body

def linesOfBody (depth : Nat) : List Statement → List String
  | [] => []
  | s :: rest => s.lines depth ++ linesOfBody depth rest

end

/-- Every line is ended. -/
def text (depth : Nat) (s : Statement) : String :=
  String.join ((s.lines depth).map (· ++ "\n"))

end Statement

end StubTree.Python
