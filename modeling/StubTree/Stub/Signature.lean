import StubTree.Metadata.Types
import StubTree.Python.Identifier
import StubTree.Python.Statement
import StubTree.Stub.TypeMapping

/-!
Parameters of functions. Results that a method hands out through a parameter come back as part of
its return value, so such a parameter may be left out.
-/

namespace StubTree.Stub

open Metadata

def noneText : String := "None"

/-- The annotation and default value of a parameter that takes one argument. -/
def typedDefault (type : Python.TypeExpr) : Option DefaultValue → Python.TypeExpr × Option String
  | none => (type, none)
  | some .null => (.applied "Optional" [type], some noneText)
  | some (.boolean b) => (type, some (if b then "True" else "False"))
  | some (.literal token) => (type, some token)
  | some .nonPrimitive => (type, some "...")

/-- A variadic parameter is starred if it is an array, and is annotated with the element type. -/
def parameter (p : Parameter) : Python.Parameter :=
  let name := Python.safeName p.name
  match (if p.variadic then element? p.type else none) with
  | some element => ⟨true, name, some (typeExpr element), none⟩
  | none =>
    if p.direction = .outReference then ⟨false, name, some anyType, some noneText⟩
    else
      let (type, value) := typedDefault (typeExpr p.type) p.defaultValue
      ⟨false, name, some type, value⟩

def parameters (ps : List Parameter) : List Python.Parameter := ps.map parameter

def withReceiver (ps : List Parameter) : List Python.Parameter :=
  .receiver :: parameters ps

end StubTree.Stub
