import StubTree.Log.Event
import StubTree.Stub.Eligibility
import StubTree.Stub.Operator
import StubTree.Stub.Signature
import StubTree.Text.Grouping

/-!
The stub of a type: a class whose body has a section for each sort of member that leaves anything to
write, or an enumeration with its constants. What is left out is reported by `events`, which goes
through a type in the same order.
-/

namespace StubTree.Stub

open Metadata Python
open Log (Event)

/-- A section with its title, or nothing if there is nothing in it. -/
def titled (title : String) (body : List Statement) : List Statement :=
  if body.isEmpty then [] else .comment title :: body

def noneType : TypeExpr := .leaf noneText

def overloadMark : String := "overload"

def overloadIf (several : Bool) : List String := if several then [overloadMark] else []

def isSeveral {α : Type} (items : List α) : Bool := 1 < items.length

def constructorStub (overloaded : Bool) (c : Constructor) : Statement :=
  .function ⟨overloadIf overloaded, initializer, withReceiver c.parameters, noneType⟩

/-- Constructors are overloads of one another. -/
def constructorStubs (cs : List Constructor) : List Statement :=
  cs.map (constructorStub (isSeveral cs))

def typed (name : String) (type : TypeExpr) : Python.Parameter :=
  { name := name, annotation := some type }

/-- Item access by the first index. -/
def indexerStubs (p : Property) (index : Metadata.Parameter) : List Statement :=
  let key := typed "key" (typeExpr index.type)
  let value := typeExpr p.type
  (if p.readable then [.function ⟨[], "__getitem__", [.receiver, key], value⟩] else []) ++
    (if p.writable then
      [.function ⟨[], "__setitem__", [.receiver, key, typed "value" value], noneType⟩]
    else [])

/-- A property of the class itself is an attribute. The setter of another is written if it can be
called from outside. -/
def propertyStubs (p : Property) : List Statement :=
  match p.indexParameters with
  | index :: _ => indexerStubs p index
  | [] =>
    let value := typeExpr p.type
    if p.isStatic then [.declare p.name value]
    else
      .function ⟨["property"], p.name, [.receiver], value⟩ ::
        (if p.writable && p.hasPublicSetter then
          [.function ⟨[p.name ++ ".setter"], p.name, [.receiver, typed "value" value], noneType⟩]
        else [])

def fieldStub (f : Field) : Statement :=
  .declare f.name
    (if f.isStatic then .applied "ClassVar" [typeExpr f.type] else typeExpr f.type)

/-- A conversion is an overload of the initializer; an operator without a slot leaves nothing. -/
def operatorStubs (m : Method) (symbol : String) : List Statement :=
  match operatorSlot? symbol with
  | none => []
  | some slot =>
    if slot = initializer then
      [.function ⟨[overloadMark], initializer, withReceiver m.parameters, noneType⟩]
    else [.function ⟨[], slot, withReceiver m.parameters, typeExpr m.returnType⟩]

def methodStub (overloaded : Bool) (m : Method) : Statement :=
  .function
    ⟨overloadIf overloaded ++ (if m.isStatic then ["staticmethod"] else []), m.name,
      if m.isStatic then parameters m.parameters else withReceiver m.parameters,
      typeExpr m.returnType⟩

/-- The methods of one name: operators first, the others being overloads of one another. -/
def methodGroupStubs (ms : List Method) : List Statement :=
  let plain := ms.filter (·.operator.isNone)
  ms.flatMap (fun m => match m.operator with
    | some symbol => operatorStubs m symbol
    | none => []) ++
    plain.map (methodStub (isSeveral plain))

def methodStubs (ms : List Method) : List Statement :=
  (Text.groupBy Method.name ms).flatMap fun group => methodGroupStubs group.2

/-- The members that get into the stub. -/
def accepted (members : List Member) : List Member :=
  members.filter fun m => (memberRejection? m).isNone

def constructorsOf (members : List Member) : List Constructor :=
  members.filterMap fun
    | .constructor c => some c
    | _ => none

def propertiesOf (members : List Member) : List Property :=
  members.filterMap fun
    | .property p => some p
    | _ => none

def fieldsOf (members : List Member) : List Field :=
  members.filterMap fun
    | .field f => some f
    | _ => none

def methodsOf (members : List Member) : List Method :=
  members.filterMap fun
    | .method m => some m
    | _ => none

/-- The body of a class, given the stubs of its nested types. A body needs a statement. -/
def classBody (members : List Member) (nested : List Statement) : List Statement :=
  let members := accepted members
  let body :=
    titled "Constructors" (constructorStubs (constructorsOf members)) ++
      titled "Properties" ((propertiesOf members).flatMap propertyStubs) ++
      titled "Fields" ((fieldsOf members).map fieldStub) ++
      titled "Methods" (methodStubs (methodsOf members)) ++
      titled "Nested Types" nested
  if body.isEmpty then [.pass] else body

def classHeading (base : Option String) : Heading :=
  match base with
  | none => .plain
  | some base => .derived base

/-- Constants are followed by a blank line. -/
def enumBody (constants : List EnumConstant) : List Statement :=
  if constants.isEmpty then [.pass]
  else constants.map (fun c => .assign (safeName c.name) c.value.toInt) ++ [.blank]

mutual

/-- The stub of a type, unless its kind has none. -/
def stub? : TypeInfo → Option Statement
  | ⟨header, members⟩ =>
    match header.kind with
    | .unsupported => none
    | .enumeration =>
      some (.classDef header.name .enumeration (enumBody header.constants))
    | _ =>
      some (.classDef header.name (classHeading header.base)
        (classBody members (nestedStubs members)))

/-- A blank line before each of the nested types. -/
def nestedStubs : List Member → List Statement
  | [] => []
  | .nested t :: rest =>
    (if (typeRejection? t.toTypeHeader).isSome then []
    else
      match stub? t with
      | none => []
      | some s => [.blank, s]) ++ nestedStubs rest
  | _ :: rest => nestedStubs rest

end

def skippedMembers (owner : String) (members : List Member) : List Event :=
  members.filterMap fun m =>
    (memberRejection? m).map fun r => .memberSkipped owner m.displayName r.reason

/-- Reports on the operators without a slot, in the order in which methods are written. -/
def operatorEvents (owner : String) (ms : List Method) : List Event :=
  (Text.groupBy Method.name ms).flatMap fun group =>
    group.2.filterMap fun m =>
      match m.operator with
      | none => none
      | some symbol =>
        if (operatorSlot? symbol).isNone then some (.operatorUnsupported owner symbol) else none

mutual

/-- What there is to report about a type whose stub is asked for. -/
def events : TypeInfo → List Event
  | ⟨header, members⟩ =>
    match header.kind with
    | .unsupported => [.kindUnsupported header.qualifiedName header.origin]
    | .enumeration => []
    | _ =>
      skippedMembers header.name members ++
        operatorEvents header.name (methodsOf (accepted members)) ++
        nestedEvents members

def nestedEvents : List Member → List Event
  | [] => []
  | .nested t :: rest =>
    (if (typeRejection? t.toTypeHeader).isSome then [] else events t) ++ nestedEvents rest
  | _ :: rest => nestedEvents rest

end

/-- The text of a type's stub at a depth of nesting. -/
def text? (depth : Nat) (t : TypeInfo) : Option String := (stub? t).map (·.text depth)

end StubTree.Stub
