import StubTree.Metadata.TypeReference

/-!
Declared types and their members, as a document describes them. Every optional part has the value
that a document means when it leaves the part out.
-/

namespace StubTree.Metadata

inductive Direction where
  | normal
  | inReference
  | outReference
deriving DecidableEq, Repr

inductive DefaultValue where
  | null
  | boolean (b : Bool)
  /-- The token of a primitive value, as it is written. -/
  | literal (token : String)
  /-- A value that has no token, such as one of an enumeration. -/
  | nonPrimitive
deriving DecidableEq, Repr

structure Parameter where
  name : String := ""
  type : TypeReference
  variadic : Bool := false
  direction : Direction := .normal
  defaultValue : Option DefaultValue := none
deriving Repr

structure Constructor where
  parameters : List Parameter := []
  deprecated : Bool := false
deriving Repr

structure Property where
  name : String
  type : TypeReference
  readable : Bool := true
  writable : Bool := false
  hasPublicSetter : Bool := false
  isStatic : Bool := false
  indexParameters : List Parameter := []
  deprecated : Bool := false
deriving Repr

namespace Property

/-- A property that takes an index is reached by item access. -/
def isIndexer (p : Property) : Bool := !p.indexParameters.isEmpty

end Property

structure Field where
  name : String
  type : TypeReference
  isStatic : Bool := false
  specialName : Bool := false
  /-- A constant, known when the type is compiled. -/
  literal : Bool := false
  deprecated : Bool := false
deriving Repr

structure Method where
  name : String
  parameters : List Parameter := []
  returnType : TypeReference
  isStatic : Bool := false
  operator : Option String := none
  specialName : Bool := false
  genericDefinition : Bool := false
  deprecated : Bool := false
deriving Repr

namespace Method

/-- A method that overloads the operator `symbol`. -/
def ofOperator (symbol : String) (parameters : List Parameter) (returnType : TypeReference) :
    Method where
  name := symbol
  parameters := parameters
  returnType := returnType
  isStatic := true
  operator := some symbol
  specialName := true

end Method

inductive Kind where
  | reference
  | value
  | interface
  | enumeration
  /-- Everything that has no form in a stub, such as pointers and modules. -/
  | unsupported
deriving DecidableEq, Repr

inductive Visibility where
  | isPublic
  | nonPublic
  | nestedPrivate
deriving DecidableEq, Repr

structure EnumConstant where
  name : String
  value : Int64
deriving DecidableEq, Repr

/-- What is said of a type apart from its members. -/
structure TypeHeader where
  /-- A type without a namespace, or with an empty one, is global. -/
  home : Option String := none
  name : String
  kind : Kind
  /-- Mentioned in a comment only. -/
  base : Option String := none
  genericArity : UInt32 := 0
  genericDefinition : Bool := false
  visibility : Visibility := .isPublic
  specialName : Bool := false
  deprecated : Bool := false
  constants : List EnumConstant := []
  /-- The source of the type; a source fills in its own identifier where none is given. -/
  origin : String := ""
deriving DecidableEq, Repr

namespace TypeHeader

/-- The name of a type behind that of its namespace. -/
def qualifiedName (t : TypeHeader) : String :=
  match t.home with
  | none => t.name
  | some home => if home.isEmpty then t.name else home ++ "." ++ t.name

end TypeHeader

mutual

structure TypeInfo extends TypeHeader where
  members : List Member := []

inductive Member where
  | constructor (c : Constructor)
  | property (p : Property)
  | field (f : Field)
  | method (m : Method)
  | nested (t : TypeInfo)

end

namespace Member

/-- The name under which a member is reported. -/
def displayName : Member → String
  | .constructor _ => ".ctor"
  | .property p => p.name
  | .field f => f.name
  | .method m => m.name
  | .nested t => t.name

end Member

namespace TypeInfo

/-- A type with nothing but its namespace, name and kind. -/
def bare (home name : String) (kind : Kind) : TypeInfo where
  home := if home.isEmpty then none else some home
  name := name
  kind := kind

def addMember (t : TypeInfo) (m : Member) : TypeInfo :=
  { t with members := t.members ++ [m] }

def addConstant (t : TypeInfo) (name : String) (value : Int64) : TypeInfo :=
  { t with constants := t.constants ++ [⟨name, value⟩] }

end TypeInfo

end StubTree.Metadata
