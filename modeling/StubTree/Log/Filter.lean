import StubTree.Log.Directive
import StubTree.Text.Segments

/-!
Which events are logged. A filter is a list of directives between commas. Of those that are about an
event, the one with the longest target decides; among equal targets one that asks for a field goes
first, and then the one with the greater name of a field.
-/

namespace StubTree.Log

namespace Event

/-- The message is a field of every event. -/
def hasField (event : Event) (name : String) : Bool :=
  name = "message" || (event.fields.map Prod.fst).contains name

end Event

namespace Directive

/-- Whether a directive is about an event. There are no spans, so nothing is inside of one. -/
def isAbout (d : Directive) (event : Event) : Bool :=
  let fits := match d.target with
    | none => true
    | some t => t.toList.isPrefixOf event.target.toList
  let meets := match d.condition with
    | .none => true
    | .field name => event.hasField name
    | .span => false
  fits && meets

/-- What decides between two directives about the same event: the length of the target, with none
below all others, and the name of the field. -/
def precision (d : Directive) : Nat × String :=
  let length := match d.target with
    | none => 0
    | some t => t.length + 1
  let field := match d.condition with
    | .field name => name
    | _ => ""
  (length, field)

/-- Whether a directive goes before one that comes earlier in the filter. -/
def overrides (later earlier : Directive) : Bool :=
  let (length, field) := later.precision
  let (longest, name) := earlier.precision
  longest < length || longest = length && !(field < name)

end Directive

structure Filter where
  directives : List Directive
deriving Repr

namespace Filter

/-- The directive that decides about an event. -/
def deciding? (filter : Filter) (event : Event) : Option Directive :=
  let choose (best : Option Directive) (d : Directive) : Option Directive :=
    match best with
    | none => some d
    | some earlier => if d.overrides earlier then some d else some earlier
  (filter.directives.filter (·.isAbout event)).foldl choose none

def lets (filter : Filter) (event : Event) : Bool :=
  match filter.deciding? event with
  | some d => event.level.rank ≤ d.threshold
  | none => false

/-- A filter from a text. Without any directive, `fallback` is the threshold for everything. -/
def parse (fallback : Threshold) (text : String) : Filter :=
  let directives := (Text.segments ',' text).filterMap fun s =>
    if s.isEmpty then none
    else
      match Directive.parse s with
      | .ok d => some d
      | .error _ => none
  ⟨if directives.isEmpty then [⟨none, .none, fallback⟩] else directives⟩

/-- What is said about the directives of a text that cannot be used. -/
def complaints (text : String) : List String :=
  (Text.segments ',' text).filterMap fun s =>
    if s.isEmpty then none
    else
      match Directive.parse s with
      | .ok _ => none
      | .error fault => some s!"ignoring `{s}`: {fault.message}\n"

end Filter

end StubTree.Log
