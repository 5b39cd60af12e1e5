import StubTree.Failure
import StubTree.Text.Quoted

/-!
Events: what is reported while stubs are made, with the level, the text, the fields and the target
under which each is logged.
-/

namespace StubTree.Log

inductive Level where
  | error
  | warn
  | info
  | debug
  | trace
deriving DecidableEq, Repr

namespace Level

def name : Level → String
  | error => "ERROR"
  | warn => "WARN"
  | info => "INFO"
  | debug => "DEBUG"
  | trace => "TRACE"

/-- The higher the rank, the more there is to say. -/
def rank : Level → Nat
  | error => 1
  | warn => 2
  | info => 3
  | debug => 4
  | trace => 5

end Level

inductive Event where
  | typeSkipped (name reason : String)
  | memberSkipped (owner member reason : String)
  | kindUnsupported (name origin : String)
  | operatorUnsupported (owner symbol : String)
  | namespaceRejected (home name reason origin : String)
  | contributed (home source : String) (types : Nat)
  | sourceFailed (source : String) (fault : LoadFault)
  | sourceProcessed (source : String) (exported written namespaces : Nat)
  | completed (output : String) (types failedSources : Nat)
  | aborted (failure : Failure)
  | locationMissing (path : String)
deriving DecidableEq, Repr

/-- The value of a field. In a line of text, words are quoted and plain words are not. -/
inductive FieldValue where
  | plain (s : String)
  | words (s : String)
  | count (n : Nat)
deriving DecidableEq, Repr

namespace Event

def level : Event → Level
  | typeSkipped .. => .debug
  | memberSkipped .. => .debug
  | kindUnsupported .. => .warn
  | operatorUnsupported .. => .warn
  | namespaceRejected .. => .warn
  | contributed .. => .debug
  | sourceFailed .. => .error
  | sourceProcessed .. => .info
  | completed .. => .info
  | aborted .. => .error
  | locationMissing .. => .warn

def message : Event → String
  | typeSkipped .. => "skipping type"
  | memberSkipped .. => "skipping member"
  | kindUnsupported name _ => s!"unsupported type kind for `{name}`"
  | operatorUnsupported owner symbol => s!"unsupported operator `{symbol}` on `{owner}`"
  | namespaceRejected home name reason _ =>
    s!"namespace `{home}` of `{name}` cannot be laid out as directories: {reason}"
  | contributed .. => "appended namespace contribution"
  | sourceFailed source fault => s!"failed to load source `{source}`: {fault.message}"
  | sourceProcessed .. => "processed source"
  | completed .. => "python stubs generated"
  | aborted failure => "python stub generation failed: " ++ failure.message
  | locationMissing _ => "stubs directory does not exist"

def fields : Event → List (String × FieldValue)
  | typeSkipped name reason => [("name", .plain name), ("reason", .words reason)]
  | memberSkipped owner member reason =>
    [("owner", .plain owner), ("member", .words member), ("reason", .words reason)]
  | kindUnsupported _ origin => [("origin", .plain origin)]
  | operatorUnsupported .. => []
  | namespaceRejected _ _ _ origin => [("origin", .plain origin)]
  | contributed home source types =>
    [("namespace", .words home), ("source", .words source), ("types", .count types)]
  | sourceFailed .. => []
  | sourceProcessed source exported written namespaces =>
    [("source", .words source), ("exported", .count exported), ("written", .count written),
      ("namespaces", .count namespaces)]
  | completed output types failedSources =>
    [("output", .plain output), ("types", .count types), ("failed_sources", .count failedSources)]
  | aborted _ => []
  | locationMissing path => [("path", .plain path)]

/-- The part of the program an event comes from. -/
def target : Event → String
  | memberSkipped .. => "stubgen::render"
  | kindUnsupported .. => "stubgen::render"
  | operatorUnsupported .. => "stubgen::render"
  | contributed .. => "stubgen::namespace"
  | _ => "stubgen::emitter"

end Event

end StubTree.Log
