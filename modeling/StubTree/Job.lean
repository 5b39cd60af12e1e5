import StubTree.Files.Access
import StubTree.Log.Event

/-!
Jobs: steps that change a state, may fail, and report as they go. A job that fails keeps the state
it has reached and all it has reported.
-/

namespace StubTree

/-- What a job lets the outside know, in the order in which it happens. -/
inductive Notice where
  | event (e : Log.Event)
  /-- Work on `label` begins, with `done` of `total` parts behind it. -/
  | advance (label : String) (done total : Nat)
  | cleared
  | output (text : String)
  | diagnostic (text : String)
deriving DecidableEq, Repr

structure Outcome (σ α : Type) where
  result : Except Failure α
  state : σ
  notices : List Notice

def Job (σ α : Type) := σ → Outcome σ α

namespace Job

variable {σ τ α β : Type}

def pure (a : α) : Job σ α := fun s => ⟨.ok a, s, []⟩

def bind (job : Job σ α) (next : α → Job σ β) : Job σ β := fun s =>
  let first := job s
  match first.result with
  | .error failure => ⟨.error failure, first.state, first.notices⟩
  | .ok a =>
    let second := next a first.state
    ⟨second.result, second.state, first.notices ++ second.notices⟩

instance : Monad (Job σ) where
  pure := pure
  bind := bind

def get : Job σ σ := fun s => ⟨.ok s, s, []⟩

def modify (f : σ → σ) : Job σ Unit := fun s => ⟨.ok (), f s, []⟩

def fail (failure : Failure) : Job σ α := fun s => ⟨.error failure, s, []⟩

def tell (notices : List Notice) : Job σ Unit := fun s => ⟨.ok (), s, notices⟩

def report (events : List Log.Event) : Job σ Unit := tell (events.map .event)

/-- Runs an action on the files. -/
def act (failure : Files.Fault → Failure) (action : Files.Action α) : Job Files.Tree α := fun tree =>
  match action tree with
  | .ok a tree => ⟨.ok a, tree, []⟩
  | .error fault tree => ⟨.error (failure fault), tree, []⟩

/-- Runs a job on a part of a larger state. -/
def focus (part : τ → σ) (replace : σ → τ → τ) (job : Job σ α) : Job τ α := fun s =>
  let inner := job (part s)
  ⟨inner.result, replace inner.state s, inner.notices⟩

/-- Adds last words that depend on how a job ended. -/
def concluding (words : Except Failure α → List Notice) (job : Job σ α) : Job σ α := fun s =>
  let inner := job s
  ⟨inner.result, inner.state, inner.notices ++ words inner.result⟩

end Job

end StubTree
