import StubTree.Command.Arguments
import StubTree.Command.Expansion
import StubTree.Package.Run

/-!
Commands on a tree of files. Nothing is changed before all inputs have been resolved; from then on
only the run itself can fail.
-/

namespace StubTree.Command

open Files
open Log (Event)

inductive CommandFault where
  | input (fault : InputFault)
  | generation (out : String) (failure : Failure)
  | browsing (failure : Failure)
deriving DecidableEq, Repr

namespace CommandFault

/-- The fault with all that lies behind it. -/
def message : CommandFault → String
  | input fault => fault.message
  | generation out failure =>
    s!"python stub generation into {out} failed: {failure.message}: {failure.origin}"
  | browsing failure => s!"{failure.message}: {failure.origin}"

end CommandFault

structure Execution where
  fault : Option CommandFault
  tree : Tree
  notices : List Notice

namespace Execution

def status (e : Execution) : Nat := if e.fault.isSome then 1 else 0

end Execution

/-- Programs that show a directory, in the order in which they are looked for. -/
def launchers : List String := ["xdg-open", "open", "explorer"]

/-- Where programs are looked for and started. -/
structure Desktop where
  /-- The program of a name, if there is one. -/
  find : String → Option String
  /-- Starts a program on a directory, without waiting for its end. -/
  start : String → String → Except Fault Unit

/-- A place without programs. -/
def Desktop.bare : Desktop := ⟨fun _ => none, fun _ _ => .error .notFound⟩

/-- Shows a directory to the user, if it is there and anything can show it. -/
def browseOn (desktop : Desktop) (root : String) : Job Tree Bool := do
  if (← Job.get).isDirectoryAt root then
    match launchers.findSome? desktop.find with
    | none => Job.fail .noBrowser
    | some launcher =>
      match desktop.start launcher root with
      | .error fault => Job.fail (.access fault)
      | .ok () => return true
  else
    Job.report [.locationMissing root]
    return false

def browse (root : String) : Job Tree Bool := browseOn .bare root

/-- The settings of a dry run, in full. -/
def describe (inputs : List String) (out : String) : String :=
  let item (s : String) : String := "                " ++ Text.quoted s ++ ",\n"
  let list := if inputs.isEmpty then "[]"
    else "[\n" ++ String.join (inputs.map item) ++ "            ]"
  "CommandLineInterface \x7b\n" ++
  "    cmd: Generate(\n" ++
  "        GenerateOut \x7b\n" ++
  "            input: " ++ list ++ ",\n" ++
  "            output_settings: OutputSettings \x7b\n" ++
  "                out: " ++ Text.quoted out ++ ",\n" ++
  "            \x7d,\n" ++
  "            no_op: true,\n" ++
  "        \x7d,\n" ++
  "    ),\n" ++
  "\x7d\n"

/-- What is said after a run. -/
def summary (sources : Nat) (report : Package.Report) : List Notice :=
  (if report.failed = 0 then []
    else [.diagnostic s!"warning: {report.failed} of {sources} sources could not be loaded\n"]) ++
  [.output (s!"generated {report.typesWritten} types in {report.namespaces} namespaces at: " ++
    Package.withSlashes report.outputRoot ++ "\n")]

/-- The end of a run that had so many sources. -/
def conclude (out : String) (sources : Nat) (outcome : Outcome Tree Package.Report) : Execution :=
  match outcome.result with
  | .error failure => ⟨some (.generation out failure), outcome.state, outcome.notices⟩
  | .ok report => ⟨none, outcome.state, outcome.notices ++ summary sources report⟩

def generate (paths : List String) (out : String) (tree : Tree) : Execution :=
  conclude out paths.length (Package.run (paths.map (Source.openedOrNot tree)) out tree)

def showOutput (desktop : Desktop) (out : String) (tree : Tree) : Execution :=
  let outcome := browseOn desktop out tree
  match outcome.result with
  | .error failure => ⟨some (.browsing failure), outcome.state, outcome.notices⟩
  | .ok shown =>
    ⟨none, outcome.state, outcome.notices ++
      (if shown then [] else [.diagnostic "notice: stubs directory does not exist.\n"])⟩

/-- Inputs with wildcards are looked for by `search`, and programs on `desktop`. -/
def executeBy (search : Search) (desktop : Desktop) (command : Invocation) (tree : Tree) :
    Execution :=
  match command with
  | .showOutput out => showOutput desktop out tree
  | .generate inputs out dryRun =>
    if dryRun then ⟨none, tree, [.diagnostic (describe inputs out)]⟩
    else
      match resolveAll search inputs with
      | .error fault => ⟨some (.input fault), tree, []⟩
      | .ok paths => generate paths out tree

def execute (command : Invocation) (tree : Tree) : Execution :=
  executeBy (searchIn tree) .bare command tree

end StubTree.Command
