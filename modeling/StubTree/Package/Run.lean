import StubTree.Package.Context
import StubTree.Package.Readme
import StubTree.Source

/-!
A run: the root is emptied, the types of each source are sifted, grouped by namespace and written,
and the package is finished. A source without types is reported and counted, but does not stop the
run; a file that cannot be written does.
-/

namespace StubTree.Package

open Metadata Files
open Log (Event)

/-- Either the namespace a type is filed under, or what there is to say about its rejection. -/
def filing (t : TypeInfo) : Except Event (String × TypeInfo) :=
  match Stub.typeRejection? t.toTypeHeader with
  | some r => .error (.typeSkipped t.name r.reason)
  | none =>
    let home := Namespace.homeOf t.toTypeHeader
    match Namespace.rejection? home with
    | some r => .error (.namespaceRejected home t.name r.reason t.origin)
    | none => .ok (home, t)

/-- The types that are filed, with their namespaces. -/
def filed (types : List TypeInfo) : List (String × TypeInfo) :=
  types.filterMap fun t =>
    match filing t with
    | .ok pair => some pair
    | .error _ => none

/-- Reports on the types that are not filed. -/
def unfiled (types : List TypeInfo) : List Event :=
  types.filterMap fun t =>
    match filing t with
    | .ok _ => none
    | .error event => some event

/-- Writes to one namespace after the other and counts the types written. -/
def appendAll (source : String) : List (String × List TypeInfo) → Job Site Nat
  | [] => return 0
  | (home, types) :: rest => do
    let n ← append home source types
    return n + (← appendAll source rest)

def processTypes (source : String) (types : List TypeInfo) : Job Site Unit := do
  Job.report (unfiled types)
  let groups := Namespace.group (filed types)
  let written ← appendAll source groups
  Job.report [.sourceProcessed source types.length written groups.length]
  Site.onContext fun c =>
    { c with written := c.written + written, processed := c.processed + 1 }

def processSource (source : Source) : Job Site Unit := do
  match source.types (← Job.get).tree with
  | .error fault =>
    Job.report [.sourceFailed source.id fault]
    Site.onContext fun c => { c with failed := c.failed + 1 }
  | .ok types => processTypes source.id types

structure Report where
  /-- The absolute path of the root. -/
  outputRoot : String
  processed : Nat
  failed : Nat
  namespaces : Nat
  typesWritten : Nat
deriving DecidableEq, Repr

/-- Marks the packages and writes the settings. -/
def finish : Job Site Report := do
  finalize
  let site ← Job.get
  let context := site.context
  let outputRoot := site.tree.canonical context.root
  Site.onFiles (Action.write (join context.root readmeFile) (bytes (readmeText outputRoot)))
  return ⟨outputRoot, context.processed, context.failed, context.touched.length, context.written⟩

/-- Makes the root an empty directory. -/
def emptyRoot (root : String) : Action Unit := do
  if (← get).isPresent root then Action.removeDirectory root
  Action.createDirectories root

def reset (root : String) : Job Tree Unit := Job.act (.rootUnusable root) (emptyRoot root)

/-- Processes sources of which `done` are behind and `total` there are in all. -/
def processFrom (total : Nat) : Nat → List Source → Job Site Unit
  | _, [] => return ()
  | done, source :: rest => do
    Job.tell [.advance source.id done total]
    processSource source
    processFrom total (done + 1) rest

def processAll (sources : List Source) : Job Site Unit := processFrom sources.length 0 sources

/-- Runs a job on a new package below `root`. -/
def withNewPackage {α : Type} (root : String) (job : Job Site α) : Job Tree α :=
  Job.focus (fun tree => ⟨tree, { root := root }⟩) (fun site _ => site.tree) job

def lastWords : Except Failure Report → List Notice
  | .ok report =>
    [.cleared, .event (.completed report.outputRoot report.typesWritten report.failed)]
  | .error failure => [.cleared, .event (.aborted failure)]

/-- Makes the whole tree of stubs anew. -/
def run (sources : List Source) (root : String) : Job Tree Report :=
  Job.concluding lastWords do
    reset root
    withNewPackage root do
      processAll sources
      finish

end StubTree.Package
