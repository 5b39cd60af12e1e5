import StubTree.Command.Execution
import StubTree.Log.Filter
import StubTree.Log.Line
import StubTree.Package.Progress

/-!
What appears on a terminal: results on one stream; progress, log lines and complaints on the other.
Progress takes one line, which is erased before it is written anew.
-/

namespace StubTree.Command

open Log (Filter Format Event)

/-- The environment variables that decide about logging. -/
structure Environment where
  log : Option String := none
  logFormat : Option String := none
  generalLog : Option String := none
deriving Repr

structure Logging where
  filter : Filter
  format : Format
  complaints : List String
deriving Repr

def Environment.format (env : Environment) : Format :=
  if (env.logFormat.map Log.lowerAscii) = some "json" then .json else .text

/-- The program's own variable goes before the general one, and lets nothing through if it holds no
directive; the general one lets errors through then. -/
def Environment.logging? (env : Environment) : Option Logging :=
  match env.log, env.generalLog with
  | some text, _ => some ⟨.parse 0 text, env.format, Filter.complaints text⟩
  | none, some text => some ⟨.parse Log.Level.error.rank text, env.format, Filter.complaints text⟩
  | none, none => none

structure Screen where
  output : String := ""
  diagnostics : String := ""
  /-- Whether a line of progress is showing. -/
  dirty : Bool := false
deriving Repr

def eraseLine : String := "\r\x1b[2K"

def progressLine (label : String) (done total : Nat) : String :=
  eraseLine ++ "Generating Python Stubs [" ++
    Log.padLeft 3 (toString (Package.percent done total)) ++ "%] " ++ label

namespace Screen

def complain (screen : Screen) (text : String) : Screen :=
  { screen with diagnostics := screen.diagnostics ++ text }

def add (logging : Option Logging) (time : String) (screen : Screen) : Notice → Screen
  | .event e =>
    match logging with
    | none => screen
    | some l => if l.filter.lets e then screen.complain (e.line l.format time) else screen
  | .advance label done total =>
    { screen.complain (progressLine label done total) with dirty := true }
  | .cleared =>
    if screen.dirty then { screen.complain eraseLine with dirty := false } else screen
  | .output text => { screen with output := screen.output ++ text }
  | .diagnostic text => screen.complain text

def ofNotices (logging : Option Logging) (time : String) (notices : List Notice) : Screen :=
  notices.foldl (add logging time)
    { diagnostics := String.join ((logging.map Logging.complaints).getD []) }

end Screen

structure Ending where
  status : Nat
  output : String
  diagnostics : String
  tree : Files.Tree

def Execution.ending (env : Environment) (time : String) (execution : Execution) : Ending :=
  let screen := Screen.ofNotices env.logging? time execution.notices
  let last := match execution.fault with
    | none => ""
    | some fault => "error: " ++ fault.message ++ "\n"
  ⟨execution.status, screen.output, screen.diagnostics ++ last, execution.tree⟩

/-- A whole program run on a parsed command line. -/
def perform (env : Environment) (time : String) (command : Invocation) (tree : Files.Tree) :
    Ending :=
  (execute command tree).ending env time

def usage : String :=
  "Usage: stubgen generate --input <INPUT>... [--out <OUT>] [--no-op]\n" ++
  "       stubgen open [--out <OUT>]\n"

/-- Without a command there is only the usage to show. -/
def Stop.ending (stop : Stop) (tree : Files.Tree) : Ending :=
  if stop = .help then ⟨stop.status, usage, "", tree⟩
  else ⟨stop.status, "", "error: " ++ stop.name ++ "\n" ++ usage, tree⟩

/-- A whole program run. -/
def answer (search : Search) (desktop : Desktop) (env : Environment) (time : String)
    (args : List String) (tree : Files.Tree) : Ending :=
  match parse args with
  | .error stop => stop.ending tree
  | .ok command => (executeBy search desktop command tree).ending env time

end StubTree.Command
