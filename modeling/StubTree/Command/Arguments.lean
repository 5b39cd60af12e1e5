import StubTree.Text.Segments

/-!
The command line. Words are read from left to right; an option takes the words after it up to the
next option, or a value written onto it. What is wrong with an option shows when the next one begins
or the line ends, while a word that belongs nowhere is refused at once.
-/

namespace StubTree.Command

inductive Invocation where
  | generate (inputs : List String) (out : String) (dryRun : Bool)
  | showOutput (out : String)
deriving DecidableEq, Repr

/-- Why nothing is run. Asking for help is one reason. -/
inductive Stop where
  | help
  | nothingGiven
  | unknownSubcommand
  | unknownArgument
  | missingInput
  | badValue
  | repeatedOption
  | unwantedValue
deriving DecidableEq, Repr

namespace Stop

/-- The exit status. -/
def status : Stop → Nat
  | help => 0
  | _ => 2

def name : Stop → String
  | help => "DisplayHelp"
  | nothingGiven => "DisplayHelpOnMissingArgumentOrSubcommand"
  | unknownSubcommand => "InvalidSubcommand"
  | unknownArgument => "UnknownArgument"
  | missingInput => "MissingRequiredArgument"
  | badValue => "InvalidValue"
  | repeatedOption => "ArgumentConflict"
  | unwantedValue => "TooManyValues"

end Stop

inductive Subcommand where
  | generate
  | showOutput
deriving DecidableEq, Repr

def Subcommand.ofWord? (word : String) : Option Subcommand :=
  if word = "generate" then some .generate else if word = "open" then some .showOutput else none

inductive Opt where
  | input
  | out
  | dryRun
  | help
deriving DecidableEq, Repr

namespace Opt

def ofLong? (sub : Subcommand) (name : String) : Option Opt :=
  if name = "out" then some out
  else if name = "help" then some help
  else if sub = .generate ∧ name = "input" then some input
  else if sub = .generate ∧ name = "no-op" then some dryRun
  else none

def ofShort? (sub : Subcommand) (c : Char) : Option Opt :=
  if c = 'o' then some out
  else if c = 'h' then some help
  else if sub = .generate ∧ c = 'i' then some input
  else none

def takesValue : Opt → Bool
  | input => true
  | out => true
  | dryRun => false
  | help => false

end Opt

/-- What the words so far have settled, and the option whose values are being collected. -/
structure Settled where
  inputs : List String := []
  out : Option String := none
  dryRun : Bool := false
  pending : Option (Opt × List String) := none
deriving Repr

namespace Settled

/-- Gives an option its values. -/
def give (s : Settled) : Opt → List String → Except Stop Settled
  | .input, values =>
    if values.isEmpty then .error .badValue
    else .ok { s with inputs := s.inputs ++ values, pending := none }
  | .out, [value] =>
    if s.out.isSome then .error .repeatedOption
    else if value.isEmpty then .error .badValue
    else .ok { s with out := some value, pending := none }
  | .out, _ => .error .badValue
  | .dryRun, _ =>
    if s.dryRun then .error .repeatedOption else .ok { s with dryRun := true, pending := none }
  | .help, _ => .error .help

/-- Gives the pending option the values it has collected. -/
def settle (s : Settled) : Except Stop Settled :=
  match s.pending with
  | none => .ok s
  | some (option, values) => s.give option values

/-- Begins with an option, to which a value may be attached. A value for an option that takes none
is refused whatever came before it. -/
def begin (s : Settled) (option : Opt) (attached : Option String) : Except Stop Settled :=
  if !option.takesValue && attached.isSome then .error .unwantedValue
  else do
    let s ← s.settle
    match attached with
    | some value => s.give option [value]
    | none =>
      if option.takesValue then return { s with pending := some (option, []) } else s.give option []

/-- A word that is no option. -/
def word (s : Settled) (value : String) : Except Stop Settled :=
  match s.pending with
  | some (.input, values) => .ok { s with pending := some (.input, values ++ [value]) }
  | some (.out, []) => .ok { s with pending := some (.out, [value]) }
  | _ => .error .unknownArgument

end Settled

/-- A long option and the value behind its equals sign. -/
def splitLong (text : List Char) : String × Option String :=
  match text.dropWhile (· ≠ '=') with
  | [] => (String.ofList text, none)
  | _ :: value => (String.ofList (text.takeWhile (· ≠ '=')), some (String.ofList value))

/-- The value written onto a short option; an equals sign before it does not belong to it. -/
def attachedValue? : List Char → Option String
  | [] => none
  | '=' :: value => some (String.ofList value)
  | value => some (String.ofList value)

/-- One word before the end of the options. -/
def Settled.take (sub : Subcommand) (s : Settled) (text : String) : Except Stop Settled :=
  match text.toList with
  | '-' :: '-' :: long =>
    let (name, value) := splitLong long
    match Opt.ofLong? sub name with
    | some option => s.begin option value
    | none => .error .unknownArgument
  | '-' :: c :: value =>
    match Opt.ofShort? sub c with
    | some .help => s.begin .help none
    | some option => s.begin option (attachedValue? value)
    | none => .error .unknownArgument
  | _ => s.word text

def finished (sub : Subcommand) (s : Settled) : Except Stop Invocation := do
  let s ← s.settle
  let out := s.out.getD "stubs"
  match sub with
  | .showOutput => return .showOutput out
  | .generate =>
    if s.inputs.isEmpty then .error .missingInput
    else return .generate s.inputs out s.dryRun

/-- The words after a subcommand. After two dashes there are no more options, and no other words
have a meaning. -/
def parseOptions (sub : Subcommand) : Settled → List String → Except Stop Invocation
  | s, [] => finished sub s
  | s, word :: rest =>
    if word = "--" then
      if rest.isEmpty then finished sub s else .error .unknownArgument
    else do
      let s ← s.take sub word
      parseOptions sub s rest

/-- What help is asked for has to be there. -/
def parseHelp : List String → Except Stop Invocation
  | [] => .error .help
  | word :: rest =>
    if (word = "help" ∨ (Subcommand.ofWord? word).isSome) ∧ rest.isEmpty then .error .help
    else .error .unknownSubcommand

/-- Two dashes before the subcommand leave no meaning to any word. -/
def parseBare : List String → Except Stop Invocation
  | [] => .error .nothingGiven
  | word :: _ =>
    if word = "help" ∨ (Subcommand.ofWord? word).isSome then .error .unknownArgument
    else .error .unknownSubcommand

/-- An option before the subcommand. -/
def parseFront (text : String) : Except Stop Invocation :=
  match text.toList with
  | '-' :: '-' :: long =>
    let (name, value) := splitLong long
    if name = "help" then .error (if value.isSome then .unwantedValue else .help)
    else .error .unknownArgument
  | '-' :: c :: _ => .error (if c = 'h' then .help else .unknownArgument)
  | _ => .error .unknownSubcommand

def parse : List String → Except Stop Invocation
  | [] => .error .nothingGiven
  | word :: rest =>
    match Subcommand.ofWord? word with
    | some sub => parseOptions sub {} rest
    | none =>
      if word = "help" then parseHelp rest
      else if word = "--" then parseBare rest
      else parseFront word

end StubTree.Command
