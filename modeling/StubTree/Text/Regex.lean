import StubTree.Text.Alphanumeric
import StubTree.Text.DecimalDigit

/-!
Regular expressions: which texts are one, and which of them an automaton can run. What they match is
left open. Covered are alternatives, groups with flags and names, sets with ranges and operators, the
repetitions `*`, `+` and `?`, and escapes of one character or of a fixed number of digits. Nothing in
braces is covered: an opening brace makes a text unreadable, except as a member of a set.
-/

namespace StubTree.Text

inductive RegexFault where
  | unreadable
  /-- The edges of Unicode words need more than an automaton. -/
  | wordEdge
deriving DecidableEq, Repr

namespace Regex

/-- What an escape stands for. -/
inductive Escape where
  | char (c : Char)
  | set
  | edge
  | wordEdge
deriving DecidableEq, Repr

def hexDigit? (c : Char) : Option Nat :=
  if '0' ≤ c ∧ c ≤ '9' then some (c.toNat - 48)
  else if 'a' ≤ c ∧ c ≤ 'f' then some (c.toNat - 87)
  else if 'A' ≤ c ∧ c ≤ 'F' then some (c.toNat - 55)
  else none

/-- A character by its code point in so many hexadecimal digits. -/
def hexEscape? (digits : Nat) (text : List Char) : Option (Escape × List Char) := do
  let values ← (text.take digits).mapM hexDigit?
  let n := values.foldl (fun n d => n * 16 + d) 0
  if values.length = digits ∧ n.isValidChar then some (.char (Char.ofNat n), text.drop digits)
  else none

def controlEscapes : List (Char × Char) :=
  [('a', '\x07'), ('f', '\x0c'), ('t', '\t'), ('n', '\n'), ('r', '\r'), ('v', '\x0b')]

/-- The escape after a backslash, and what comes after it. -/
def escape? : List Char → Option (Escape × List Char)
  | [] => none
  | c :: rest =>
    if c = 'x' then hexEscape? 2 rest
    else if c = 'u' then hexEscape? 4 rest
    else if c = 'U' then hexEscape? 8 rest
    else if c = 'p' ∨ c = 'P' then
      match rest with
      | category :: rest =>
        if "clmnpsz".toList.contains category.toLower then some (.set, rest) else none
      | [] => none
    else if "dswDSW".toList.contains c then some (.set, rest)
    else if c = 'A' ∨ c = 'z' then some (.edge, rest)
    else if "bB<>".toList.contains c then some (.wordEdge, rest)
    else
      match controlEscapes.lookup c with
      | some control => some (.char control, rest)
      | none => if c.toNat < 128 && !c.isAlphanum then some (.char c, rest) else none

/-- A member of a set, if it is a single character, and what comes after it. -/
def member? : List Char → Option (Option Char × List Char)
  | [] => none
  | '\\' :: rest =>
    match escape? rest with
    | some (.char c, rest) => some (some c, rest)
    | some (.set, rest) => some (none, rest)
    | _ => none
  | c :: rest => some (some c, rest)

/-- A member of a set, or a range of characters in ascending order; returns what comes after it. -/
def range? (text : List Char) : Option (List Char) := do
  let (first, rest) ← member? text
  match rest with
  | '-' :: next :: more =>
    if next = ']' ∨ next = '-' then some rest
    else
      let (last, rest) ← member? (next :: more)
      match first, last with
      | some a, some b => if a ≤ b then some rest else none
      | _, _ => none
  | _ => some rest

/-- What comes after the opening of a set: hyphens at the front are members, and so is a closing
bracket if it comes first. -/
def afterOpening (text : List Char) : List Char :=
  let text := match text with
    | '^' :: rest => rest
    | _ => text
  match text with
  | ']' :: rest => rest
  | _ => text.dropWhile (· = '-')

/-- What comes after a set that is `depth` sets deep in others. `fuel` bounds the number of its
members, operators and brackets. -/
def afterSet? : Nat → Nat → List Char → Option (List Char)
  | 0, _, _ => none
  | fuel + 1, depth, text =>
    match text with
    | [] => none
    | '[' :: rest => afterSet? fuel (depth + 1) (afterOpening rest)
    | ']' :: rest =>
      match depth with
      | 0 => some rest
      | depth + 1 => afterSet? fuel depth rest
    | '&' :: '&' :: rest => afterSet? fuel depth rest
    | '-' :: '-' :: rest => afterSet? fuel depth rest
    | '~' :: '~' :: rest => afterSet? fuel depth rest
    | text => do afterSet? fuel depth (← range? text)

/-- Flags up to the colon or the parenthesis after them: whether words are Unicode from there on,
whether a group begins there, and what comes then. `seen` are the flags before, the last one first;
those after a hyphen are switched off. -/
def flags? (unicode : Bool) (seen : List Char) : List Char → Option (Bool × Bool × List Char)
  | [] => none
  | c :: rest =>
    if c = ':' ∨ c = ')' then
      if seen.head? = some '-' ∨ c = ')' ∧ seen.isEmpty then none
      else some (unicode, c = ':', rest)
    else if seen.contains c || !"-imsUuRx".toList.contains c then none
    else flags? (if c = 'u' then !seen.contains '-' else unicode) (c :: seen) rest

def startsName (c : Char) : Bool :=
  c = '_' || isAlphanumeric c && !isDecimalDigit c

def continuesName (c : Char) : Bool :=
  c = '_' || c = '.' || c = '[' || c = ']' || isAlphanumeric c

/-- A name up to the angle after it, and what comes then. -/
def name? (text : List Char) : Option (List Char × List Char) :=
  match text.takeWhile (· ≠ '>'), text.dropWhile (· ≠ '>') with
  | c :: name, _ :: rest =>
    if startsName c && name.all continuesName then some (c :: name, rest) else none
  | _, _ => none

/-- What has been read of a regular expression. -/
structure Reading where
  /-- Whether words were Unicode before each of the groups that are open. -/
  outer : List Bool := []
  unicode : Bool := true
  /-- Whether something stands there that can be repeated. -/
  repeatable : Bool := false
  names : List (List Char) := []
  hasWordEdge : Bool := false

namespace Reading

def item (p : Reading) : Reading := { p with repeatable := true }

def within (p : Reading) (unicode : Bool) : Reading :=
  { p with outer := p.unicode :: p.outer, unicode, repeatable := false }

/-- Reads what comes after an opening parenthesis. -/
def enter? (p : Reading) : List Char → Option (Reading × List Char)
  | '?' :: 'P' :: '<' :: rest | '?' :: '<' :: rest => do
    let (name, rest) ← name? rest
    if p.names.contains name then none
    else some ({ p.within p.unicode with names := name :: p.names }, rest)
  | '?' :: rest => do
    let (unicode, group, rest) ← flags? p.unicode [] rest
    if group then some (p.within unicode, rest)
    else some ({ p with unicode, repeatable := false }, rest)
  | rest => some (p.within p.unicode, rest)

def leave? (p : Reading) : Option Reading :=
  match p.outer with
  | [] => none
  | unicode :: outer => some { p with outer, unicode, repeatable := true }

end Reading

/-- Reads a regular expression to its end. `fuel` bounds the number of its items. -/
def read? : Nat → Reading → List Char → Option Reading
  | 0, _, _ => none
  | _ + 1, p, [] => if p.outer.isEmpty then some p else none
  | fuel + 1, p, c :: rest =>
    if c = '\\' then do
      let (escape, rest) ← escape? rest
      let edge := escape = .wordEdge && p.unicode
      read? fuel { p.item with hasWordEdge := p.hasWordEdge || edge } rest
    else if c = '(' then do
      let (p, rest) ← p.enter? rest
      read? fuel p rest
    else if c = ')' then do read? fuel (← p.leave?) rest
    else if c = '|' then read? fuel { p with repeatable := false } rest
    else if c = '[' then do read? fuel p.item (← afterSet? fuel 0 (afterOpening rest))
    else if c = '*' ∨ c = '+' ∨ c = '?' then
      match p.repeatable, rest with
      | false, _ => none
      | true, '?' :: rest => read? fuel p rest
      | true, rest => read? fuel p rest
    else if c = '\x7b' then none
    else read? fuel p.item rest

end Regex

/-- What is wrong with a text as a regular expression, if anything is. -/
def regexFault? (s : String) : Option RegexFault :=
  match Regex.read? (s.toList.length + 1) {} s.toList with
  | none => some .unreadable
  | some p => if p.hasWordEdge then some .wordEdge else none

end StubTree.Text
