import StubTree.Log.Event
import StubTree.Text.Blank
import StubTree.Text.Regex

/-!
Directives: what a filter is made of. A directive is a level for everything, or it is a target, or a
condition in brackets, or both, with a level of its own. The condition is a span, a field that an
event has to have, or both.
-/

namespace StubTree.Log

/-- The rank up to which events are let through; nothing is at zero. -/
abbrev Threshold := Nat

/-- What a directive asks of an event besides its target. -/
inductive Condition where
  | none
  | field (name : String)
  /-- A span around the event, or a value that a field of the span has. -/
  | span
deriving DecidableEq, Repr

structure Directive where
  /-- Without a target, all events are meant. -/
  target : Option String
  condition : Condition
  threshold : Threshold
deriving DecidableEq, Repr

inductive DirectiveFault where
  | malformed
  | badLevel
  | badValue (fault : Text.RegexFault)
deriving DecidableEq, Repr

namespace DirectiveFault

def message : DirectiveFault → String
  | malformed => "invalid filter directive"
  | badLevel =>
    "error parsing level filter: expected one of \"off\", \"error\", \"warn\", \"info\", " ++
      "\"debug\", \"trace\", or a number 0-5"
  | badValue .unreadable => "invalid field filter: error building NFA"
  | badValue .wordEdge =>
    "invalid field filter: unsupported regex feature for DFAs: cannot build DFAs for regexes " ++
      "with Unicode word boundaries; switch to ASCII word boundaries, or heuristically enable " ++
      "Unicode word boundaries or use a different regex engine"

end DirectiveFault

def lowerAscii (s : String) : String := String.ofList (s.toList.map Char.toLower)

/-- A threshold as a number of at most one significant digit. -/
def numericThreshold? (s : String) : Option Threshold :=
  let digits := match s.toList with
    | '+' :: rest => rest
    | all => all
  match digits.dropWhile (· = '0') with
  | [] => if digits.isEmpty then none else some 0
  | [c] => if '1' ≤ c ∧ c ≤ '5' then some (c.toNat - 48) else none
  | _ => none

def namedThresholds : List (String × Threshold) :=
  [("off", 0), ("error", Level.error.rank), ("warn", Level.warn.rank), ("info", Level.info.rank),
    ("debug", Level.debug.rank), ("trace", Level.trace.rank), ("", Level.error.rank)]

def threshold? (s : String) : Option Threshold :=
  match numericThreshold? s with
  | some n => some n
  | none => namedThresholds.lookup (lowerAscii s)

def unsigned : List Char → List Char
  | '+' :: rest | '-' :: rest => rest
  | text => text

/-- Whether a text is a number in decimal digits, or one of the words for what is none. -/
def isNumeral (s : String) : Bool :=
  let text := unsigned s.toList
  let (whole, rest) := text.span Char.isDigit
  let (fraction, rest) := match rest with
    | '.' :: rest => rest.span Char.isDigit
    | _ => ([], rest)
  let complete := match rest with
    | [] => true
    | e :: power =>
      (e = 'e' || e = 'E') && !(unsigned power).isEmpty && (unsigned power).all Char.isDigit
  ["inf", "infinity", "nan"].contains (lowerAscii (String.ofList text)) ||
    !(whole ++ fraction).isEmpty && complete

namespace Directive

/-- The text of a directive twice: `seen` is without the blanks around it, and its parts are told
apart there; `text` is as it stands, and its parts are cut out of it at the same places. -/
structure Cursor where
  seen : List Char
  text : List Char

namespace Cursor

def ofString (s : String) : Cursor :=
  let front := s.toList.dropWhile Text.isWhiteSpace
  ⟨(front.reverse.dropWhile Text.isWhiteSpace).reverse, s.toList⟩

def skip (c : Cursor) : Cursor := ⟨c.seen.tail, c.text.tail⟩

/-- The part before the first character at which it stops, and what is left from there on. -/
def upTo (stops : Char → Bool) (c : Cursor) : String × Cursor :=
  let n := (c.seen.takeWhile (!stops ·)).length
  (String.ofList (c.text.take n), ⟨c.seen.drop n, c.text.drop n⟩)

end Cursor

/-- Whether a target may begin with a character. -/
def startsTarget (c : Char) : Bool :=
  c = '-' || c = ':' || c = '_' || Text.isAlphanumeric c

/-- The level to the end of a directive. Without one, everything is let through. -/
def level (c : Cursor) : Except DirectiveFault Threshold :=
  if c.text.isEmpty then .ok Level.trace.rank
  else
    match threshold? (String.ofList c.text) with
    | some n => .ok n
    | none => .error .badLevel

/-- What comes after the closing bracket. -/
def levelAfterBracket (c : Cursor) : Except DirectiveFault Threshold :=
  match c.seen with
  | [] => .ok Level.trace.rank
  | '=' :: _ => level c.skip
  | _ => .error .malformed

/-- The condition that a field between braces is, after a span or none. Its value is a number or a
regular expression. -/
def fieldCondition (span field : String) : Except DirectiveFault Condition :=
  match field.toList.span (· ≠ '=') with
  | ([], []) => .error .malformed
  | (_, []) => .ok (if span.isEmpty then .field field else .span)
  | (_, _ :: rest) =>
    let value := String.ofList (rest.takeWhile (· ≠ '='))
    if isNumeral value then .ok .span
    else
      match Text.regexFault? value with
      | none => .ok .span
      | some fault => .error (.badValue fault)

/-- A condition after its opening bracket, and what is left after the closing one. -/
def bracketed (c : Cursor) : Except DirectiveFault (Condition × Cursor) := do
  let (span, c) := c.upTo fun x => x = ']' || x = '\x7b'
  match c.seen with
  | [] => .error .malformed
  | ']' :: _ => .ok (.span, c.skip)
  | _ =>
    let (field, c) := c.skip.upTo (· = '\x7d')
    if c.seen.isEmpty then .error .malformed
    else
      let condition ← fieldCondition span field
      match c.skip.seen with
      | ']' :: _ => .ok (condition, c.skip.skip)
      | _ => .error .malformed

/-- What comes after the opening bracket of a directive. -/
def afterBracket (target : Option String) (c : Cursor) : Except DirectiveFault Directive := do
  let (condition, c) ← bracketed c
  return ⟨target, condition, ← levelAfterBracket c⟩

/-- A level alone, or a target that lets everything through. -/
def bare (s : String) : Directive :=
  match threshold? s with
  | some n => ⟨none, .none, n⟩
  | none => ⟨some s, .none, Level.trace.rank⟩

def parse (s : String) : Except DirectiveFault Directive :=
  let c := Cursor.ofString s
  match c.seen with
  | [] => .error .malformed
  | '[' :: _ => afterBracket none c.skip
  | first :: _ =>
    if !startsTarget first then .error .malformed
    else
      let (target, c) := c.upTo fun x => x = '=' || x = '['
      match c.seen with
      | [] => .ok (bare s)
      | '[' :: _ => afterBracket (some target) c.skip
      | _ => return ⟨some target, .none, ← level c.skip⟩

end Directive

end StubTree.Log
