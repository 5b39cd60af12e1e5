/-!
Patterns of file names: `?` stands for one character, `*` for any number of them, brackets for one of
several, and a component `**` for any number of directories. A pattern never matches a slash.
-/

namespace StubTree.Command

/-- Characters that make a text a pattern. -/
def isWild (c : Char) : Bool := c = '*' || c = '?' || c = '[' || c = '\x7b'

inductive Range where
  | one (c : Char)
  | between (first last : Char)
deriving DecidableEq, Repr

namespace Range

def contains : Range → Char → Bool
  | one c, d => c = d
  | between first last, d => first ≤ d && d ≤ last

end Range

inductive Token where
  | char (c : Char)
  | anyChar
  | anyText
  | anyDirectories
  | oneOf (ranges : List Range)
  | noneOf (ranges : List Range)
deriving DecidableEq, Repr

/-- Why a text is no pattern. -/
inductive PatternFlaw where
  | starRun
  | recursiveNotAlone
  | badRange
deriving DecidableEq, Repr

namespace PatternFlaw

def reason : PatternFlaw → String
  | starRun => "wildcards are either regular `*` or recursive `**`"
  | recursiveNotAlone => "recursive wildcards must form a single path component"
  | badRange => "invalid range pattern"

end PatternFlaw

/-- A flaw and the number of characters before it. -/
structure PatternFault where
  position : Nat
  flaw : PatternFlaw
deriving DecidableEq, Repr

namespace PatternFault

def message (fault : PatternFault) : String :=
  s!"Pattern syntax error near position {fault.position}: {fault.flaw.reason}"

end PatternFault

/-- The ranges between brackets. -/
def ranges : List Char → List Range
  | first :: '-' :: last :: rest => .between first last :: ranges rest
  | c :: rest => .one c :: ranges rest
  | [] => []

/-- The characters up to a closing bracket, which may not be the first, and those after it. -/
def bracketed? : List Char → Option (List Char × List Char)
  | first :: rest =>
    match rest.dropWhile (· ≠ ']') with
    | _ :: after => some (first :: rest.takeWhile (· ≠ ']'), after)
    | [] => none
  | [] => none

/-- A token that begins with a bracket, and what comes after it. -/
def bracketToken? : List Char → Option (Token × List Char)
  | '!' :: rest => (bracketed? rest).map fun (inner, after) => (.noneOf (ranges inner), after)
  | rest => (bracketed? rest).map fun (inner, after) => (.oneOf (ranges inner), after)

/-- The tokens of a pattern from `position` on; `before` is the character there before. `fuel`
bounds the number of tokens. -/
def tokensFrom : Nat → Nat → Option Char → List Char → Except PatternFault (List Token)
  | 0, _, _, _ => .ok []
  | _, _, _, [] => .ok []
  | fuel + 1, position, before, c :: rest =>
    if c = '?' then do
      return .anyChar :: (← tokensFrom fuel (position + 1) (some c) rest)
    else if c = '[' then
      match bracketToken? rest with
      | none => .error ⟨position, .badRange⟩
      | some (token, after) => do
        let next := position + 1 + (rest.length - after.length)
        return token :: (← tokensFrom fuel next (some ']') after)
    else if c = '*' then
      let stars := (rest.takeWhile (· = '*')).length + 1
      let after := rest.dropWhile (· = '*')
      if stars = 1 then do
        return .anyText :: (← tokensFrom fuel (position + 1) (some c) rest)
      else if 2 < stars then .error ⟨position + 2, .starRun⟩
      else if before.isSome && before ≠ some '/' then .error ⟨position - 1, .recursiveNotAlone⟩
      else
        match after with
        | [] => .ok [.anyDirectories]
        | '/' :: after => do
          return .anyDirectories :: (← tokensFrom fuel (position + 3) (some '/') after)
        | _ :: _ => .error ⟨position + 2, .recursiveNotAlone⟩
    else do
      return .char c :: (← tokensFrom fuel (position + 1) (some c) rest)

def tokens (pattern : List Char) : Except PatternFault (List Token) :=
  tokensFrom (pattern.length + 1) 0 none pattern

namespace Token

/-- Whether a token stands for a character, if it stands for one. -/
def accepts : Token → Char → Bool
  | char c, d => c = d
  | anyChar, _ => true
  | oneOf rs, d => rs.any (·.contains d)
  | noneOf rs, d => !rs.any (·.contains d)
  | anyText, _ => false
  | anyDirectories, _ => false

end Token

/-- Whether a name fits, with `onRest` for what comes after a token that stands for any text. -/
def anySuffix (onRest : List Char → Bool) : List Char → Bool
  | [] => onRest []
  | c :: rest => onRest (c :: rest) || anySuffix onRest rest

def fits : List Token → List Char → Bool
  | [], name => name.isEmpty
  | .anyText :: more, name => anySuffix (fits more) name
  | .anyDirectories :: more, name => anySuffix (fits more) name
  | token :: more, c :: name => token.accepts c && fits more name
  | _ :: _, [] => false

/-- The text that tokens without wildcards stand for. -/
def plainText? : List Token → Option (List Char)
  | [] => some []
  | .char c :: more => (plainText? more).map (c :: ·)
  | _ :: _ => none

end StubTree.Command
