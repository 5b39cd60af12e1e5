import StubTree.Json.Container

/-!
Skipping a value nobody asked for. Its syntax is checked, but not what it denotes: strings may hold
any bytes and lone surrogates, numbers may have any size, and containers may be nested at will.
-/

namespace StubTree.Json

namespace Reader

/-- What comes next in a string that is skipped; true at its closing quote. -/
def skipPiece : Reader Bool := do
  let _ ← plainBytes
  match ← peek with
  | none => failHere .endOfString
  | some b =>
    if b < 32 then failHere .controlCharacter
    else
      discard
      if b = ascii '"' then return true
      else
        match ← next with
        | none => failHere .endOfString
        | some e =>
          if e = ascii 'u' then
            let _ ← hexUnit
            return false
          else if (simpleEscape e).isSome then return false
          else failHere .invalidEscape

/-- A string up to its closing quote. -/
def skipStringBytes : Fuel → Reader Unit
  | [] => failHere .endOfString
  | _ :: fuel => do
    if ← skipPiece then pure () else skipStringBytes fuel

def skipString : Reader Unit := do
  skipStringBytes (← fuel)

def skipExponent : Reader Unit := do
  discard
  let _ ← exponentSign
  match ← next with
  | none => failHere .invalidNumber
  | some b =>
    if isDigit b then
      let _ ← digits
    else failHere .invalidNumber

def skipFraction : Reader Unit := do
  discard
  let written ← digits
  if written.isEmpty then failAtNext .invalidNumber
  else if ← atExponent then skipExponent
  else pure ()

def skipNumberTail : Reader Unit := do
  if (← peek) = some (ascii '.') then skipFraction
  else if ← atExponent then skipExponent
  else pure ()

/-- A number after its sign. -/
def skipNumber : Reader Unit := do
  match ← next with
  | none => failHere .invalidNumber
  | some b =>
    if b = ascii '0' then
      match ← peek with
      | some d => if isDigit d then failAtNext .invalidNumber else skipNumberTail
      | none => pure ()
    else if isDigit b then
      let _ ← digits
      skipNumberTail
    else failHere .invalidNumber

/-- A container that has been opened. -/
inductive Frame where
  | list
  | object
deriving DecidableEq, Repr

namespace Frame

def closing : Frame → UInt8
  | list => ascii ']'
  | object => ascii '\x7d'

def atEnd : Frame → Cause
  | list => .endOfList
  | object => .endOfObject

def commaOrEnd : Frame → Cause
  | list => .expectedListCommaOrEnd
  | object => .expectedObjectCommaOrEnd

end Frame

/-- What stands before a value in its container: nothing, or a key and a colon. -/
def skipKey : Frame → Reader Unit
  | .list => pure ()
  | .object => do
    match ← peekPastBlanks with
    | none => failAtNext .endOfObject
    | some b =>
      if b = ascii '"' then
        discard
        skipString
        colon
      else failAtNext .keyNotString

/-- After a value: closes the containers that end here. The result is the containers around the next
value, or nothing if there is none. -/
def leave : List Frame → Reader (Option (List Frame))
  | [] => pure none
  | frame :: outer => do
    match ← peekPastBlanks with
    | none => failAtNext frame.atEnd
    | some b =>
      if b = ascii ',' then
        discard
        skipKey frame
        return some (frame :: outer)
      else if b = frame.closing then
        discard
        leave outer
      else failAtNext frame.commaOrEnd

def enter (frame : Frame) (outer : List Frame) : Reader (Option (List Frame)) := do
  discard
  match ← peekPastBlanks with
  | none => failAtNext frame.atEnd
  | some b =>
    if b = frame.closing then
      discard
      leave outer
    else
      skipKey frame
      return some (frame :: outer)

/-- Skips the value that comes next, up to the first one inside if it is a container. -/
def skipStart (outer : List Frame) : Reader (Option (List Frame)) := do
  match ← peekPastBlanks with
  | none => failAtNext .endOfValue
  | some b =>
    if b = ascii 'n' then literal "null".toList; leave outer
    else if b = ascii 't' then literal "true".toList; leave outer
    else if b = ascii 'f' then literal "false".toList; leave outer
    else if b = ascii '-' then discard; skipNumber; leave outer
    else if isDigit b then skipNumber; leave outer
    else if b = ascii '"' then discard; skipString; leave outer
    else if b = ascii '[' then enter .list outer
    else if b = ascii '\x7b' then enter .object outer
    else failAtNext .expectedValue

/-- Skips values until the outermost container is closed. -/
def skipFrom : Fuel → List Frame → Reader Unit
  | [], _ => pure ()
  | _ :: fuel, frames => do
    match ← skipStart frames with
    | none => pure ()
    | some frames => skipFrom fuel frames

/-- Skips one value. Every value takes at least one byte. -/
def skipValue : Reader Unit := do
  skipFrom (← fuel) []

end Reader

end StubTree.Json
