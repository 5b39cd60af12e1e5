import StubTree.Json.Fault

/-!
Reading bytes from the front, one fault at most. The state of a reader is what is left of the text.
A fault does not give bytes back: what was read stays read, and the position of a fault without one
of its own is settled by the container it leaves.
-/

namespace StubTree.Json

abbrev Reader := EStateM Fault (List UInt8)

def ascii (c : Char) : UInt8 := c.toUInt8

def isBlankByte (b : UInt8) : Bool :=
  b = ascii ' ' || b = ascii '\n' || b = ascii '\t' || b = ascii '\r'

namespace Reader

/-- A fault that gets its position later. -/
def fail {α : Type} (cause : Cause) : Reader α :=
  throw ⟨cause, none, []⟩

/-- A fault between the last byte read and the next one. -/
def failHere {α : Type} (cause : Cause) : Reader α := do
  throw ⟨cause, some (← get).length, []⟩

/-- A fault about the next byte: it is placed after that byte, if there is one. -/
def failAtNext {α : Type} (cause : Cause) : Reader α := do
  throw ⟨cause, some ((← get).length - 1), []⟩

def peek : Reader (Option UInt8) := do
  return (← get).head?

def next : Reader (Option UInt8) := do
  let rest ← get
  set rest.tail
  return rest.head?

def discard : Reader Unit :=
  modify List.tail

def skipBlanks : Reader Unit :=
  modify (·.dropWhile isBlankByte)

/-- The next byte that is not blank. -/
def peekPastBlanks : Reader (Option UInt8) := do
  skipBlanks
  peek

def ofExcept {α : Type} : Except Cause α → Reader α
  | .ok a => pure a
  | .error cause => fail cause

/-- Gives a fault without a position the place where the reader stopped. -/
def located {α : Type} (r : Reader α) : Reader α :=
  tryCatch r fun fault => do
    throw { fault with left := some (fault.left.getD (← get).length) }

/-- Reads a value one step further in. -/
def within {α : Type} (step : Step) (r : Reader α) : Reader α :=
  tryCatch r fun fault => throw { fault with path := step :: fault.path }

/-- Runs `close` after `body`, also when `body` failed; the fault of `body` wins. -/
def closedBy {α : Type} (close : Reader Unit) (body : Reader α) : Reader α :=
  fun text =>
    match body text with
    | .ok a rest =>
      match close rest with
      | .ok _ rest => .ok a rest
      | .error fault rest => .error fault rest
    | .error fault rest =>
      match close rest with
      | .ok _ rest => .error fault rest
      | .error _ rest => .error fault rest

/-- Reads the given bytes; their first byte has been seen already. -/
def literal : List Char → Reader Unit
  | [] => pure ()
  | c :: rest => do
    match ← next with
    | none => failHere .endOfValue
    | some b => if b = ascii c then literal rest else failHere .expectedLiteral

/-- Bounds the number of steps that each read at least one byte: one step for every byte that is
left, and one more. The bytes themselves are counted off, so that nothing has to be measured. -/
abbrev Fuel := List UInt8

def fuel : Reader Fuel := do
  return 0 :: (← get)

/-- Runs a step as long as it gives a value. -/
def collect {α : Type} (step : Nat → Reader (Option α)) : Fuel → Nat → Reader (List α)
  | [], _ => pure []
  | _ :: fuel, count => do
    match ← step count with
    | none => pure []
    | some a => return a :: (← collect step fuel (count + 1))

/-- Runs a step until it gives no value. Every value takes at least one byte. -/
def untilNone {α : Type} (step : Nat → Reader (Option α)) : Reader (List α) := do
  collect step (← fuel) 0

end Reader

end StubTree.Json
