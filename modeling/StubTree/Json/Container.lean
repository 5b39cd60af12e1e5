import StubTree.Json.Literal

/-!
Lists and objects of a text: their brackets, commas, keys and colons, and the reading of any value.
A container may be opened only while `depth`, the number of containers that may still be nested, is
positive.
-/

namespace StubTree.Json

namespace Reader

/-- The end of a list. A comma that is still there is read with the blanks after it. -/
def closeList : Reader Unit := do
  match ← peekPastBlanks with
  | none => failAtNext .endOfList
  | some b =>
    if b = ascii ']' then discard
    else if b = ascii ',' then
      discard
      if (← peekPastBlanks) = some (ascii ']') then failAtNext .trailingComma
      else failAtNext .trailingCharacters
    else failAtNext .trailingCharacters

def closeObject : Reader Unit := do
  match ← peekPastBlanks with
  | none => failAtNext .endOfObject
  | some b =>
    if b = ascii '\x7d' then discard
    else if b = ascii ',' then failAtNext .trailingComma
    else failAtNext .trailingCharacters

/-- Whether the list has another element; its comma is read. -/
def atElement (first : Bool) : Reader Bool := do
  match ← peekPastBlanks with
  | none => failAtNext .endOfList
  | some b =>
    if b = ascii ']' then return false
    else if first then return true
    else if b = ascii ',' then
      discard
      match ← peekPastBlanks with
      | none => failAtNext .endOfValue
      | some b => if b = ascii ']' then failAtNext .trailingComma else return true
    else failAtNext .expectedListCommaOrEnd

/-- The opening quote of a key after a comma. -/
def keyAfterComma : Reader Bool := do
  match ← peekPastBlanks with
  | none => failAtNext .endOfValue
  | some b =>
    if b = ascii '"' then return true
    else if b = ascii '\x7d' then failAtNext .trailingComma
    else failAtNext .keyNotString

/-- Whether the object has another key; the comma before it is read. -/
def atKey (first : Bool) : Reader Bool := do
  match ← peekPastBlanks with
  | none => failAtNext .endOfObject
  | some b =>
    if b = ascii '\x7d' then return false
    else if first then
      if b = ascii '"' then return true else failAtNext .keyNotString
    else if b = ascii ',' then
      discard
      keyAfterComma
    else failAtNext .expectedObjectCommaOrEnd

/-- The next key of an object, if there is one. -/
def key? (first : Bool) : Reader (Option String) :=
  within .unknown do
    if ← atKey first then
      discard
      return some (← stringBody)
    else return none

def colon : Reader Unit := do
  match ← peekPastBlanks with
  | none => failAtNext .endOfObject
  | some b => if b = ascii ':' then discard else failAtNext .expectedColon

/-- Opens a container, runs `body` with one level less, and closes it. -/
def nested {α : Type} (close : Reader Unit) (body : Nat → Reader α) : Nat → Reader α
  | 0 => failAtNext .tooDeep
  | depth + 1 => do
    discard
    closedBy close (body depth)

/-- The element with index `i`, if the list has one. -/
def element? {α : Type} (read : Reader α) (i : Nat) : Reader (Option α) := do
  if ← atElement (i = 0) then return some (← within (.index i) read) else return none

/-- The value of the entry with the key `name`. -/
def entryValue {α : Type} (name : String) (read : Reader α) : Reader α := do
  colon
  within (.key name) read

/-- The elements of a list up to its closing bracket. -/
def elements {α : Type} (read : Reader α) : Reader (List α) :=
  untilNone (element? read)

def keyedValue? (read : Reader Value) (i : Nat) : Reader (Option (String × Value)) := do
  match ← key? (i = 0) with
  | none => return none
  | some name => return some (name, ← entryValue name read)

def entries (read : Reader Value) : Reader (List (String × Value)) :=
  untilNone (keyedValue? read)

/-- Any value. The recursion takes one level per container, so `depth` is its measure as well. -/
def value : Nat → Reader Value
  | 0 => located do
    match ← shape with
    | .null => return .null
    | .boolean b => return .boolean b
    | .number n => return .number n
    | .string s => return .string s
    | .list => failAtNext .tooDeep
    | .object => failAtNext .tooDeep
  | depth + 1 => located do
    match ← shape with
    | .null => return .null
    | .boolean b => return .boolean b
    | .number n => return .number n
    | .string s => return .string s
    | .list =>
      discard
      return .list (← closedBy closeList (elements (value depth)))
    | .object =>
      discard
      return .object (← closedBy closeObject (entries (value depth)))

end Reader

/-- How many containers of a document may be nested. -/
def depthLimit : Nat := 127

/-- A text that holds one value and nothing else but blanks. -/
def Value.ofText? (limit : Nat) (text : List UInt8) : Except Fault Value :=
  let whole : Reader Value := do
    let v ← Reader.value limit
    match ← Reader.peekPastBlanks with
    | none => return v
    | some _ => Reader.failAtNext .trailingCharacters
  match whole text with
  | .ok v _ => .ok v
  | .error fault _ => .error fault

end StubTree.Json
