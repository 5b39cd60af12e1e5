import StubTree.Json.Skip

/-!
Decoders. One description serves twice: `read` takes a value from a text, where every fault has a
position and a path, and `ofValue` takes it from a value that has been read before, where a fault
has only a cause. The two accept the same values but word some refusals differently.
-/

namespace StubTree.Json

structure Decoder (α : Type) where
  /-- Reads from a text; the number is that of containers that may still be nested. -/
  read : Nat → Reader α
  ofValue : Value → Except Cause α

namespace Decoder

open Reader

variable {α β ρ : Type}

def map (f : α → β) (d : Decoder α) : Decoder β where
  read depth := f <$> d.read depth
  ofValue v := f <$> d.ofValue v

/-- A decoder of scalars, which looks at nothing but the shape of a value. -/
def scalar (accept : Shape → Except Cause α) : Decoder α where
  read _ := located do ofExcept (accept (← shape))
  ofValue v := accept v.shape

def string : Decoder String :=
  scalar fun
    | .string s => .ok s
    | found => .error (.mismatch found .string)

def boolean : Decoder Bool :=
  scalar fun
    | .boolean b => .ok b
    | found => .error (.mismatch found .boolean)

/-- Whole numbers between two bounds. -/
def bounded (least most : Int) (wanted : Expectation) : Decoder Int :=
  scalar fun
    | .number (.integer n) =>
      if least ≤ n ∧ n ≤ most then .ok n else .error (.unfit (.number (.integer n)) wanted)
    | found => .error (.mismatch found wanted)

def int64 : Decoder Int64 :=
  (bounded (-9223372036854775808) 9223372036854775807 .int64).map Int64.ofInt

def uint32 : Decoder UInt32 :=
  (bounded 0 4294967295 .uint32).map fun n => UInt32.ofNat n.toNat

/-- `null` stands for the missing value. -/
def optional (d : Decoder α) : Decoder (Option α) where
  read depth := do
    if (← peekPastBlanks) = some (ascii 'n') then
      literal "null".toList
      return none
    else some <$> d.read depth
  ofValue
    | .null => .ok none
    | v => some <$> d.ofValue v

def list (d : Decoder α) : Decoder (List α) where
  read depth := located do
    match ← shape with
    | .list => nested closeList (fun depth => elements (d.read depth)) depth
    | found => fail (.mismatch found .list)
  ofValue
    | .list items => items.mapM d.ofValue
    | v => .error (.mismatch v.shape .list)

/-- A field of a record: what its value does to the record read so far. -/
structure Field (ρ : Type) where
  name : String
  required : Bool
  update : Decoder (ρ → ρ)

def requiredField (name : String) (d : Decoder α) (set : α → ρ → ρ) : Field ρ :=
  ⟨name, true, d.map set⟩

/-- A field that may be missing; the record then keeps what it began with. -/
def optionalField (name : String) (d : Decoder α) (set : α → ρ → ρ) : Field ρ :=
  ⟨name, false, d.map set⟩

/-- The first required field, in the order of the record, that has not been seen. -/
def missing? (fields : List (Field ρ)) (seen : List String) : Option String :=
  (fields.find? fun field => field.required && !seen.contains field.name).map Field.name

def checkMissing (fields : List (Field ρ)) (seen : List String) (r : ρ) : Except Cause ρ :=
  match missing? fields seen with
  | none => .ok r
  | some name => .error (.missingField name)

/-- Reads the entries of an object into a record. Entries with unknown keys are skipped. -/
def readEntries (fields : List (Field ρ)) (depth : Nat) : Fuel → Nat → List String → ρ → Reader ρ
  | [], _, seen, r => ofExcept (checkMissing fields seen r)
  | _ :: fuel, count, seen, r => do
    match ← key? (count = 0) with
    | none => ofExcept (checkMissing fields seen r)
    | some name =>
      match fields.find? (·.name = name) with
      | none =>
        entryValue name skipValue
        readEntries fields depth fuel (count + 1) seen r
      | some field =>
        if seen.contains name then fail (.duplicateField name)
        else
          let update ← entryValue name (field.update.read depth)
          readEntries fields depth fuel (count + 1) (name :: seen) (update r)

/-- Reads the elements of a list as the fields in their order. -/
def readPositions (wanted : Expectation) (depth : Nat) : List (Field ρ) → Nat → ρ → Reader ρ
  | [], _, r => pure r
  | field :: rest, i, r => do
    match ← element? (field.update.read depth) i with
    | some update => readPositions wanted depth rest (i + 1) (update r)
    | none =>
      if field.required then fail (.wrongLength i wanted)
      else readPositions wanted depth rest (i + 1) r

def ofEntries (fields : List (Field ρ)) : List (String × Value) → List String → ρ → Except Cause ρ
  | [], seen, r => checkMissing fields seen r
  | (name, v) :: rest, seen, r =>
    match fields.find? (·.name = name) with
    | none => ofEntries fields rest seen r
    | some field =>
      if seen.contains name then .error (.duplicateField name)
      else do
        let update ← field.update.ofValue v
        ofEntries fields rest (name :: seen) (update r)

/-- The fields in their order from the items of a list; returns the items left over as well. -/
def ofPositions (wanted : Expectation) : List (Field ρ) → Nat → List Value → ρ →
    Except Cause (ρ × List Value)
  | [], _, items, r => .ok (r, items)
  | field :: rest, i, v :: items, r => do
    let update ← field.update.ofValue v
    ofPositions wanted rest (i + 1) items (update r)
  | field :: rest, i, [], r =>
    if field.required then .error (.wrongLength i wanted)
    else ofPositions wanted rest (i + 1) [] r

/-- A record is an object or the list of its fields' values. `shown` is its name in faults. -/
def record (shown : String) (fields : List (Field ρ)) (blank : ρ) : Decoder ρ where
  read depth := located do
    match ← shape with
    | .object =>
      nested closeObject
        (fun depth => do readEntries fields depth (← fuel) 0 [] blank) depth
    | .list =>
      nested closeList
        (fun depth => readPositions (.recordOf shown fields.length) depth fields 0 blank) depth
    | found => fail (.mismatch found (.record shown))
  ofValue
    | .object entries => ofEntries fields entries [] blank
    | .list items => do
      let (r, extra) ← ofPositions (.recordOf shown fields.length) fields 0 items blank
      if extra.isEmpty then return r
      else .error (.wrongLength items.length (.listOf fields.length))
    | v => .error (.mismatch v.shape (.record shown))

/-- What a variant carries besides its name. -/
inductive Payload (α : Type) where
  | bare (a : α)
  | carrying (d : Decoder α)

/-- The variant with a name. Without one, `fallback` stands for it if there is any. -/
def variant? (variants : List (String × Payload α)) (fallback : Option α) (name : String) :
    Except Cause (Payload α) :=
  match variants.lookup name with
  | some payload => .ok payload
  | none =>
    match fallback with
    | some a => .ok (.bare a)
    | none => .error (.unknownVariant name (variants.map Prod.fst))

def variantName : Shape → Except Cause String
  | .string s => .ok s
  | found => .error (.mismatch found .variantName)

def unit : Decoder Unit :=
  scalar fun
    | .null => .ok ()
    | found => .error (.mismatch found .unit)

/-- The payload of a variant in object form. A variant without one has `null` there. -/
def readPayload (depth : Nat) : Payload α → Reader α
  | .bare a => do
    unit.read depth
    return a
  | .carrying d => d.read depth

/-- An empty object is as good as `null` in a value that has been read before. -/
def payloadOfValue : Payload α → Value → Except Cause α
  | .bare a, .object [] => .ok a
  | .bare a, v => do
    unit.ofValue v
    return a
  | .carrying d, v => d.ofValue v

/-- A variant by its name alone. -/
def bareOnly : Payload α → Except Cause α
  | .bare a => .ok a
  | .carrying _ => .error (.bareVariant .payloadVariant)

/-- Reads the name of a variant. -/
def readVariant (variants : List (String × Payload α)) (fallback : Option α) :
    Reader (String × Payload α) :=
  located do
    let name ← ofExcept (variantName (← shape))
    return (name, ← ofExcept (variant? variants fallback name))

/-- Looks for the quote that opens the only key of an object. -/
def atOnlyKey : Reader Unit := do
  match ← peekPastBlanks with
  | none => failAtNext .endOfObject
  | some b =>
    if b = ascii '"' then pure ()
    else if b = ascii '\x7d' then failAtNext .expectedValue
    else failAtNext .keyNotString

/-- Reads the brace after the only entry of an object. -/
def closeOnly : Reader Unit := do
  match ← peekPastBlanks with
  | none => failHere .endOfObject
  | some b => if b = ascii '\x7d' then discard else failHere .expectedValue

def readOnly (variants : List (String × Payload α)) (fallback : Option α) : Nat → Reader α
  | 0 => failAtNext .tooDeep
  | depth + 1 => do
    discard
    atOnlyKey
    let (name, payload) ← readVariant variants fallback
    let a ← entryValue name (readPayload depth payload)
    closeOnly
    return a

/-- One of several variants: its name, or an object with the name as its only key. -/
def choice (variants : List (String × Payload α)) (fallback : Option α) : Decoder α where
  read depth := do
    match ← peekPastBlanks with
    | none => failAtNext .endOfValue
    | some b =>
      if b = ascii '\x7b' then readOnly variants fallback depth
      else if b = ascii '"' then do
        let (name, payload) ← readVariant variants fallback
        within (.key name) (ofExcept (bareOnly payload))
      else failAtNext .expectedValue
  ofValue
    | .string name => do bareOnly (← variant? variants fallback name)
    | .object [(name, v)] => do payloadOfValue (← variant? variants fallback name) v
    | .object _ => .error (.unfit .object .singleKeyObject)
    | v => .error (.mismatch v.shape .stringOrObject)

/-- Variants told apart by a tag among their own fields. What is left of an object or list without
the tag goes to the variant. -/
structure Tagged (α : Type) where
  name : String
  tag : String
  variants : List (String × (Value → Except Cause α))

namespace Tagged

def named (t : Tagged α) (name : String) : Except Cause (Value → Except Cause α) :=
  match t.variants.lookup name with
  | some content => .ok content
  | none => .error (.unknownVariant name (t.variants.map Prod.fst))

/-- Reads the tag, which has to be a name. -/
def readTag (t : Tagged α) : Reader (Value → Except Cause α) :=
  located do ofExcept (variantName (← shape) >>= t.named)

/-- A tag that has been read before may also be the number of its variant. -/
def tagOfValue (t : Tagged α) : Value → Except Cause (Value → Except Cause α)
  | .string name => t.named name
  | .number (.integer n) =>
    if n < 0 then .error (.mismatch (.number (.integer n)) .variantName)
    else
      match t.variants[n.toNat]? with
      | some (_, content) => .ok content
      | none => .error (.unfit (.number (.integer n)) (.variantIndex t.variants.length))
  | v => .error (.mismatch v.shape .variantName)

/-- What has been read of a tagged value before its content is looked into. -/
structure Unopened (α : Type) where
  variant : Value → Except Cause α
  content : Value

/-- Reads an object whole, apart from its tag. -/
def readEntries (t : Tagged α) (depth : Nat) : Fuel → Nat → Option (Value → Except Cause α) →
    List (String × Value) → Reader (Unopened α)
  | [], _, _, _ => fail (.missingField t.tag)
  | _ :: fuel, count, found, entries => do
    match ← key? (count = 0) with
    | none =>
      match found with
      | some variant => return ⟨variant, .object entries.reverse⟩
      | none => fail (.missingField t.tag)
    | some name =>
      if name = t.tag then
        if found.isSome then fail (.duplicateField t.tag)
        else
          let variant ← entryValue name t.readTag
          readEntries t depth fuel (count + 1) (some variant) entries
      else
        let v ← entryValue name (value depth)
        readEntries t depth fuel (count + 1) found ((name, v) :: entries)

/-- Reads a list whose first element is the tag. -/
def readElements (t : Tagged α) (depth : Nat) : Reader (Unopened α) := do
  match ← element? t.readTag 0 with
  | none => fail (.missingField t.tag)
  | some variant =>
    let items ← untilNone fun i => element? (value depth) (i + 1)
    return ⟨variant, .list items⟩

def contentOfEntries (t : Tagged α) : List (String × Value) →
    Option (Value → Except Cause α) → List (String × Value) → Except Cause α
  | [], some content, entries => content (.object entries.reverse)
  | [], none, _ => .error (.missingField t.tag)
  | (name, v) :: rest, found, entries =>
    if name = t.tag then
      if found.isSome then .error (.duplicateField t.tag)
      else do t.contentOfEntries rest (some (← t.tagOfValue v)) entries
    else t.contentOfEntries rest found ((name, v) :: entries)

def ofValue (t : Tagged α) : Value → Except Cause α
  | .object entries => t.contentOfEntries entries none []
  | .list [] => .error (.missingField t.tag)
  | .list (v :: items) => do
    let content ← t.tagOfValue v
    content (.list items)
  | v => .error (.mismatch v.shape (.internallyTagged t.name))

end Tagged

/-- The content is looked into once its container has been left: its faults have no position. -/
def tagged (t : Tagged α) : Decoder α where
  read depth := do
    let unopened ← located do
      match ← shape with
      | .object =>
        nested closeObject
          (fun depth => do t.readEntries depth (← fuel) 0 none []) depth
      | .list => nested closeList t.readElements depth
      | found => fail (.mismatch found (.internallyTagged t.name))
    ofExcept (unopened.variant unopened.content)
  ofValue := t.ofValue

/-- The content of a variant that has no fields of its own. -/
def noContent (a : α) : Value → Except Cause α
  | .list (_ :: items) => .error (.wrongLength (items.length + 1) (.listOf 0))
  | _ => .ok a

/-- The value at the front of a text; what follows it is not looked at. -/
def ofText (d : Decoder α) (text : List UInt8) : Except Fault α :=
  match d.read depthLimit text with
  | .ok a _ => .ok a
  | .error fault _ => .error fault

end Decoder

end StubTree.Json
