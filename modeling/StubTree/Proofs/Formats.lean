import StubTree.Proofs.Decoders
import StubTree.Proofs.Failing
import StubTree.Proofs.LocalReading

/-!
What decoders do to the texts that they refuse. Whether a text is taken, and
with which path it is refused if it is not, follows from the value that it
holds: how the value is spelled does not matter. A format says this for one
decoder, value by value, and there is one for each way to make decoders.
-/

namespace StubTree.Json

open Effect Reader

/-- What a decoder does to values: the path with which it refuses one, if it does, and what it shows
of the path to a faulty value further in. -/
structure Format where
  fault? : Value → Option Path
  shown : Path → Path

namespace Format

/-- A format of scalars, known by their shapes. -/
def scalar (takes : Shape → Bool) : Format where
  fault? v := if takes v.shape then none else some []
  shown path := path

def string : Format :=
  scalar fun
    | .string _ => true
    | _ => false

def boolean : Format :=
  scalar fun
    | .boolean _ => true
    | _ => false

def unit : Format :=
  scalar fun
    | .null => true
    | _ => false

def bounded (least most : Int) : Format :=
  scalar fun
    | .number (.integer n) => least ≤ n ∧ n ≤ most
    | _ => false

def optional (F : Format) : Format where
  fault?
    | .null => none
    | v => F.fault? v
  shown := F.shown

/-- The first fault among items counted from `i` on. -/
def faultOfItems? (F : Format) : Nat → List Value → Option Path
  | _, [] => none
  | i, v :: rest => ((F.fault? v).map (.index i :: ·)).or (faultOfItems? F (i + 1) rest)

def list (F : Format) : Format where
  fault?
    | .list items => faultOfItems? F 0 items
    | _ => some []
  shown
    | .index i :: path => .index i :: F.shown path
    | path => path

/-- A field of a record. -/
structure Part where
  name : String
  required : Bool
  format : Format

/-- The first fault among entries. Those that have been seen may not come again. -/
def faultOfEntries? (parts : List Part) : List (String × Value) → List String → Option Path
  | [], seen =>
    if parts.any fun part => part.required && !seen.contains part.name then some [] else none
  | (name, v) :: rest, seen =>
    match parts.find? (·.name = name) with
    | none => faultOfEntries? parts rest seen
    | some part =>
      if seen.contains name then some []
      else
        ((part.format.fault? v).map (.key name :: ·)).or
          (faultOfEntries? parts rest (name :: seen))

/-- The first fault among items that stand for the parts in their order. -/
def faultOfPositions? : List Part → Nat → List Value → Option Path
  | [], _, [] => none
  | [], _, _ :: _ => some []
  | part :: rest, i, [] =>
    if part.required then some [] else faultOfPositions? rest (i + 1) []
  | part :: rest, i, v :: items =>
    ((part.format.fault? v).map (.index i :: ·)).or (faultOfPositions? rest (i + 1) items)

def record (parts : List Part) : Format where
  fault?
    | .object entries => faultOfEntries? parts entries []
    | .list items => faultOfPositions? parts 0 items
    | _ => some []
  shown
    | .key name :: path =>
      .key name :: ((parts.find? (·.name = name)).elim path fun part => part.format.shown path)
    | .index i :: path => .index i :: (parts[i]?.elim path fun part => part.format.shown path)
    | path => path

/-- Words, of which `known` are taken, alone or as the only key of an object. -/
def words (known : String → Bool) : Format where
  fault?
    | .string name => if known name then none else some []
    | .object ((name, v) :: rest) =>
      if known name then
        ((unit.fault? v).map (.key name :: ·)).or (if rest.isEmpty then none else some [])
      else some []
    | _ => some []
  shown path := path

section Tags

variable {α : Type}

/-- A tag that is a name selects a variant. -/
def select? (t : Decoder.Tagged α) : Value → Option (Value → Except Cause α)
  | .string name => t.variants.lookup name
  | _ => none

/-- Content is refused as a whole. -/
def faultOfContent? (content : Value → Except Cause α) (v : Value) : Option Path :=
  match content v with
  | .ok _ => none
  | .error _ => some []

def faultOfTagged? (t : Decoder.Tagged α) : List (String × Value) →
    Option (Value → Except Cause α) → List (String × Value) → Option Path
  | [], none, _ => some []
  | [], some content, others => faultOfContent? content (.object others.reverse)
  | (name, v) :: rest, found, others =>
    if name = t.tag then
      if found.isSome then some []
      else
        match select? t v with
        | none => some [.key t.tag]
        | some content => faultOfTagged? t rest (some content) others
    else faultOfTagged? t rest found ((name, v) :: others)

/-- Of what lies inside a tagged value, only the tag has a path of its own. -/
def tagged (t : Decoder.Tagged α) : Format where
  fault?
    | .object entries => faultOfTagged? t entries none []
    | .list (v :: items) =>
      match select? t v with
      | none => some [.index 0]
      | some content => faultOfContent? content (.list items)
    | _ => some []
  shown path := if path = [.key t.tag] ∨ path = [.index 0] then path else []

end Tags

/-- The format says what the decoder does to every text, from the value that the text holds. -/
def Describes {α : Type} (F : Format) (d : Decoder α) : Prop :=
  ∀ ⦃depth text rest v⦄, value depth text = .ok v rest →
    Settles (d.read depth) text rest (F.fault? v)

end Format

namespace Decoder

open Format

variable {α β ρ : Type} {F : Format} {d : Decoder α}

theorem describes_map (h : F.Describes d) (f : α → β) : F.Describes (d.map f) :=
  fun _ _ _ _ hread => (h hread).map f

theorem describes_scalar {takes : Shape → Bool} {accept : Shape → Except Cause α}
    (htakes : ∀ sh, takes sh = true → (∃ a, accept sh = .ok a) ∧ sh ≠ .list ∧ sh ≠ .object)
    (hrefuses : ∀ sh, takes sh = false → ∃ cause, accept sh = .error cause) :
    (Format.scalar takes).Describes (scalar accept) := by
  intro depth text rest v hread
  refine Settles.located ?_
  simp only [Format.scalar]
  cases h : takes v.shape with
  | true =>
      obtain ⟨⟨a, haccept⟩, hlist, hobject⟩ := htakes _ h
      refine settles_bind (shape_of_value hread hlist hobject) ⟨a, ?_⟩
      exact ofExcept_eq_ok.mpr ⟨haccept, rfl⟩
  | false =>
      obtain ⟨middle, hshape⟩ := exists_shape_of_value hread
      obtain ⟨cause, hcause⟩ := hrefuses _ h
      exact settles_bind hshape (failsAt_ofExcept hcause)

theorem describes_string : Format.string.Describes string := by
  refine describes_scalar (fun sh h => ?_) fun sh h => ?_
  · cases sh <;> simp at h ⊢
  · cases sh <;> simp at h ⊢

theorem describes_boolean : Format.boolean.Describes boolean := by
  refine describes_scalar (fun sh h => ?_) fun sh h => ?_
  · cases sh <;> simp at h ⊢
  · cases sh <;> simp at h ⊢

theorem describes_unit : Format.unit.Describes unit := by
  refine describes_scalar (fun sh h => ?_) fun sh h => ?_
  · cases sh <;> simp at h ⊢
  · cases sh <;> simp at h ⊢

theorem describes_bounded (least most : Int) (wanted : Expectation) :
    (Format.bounded least most).Describes (bounded least most wanted) := by
  refine describes_scalar (fun sh h => ?_) fun sh h => ?_
  · cases sh with
    | number n =>
        cases n with
        | integer n =>
            rw [decide_eq_true_iff] at h
            simp [h]
        | double x => simp at h
    | _ => simp at h
  · cases sh with
    | number n =>
        cases n with
        | integer n =>
            rw [decide_eq_false_iff_not] at h
            exact ⟨_, if_neg h⟩
        | double x => exact ⟨_, rfl⟩
    | _ => exact ⟨_, rfl⟩

theorem describes_optional (h : F.Describes d) :
    (Format.optional F).Describes (optional d) := by
  intro depth text rest v hread
  by_cases hnull : v = .null
  · subst hnull
    exact ⟨none, (takes_none d).read hread⟩
  · have hpast : value depth (pastBlanks text) = .ok v rest := by rwa [value_pastBlanks]
    have hfault : (Format.optional F).fault? v = F.fault? v := by
      cases v <;> first | rfl | exact absurd rfl hnull
    rw [hfault]
    exact ((h hpast).map some).of_eq (read_optional hread hnull)

/-- Element by element, by induction on the values that have been read. -/
theorem settles_collect (h : F.Describes d) {depth : Nat} {fuel : Fuel} {count : Nat}
    {text rest : List UInt8} {items : List Value}
    (hcollects : Collects (element? (value depth)) fuel count text items rest) :
    Settles (collect (element? (d.read depth)) fuel count) text rest
      (faultOfItems? F count items) := by
  induction hcollects with
  | spent => exact settles_pure _
  | last hstep =>
      exact settles_bind (element?_none.mpr (element?_none.mp hstep)) (settles_pure _)
  | @more f fuel count text middle rest v items hstep _ ih =>
      rw [faultOfItems?]
      cases hfault : F.fault? v with
      | none =>
          obtain ⟨a, ha⟩ := element?_of_settles hstep fun hread => hfault ▸ h hread
          exact settles_bind ha (ih.map (a :: ·))
      | some path =>
          exact (failsAt_element? hstep fun hread => hfault ▸ h hread).bind _

theorem describes_list (h : F.Describes d) : (Format.list F).Describes (list d) := by
  intro depth text rest v hread
  refine Settles.located ?_
  cases value_reads hread with
  | list hshape hnested =>
      obtain ⟨inner, middle, rfl, hitems, hclose⟩ := nested_eq_ok.mp hnested
      refine settles_bind hshape (Settles.nested ?_ hclose)
      exact settles_bind (fuel_eq_ok.mpr ⟨rfl, rfl⟩) (settles_collect h (untilNone_eq_ok.mp hitems))
  | null hshape | boolean hshape | number hshape | string hshape | object hshape =>
      exact settles_bind hshape (failsAt_fail _)

section Records

variable {fields : List (Field ρ)} {parts : List Part}

/-- A part says of a field under which name it stands, if it has to, and what its decoder does. -/
structure Matches (field : Field ρ) (part : Part) : Prop where
  name : field.name = part.name
  required : field.required = part.required
  describes : part.format.Describes field.update

theorem matches_required (h : F.Describes d) (name : String) (set : α → ρ → ρ) :
    Matches (requiredField name d set) ⟨name, true, F⟩ := ⟨rfl, rfl, describes_map h set⟩

theorem matches_optional (h : F.Describes d) (name : String) (set : α → ρ → ρ) :
    Matches (optionalField name d set) ⟨name, false, F⟩ := ⟨rfl, rfl, describes_map h set⟩

/-- A key belongs to a field and to the part of it, or to neither. -/
theorem find?_matches (hparts : List.Forall₂ Matches fields parts) (name : String) :
    (fields.find? (·.name = name) = none ∧ parts.find? (·.name = name) = none) ∨
      ∃ field part, fields.find? (·.name = name) = some field ∧
        parts.find? (·.name = name) = some part ∧ Matches field part := by
  induction hparts with
  | nil => exact .inl ⟨rfl, rfl⟩
  | @cons field part fields parts hmatch _ ih =>
      rw [List.find?_cons, List.find?_cons, hmatch.name]
      split
      · exact .inr ⟨field, part, rfl, rfl, hmatch⟩
      · exact ih

theorem isSome_missing? (hparts : List.Forall₂ Matches fields parts) (seen : List String) :
    (missing? fields seen).isSome =
      parts.any fun part => part.required && !seen.contains part.name := by
  rw [missing?, Option.isSome_map]
  induction hparts with
  | nil => rfl
  | @cons field part fields parts hmatch _ ih =>
      rw [List.find?_cons, List.any_cons, hmatch.name, hmatch.required]
      cases part.required && !seen.contains part.name with
      | true => rfl
      | false => exact ih

theorem settles_checkMissing (hparts : List.Forall₂ Matches fields parts) (seen : List String)
    (r : ρ) (text : List UInt8) :
    Settles (ofExcept (checkMissing fields seen r)) text text (faultOfEntries? parts [] seen) := by
  rw [faultOfEntries?, ← isSome_missing? hparts, checkMissing]
  cases missing? fields seen with
  | none => exact settles_pure r
  | some name => exact failsAt_fail _

/-- Entry by entry, by induction on those that have been read. -/
theorem settles_readEntries (hparts : List.Forall₂ Matches fields parts) {depth : Nat}
    {fuel : Fuel} {count : Nat} {text rest : List UInt8} {entries : List (String × Value)}
    (hcollects : Collects (keyedValue? (value depth)) fuel count text entries rest)
    (seen : List String) (r : ρ) :
    Settles (readEntries fields depth fuel count seen r) text rest
      (faultOfEntries? parts entries seen) := by
  induction hcollects generalizing seen r with
  | spent => exact settles_checkMissing hparts seen r _
  | last hstep =>
      exact settles_bind (keyedValue?_none.mp hstep) (settles_checkMissing hparts seen r _)
  | @more f fuel count text middle rest entry entries hstep _ ih =>
      obtain ⟨name, v⟩ := entry
      obtain ⟨_, hkey, hvalue⟩ := keyedValue?_some.mp hstep
      refine settles_bind hkey ?_
      rcases find?_matches hparts name with ⟨hfield, hpart⟩ | ⟨field, part, hfield, hpart, hmatch⟩
      · simp only [faultOfEntries?, hfield, hpart]
        exact settles_bind (entryValue_of hvalue skipValue_of_value) (ih seen r)
      · simp only [faultOfEntries?, hfield, hpart]
        split
        · exact failsAt_fail _
        · have hsettles := settles_entryValue hvalue fun hread => hmatch.describes hread
          exact hsettles.bind fun update => ih _ _

theorem closeList_of_past {text t : List UInt8} (h : pastBlanks text = ascii ']' :: t) :
    closeList text = .ok () t := (peeked_eq h).trans rfl

theorem failsAt_closeList {text t : List UInt8} {b : UInt8} (h : pastBlanks text = b :: t)
    (hb : b ≠ ascii ']') : FailsAt closeList text [] := by
  refine FailsAt.of_eq ?_ (peeked_eq h)
  rw [if_neg hb]
  split
  · refine failsAt_bind (discard_ok _) (failsAt_bind (peekPastBlanks_eq_ok.mpr ⟨rfl, rfl⟩) ?_)
    split <;> exact failsAt_failAtNext _
  · exact failsAt_failAtNext _

theorem closedBy_bind {close : Reader Unit} {reader : Reader α} {next : α → Reader β} {a : α}
    {text middle : List UInt8} (h : reader text = .ok a middle) :
    closedBy close (reader >>= next) text = closedBy close (next a) middle := by
  simp only [closedBy, bind_of_ok h]

/-- Item by item, by induction on the fields. Items without a field are noticed where the list
should be closed. -/
theorem settles_readPositions (wanted : Expectation) (hparts : List.Forall₂ Matches fields parts)
    {depth : Nat} {fuel : Fuel} {i : Nat} {text middle rest : List UInt8} {items : List Value}
    (hcollects : Collects (element? (value depth)) fuel i text items middle)
    (hfuel : text.length < fuel.length) (hclose : closeList middle = .ok () rest) (r : ρ) :
    Settles (closedBy closeList (readPositions wanted depth fields i r)) text rest
      (faultOfPositions? parts i items) := by
  induction hparts generalizing fuel i text items r with
  | nil =>
      cases hcollects with
      | spent => simp at hfuel
      | last hstep =>
          obtain ⟨t, hpast, rfl⟩ := atElement_false (element?_none.mp hstep)
          rw [closeList_of_past (pastBlanks_bracket t)] at hclose
          cases hclose
          exact ⟨r, closedBy_eq_ok.mpr ⟨text, rfl, closeList_of_past hpast⟩⟩
      | more hstep _ =>
          obtain ⟨_, hmore, -⟩ := element?_some.mp hstep
          refine FailsAt.close (a := r) rfl ?_
          by_cases hi : i = 0
          · simp only [hi, decide_true] at hmore
            obtain ⟨b, t, hb, hpast, -⟩ := atElement_first hmore
            exact failsAt_closeList hpast hb
          · simp only [hi, decide_false] at hmore
            obtain ⟨t, hpast, -⟩ := atElement_later hmore
            exact failsAt_closeList hpast (by decide)
  | @cons field part fields parts hmatch _ ih =>
      cases hcollects with
      | spent => simp at hfuel
      | @last f fuel _ _ _ hstep =>
          have hnone := element?_none.mp hstep
          obtain ⟨t, hpast, rfl⟩ := atElement_false hnone
          have hagain : Collects (element? (value depth)) (f :: ascii ']' :: t) (i + 1)
              (ascii ']' :: t) [] (ascii ']' :: t) := by
            refine .last (element?_none.mpr ?_)
            exact (peeked_eq (pastBlanks_bracket t)).trans rfl
          simp only [faultOfPositions?, ← hmatch.required]
          refine Settles.of_eq ?_ (closedBy_bind (element?_none.mpr hnone))
          dsimp only
          split
          · exact (failsAt_fail _).closedBy _
          · exact ih hagain (by simp) r
      | @more f fuel _ _ between _ v items hstep hcollects =>
          have hless := length_lt_of_element? hstep length_lt_of_value
          rw [List.length_cons] at hfuel
          rw [faultOfPositions?]
          cases hfault : part.format.fault? v with
          | none =>
              obtain ⟨update, hupdate⟩ :=
                element?_of_settles hstep fun hread => hfault ▸ hmatch.describes hread
              refine Settles.of_eq ?_ (closedBy_bind hupdate)
              exact ih hcollects (by omega) (update r)
          | some path =>
              have hfails := failsAt_element? hstep fun hread => hfault ▸ hmatch.describes hread
              exact (hfails.bind _).closedBy _

theorem describes_record (shown : String) (hparts : List.Forall₂ Matches fields parts) (blank : ρ) :
    (Format.record parts).Describes (record shown fields blank) := by
  intro depth text rest v hread
  refine Settles.located ?_
  cases value_reads hread with
  | object hshape hnested =>
      obtain ⟨inner, middle, rfl, hentries, hclose⟩ := nested_eq_ok.mp hnested
      refine settles_bind hshape (Settles.nested ?_ hclose)
      exact settles_bind (fuel_eq_ok.mpr ⟨rfl, rfl⟩)
        (settles_readEntries hparts (untilNone_eq_ok.mp hentries) [] blank)
  | list hshape hnested =>
      obtain ⟨inner, middle, rfl, hitems, hclose⟩ := nested_eq_ok.mp hnested
      refine settles_bind hshape (settles_bind (discard_ok _) ?_)
      exact settles_readPositions _ hparts (untilNone_eq_ok.mp hitems) (by simp) hclose blank
  | null hshape | boolean hshape | number hshape | string hshape =>
      exact settles_bind hshape (failsAt_fail _)

end Records

section Words

variable {variants : List (String × Payload α)} {fallback : Option α} {known : String → Bool}

theorem failsAt_readVariant {name : String} {quoted rest : List UInt8} {cause : Cause}
    (hname : stringBody quoted = .ok name rest)
    (hvariant : variant? variants fallback name = .error cause) :
    FailsAt (readVariant variants fallback) (ascii '"' :: quoted) [] := by
  refine (failsAt_bind (shape_quoted hname) (failsAt_bind (a := name) rfl ?_)).located
  exact (failsAt_ofExcept hvariant).bind _

theorem failsAt_atOnlyKey {t t' : List UInt8} (h : pastBlanks t = ascii '\x7d' :: t') :
    FailsAt atOnlyKey t [] := by
  refine FailsAt.of_eq ?_ (peeked_eq h)
  rw [if_neg (by decide), if_pos rfl]
  exact failsAt_failAtNext _

theorem failsAt_closeOnly {t t' : List UInt8} (h : pastBlanks t = ascii ',' :: t') :
    FailsAt closeOnly t [] := by
  refine failsAt_bind (peekPastBlanks_eq_ok.mpr ⟨rfl, rfl⟩) ?_
  rw [h]
  exact failsAt_failHere _

/-- Scalars other than strings begin with neither a quote nor a brace, and lists do not either. -/
theorem begins_other {b : UInt8} {t rest : List UInt8} {sh : Shape} (h : Begins (b :: t) sh rest)
    (hstring : ∀ s, sh ≠ .string s) (hobject : sh ≠ .object) :
    b ≠ ascii '\x7b' ∧ b ≠ ascii '"' := by
  cases h with
  | number hdigit =>
      constructor
      · rintro rfl
        exact absurd hdigit (by decide)
      · rintro rfl
        exact absurd hdigit (by decide)
  | string => exact absurd rfl (hstring _)
  | object => exact absurd rfl hobject
  | null | true | false | negative | list => exact ⟨by decide, by decide⟩

theorem failsAt_choice {depth : Nat} {text rest : List UInt8} {v : Value}
    (hread : value depth text = .ok v rest) (hstring : ∀ s, v.shape ≠ .string s)
    (hobject : v.shape ≠ .object) : FailsAt ((choice variants fallback).read depth) text [] := by
  obtain ⟨_, hshape⟩ := exists_shape_of_value hread
  have hbegins := shape_begins hshape
  cases hpast : pastBlanks text with
  | nil =>
      rw [hpast] at hbegins
      cases hbegins
  | cons b t =>
      rw [hpast] at hbegins
      obtain ⟨hbrace, hquote⟩ := begins_other hbegins hstring hobject
      refine FailsAt.of_eq ?_ (peeked_eq hpast)
      rw [if_neg hbrace, if_neg hquote]
      exact failsAt_failAtNext _

theorem describes_words
    (hknown : ∀ name, known name = true → ∃ a, variant? variants fallback name = .ok (.bare a))
    (hunknown : ∀ name, known name = false →
      ∃ cause, variant? variants fallback name = .error cause) :
    (Format.words known).Describes (choice variants fallback) := by
  intro depth text rest v hread
  cases v with
  | string name =>
      have hshape := shape_of_value hread (by simp [Value.shape]) (by simp [Value.shape])
      have hbegins := shape_begins hshape
      generalize hpast : pastBlanks text = past at hbegins
      cases hbegins with
      | string hstring =>
          refine Settles.of_eq ?_ (peeked_eq hpast)
          rw [if_neg (by decide), if_pos rfl]
          simp only [Format.words]
          cases h : known name with
          | true =>
              obtain ⟨a, hvariant⟩ := hknown name h
              exact settles_bind (readVariant_ok hstring hvariant) ⟨a, rfl⟩
          | false =>
              obtain ⟨cause, hvariant⟩ := hunknown name h
              exact (failsAt_readVariant hstring hvariant).bind _
  | object entries =>
      cases entries with
      | nil =>
          cases value_reads hread with
          | object hshape hnested =>
              obtain ⟨-, t, hpast⟩ := shape_object hshape
              obtain ⟨inner, middle, rfl, hentries, -⟩ := nested_eq_ok.mp hnested
              rw [hpast, List.tail_cons] at hentries
              refine FailsAt.of_eq ?_ (peeked_eq hpast)
              rw [if_pos rfl]
              refine failsAt_bind (discard_ok _) (FailsAt.bind ?_ _)
              cases untilNone_eq_ok.mp hentries with
              | last hlast =>
                  obtain ⟨t', hpast', -⟩ := atKey_false (key?_none.mp (keyedValue?_none.mp hlast))
                  exact failsAt_atOnlyKey hpast'
      | cons entry more =>
          obtain ⟨name, v⟩ := entry
          obtain ⟨inner, t, quoted, named, middle, rfl, hpast, hquote, hstring, hvalue, hbehind⟩ :=
            value_firstEntry hread
          refine Settles.of_eq ?_ (peeked_eq hpast)
          rw [if_pos rfl]
          refine settles_bind (discard_ok _) (settles_bind (atOnlyKey_ok hquote) ?_)
          simp only [Format.words]
          cases h : known name with
          | true =>
              obtain ⟨a, hvariant⟩ := hknown name h
              refine settles_bind (readVariant_ok hstring hvariant) ?_
              refine (settles_entryValue hvalue fun hread => ?_).bind fun a => ?_
              · exact (describes_unit hread).map fun _ => a
              · rcases hbehind with ⟨rfl, hbrace⟩ | ⟨hne, t', hcomma⟩
                · exact settles_bind (closeOnly_ok hbrace) (settles_pure a)
                · rw [if_neg (by simpa using hne)]
                  exact (failsAt_closeOnly hcomma).bind _
          | false =>
              obtain ⟨cause, hvariant⟩ := hunknown name h
              exact (failsAt_readVariant hstring hvariant).bind _
  | null | boolean | number | list =>
      exact failsAt_choice hread (by simp [Value.shape]) (by simp [Value.shape])

end Words

section Tags

variable {t : Tagged α}

theorem readTag_of_select {content : Value → Except Cause α} {depth : Nat}
    {text rest : List UInt8} {v : Value} (hselect : select? t v = some content)
    (hread : value depth text = .ok v rest) : t.readTag text = .ok content rest := by
  cases v with
  | string name =>
      refine readTag_ok ?_ hread
      rw [select?] at hselect
      rw [Tagged.named, hselect]
  | _ => cases hselect

theorem failsAt_readTag {depth : Nat} {text rest : List UInt8} {v : Value}
    (hselect : select? t v = none) (hread : value depth text = .ok v rest) :
    FailsAt t.readTag text [] := by
  obtain ⟨middle, hshape⟩ := exists_shape_of_value hread
  refine (failsAt_bind hshape ?_).located
  cases v with
  | string name =>
      have hnamed : t.named name = .error (.unknownVariant name (t.variants.map Prod.fst)) := by
        rw [select?] at hselect
        rw [Tagged.named, hselect]
      exact failsAt_ofExcept hnamed
  | _ => exact failsAt_fail _

theorem settles_content {content : Value → Except Cause α} {v : Value} {text : List UInt8} :
    Settles (ofExcept (content v)) text text (faultOfContent? content v) := by
  rw [faultOfContent?]
  cases content v with
  | ok a => exact settles_pure a
  | error cause => exact failsAt_fail cause

/-- Entry by entry, by induction on those that have been read: either there is a fault on the way,
or the content is known when they end. -/
theorem readEntries_or_failsAt {depth : Nat} {fuel : Fuel} {count : Nat}
    {text rest : List UInt8} {entries : List (String × Value)}
    (hcollects : Collects (keyedValue? (value depth)) fuel count text entries rest)
    (hfuel : text.length < fuel.length) (found : Option (Value → Except Cause α))
    (others : List (String × Value)) :
    (∃ content v, t.readEntries depth fuel count found others text = .ok ⟨content, v⟩ rest ∧
        faultOfTagged? t entries found others = faultOfContent? content v) ∨
      ∃ path, FailsAt (t.readEntries depth fuel count found others) text path ∧
        faultOfTagged? t entries found others = some path := by
  induction hcollects generalizing found others with
  | spent => simp at hfuel
  | last hstep =>
      have hkey := keyedValue?_none.mp hstep
      cases found with
      | none => exact .inr ⟨[], failsAt_bind hkey (failsAt_fail _), rfl⟩
      | some content => exact .inl ⟨content, _, bind_of_ok hkey, rfl⟩
  | @more f fuel count text middle rest entry entries hstep _ ih =>
      obtain ⟨name, v⟩ := entry
      obtain ⟨_, hkey, hvalue⟩ := keyedValue?_some.mp hstep
      have hless := length_lt_of_keyedValue? hstep
      rw [List.length_cons] at hfuel
      -- the entry is the tag, which selects a variant the first time, or part of the content
      by_cases htag : name = t.tag
      · cases hfound : found.isSome with
        | true =>
            refine .inr ⟨[], failsAt_bind hkey ?_, ?_⟩
            · simp only [htag, hfound, if_true]
              exact failsAt_fail _
            · simp only [faultOfTagged?, htag, hfound, if_true]
        | false =>
            cases hselect : select? t v with
            | none =>
                refine .inr ⟨[.key t.tag], failsAt_bind hkey ?_, ?_⟩
                · simp only [htag, hfound, if_true, Bool.false_eq_true, if_false]
                  refine FailsAt.bind ?_ _
                  obtain ⟨between, hcolon, hread⟩ := entryValue_eq_ok.mp (htag ▸ hvalue)
                  exact failsAt_bind hcolon ((failsAt_readTag hselect hread).within _)
                · simp only [faultOfTagged?, htag, hfound, hselect, if_true, Bool.false_eq_true,
                    if_false]
            | some content =>
                have hread := entryValue_of hvalue (readTag_of_select hselect)
                have hstart : t.readEntries depth (f :: fuel) count found others text =
                    t.readEntries depth fuel (count + 1) (some content) others middle := by
                  refine (bind_of_ok hkey).trans ?_
                  simp only [htag, hfound, if_true, Bool.false_eq_true, if_false]
                  exact bind_of_ok (htag ▸ hread)
                simp only [faultOfTagged?, htag, hfound, hselect, if_true, Bool.false_eq_true,
                  if_false, FailsAt, hstart]
                exact ih (by omega) (some content) others
      · have hstart : t.readEntries depth (f :: fuel) count found others text =
            t.readEntries depth fuel (count + 1) found ((name, v) :: others) middle := by
          refine (bind_of_ok hkey).trans ?_
          simp only [htag, if_false]
          exact bind_of_ok hvalue
        simp only [faultOfTagged?, htag, if_false, FailsAt, hstart]
        exact ih (by omega) found ((name, v) :: others)

theorem describes_tagged (t : Tagged α) : (Format.tagged t).Describes (Decoder.tagged t) := by
  intro depth text rest v hread
  cases value_reads hread with
  | @object _ entries hshape hnested =>
      obtain ⟨inner, middle, rfl, hentries, hclose⟩ := nested_eq_ok.mp hnested
      have hfuel := fuel_eq_ok.mpr (⟨rfl, rfl⟩ : 0 :: (pastBlanks text).tail = _ ∧ _ = _)
      rcases readEntries_or_failsAt (t := t) (untilNone_eq_ok.mp hentries) (by simp) none [] with
        ⟨content, v, hread, hfault⟩ | ⟨path, hfails, hfault⟩
      · simp only [Format.tagged, hfault]
        refine settles_bind (a := ⟨content, v⟩) (located_eq_ok.mpr (bind_eq_ok.mpr
          ⟨_, _, hshape, nested_eq_ok.mpr ⟨inner, middle, rfl, ?_, hclose⟩⟩)) settles_content
        exact bind_eq_ok.mpr ⟨_, _, hfuel, hread⟩
      · simp only [Format.tagged, hfault]
        refine (FailsAt.located (failsAt_bind hshape ?_)).bind _
        exact failsAt_bind (discard_ok _) ((failsAt_bind hfuel hfails).closedBy _)
  | @list _ items hshape hnested =>
      obtain ⟨inner, middle, rfl, hitems, hclose⟩ := nested_eq_ok.mp hnested
      have hfails {path : Path} (h : FailsAt (t.readElements inner) (pastBlanks text).tail path) :
          FailsAt ((Decoder.tagged t).read (inner + 1)) text path :=
        (FailsAt.located (failsAt_bind hshape
          (failsAt_bind (discard_ok _) (h.closedBy _)))).bind _
      cases untilNone_eq_ok.mp hitems with
      | last hstep =>
          have hnone : element? t.readTag 0 (pastBlanks text).tail = .ok none middle :=
            element?_none.mpr (element?_none.mp hstep)
          exact hfails (failsAt_bind hnone (failsAt_fail _))
      | @more _ _ _ _ between _ v items hstep hrest =>
          obtain ⟨_, hmore, hvalue⟩ := element?_some.mp hstep
          simp only [Format.tagged]
          cases hselect : select? t v with
          | none =>
              have htag := failsAt_element? hstep fun hread => failsAt_readTag hselect hread
              exact hfails (htag.bind _)
          | some content =>
              have htag := element?_some.mpr ⟨_, hmore, readTag_of_select hselect hvalue⟩
              have hless := length_lt_of_element? hstep length_lt_of_value
              have hfuel : between.length < (0 :: between).length := Nat.lt_succ_self _
              have hrest' := hrest.shift (fun h => length_lt_of_element? h length_lt_of_value)
                hless hfuel
              refine settles_bind (a := ⟨content, .list items⟩) (located_eq_ok.mpr (bind_eq_ok.mpr
                ⟨_, _, hshape, nested_eq_ok.mpr ⟨inner, middle, rfl, ?_, hclose⟩⟩)) settles_content
              refine bind_eq_ok.mpr ⟨some content, between, htag, ?_⟩
              exact bind_eq_ok.mpr ⟨items, middle, untilNone_eq_ok.mpr hrest', rfl⟩
  | null hshape | boolean hshape | number hshape | string hshape =>
      exact ((failsAt_bind hshape (failsAt_fail _)).located).bind _

end Tags

end Decoder

end StubTree.Json
