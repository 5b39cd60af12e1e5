import Mathlib.Data.List.DropRight
import StubTree.Json.Decoder
import StubTree.Proofs.Effects

/-!
Readers that succeed. What they do with faults does not matter then, and blanks
in front of a value never do. A value that has been read was a scalar, or a
container whose elements were read one by one up to its closing bracket.
-/

namespace StubTree.Json.Reader

open Effect

variable {α β : Type} {text rest : List UInt8}

@[simp] theorem fail_ne_ok {cause : Cause} {a : α} : (fail cause : Reader α) text ≠ .ok a rest :=
  throw_ne_ok

@[simp] theorem failHere_ne_ok {cause : Cause} {a : α} :
    (failHere cause : Reader α) text ≠ .ok a rest := by
  change EStateM.Result.error _ _ ≠ .ok a rest
  simp

@[simp] theorem failAtNext_ne_ok {cause : Cause} {a : α} :
    (failAtNext cause : Reader α) text ≠ .ok a rest := by
  change EStateM.Result.error _ _ ≠ .ok a rest
  simp

@[simp] theorem peek_eq_ok {b : Option UInt8} :
    peek text = .ok b rest ↔ text.head? = b ∧ text = rest := by
  change EStateM.Result.ok text.head? text = .ok b rest ↔ _
  simp

@[simp] theorem next_eq_ok {b : Option UInt8} :
    next text = .ok b rest ↔ text.head? = b ∧ text.tail = rest := by
  change EStateM.Result.ok text.head? text.tail = .ok b rest ↔ _
  simp

theorem discard_ok (text : List UInt8) : discard text = .ok () text.tail := rfl

@[simp] theorem discard_eq_ok {u : Unit} : discard text = .ok u rest ↔ text.tail = rest :=
  modify_eq_ok

@[simp] theorem fuel_eq_ok {found : Fuel} :
    fuel text = .ok found rest ↔ 0 :: text = found ∧ text = rest := by
  change EStateM.Result.ok (0 :: text) text = .ok found rest ↔ _
  simp

/-- Where something has to come, it has been taken. -/
theorem taken {cause : Cause} {step : UInt8 → Reader α} {a : α}
    (h : (do match ← next with
      | none => failHere cause
      | some b => step b) text = .ok a rest) :
    ∃ b t, text = b :: t ∧ step b t = .ok a rest := by
  obtain ⟨first, _, hnext, h⟩ := bind_eq_ok.mp h
  obtain ⟨rfl, rfl⟩ := next_eq_ok.mp hnext
  cases text with
  | nil => exact absurd h failHere_ne_ok
  | cons b t => exact ⟨b, t, rfl, h⟩

@[simp] theorem digits_eq_ok {ds : List Nat} :
    digits text = .ok ds rest ↔
      (text.takeWhile isDigit).map (fun b => b.toNat - 48) = ds ∧
        text.dropWhile isDigit = rest := by
  change EStateM.Result.ok ((text.takeWhile isDigit).map fun b => b.toNat - 48)
    (text.dropWhile isDigit) = .ok ds rest ↔ _
  simp

@[simp] theorem plainBytes_eq_ok {plain : List UInt8} :
    plainBytes text = .ok plain rest ↔
      text.takeWhile isPlainByte = plain ∧ text.dropWhile isPlainByte = rest := by
  change EStateM.Result.ok (text.takeWhile isPlainByte) (text.dropWhile isPlainByte) =
    .ok plain rest ↔ _
  simp

/-- What is left of a text when the blanks in front have been read. -/
def pastBlanks (text : List UInt8) : List UInt8 := text.dropWhile isBlankByte

@[simp] theorem pastBlanks_pastBlanks (text : List UInt8) :
    pastBlanks (pastBlanks text) = pastBlanks text := List.dropWhile_idempotent _ _

@[simp] theorem peekPastBlanks_eq_ok {b : Option UInt8} :
    peekPastBlanks text = .ok b rest ↔ (pastBlanks text).head? = b ∧ pastBlanks text = rest := by
  change EStateM.Result.ok (pastBlanks text).head? (pastBlanks text) = .ok b rest ↔ _
  simp

/-- Where something has to come next, it has been seen. -/
theorem peeked {cause : Cause} {next : UInt8 → Reader α} {a : α}
    (h : (do match ← peekPastBlanks with
      | none => failAtNext cause
      | some b => next b) text = .ok a rest) :
    ∃ b t, pastBlanks text = b :: t ∧ next b (b :: t) = .ok a rest := by
  obtain ⟨b, _, hpeek, h⟩ := bind_eq_ok.mp h
  obtain ⟨hb, rfl⟩ := peekPastBlanks_eq_ok.mp hpeek
  cases hpast : pastBlanks text with
  | nil =>
      rw [hpast] at hb
      subst hb
      simp at h
  | cons b' t =>
      rw [hpast] at hb h
      subst hb
      exact ⟨b', t, rfl, h⟩

theorem peeked_eq {cause : Cause} {next : UInt8 → Reader α} {b : UInt8}
    {t : List UInt8} (hpast : pastBlanks text = b :: t) :
    (do match ← peekPastBlanks with
      | none => failAtNext cause
      | some b => next b) text = next b (b :: t) := by
  rw [bind_of_ok (peekPastBlanks_eq_ok.mpr ⟨rfl, rfl⟩), hpast]
  rfl

theorem ofExcept_eq_ok {e : Except Cause α} {a : α} :
    ofExcept e text = .ok a rest ↔ e = .ok a ∧ text = rest := by
  cases e with
  | ok b => simp [ofExcept, pure_eq_ok]
  | error cause => simp [ofExcept]

@[simp] theorem located_eq_ok {reader : Reader α} {a : α} :
    located reader text = .ok a rest ↔ reader text = .ok a rest := by
  simp only [located, tryCatch, tryCatchThe, MonadExceptOf.tryCatch, EStateM.tryCatch]
  cases reader text with
  | ok b middle => simp
  | error fault middle =>
      simp only [reduceCtorEq, iff_false]
      change EStateM.Result.error _ _ ≠ .ok a rest
      simp

@[simp] theorem within_eq_ok {step : Step} {reader : Reader α} {a : α} :
    within step reader text = .ok a rest ↔ reader text = .ok a rest := by
  simp only [within, tryCatch, tryCatchThe, MonadExceptOf.tryCatch, EStateM.tryCatch]
  cases reader text with
  | ok b middle => simp
  | error fault middle =>
      simp only [reduceCtorEq, iff_false]
      change EStateM.Result.error _ _ ≠ .ok a rest
      simp

theorem closedBy_eq_ok {close : Reader Unit} {body : Reader α} {a : α} :
    closedBy close body text = .ok a rest ↔
      ∃ middle, body text = .ok a middle ∧ close middle = .ok () rest := by
  simp only [closedBy]
  cases body text with
  | error fault middle =>
      dsimp only
      cases close middle <;> simp
  | ok b middle =>
      dsimp only
      constructor
      · intro h
        cases hclose : close middle with
        | error fault after => simp [hclose] at h
        | ok u after =>
            rw [hclose] at h
            cases h
            exact ⟨middle, rfl, hclose⟩
      · rintro ⟨_, hbody, hclose⟩
        cases hbody
        rw [hclose]

theorem nested_eq_ok {close : Reader Unit} {body : Nat → Reader α} {depth : Nat} {a : α} :
    nested close body depth text = .ok a rest ↔
      ∃ inner middle, depth = inner + 1 ∧ body inner text.tail = .ok a middle ∧
        close middle = .ok () rest := by
  cases depth with
  | zero => simp [nested]
  | succ inner =>
      simp only [nested, bind_eq_ok, discard_eq_ok, closedBy_eq_ok]
      constructor
      · rintro ⟨_, _, rfl, middle, hbody, hclose⟩
        exact ⟨inner, middle, rfl, hbody, hclose⟩
      · rintro ⟨_, middle, hinner, hbody, hclose⟩
        cases hinner
        exact ⟨(), _, rfl, middle, hbody, hclose⟩

theorem entryValue_eq_ok {name : String} {reader : Reader α} {a : α} :
    entryValue name reader text = .ok a rest ↔
      ∃ middle, colon text = .ok () middle ∧ reader middle = .ok a rest := by
  simp only [entryValue, bind_eq_ok, within_eq_ok]
  constructor
  · rintro ⟨_, middle, hcolon, hreader⟩
    exact ⟨middle, hcolon, hreader⟩
  · rintro ⟨middle, hcolon, hreader⟩
    exact ⟨(), middle, hcolon, hreader⟩

/-- What reads the value of an entry may be exchanged for what reads as far. -/
theorem entryValue_of {name : String} {reader : Reader α} {other : Reader β} {a : α} {b : β}
    (h : entryValue name reader text = .ok a rest)
    (hother : ∀ {text}, reader text = .ok a rest → other text = .ok b rest) :
    entryValue name other text = .ok b rest := by
  obtain ⟨middle, hcolon, hread⟩ := entryValue_eq_ok.mp h
  exact entryValue_eq_ok.mpr ⟨middle, hcolon, hother hread⟩

theorem shape_pastBlanks (text : List UInt8) : shape (pastBlanks text) = shape text := by
  have hpeek : peekPastBlanks (pastBlanks text) = peekPastBlanks text := by
    change EStateM.Result.ok (pastBlanks (pastBlanks text)).head? (pastBlanks (pastBlanks text)) =
      .ok (pastBlanks text).head? (pastBlanks text)
    rw [pastBlanks_pastBlanks]
  simp only [shape, bind, EStateM.bind, hpeek]

theorem value_pastBlanks (depth : Nat) (text : List UInt8) :
    value depth (pastBlanks text) = value depth text := by
  cases depth <;>
    simp only [value, located, tryCatch, tryCatchThe, MonadExceptOf.tryCatch, EStateM.tryCatch,
      bind, EStateM.bind, shape_pastBlanks]

/-- How a value begins: its first byte tells how it is read, and what its shape is. -/
inductive Begins : List UInt8 → Shape → List UInt8 → Prop where
  | null {t rest} : literal "null".toList (ascii 'n' :: t) = .ok () rest →
      Begins (ascii 'n' :: t) .null rest
  | true {t rest} : literal "true".toList (ascii 't' :: t) = .ok () rest →
      Begins (ascii 't' :: t) (.boolean true) rest
  | false {t rest} : literal "false".toList (ascii 'f' :: t) = .ok () rest →
      Begins (ascii 'f' :: t) (.boolean false) rest
  | negative {t rest n} : unsignedNumber .true t = .ok n rest →
      Begins (ascii '-' :: t) (.number n) rest
  | number {b t rest n} : isDigit b = .true → unsignedNumber .false (b :: t) = .ok n rest →
      Begins (b :: t) (.number n) rest
  | string {t rest s} : stringBody t = .ok s rest → Begins (ascii '"' :: t) (.string s) rest
  | list {t} : Begins (ascii '[' :: t) .list (ascii '[' :: t)
  | object {t} : Begins (ascii '\x7b' :: t) .object (ascii '\x7b' :: t)

theorem shape_begins {sh : Shape} (h : shape text = .ok sh rest) :
    Begins (pastBlanks text) sh rest := by
  obtain ⟨b, t, hpast, h⟩ := peeked h
  rw [hpast]
  split at h
  · rename_i hb
    subst hb
    simp only [bind_eq_ok, pure_eq_ok] at h
    obtain ⟨_, _, hword, rfl, rfl⟩ := h
    exact .null hword
  · split at h
    · rename_i hb
      subst hb
      simp only [bind_eq_ok, pure_eq_ok] at h
      obtain ⟨_, _, hword, rfl, rfl⟩ := h
      exact .true hword
    · split at h
      · rename_i hb
        subst hb
        simp only [bind_eq_ok, pure_eq_ok] at h
        obtain ⟨_, _, hword, rfl, rfl⟩ := h
        exact .false hword
      · split at h
        · rename_i hb
          subst hb
          simp only [bind_eq_ok, discard_eq_ok, pure_eq_ok] at h
          obtain ⟨_, _, rfl, n, _, hnumber, rfl, rfl⟩ := h
          exact .negative hnumber
        · split at h
          · rename_i hdigit
            simp only [bind_eq_ok, pure_eq_ok] at h
            obtain ⟨n, _, hnumber, rfl, rfl⟩ := h
            exact .number hdigit hnumber
          · split at h
            · rename_i hb
              subst hb
              simp only [bind_eq_ok, discard_eq_ok, pure_eq_ok] at h
              obtain ⟨_, _, rfl, s, _, hstring, rfl, rfl⟩ := h
              exact .string hstring
            · split at h
              · rename_i hb
                subst hb
                obtain ⟨rfl, rfl⟩ := pure_eq_ok.mp h
                exact .list
              · split at h
                · rename_i hb
                  subst hb
                  obtain ⟨rfl, rfl⟩ := pure_eq_ok.mp h
                  exact .object
                · simp at h

section Values

variable {depth : Nat} {v : Value}

/-- A container of any depth is opened in the same way. -/
theorem value_eq (depth : Nat) : value depth = located do
    match ← shape with
    | .null => return .null
    | .boolean b => return .boolean b
    | .number n => return .number n
    | .string s => return .string s
    | .list => return .list (← nested closeList (fun depth => elements (value depth)) depth)
    | .object =>
      return .object (← nested closeObject (fun depth => entries (value depth)) depth) := by
  cases depth with
  | zero => rfl
  | succ inner => rfl

theorem shape_quoted {s : String} (h : stringBody text = .ok s rest) :
    shape (ascii '"' :: text) = .ok (.string s) rest := by
  have hpast : pastBlanks (ascii '"' :: text) = ascii '"' :: text :=
    List.dropWhile_cons_of_neg (by decide)
  refine (peeked_eq hpast).trans ?_
  simp only [show ascii '"' ≠ ascii 'n' by decide, show ascii '"' ≠ ascii 't' by decide,
    show ascii '"' ≠ ascii 'f' by decide, show ascii '"' ≠ ascii '-' by decide,
    show ¬ isDigit (ascii '"') by decide, ↓reduceIte]
  exact bind_eq_ok.mpr ⟨(), _, rfl, bind_eq_ok.mpr ⟨s, _, h, rfl⟩⟩

theorem shape_list (h : shape text = .ok .list rest) :
    rest = pastBlanks text ∧ ∃ t, rest = ascii '[' :: t := by
  have hbegins := shape_begins h
  generalize pastBlanks text = past at hbegins
  cases hbegins with
  | list => exact ⟨rfl, _, rfl⟩

theorem shape_object (h : shape text = .ok .object rest) :
    rest = pastBlanks text ∧ ∃ t, rest = ascii '\x7b' :: t := by
  have hbegins := shape_begins h
  generalize pastBlanks text = past at hbegins
  cases hbegins with
  | object => exact ⟨rfl, _, rfl⟩

/-- What has been read, taken apart: the shape comes first, then what is in a container. -/
inductive Reads (depth : Nat) (text : List UInt8) : Value → List UInt8 → Prop where
  | null {rest : List UInt8} : shape text = .ok .null rest → Reads depth text .null rest
  | boolean {rest : List UInt8} {b : Bool} : shape text = .ok (.boolean b) rest →
      Reads depth text (.boolean b) rest
  | number {rest : List UInt8} {n : Numeral} : shape text = .ok (.number n) rest →
      Reads depth text (.number n) rest
  | string {rest : List UInt8} {s : String} : shape text = .ok (.string s) rest →
      Reads depth text (.string s) rest
  | list {rest : List UInt8} {items : List Value} : shape text = .ok .list (pastBlanks text) →
      nested closeList (fun depth => elements (value depth)) depth (pastBlanks text) =
        .ok items rest → Reads depth text (.list items) rest
  | object {rest : List UInt8} {found : List (String × Value)} :
      shape text = .ok .object (pastBlanks text) →
        nested closeObject (fun depth => entries (value depth)) depth (pastBlanks text) =
          .ok found rest → Reads depth text (.object found) rest

theorem value_reads (h : value depth text = .ok v rest) : Reads depth text v rest := by
  rw [value_eq, located_eq_ok, bind_eq_ok] at h
  obtain ⟨sh, middle, hshape, h⟩ := h
  cases sh with
  | null =>
      obtain ⟨rfl, rfl⟩ := pure_eq_ok.mp h
      exact .null hshape
  | boolean b =>
      obtain ⟨rfl, rfl⟩ := pure_eq_ok.mp h
      exact .boolean hshape
  | number n =>
      obtain ⟨rfl, rfl⟩ := pure_eq_ok.mp h
      exact .number hshape
  | string s =>
      obtain ⟨rfl, rfl⟩ := pure_eq_ok.mp h
      exact .string hshape
  | list =>
      obtain ⟨items, _, hnested, h⟩ := bind_eq_ok.mp h
      obtain ⟨rfl, rfl⟩ := pure_eq_ok.mp h
      obtain ⟨rfl, -⟩ := shape_list hshape
      exact .list hshape hnested
  | object =>
      obtain ⟨found, _, hnested, h⟩ := bind_eq_ok.mp h
      obtain ⟨rfl, rfl⟩ := pure_eq_ok.mp h
      obtain ⟨rfl, -⟩ := shape_object hshape
      exact .object hshape hnested

theorem shape_of_value (h : value depth text = .ok v rest) (hlist : v.shape ≠ .list)
    (hobject : v.shape ≠ .object) : shape text = .ok v.shape rest := by
  cases value_reads h with
  | null hshape => exact hshape
  | boolean hshape => exact hshape
  | number hshape => exact hshape
  | string hshape => exact hshape
  | list => exact absurd rfl hlist
  | object => exact absurd rfl hobject

theorem exists_shape_of_value (h : value depth text = .ok v rest) :
    ∃ middle, shape text = .ok v.shape middle := by
  cases value_reads h with
  | null hshape => exact ⟨_, hshape⟩
  | boolean hshape => exact ⟨_, hshape⟩
  | number hshape => exact ⟨_, hshape⟩
  | string hshape => exact ⟨_, hshape⟩
  | list hshape => exact ⟨_, hshape⟩
  | object hshape => exact ⟨_, hshape⟩

/-- No value but `null` begins with its first letter. -/
theorem begins_null {t : List UInt8} {sh : Shape} (h : Begins (ascii 'n' :: t) sh rest) :
    sh = .null := by
  generalize hb : ascii 'n' = b at h
  cases h with
  | null => rfl
  | number hdigit =>
      subst hb
      exact absurd hdigit (by decide)
  | _ => exact absurd hb (by decide)

end Values

section Collected

/-- Elements are collected until a step gives none. -/
inductive Collects (step : Nat → Reader (Option α)) : Fuel → Nat → List UInt8 → List α →
    List UInt8 → Prop where
  | spent {count text} : Collects step [] count text [] text
  | last {f fuel count text rest} : step count text = .ok none rest →
      Collects step (f :: fuel) count text [] rest
  | more {f fuel count text middle rest a as} : step count text = .ok (some a) middle →
      Collects step fuel (count + 1) middle as rest →
        Collects step (f :: fuel) count text (a :: as) rest

theorem collect_collects {step : Nat → Reader (Option α)} {fuel : Fuel} {count : Nat}
    {as : List α} (h : collect step fuel count text = .ok as rest) :
    Collects step fuel count text as rest := by
  induction fuel generalizing count text as with
  | nil =>
      obtain ⟨rfl, rfl⟩ := pure_eq_ok.mp h
      exact .spent
  | cons f fuel ih =>
      simp only [collect, bind_eq_ok] at h
      obtain ⟨found, middle, hstep, h⟩ := h
      cases found with
      | none =>
          obtain ⟨rfl, rfl⟩ := pure_eq_ok.mp h
          exact .last hstep
      | some a =>
          obtain ⟨as, _, hrest, h⟩ := bind_eq_ok.mp h
          obtain ⟨rfl, rfl⟩ := pure_eq_ok.mp h
          exact .more hstep (ih hrest)

theorem Collects.collect_eq {step : Nat → Reader (Option α)} {fuel : Fuel} {count : Nat}
    {as : List α} (h : Collects step fuel count text as rest) :
    collect step fuel count text = .ok as rest := by
  induction h with
  | spent => rfl
  | last hstep =>
      simp only [collect, bind_eq_ok]
      exact ⟨none, _, hstep, rfl⟩
  | more hstep _ ih =>
      simp only [collect, bind_eq_ok]
      exact ⟨some _, _, hstep, bind_eq_ok.mpr ⟨_, _, ih, rfl⟩⟩

theorem Collects.step_of_mem {step : Nat → Reader (Option α)} {fuel : Fuel} {count : Nat}
    {as : List α} (h : Collects step fuel count text as rest) {a : α} (ha : a ∈ as) :
    ∃ i before after, step i before = .ok (some a) after := by
  induction h with
  | spent => simp at ha
  | last => simp at ha
  | more hstep _ ih =>
      cases ha with
      | head => exact ⟨_, _, _, hstep⟩
      | tail _ ha => exact ih ha

theorem untilNone_eq_ok {step : Nat → Reader (Option α)} {as : List α} :
    untilNone step text = .ok as rest ↔ Collects step (0 :: text) 0 text as rest :=
  ⟨collect_collects, Collects.collect_eq⟩

theorem element?_none {reader : Reader α} {i : Nat} :
    element? reader i text = .ok none rest ↔ atElement (i = 0) text = .ok false rest := by
  simp only [element?, bind_eq_ok]
  constructor
  · rintro ⟨more, middle, hmore, h⟩
    cases more with
    | false =>
        obtain ⟨-, rfl⟩ := pure_eq_ok.mp h
        exact hmore
    | true =>
        obtain ⟨_, _, -, h⟩ := bind_eq_ok.mp h
        cases (pure_eq_ok.mp h).1
  · intro hmore
    exact ⟨false, _, hmore, rfl⟩

theorem element?_some {reader : Reader α} {i : Nat} {a : α} :
    element? reader i text = .ok (some a) rest ↔
      ∃ middle, atElement (i = 0) text = .ok true middle ∧ reader middle = .ok a rest := by
  simp only [element?, bind_eq_ok]
  constructor
  · rintro ⟨more, middle, hmore, h⟩
    cases more with
    | false => simp [pure_eq_ok] at h
    | true =>
        simp only [↓reduceIte, bind_eq_ok, within_eq_ok, pure_eq_ok, Option.some.injEq] at h
        obtain ⟨_, _, hread, rfl, rfl⟩ := h
        exact ⟨middle, hmore, hread⟩
  · rintro ⟨middle, hmore, hread⟩
    refine ⟨true, middle, hmore, ?_⟩
    simp only [↓reduceIte, bind_eq_ok, within_eq_ok]
    exact ⟨a, _, hread, rfl⟩

theorem keyedValue?_none {reader : Reader Value} {i : Nat} :
    keyedValue? reader i text = .ok none rest ↔ key? (i = 0) text = .ok none rest := by
  simp only [keyedValue?, bind_eq_ok]
  constructor
  · rintro ⟨key, middle, hkey, h⟩
    cases key with
    | none =>
        obtain ⟨-, rfl⟩ := pure_eq_ok.mp h
        exact hkey
    | some name =>
        obtain ⟨_, _, -, h⟩ := bind_eq_ok.mp h
        cases (pure_eq_ok.mp h).1
  · intro hkey
    exact ⟨none, _, hkey, rfl⟩

theorem keyedValue?_some {reader : Reader Value} {i : Nat} {name : String} {v : Value} :
    keyedValue? reader i text = .ok (some (name, v)) rest ↔
      ∃ middle, key? (i = 0) text = .ok (some name) middle ∧
        entryValue name reader middle = .ok v rest := by
  simp only [keyedValue?, bind_eq_ok]
  constructor
  · rintro ⟨key, middle, hkey, h⟩
    cases key with
    | none => simp [pure_eq_ok] at h
    | some name =>
        obtain ⟨_, _, hread, h⟩ := bind_eq_ok.mp h
        simp only [pure_eq_ok, Option.some.injEq, Prod.mk.injEq] at h
        obtain ⟨⟨rfl, rfl⟩, rfl⟩ := h
        exact ⟨middle, hkey, hread⟩
  · rintro ⟨middle, hkey, hread⟩
    exact ⟨some name, middle, hkey, bind_eq_ok.mpr ⟨v, _, hread, rfl⟩⟩

end Collected

section Strings

variable {t : List UInt8}

theorem hexUnit_eq_ok {n : Nat} :
    hexUnit text = .ok n rest ↔ ∃ a b c d i j k l, text = a :: b :: c :: d :: rest ∧
      hexValue a = some i ∧ hexValue b = some j ∧ hexValue c = some k ∧ hexValue d = some l ∧
        ((i * 16 + j) * 16 + k) * 16 + l = n := by
  constructor
  · intro h
    obtain ⟨_, _, hget, h⟩ := bind_eq_ok.mp h
    obtain ⟨rfl, rfl⟩ := get_eq_ok.mp hget
    rcases text with _ | ⟨a, _ | ⟨b, _ | ⟨c, _ | ⟨d, behind⟩⟩⟩⟩
    case cons.cons.cons.cons =>
      obtain ⟨_, _, hset, h⟩ := bind_eq_ok.mp h
      obtain rfl := set_eq_ok.mp hset
      cases ha : hexValue a <;> cases hb : hexValue b <;> cases hc : hexValue c <;>
        cases hd : hexValue d <;> simp [ha, hb, hc, hd, pure_eq_ok] at h
      obtain ⟨hn, rfl⟩ := h
      exact ⟨a, b, c, d, _, _, _, _, rfl, ha, hb, hc, hd, hn⟩
    all_goals simp [bind_eq_ok] at h
  · rintro ⟨a, b, c, d, i, j, k, l, rfl, ha, hb, hc, hd, rfl⟩
    refine bind_eq_ok.mpr ⟨_, _, rfl, bind_eq_ok.mpr ⟨(), rest, rfl, ?_⟩⟩
    simp only [ha, hb, hc, hd]
    rfl

theorem skipPiece_quote (hplain : text.dropWhile isPlainByte = ascii '"' :: t) :
    skipPiece text = .ok true t := by
  rw [skipPiece, bind_of_ok (plainBytes_eq_ok.mpr ⟨rfl, hplain⟩),
    bind_of_ok (peek_eq_ok.mpr ⟨rfl, rfl⟩)]
  rfl

theorem skipPiece_backslash {e : UInt8}
    (hplain : text.dropWhile isPlainByte = ascii '\\' :: e :: t) :
    skipPiece text =
      (if e = ascii 'u' then (do let _ ← hexUnit; return false)
        else if (simpleEscape e).isSome then return false
        else failHere .invalidEscape : Reader Bool) t := by
  rw [skipPiece, bind_of_ok (plainBytes_eq_ok.mpr ⟨rfl, hplain⟩),
    bind_of_ok (peek_eq_ok.mpr ⟨rfl, rfl⟩)]
  rfl

/-- A piece that has been skipped ends with the closing quote or with what has been escaped. -/
theorem skipPiece_ok {last : Bool} (h : skipPiece text = .ok last rest) :
    (last = true ∧ text.dropWhile isPlainByte = ascii '"' :: rest) ∨
      last = false ∧ ∃ e t, text.dropWhile isPlainByte = ascii '\\' :: e :: t ∧
        ((e = ascii 'u' ∧ ∃ n, hexUnit t = .ok n rest) ∨
          (simpleEscape e).isSome = true ∧ t = rest) := by
  simp only [skipPiece, bind_eq_ok, plainBytes_eq_ok, peek_eq_ok] at h
  obtain ⟨_, past, ⟨-, hplain⟩, first, _, ⟨hfirst, rfl⟩, h⟩ := h
  cases past with
  | nil =>
      subst hfirst
      simp at h
  | cons b t =>
      subst hfirst
      -- a byte that is not plain is a control character, a quote or a backslash
      have hnot : ¬ isPlainByte b = true := by
        have hhead := List.head_dropWhile_not isPlainByte (l := text) (by simp [hplain])
        simpa [hplain] using hhead
      simp only [List.head?_cons] at h
      split at h
      · simp at h
      · rename_i hcontrol
        obtain ⟨_, _, hdiscard, h⟩ := bind_eq_ok.mp h
        obtain rfl := discard_eq_ok.mp hdiscard
        split at h
        · rename_i hquote
          obtain ⟨rfl, rfl⟩ := pure_eq_ok.mp h
          exact .inl ⟨rfl, hquote ▸ hplain⟩
        · rename_i hquote
          have hback : b = ascii '\\' := by
            by_contra hback
            have hle : (32 : UInt8) ≤ b := UInt8.not_lt.mp hcontrol
            exact hnot (by simp [isPlainByte, hle, hquote, hback])
          obtain ⟨e, t, rfl, hescape⟩ := taken h
          subst hback
          split at hescape
          · rename_i hu
            obtain ⟨n, _, hhex, hescape⟩ := bind_eq_ok.mp hescape
            obtain ⟨rfl, rfl⟩ := pure_eq_ok.mp hescape
            exact .inr ⟨rfl, e, t, hplain, .inl ⟨hu, n, hhex⟩⟩
          · split at hescape
            · rename_i hsimple
              obtain ⟨rfl, rfl⟩ := pure_eq_ok.mp hescape
              exact .inr ⟨rfl, e, t, hplain, .inr ⟨hsimple, rfl⟩⟩
            · exact absurd hescape failHere_ne_ok

end Strings

section Brackets

theorem pastBlanks_bracket (t : List UInt8) : pastBlanks (ascii ']' :: t) = ascii ']' :: t :=
  List.dropWhile_cons_of_neg (by decide)

theorem atElement_false {first : Bool} (h : atElement first text = .ok false rest) :
    ∃ t, pastBlanks text = ascii ']' :: t ∧ rest = ascii ']' :: t := by
  obtain ⟨b, t, hpast, h⟩ := peeked h
  split at h
  · rename_i hclosing
    subst hclosing
    obtain ⟨-, rfl⟩ := pure_eq_ok.mp h
    exact ⟨t, hpast, rfl⟩
  · split at h
    · simp [pure_eq_ok] at h
    · split at h
      · obtain ⟨_, _, -, h⟩ := bind_eq_ok.mp h
        obtain ⟨c, _, -, h⟩ := peeked h
        split at h
        · simp at h
        · simp [pure_eq_ok] at h
      · simp at h

theorem atElement_first (h : atElement true text = .ok true rest) :
    ∃ b t, b ≠ ascii ']' ∧ pastBlanks text = b :: t ∧ rest = b :: t := by
  obtain ⟨b, t, hpast, h⟩ := peeked h
  split at h
  · simp [pure_eq_ok] at h
  · rename_i hopen
    obtain ⟨-, rfl⟩ := pure_eq_ok.mp h
    exact ⟨b, t, hopen, hpast, rfl⟩

theorem atElement_later (h : atElement false text = .ok true rest) :
    ∃ t, pastBlanks text = ascii ',' :: t ∧ rest = pastBlanks t := by
  obtain ⟨b, t, hpast, h⟩ := peeked h
  split at h
  · simp [pure_eq_ok] at h
  · simp only [Bool.false_eq_true, ↓reduceIte] at h
    split at h
    · rename_i hcomma
      subst hcomma
      obtain ⟨_, _, hdiscard, h⟩ := bind_eq_ok.mp h
      obtain rfl := discard_eq_ok.mp hdiscard
      obtain ⟨c, t', hpast', h⟩ := peeked h
      split at h
      · simp at h
      · obtain ⟨-, rfl⟩ := pure_eq_ok.mp h
        exact ⟨t, hpast, hpast'.symm⟩
    · simp at h

theorem atKey_false {first : Bool} (h : atKey first text = .ok false rest) :
    ∃ t, pastBlanks text = ascii '\x7d' :: t ∧ rest = ascii '\x7d' :: t := by
  obtain ⟨b, t, hpast, h⟩ := peeked h
  split at h
  · rename_i hclosing
    subst hclosing
    obtain ⟨-, rfl⟩ := pure_eq_ok.mp h
    exact ⟨t, hpast, rfl⟩
  · split at h
    · split at h <;> simp [pure_eq_ok] at h
    · split at h
      · obtain ⟨_, _, -, h⟩ := bind_eq_ok.mp h
        obtain ⟨c, _, -, h⟩ := peeked h
        split at h
        · simp [pure_eq_ok] at h
        · split at h <;> simp at h
      · simp at h

theorem atKey_first (h : atKey true text = .ok true rest) :
    ∃ t, pastBlanks text = ascii '"' :: t ∧ rest = ascii '"' :: t := by
  obtain ⟨b, t, hpast, h⟩ := peeked h
  split at h
  · simp [pure_eq_ok] at h
  · simp only [↓reduceIte] at h
    split at h
    · rename_i hquote
      subst hquote
      obtain ⟨-, rfl⟩ := pure_eq_ok.mp h
      exact ⟨t, hpast, rfl⟩
    · simp at h

theorem atKey_later (h : atKey false text = .ok true rest) :
    ∃ t t', pastBlanks text = ascii ',' :: t ∧ pastBlanks t = ascii '"' :: t' ∧
      rest = ascii '"' :: t' := by
  obtain ⟨b, t, hpast, h⟩ := peeked h
  split at h
  · simp [pure_eq_ok] at h
  · simp only [Bool.false_eq_true, ↓reduceIte] at h
    split at h
    · rename_i hcomma
      subst hcomma
      obtain ⟨_, _, hdiscard, h⟩ := bind_eq_ok.mp h
      obtain rfl := discard_eq_ok.mp hdiscard
      obtain ⟨c, t', hpast', h⟩ := peeked h
      split at h
      · rename_i hquote
        subst hquote
        obtain ⟨-, rfl⟩ := pure_eq_ok.mp h
        exact ⟨t, t', hpast, hpast', rfl⟩
      · split at h <;> simp at h
    · simp at h

theorem key?_none {first : Bool} :
    key? first text = .ok none rest ↔ atKey first text = .ok false rest := by
  simp only [key?, within_eq_ok, bind_eq_ok]
  constructor
  · rintro ⟨more, middle, hmore, h⟩
    cases more with
    | false =>
        obtain ⟨-, rfl⟩ := pure_eq_ok.mp h
        exact hmore
    | true =>
        obtain ⟨_, _, -, h⟩ := bind_eq_ok.mp h
        obtain ⟨_, _, -, h⟩ := bind_eq_ok.mp h
        cases (pure_eq_ok.mp h).1
  · intro hmore
    exact ⟨false, _, hmore, rfl⟩

theorem key?_some {first : Bool} {name : String} :
    key? first text = .ok (some name) rest ↔
      ∃ quoted, atKey first text = .ok true quoted ∧ stringBody quoted.tail = .ok name rest := by
  simp only [key?, within_eq_ok, bind_eq_ok]
  constructor
  · rintro ⟨more, middle, hmore, h⟩
    cases more with
    | false => simp [pure_eq_ok] at h
    | true =>
        simp only [↓reduceIte, bind_eq_ok, discard_eq_ok, pure_eq_ok, Option.some.injEq] at h
        obtain ⟨_, _, rfl, _, _, hname, rfl, rfl⟩ := h
        exact ⟨middle, hmore, hname⟩
  · rintro ⟨quoted, hmore, hname⟩
    refine ⟨true, quoted, hmore, ?_⟩
    simp only [↓reduceIte, bind_eq_ok, discard_eq_ok, pure_eq_ok]
    exact ⟨(), _, rfl, name, _, hname, rfl, rfl⟩

theorem closeList_ok (h : closeList text = .ok () rest) : pastBlanks text = ascii ']' :: rest := by
  obtain ⟨b, t, hpast, h⟩ := peeked h
  split at h
  · rename_i hclosing
    subst hclosing
    obtain rfl := discard_eq_ok.mp h
    exact hpast
  · split at h
    · obtain ⟨_, _, -, h⟩ := bind_eq_ok.mp h
      obtain ⟨c, _, -, h⟩ := bind_eq_ok.mp h
      split at h <;> simp at h
    · simp at h

theorem closeObject_ok (h : closeObject text = .ok () rest) :
    pastBlanks text = ascii '\x7d' :: rest := by
  obtain ⟨b, t, hpast, h⟩ := peeked h
  split at h
  · rename_i hclosing
    subst hclosing
    obtain rfl := discard_eq_ok.mp h
    exact hpast
  · split at h <;> simp at h

end Brackets

theorem exists_value_of_ofText? {limit : Nat} {v : Value} (h : Value.ofText? limit text = .ok v) :
    ∃ rest, value limit text = .ok v rest := by
  simp only [Value.ofText?] at h
  split at h
  · rename_i hwhole
    cases h
    obtain ⟨v, middle, hread, hwhole⟩ := bind_eq_ok.mp hwhole
    obtain ⟨b, _, -, hwhole⟩ := bind_eq_ok.mp hwhole
    cases b with
    | none =>
        obtain ⟨rfl, -⟩ := pure_eq_ok.mp hwhole
        exact ⟨middle, hread⟩
    | some b => simp at hwhole
  · cases h

theorem depthOfItems_le {items : List Value} {n : Nat} :
    Value.depthOfItems items ≤ n ↔ ∀ v ∈ items, v.depth ≤ n := by
  induction items with
  | nil => simp [Value.depthOfItems]
  | cons v rest ih => rw [Value.depthOfItems, Nat.max_le, ih, List.forall_mem_cons]

theorem depthOfEntries_le {found : List (String × Value)} {n : Nat} :
    Value.depthOfEntries found ≤ n ↔ ∀ entry ∈ found, entry.2.depth ≤ n := by
  induction found with
  | nil => simp [Value.depthOfEntries]
  | cons entry rest ih => rw [Value.depthOfEntries, Nat.max_le, ih, List.forall_mem_cons]

/-- No value is nested deeper than the reader may go. -/
theorem depth_le_of_value {depth : Nat} {v : Value} (h : value depth text = .ok v rest) :
    v.depth ≤ depth := by
  induction depth using Nat.strong_induction_on generalizing text rest v with
  | h depth ih =>
    cases value_reads h with
    | null => simp [Value.depth]
    | boolean => simp [Value.depth]
    | number => simp [Value.depth]
    | string => simp [Value.depth]
    | list _ hnested =>
        obtain ⟨inner, _, rfl, hitems, -⟩ := nested_eq_ok.mp hnested
        rw [Value.depth, Nat.add_le_add_iff_right, depthOfItems_le]
        intro v hv
        obtain ⟨i, before, after, hstep⟩ := (untilNone_eq_ok.mp hitems).step_of_mem hv
        obtain ⟨_, -, hread⟩ := element?_some.mp hstep
        exact ih inner (Nat.lt_succ_self inner) hread
    | object _ hnested =>
        obtain ⟨inner, _, rfl, hentries, -⟩ := nested_eq_ok.mp hnested
        rw [Value.depth, Nat.add_le_add_iff_right, depthOfEntries_le]
        intro entry hentry
        obtain ⟨i, before, after, hstep⟩ := (untilNone_eq_ok.mp hentries).step_of_mem hentry
        obtain ⟨_, -, hread⟩ := keyedValue?_some.mp hstep
        obtain ⟨_, -, hread⟩ := entryValue_eq_ok.mp hread
        exact ih inner (Nat.lt_succ_self inner) hread

end StubTree.Json.Reader
