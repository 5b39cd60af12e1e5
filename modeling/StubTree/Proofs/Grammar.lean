import Mathlib.Logic.Relation
import StubTree.Proofs.Skipping

/-!
The grammar of JSON on bytes, whatever the bytes encode. Each part of it is a
relation between two texts: the first one begins with something of a kind and
goes on with the second one. Skipping takes nothing but a value of this grammar,
as the containers around what is skipped say what is still to come.
-/

namespace StubTree.Json

open Effect Reader Relation

namespace Grammar

def Byte (p : UInt8 → Prop) (text rest : List UInt8) : Prop := ∃ b, p b ∧ text = b :: rest

/-- The byte of a character. -/
def Only (c : Char) : List UInt8 → List UInt8 → Prop := Byte (· = ascii c)

def Either (r s : List UInt8 → List UInt8 → Prop) (text rest : List UInt8) : Prop :=
  r text rest ∨ s text rest

def Blanks : List UInt8 → List UInt8 → Prop := ReflTransGen (Byte (isBlankByte · = true))

def Word (word text rest : List UInt8) : Prop := text = word ++ rest

def Digits : List UInt8 → List UInt8 → Prop := TransGen (Byte (isDigit · = true))

/-- The digits before the point. A zero stands alone. -/
def Whole : List UInt8 → List UInt8 → Prop :=
  Either (Only '0')
    (Comp (Byte fun b => isDigit b = true ∧ b ≠ ascii '0')
      (ReflTransGen (Byte (isDigit · = true))))

def Fraction : List UInt8 → List UInt8 → Prop := ReflGen (Comp (Only '.') Digits)

def Exponent : List UInt8 → List UInt8 → Prop :=
  ReflGen (Comp (Either (Only 'e') (Only 'E'))
    (Comp (ReflGen (Either (Only '+') (Only '-'))) Digits))

/-- A number after its sign. -/
def Unsigned : List UInt8 → List UInt8 → Prop := Comp Whole (Comp Fraction Exponent)

def Number : List UInt8 → List UInt8 → Prop := Comp (ReflGen (Only '-')) Unsigned

def Hex : List UInt8 → List UInt8 → Prop := Byte fun b => (hexValue b).isSome = true

/-- What comes after a backslash in a string. -/
def Escaped : List UInt8 → List UInt8 → Prop :=
  Either (Byte fun b => (simpleEscape b).isSome = true)
    (Comp (Only 'u') (Comp Hex (Comp Hex (Comp Hex Hex))))

/-- A string after its opening quote. -/
def Quoted : List UInt8 → List UInt8 → Prop :=
  Comp (ReflTransGen (Either (Byte (isPlainByte · = true)) (Comp (Only '\\') Escaped))) (Only '"')

/-- What stands before a value in its container. -/
def Key : Frame → List UInt8 → List UInt8 → Prop
  | .list => Blanks
  | .object =>
    Comp Blanks (Comp (Only '"') (Comp Quoted (Comp Blanks (Comp (Only ':') Blanks))))

def opening : Frame → Char
  | .list => '['
  | .object => '\x7b'

def closing : Frame → Char
  | .list => ']'
  | .object => '\x7d'

inductive Form where
  | value
  /-- A container up to its closing bracket: from its opening bracket or from behind a value. -/
  | inside (frame : Frame) (first : Bool)

inductive Spells : Form → List UInt8 → List UInt8 → Prop where
  | null {text rest} : Word ("null".toList.map ascii) text rest → Spells .value text rest
  | true {text rest} : Word ("true".toList.map ascii) text rest → Spells .value text rest
  | false {text rest} : Word ("false".toList.map ascii) text rest → Spells .value text rest
  | number {text rest} : Number text rest → Spells .value text rest
  | string {text rest} : Comp (Only '"') Quoted text rest → Spells .value text rest
  | container {frame text t rest} : Only (opening frame) text t →
      Spells (.inside frame Bool.true) t rest → Spells .value text rest
  | closed {frame first text rest} : Comp Blanks (Only (closing frame)) text rest →
      Spells (.inside frame first) text rest
  | first {frame text t t₁ rest} : Key frame text t → Spells .value t t₁ →
      Spells (.inside frame Bool.false) t₁ rest → Spells (.inside frame Bool.true) text rest
  | later {frame text t t₁ rest} : Comp (Comp Blanks (Only ',')) (Key frame) text t →
      Spells .value t t₁ → Spells (.inside frame Bool.false) t₁ rest →
        Spells (.inside frame Bool.false) text rest

end Grammar

open Grammar

/-- The text is one value with nothing but blanks around it. -/
def IsDocument (text : List UInt8) : Prop :=
  Comp Blanks (Comp (Spells .value) Blanks) text []

namespace Grammar

section Scalars

variable {text rest t : List UInt8}

theorem star_dropWhile (p : UInt8 → Bool) (text : List UInt8) :
    ReflTransGen (Byte (p · = true)) text (text.dropWhile p) := by
  induction text with
  | nil => exact .refl
  | cons b text ih =>
      by_cases hb : p b = true
      · rw [List.dropWhile_cons_of_pos hb]
        exact ih.head ⟨b, hb, rfl⟩
      · rw [List.dropWhile_cons_of_neg hb]

theorem blanks_pastBlanks (text : List UInt8) : Blanks text (pastBlanks text) :=
  star_dropWhile isBlankByte text

theorem blanks_of_past {b : UInt8} (hpast : pastBlanks text = b :: t) : Blanks text (b :: t) :=
  hpast ▸ blanks_pastBlanks text

theorem pastBlanks_of_blanks (h : Blanks text rest) : pastBlanks text = pastBlanks rest := by
  induction h with
  | refl => rfl
  | tail _ hblank ih =>
      obtain ⟨b, hb, rfl⟩ := hblank
      exact ih.trans (List.dropWhile_cons_of_pos hb)

theorem past_of_blanks {b : UInt8} (h : Blanks text (b :: t)) (hb : ¬ isBlankByte b = true) :
    pastBlanks text = b :: t :=
  (pastBlanks_of_blanks h).trans (List.dropWhile_cons_of_neg hb)

theorem digits_cons {b : UInt8} (hb : isDigit b = true) :
    Digits (b :: t) (t.dropWhile isDigit) :=
  TransGen.head' ⟨b, hb, rfl⟩ (star_dropWhile isDigit t)

/-- Some digits have been read if the text was not left as it was. -/
theorem digits_of_written {written : List Nat} (h : digits text = .ok written rest)
    (hne : ¬ written.isEmpty = true) : Digits text rest := by
  obtain ⟨hwritten, rfl⟩ := digits_eq_ok.mp h
  cases text with
  | nil =>
      subst hwritten
      exact absurd rfl hne
  | cons b t =>
      by_cases hb : isDigit b = true
      · rw [List.dropWhile_cons_of_pos hb]
        exact digits_cons hb
      · rw [List.takeWhile_cons_of_neg hb] at hwritten
        subst hwritten
        exact absurd rfl hne

theorem word_of_literal {word : List Char} (h : literal word text = .ok () rest) :
    Word (word.map ascii) text rest := by
  induction word generalizing text with
  | nil => exact (pure_eq_ok.mp h).2
  | cons c word ih =>
      obtain ⟨b, t, rfl, hbehind⟩ := taken h
      split at hbehind
      · rename_i hb
        obtain rfl : t = word.map ascii ++ rest := ih hbehind
        subst hb
        rfl
      · exact absurd hbehind failHere_ne_ok

theorem sign_of_exponentSign {down : Bool} (h : exponentSign text = .ok down rest) :
    ReflGen (Either (Only '+') (Only '-')) text rest := by
  simp only [exponentSign, bind_eq_ok, peek_eq_ok] at h
  obtain ⟨first, _, ⟨hfirst, rfl⟩, h⟩ := h
  cases text with
  | nil =>
      subst hfirst
      obtain ⟨-, rfl⟩ := pure_eq_ok.mp h
      exact .refl
  | cons b t =>
      subst hfirst
      simp only [List.head?_cons] at h
      split at h
      · rename_i hb
        obtain ⟨_, _, hdiscard, h⟩ := bind_eq_ok.mp h
        obtain rfl := discard_eq_ok.mp hdiscard
        obtain ⟨-, rfl⟩ := pure_eq_ok.mp h
        exact .single (.inr ⟨b, hb, rfl⟩)
      · split at h
        · rename_i hb
          obtain ⟨_, _, hdiscard, h⟩ := bind_eq_ok.mp h
          obtain rfl := discard_eq_ok.mp hdiscard
          obtain ⟨-, rfl⟩ := pure_eq_ok.mp h
          exact .single (.inl ⟨b, hb, rfl⟩)
        · obtain ⟨-, rfl⟩ := pure_eq_ok.mp h
          exact .refl

theorem exponent_of_skip {more : Bool} {middle : List UInt8}
    (hmore : atExponent text = .ok more middle)
    (h : (if more then skipExponent else pure () : Reader Unit) middle = .ok () rest) :
    Exponent text rest := by
  obtain rfl := atExponent_still hmore
  cases more with
  | false =>
      obtain ⟨-, rfl⟩ := pure_eq_ok.mp h
      exact .refl
  | true =>
      simp only [atExponent, bind_eq_ok, peek_eq_ok] at hmore
      obtain ⟨first, _, ⟨hfirst, rfl⟩, hmore⟩ := hmore
      cases text with
      | nil =>
          subst hfirst
          cases (pure_eq_ok.mp hmore).1
      | cons b t =>
          subst hfirst
          have hletter := (pure_eq_ok.mp hmore).1
          simp only [Bool.or_eq_true, decide_eq_true_eq] at hletter
          obtain ⟨_, _, hdiscard, h⟩ := bind_eq_ok.mp h
          obtain rfl := discard_eq_ok.mp hdiscard
          obtain ⟨down, signed, hsign, h⟩ := bind_eq_ok.mp h
          obtain ⟨d, behind, rfl, hbehind⟩ := taken h
          split at hbehind
          · rename_i hdigit
            obtain ⟨ds, _, hdigits, hend⟩ := bind_eq_ok.mp hbehind
            obtain ⟨-, rfl⟩ := digits_eq_ok.mp hdigits
            obtain ⟨-, rfl⟩ := pure_eq_ok.mp hend
            refine .single ⟨t, ?_, _, sign_of_exponentSign hsign, digits_cons hdigit⟩
            exact hletter.imp (fun hb => ⟨b, hb, rfl⟩) fun hb => ⟨b, hb, rfl⟩
          · exact absurd hbehind failHere_ne_ok

theorem tail_of_skip (h : skipNumberTail text = .ok () rest) :
    Comp Fraction Exponent text rest := by
  simp only [skipNumberTail, bind_eq_ok, peek_eq_ok] at h
  obtain ⟨first, _, ⟨hfirst, rfl⟩, h⟩ := h
  split at h
  · rename_i hpoint
    obtain ⟨t, rfl⟩ := List.head?_eq_some_iff.mp (hfirst.trans hpoint)
    simp only [skipFraction, bind_eq_ok, discard_eq_ok] at h
    obtain ⟨_, _, rfl, written, behind, hwritten, h⟩ := h
    split at h
    · simp at h
    · rename_i hne
      obtain ⟨more, middle, hmore, h⟩ := bind_eq_ok.mp h
      exact ⟨behind, .single ⟨t, ⟨_, rfl, rfl⟩, digits_of_written hwritten hne⟩,
        exponent_of_skip hmore h⟩
  · obtain ⟨more, middle, hmore, h⟩ := bind_eq_ok.mp h
    exact ⟨text, .refl, exponent_of_skip hmore h⟩

theorem unsigned_of_skip (h : skipNumber text = .ok () rest) : Unsigned text rest := by
  obtain ⟨b, t, rfl, hbehind⟩ := taken h
  split at hbehind
  · rename_i hzero
    refine ⟨t, .inl ⟨b, hzero, rfl⟩, ?_⟩
    obtain ⟨second, _, hsecond, htail⟩ := bind_eq_ok.mp hbehind
    obtain ⟨-, rfl⟩ := peek_eq_ok.mp hsecond
    cases second with
    | none =>
        obtain ⟨-, rfl⟩ := pure_eq_ok.mp htail
        exact ⟨t, .refl, .refl⟩
    | some d =>
        dsimp only at htail
        split at htail
        · exact absurd htail failAtNext_ne_ok
        · exact tail_of_skip htail
  · rename_i hzero
    split at hbehind
    · rename_i hdigit
      obtain ⟨ds, _, hdigits, htail⟩ := bind_eq_ok.mp hbehind
      obtain ⟨-, rfl⟩ := digits_eq_ok.mp hdigits
      exact ⟨_, .inr ⟨t, ⟨b, ⟨hdigit, hzero⟩, rfl⟩, star_dropWhile isDigit t⟩, tail_of_skip htail⟩
    · exact absurd hbehind failHere_ne_ok

theorem hex_of_hexUnit {n : Nat} (h : hexUnit text = .ok n rest) :
    Comp Hex (Comp Hex (Comp Hex Hex)) text rest := by
  obtain ⟨a, b, c, d, _, _, _, _, rfl, ha, hb, hc, hd, -⟩ := hexUnit_eq_ok.mp h
  exact ⟨_, ⟨a, by simp [ha], rfl⟩, _, ⟨b, by simp [hb], rfl⟩, _, ⟨c, by simp [hc], rfl⟩,
    d, by simp [hd], rfl⟩

/-- What a string is made of up to its closing quote. -/
def Piece : List UInt8 → List UInt8 → Prop :=
  Either (Byte (isPlainByte · = true)) (Comp (Only '\\') Escaped)

theorem pieces_dropWhile (text : List UInt8) :
    ReflTransGen Piece text (text.dropWhile isPlainByte) :=
  (star_dropWhile isPlainByte text).lift id fun _ _ => .inl

theorem pieces_of_skipPiece {last : Bool} (h : skipPiece text = .ok last rest) :
    ∃ middle, ReflTransGen Piece text middle ∧
      if last then Only '"' middle rest else middle = rest := by
  have hplain := pieces_dropWhile text
  rcases skipPiece_ok h with ⟨rfl, hquote⟩ | ⟨rfl, e, t, hback, hescaped⟩
  · exact ⟨_, hplain, _, rfl, hquote⟩
  · rw [hback] at hplain
    have hescaped : Escaped (e :: t) rest := by
      rcases hescaped with ⟨hu, n, hhex⟩ | ⟨hsimple, rfl⟩
      · exact .inr ⟨t, ⟨e, hu, rfl⟩, hex_of_hexUnit hhex⟩
      · exact .inl ⟨e, hsimple, rfl⟩
    exact ⟨rest, hplain.tail (.inr ⟨e :: t, ⟨_, rfl, rfl⟩, hescaped⟩), rfl⟩

theorem quoted_of_skipStringBytes {fuel : Fuel} (h : skipStringBytes fuel text = .ok () rest) :
    Quoted text rest := by
  induction fuel generalizing text with
  | nil => simp [skipStringBytes] at h
  | cons f fuel ih =>
      obtain ⟨last, middle, hpiece, h⟩ := bind_eq_ok.mp h
      obtain ⟨quote, hpieces, hlast⟩ := pieces_of_skipPiece hpiece
      cases last with
      | true =>
          obtain ⟨-, rfl⟩ := pure_eq_ok.mp h
          exact ⟨quote, hpieces, hlast⟩
      | false =>
          obtain rfl : quote = middle := hlast
          obtain ⟨quote', hpieces', hlast'⟩ := ih h
          exact ⟨quote', hpieces.trans hpieces', hlast'⟩

theorem quoted_of_skipString (h : skipString text = .ok () rest) : Quoted text rest := by
  obtain ⟨_, _, hfuel, h⟩ := bind_eq_ok.mp h
  obtain ⟨-, rfl⟩ := fuel_eq_ok.mp hfuel
  exact quoted_of_skipStringBytes h

end Scalars

section Containers

variable {text middle rest t : List UInt8} {frame : Frame} {outer frames : List Frame}

theorem closing_eq (frame : Frame) : frame.closing = ascii (closing frame) := by
  cases frame <;> rfl

theorem not_blank_closing (frame : Frame) : ¬ isBlankByte (ascii (closing frame)) = true := by
  cases frame <;> decide

theorem closed_of_past {first : Bool} (hpast : pastBlanks text = frame.closing :: rest) :
    Spells (.inside frame first) text rest :=
  .closed ⟨_, blanks_of_past hpast, frame.closing, closing_eq frame, rfl⟩

theorem colon_ok (h : colon text = .ok () rest) : pastBlanks text = ascii ':' :: rest := by
  obtain ⟨b, t, hpast, h⟩ := peeked h
  split at h
  · rename_i hcolon
    subst hcolon
    obtain rfl := discard_eq_ok.mp h
    exact hpast
  · simp at h

/-- A key with the colon behind it, up to the value. -/
theorem key_object {quoted named : List UInt8} (hpast : pastBlanks text = ascii '"' :: quoted)
    (hquoted : Quoted quoted named) (hcolon : colon named = .ok () middle)
    (hblanks : Blanks middle rest) : Key .object text rest :=
  ⟨_, blanks_of_past hpast, quoted, ⟨_, rfl, rfl⟩, named, hquoted, _,
    blanks_of_past (colon_ok hcolon), middle, ⟨_, rfl, rfl⟩, hblanks⟩

theorem key_of_skipKey (h : skipKey frame text = .ok () middle) (hblanks : Blanks middle rest) :
    Key frame text rest := by
  cases frame with
  | list =>
      obtain ⟨-, rfl⟩ := pure_eq_ok.mp h
      exact hblanks
  | object =>
      obtain ⟨b, t, hpast, h⟩ := peeked h
      split at h
      · rename_i hquote
        subst hquote
        obtain ⟨_, _, hdiscard, h⟩ := bind_eq_ok.mp h
        obtain rfl := discard_eq_ok.mp hdiscard
        obtain ⟨_, named, hstring, hcolon⟩ := bind_eq_ok.mp h
        exact key_object hpast (quoted_of_skipString hstring) hcolon hblanks
      · simp at h

theorem key_of_blanks (hblanks : Blanks text middle) (h : Key frame middle rest) :
    Key frame text rest := by
  cases frame with
  | list => exact hblanks.trans h
  | object =>
      obtain ⟨quote, hquote, hkey⟩ := h
      exact ⟨quote, hblanks.trans hquote, hkey⟩

/-- What comes behind a value up to the end of all containers around it. -/
def Closes : List Frame → List UInt8 → List UInt8 → Prop
  | [], text, rest => text = rest
  | frame :: outer, text, rest => Comp (Spells (.inside frame false)) (Closes outer) text rest

/-- What is still to be skipped: nothing, or a value and what closes the containers around it. -/
def Remaining : Option (List Frame) → List UInt8 → List UInt8 → Prop
  | none => Closes []
  | some frames => Comp Blanks (Comp (Spells .value) (Closes frames))

theorem closes_of_leave {next : Option (List Frame)} (h : leave outer text = .ok next middle)
    (hremaining : Remaining next middle rest) : Closes outer text rest := by
  induction outer generalizing text with
  | nil =>
      obtain ⟨rfl, rfl⟩ := pure_eq_ok.mp h
      exact hremaining
  | cons frame outer ih =>
      obtain ⟨b, t, hpast, h⟩ := peeked h
      split at h
      · rename_i hcomma
        subst hcomma
        obtain ⟨_, _, hdiscard, h⟩ := bind_eq_ok.mp h
        obtain rfl := discard_eq_ok.mp hdiscard
        obtain ⟨_, _, hkey, h⟩ := bind_eq_ok.mp h
        obtain ⟨rfl, rfl⟩ := pure_eq_ok.mp h
        obtain ⟨t', hblanks, t'', hvalue, u, hinside, houter⟩ := hremaining
        have hcomma : Comp Blanks (Only ',') text t :=
          ⟨_, blanks_of_past hpast, _, rfl, rfl⟩
        exact ⟨u, .later ⟨t, hcomma, key_of_skipKey hkey hblanks⟩ hvalue hinside, houter⟩
      · split at h
        · rename_i hclosing
          subst hclosing
          obtain ⟨_, _, hdiscard, h⟩ := bind_eq_ok.mp h
          obtain rfl := discard_eq_ok.mp hdiscard
          exact ⟨t, closed_of_past hpast, ih h⟩
        · simp at h

theorem closes_of_enter {next : Option (List Frame)} {b : UInt8}
    (h : enter frame outer (b :: t) = .ok next middle) (hremaining : Remaining next middle rest) :
    Comp (Spells (.inside frame true)) (Closes outer) t rest := by
  obtain ⟨_, _, hdiscard, h⟩ := bind_eq_ok.mp h
  obtain rfl := discard_eq_ok.mp hdiscard
  obtain ⟨c, t', hpast, h⟩ := peeked h
  split at h
  · rename_i hclosing
    subst hclosing
    obtain ⟨_, _, hdiscard, h⟩ := bind_eq_ok.mp h
    obtain rfl := discard_eq_ok.mp hdiscard
    exact ⟨t', closed_of_past hpast, closes_of_leave h hremaining⟩
  · obtain ⟨_, _, hkey, h⟩ := bind_eq_ok.mp h
    obtain ⟨rfl, rfl⟩ := pure_eq_ok.mp h
    obtain ⟨t'', hblanks, after, hvalue, u, hinside, houter⟩ := hremaining
    have hkey := key_of_blanks (blanks_of_past hpast) (key_of_skipKey hkey hblanks)
    exact ⟨u, .first hkey hvalue hinside, houter⟩

/-- The first byte of what is skipped tells a scalar, which is skipped whole, from a container. -/
inductive Starts (outer : List Frame) (next : Option (List Frame)) (text rest : List UInt8) :
    Prop where
  | scalar {after : List UInt8} : Spells .value text after → after.length < text.length →
      leave outer after = .ok next rest → Starts outer next text rest
  | container (frame : Frame) : Only (opening frame) text text.tail →
      enter frame outer text = .ok next rest → Starts outer next text rest

theorem skipStart_starts {next : Option (List Frame)}
    (h : skipStart outer text = .ok next rest) : Starts outer next (pastBlanks text) rest := by
  obtain ⟨b, t, hpast, h⟩ := peeked h
  rw [hpast]
  split at h
  · obtain ⟨_, after, hword, h⟩ := bind_eq_ok.mp h
    exact .scalar (.null (word_of_literal hword)) (length_lt_of_literal (by decide) hword) h
  · split at h
    · obtain ⟨_, after, hword, h⟩ := bind_eq_ok.mp h
      exact .scalar (.true (word_of_literal hword)) (length_lt_of_literal (by decide) hword) h
    · split at h
      · obtain ⟨_, after, hword, h⟩ := bind_eq_ok.mp h
        exact .scalar (.false (word_of_literal hword)) (length_lt_of_literal (by decide) hword) h
      · split at h
        · rename_i hminus
          obtain ⟨_, _, hdiscard, h⟩ := bind_eq_ok.mp h
          obtain rfl := discard_eq_ok.mp hdiscard
          obtain ⟨_, after, hnumber, h⟩ := bind_eq_ok.mp h
          have hspells : Number (b :: t) after :=
            ⟨t, .single ⟨b, hminus, rfl⟩, unsigned_of_skip hnumber⟩
          exact .scalar (.number hspells) ((length_lt_of_skipNumber hnumber).trans (by simp)) h
        · split at h
          · obtain ⟨_, after, hnumber, h⟩ := bind_eq_ok.mp h
            have hspells : Number (b :: t) after := ⟨_, .refl, unsigned_of_skip hnumber⟩
            exact .scalar (.number hspells) (length_lt_of_skipNumber hnumber) h
          · split at h
            · rename_i hquote
              obtain ⟨_, _, hdiscard, h⟩ := bind_eq_ok.mp h
              obtain rfl := discard_eq_ok.mp hdiscard
              obtain ⟨_, after, hstring, h⟩ := bind_eq_ok.mp h
              have hspells : Comp (Only '"') Quoted (b :: t) after :=
                ⟨t, ⟨b, hquote, rfl⟩, quoted_of_skipString hstring⟩
              have hshort := local_skipString.shortens _ _ _ hstring
              exact .scalar (.string hspells) (Nat.lt_succ_of_le hshort) h
            · split at h
              · rename_i hopening
                exact .container .list ⟨b, hopening, rfl⟩ h
              · split at h
                · rename_i hopening
                  exact .container .object ⟨b, hopening, rfl⟩ h
                · simp at h

theorem remaining_of_skipStart {next : Option (List Frame)}
    (h : skipStart outer text = .ok next middle) (hremaining : Remaining next middle rest) :
    Remaining (some outer) text rest := by
  refine ⟨pastBlanks text, blanks_pastBlanks text, ?_⟩
  cases skipStart_starts h with
  | scalar hspells _ hleave => exact ⟨_, hspells, closes_of_leave hleave hremaining⟩
  | container frame hopening henter =>
      obtain ⟨b, hb, hpast⟩ := hopening
      rw [hpast] at henter
      obtain ⟨u, hinside, houter⟩ := closes_of_enter henter hremaining
      exact ⟨u, .container ⟨b, hb, hpast⟩ hinside, houter⟩

theorem length_lt_of_enter {next : Option (List Frame)} {b : UInt8}
    (h : enter frame outer (b :: t) = .ok next rest) : rest.length < (b :: t).length := by
  obtain ⟨_, _, hdiscard, h⟩ := bind_eq_ok.mp h
  obtain rfl := discard_eq_ok.mp hdiscard
  obtain ⟨c, t', hpast, h⟩ := peeked h
  have hshort := length_lt_of_pastBlanks hpast
  rw [List.tail_cons] at hshort
  have hrest : rest.length ≤ (c :: t').length := by
    split at h
    · exact (local_discard.bind fun _ => local_leave outer).shortens _ _ _ h
    · exact ((local_skipKey frame).bind fun _ => local_pure _).shortens _ _ _ h
  simp only [List.length_cons] at hrest ⊢
  omega

/-- The first byte of a value is always taken. -/
theorem length_lt_of_skipStart {next : Option (List Frame)}
    (h : skipStart outer text = .ok next rest) : rest.length < text.length := by
  have hshort := (List.dropWhile_suffix isBlankByte (l := text)).length_le
  refine Nat.lt_of_lt_of_le ?_ hshort
  cases skipStart_starts h with
  | scalar _ hless hleave => exact ((local_leave outer).shortens _ _ _ hleave).trans_lt hless
  | container frame hopening henter =>
      obtain ⟨b, -, hpast⟩ := hopening
      rw [hpast] at henter
      have hless := length_lt_of_enter henter
      rwa [← hpast] at hless

theorem remaining_of_skipFrom {fuel : Fuel} (h : skipFrom fuel frames text = .ok () rest)
    (hfuel : text.length < fuel.length) : Remaining (some frames) text rest := by
  induction fuel generalizing frames text with
  | nil => simp at hfuel
  | cons f fuel ih =>
      obtain ⟨next, middle, hstart, h⟩ := bind_eq_ok.mp h
      have hless := length_lt_of_skipStart hstart
      rw [List.length_cons] at hfuel
      refine remaining_of_skipStart hstart ?_
      cases next with
      | none => exact (pure_eq_ok.mp h).2
      | some frames => exact ih h (by omega)

theorem spells_of_skipValue (h : skipValue text = .ok () rest) :
    Comp Blanks (Spells .value) text rest := by
  obtain ⟨_, _, hfuel, h⟩ := bind_eq_ok.mp h
  obtain ⟨rfl, rfl⟩ := fuel_eq_ok.mp hfuel
  obtain ⟨t, hblanks, t', hvalue, rfl⟩ := remaining_of_skipFrom h (by simp)
  exact ⟨t, hblanks, hvalue⟩

end Containers

end Grammar

end StubTree.Json
