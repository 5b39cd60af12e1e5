import StubTree.Proofs.Grammar

/-!
Skipping takes every value of the grammar, and all of it. A number needs
something behind it that cannot belong to it; whatever else may be a value says
by itself where it ends. As skipping takes one thing only, a text begins with one
such value at most.
-/

namespace StubTree.Json.Grammar

open Effect Reader Relation

variable {text middle rest t : List UInt8}

/-- No byte of a kind comes next. -/
def Stops (p : UInt8 → Bool) (text : List UInt8) : Prop := ∀ b, text.head? = some b → p b = false

theorem stops_cons {p : UInt8 → Bool} {b : UInt8} (hb : p b = false) : Stops p (b :: t) := by
  intro c hc
  cases hc
  exact hb

theorem Stops.of_cons {p : UInt8 → Bool} {b : UInt8} (h : Stops p (b :: t)) : p b = false :=
  h b rfl

theorem dropWhile_of_star {p : UInt8 → Bool} (h : ReflTransGen (Byte (p · = true)) text rest)
    (hstops : Stops p rest) : text.dropWhile p = rest := by
  induction h using ReflTransGen.head_induction_on with
  | refl =>
      cases rest with
      | nil => rfl
      | cons b rest => exact List.dropWhile_cons_of_neg (by simp [hstops.of_cons])
  | head hbyte _ ih =>
      obtain ⟨b, hb, rfl⟩ := hbyte
      exact (List.dropWhile_cons_of_pos hb).trans ih

theorem literal_of_word {word : List Char} (h : Word (word.map ascii) text rest) :
    literal word text = .ok () rest := by
  induction word generalizing text with
  | nil =>
      obtain rfl : text = rest := h
      rfl
  | cons c word ih =>
      obtain rfl : text = ascii c :: (word.map ascii ++ rest) := h
      rw [literal, bind_of_ok (next_eq_ok.mpr ⟨rfl, rfl⟩)]
      simp only [List.head?_cons, ↓reduceIte]
      exact ih rfl

section Numbers

/-- Bytes that go on with a number. -/
def goesOn (b : UInt8) : Bool :=
  isDigit b || b = ascii '.' || b = ascii 'e' || b = ascii 'E'

theorem goesOn_of_isDigit {b : UInt8} (h : goesOn b = false) : isDigit b = false := by
  simp only [goesOn, Bool.or_eq_false_iff] at h
  exact h.1.1.1

/-- An exponent begins with its letter, so neither a digit nor a point comes next. -/
theorem exponent_head (h : Exponent text rest) (hstops : Stops goesOn rest) :
    Stops (fun b => isDigit b || b = ascii '.') text := by
  intro b hb
  cases h with
  | refl =>
      have hgoes := hstops b hb
      simp only [goesOn, Bool.or_eq_false_iff] at hgoes ⊢
      exact hgoes.1.1
  | single h =>
      obtain ⟨_, hletter, -⟩ := h
      rcases hletter with ⟨_, rfl, rfl⟩ | ⟨_, rfl, rfl⟩
      · cases hb
        decide
      · cases hb
        decide

theorem digits_head (h : Digits text rest) : ∃ b t, isDigit b = true ∧ text = b :: t ∧
    ReflTransGen (Byte (isDigit · = true)) t rest := by
  obtain ⟨t, ⟨b, hb, rfl⟩, hstar⟩ := TransGen.head'_iff.mp h
  exact ⟨b, t, hb, rfl, hstar⟩

theorem exponentSign_of_sign (h : ReflGen (Either (Only '+') (Only '-')) text middle)
    (hdigits : Digits middle rest) : ∃ down, exponentSign text = .ok down middle := by
  cases h with
  | refl =>
      obtain ⟨b, t, hb, rfl, -⟩ := digits_head hdigits
      refine ⟨false, bind_eq_ok.mpr ⟨some b, _, peek_eq_ok.mpr ⟨rfl, rfl⟩, ?_⟩⟩
      have hminus : b ≠ ascii '-' := fun heq => absurd (heq ▸ hb) (by decide)
      have hplus : b ≠ ascii '+' := fun heq => absurd (heq ▸ hb) (by decide)
      simp only [hminus, hplus, ↓reduceIte]
      rfl
  | single h =>
      rcases h with ⟨_, rfl, rfl⟩ | ⟨_, rfl, rfl⟩
      · exact ⟨false, rfl⟩
      · exact ⟨true, rfl⟩

theorem skip_exponent (h : Exponent text rest) (hstops : Stops goesOn rest) :
    (do if ← atExponent then skipExponent else pure () : Reader Unit) text = .ok () rest := by
  cases h with
  | refl =>
      have hmore : atExponent text = .ok false text := by
        refine bind_eq_ok.mpr ⟨text.head?, _, peek_eq_ok.mpr ⟨rfl, rfl⟩, ?_⟩
        cases hhead : text.head? with
        | none => rfl
        | some b =>
            have hgoes := hstops b hhead
            simp only [goesOn, Bool.or_eq_false_iff] at hgoes
            exact pure_eq_ok.mpr ⟨by simp [hgoes.1.2, hgoes.2], rfl⟩
      rw [bind_of_ok hmore]
      rfl
  | single h =>
      obtain ⟨t, hletter, signed, hsign, hdigits⟩ := h
      obtain ⟨b, rfl, hmore⟩ : ∃ b, text = b :: t ∧ atExponent (b :: t) = .ok true (b :: t) := by
        rcases hletter with ⟨_, rfl, rfl⟩ | ⟨_, rfl, rfl⟩
        · exact ⟨_, rfl, rfl⟩
        · exact ⟨_, rfl, rfl⟩
      obtain ⟨down, hdown⟩ := exponentSign_of_sign hsign hdigits
      obtain ⟨d, t', hd, rfl, hstar⟩ := digits_head hdigits
      have hrest := dropWhile_of_star hstar fun c hc => goesOn_of_isDigit (hstops c hc)
      rw [bind_of_ok hmore]
      refine bind_eq_ok.mpr ⟨(), t, rfl, bind_eq_ok.mpr ⟨down, _, hdown, ?_⟩⟩
      refine bind_eq_ok.mpr ⟨some d, t', rfl, ?_⟩
      simp only [hd, ↓reduceIte]
      exact bind_eq_ok.mpr ⟨_, rest, digits_eq_ok.mpr ⟨rfl, hrest⟩, rfl⟩

theorem skip_tail (h : Comp Fraction Exponent text rest) (hstops : Stops goesOn rest) :
    skipNumberTail text = .ok () rest := by
  obtain ⟨behind, hfraction, hexponent⟩ := h
  have hhead := exponent_head hexponent hstops
  refine bind_eq_ok.mpr ⟨text.head?, text, peek_eq_ok.mpr ⟨rfl, rfl⟩, ?_⟩
  cases hfraction with
  | refl =>
      have hpoint : text.head? ≠ some (ascii '.') := fun heq => by
        have hnot := hhead _ heq
        simp at hnot
      rw [if_neg hpoint]
      exact skip_exponent hexponent hstops
  | single h =>
      obtain ⟨t, ⟨_, rfl, rfl⟩, hdigits⟩ := h
      obtain ⟨d, t', hd, rfl, hstar⟩ := digits_head hdigits
      have hbehind : (d :: t').dropWhile isDigit = behind := by
        refine (List.dropWhile_cons_of_pos hd).trans (dropWhile_of_star hstar fun c hc => ?_)
        have hnot := hhead c hc
        simp only [Bool.or_eq_false_iff] at hnot
        exact hnot.1
      rw [List.head?_cons, if_pos rfl]
      refine bind_eq_ok.mpr ⟨(), _, rfl, bind_eq_ok.mpr ⟨_, behind,
        digits_eq_ok.mpr ⟨rfl, hbehind⟩, ?_⟩⟩
      rw [List.tail_cons, List.takeWhile_cons_of_pos hd]
      exact skip_exponent hexponent hstops

/-- No digit follows the digits before the point. -/
theorem tail_head (h : Comp Fraction Exponent text rest) (hstops : Stops goesOn rest) :
    Stops isDigit text := by
  obtain ⟨behind, hfraction, hexponent⟩ := h
  cases hfraction with
  | refl =>
      intro b hb
      have hnot := exponent_head hexponent hstops b hb
      simp only [Bool.or_eq_false_iff] at hnot
      exact hnot.1
  | single h =>
      obtain ⟨t, ⟨_, rfl, rfl⟩, -⟩ := h
      exact stops_cons (by decide)

theorem skip_unsigned (h : Unsigned text rest) (hstops : Stops goesOn rest) :
    skipNumber text = .ok () rest := by
  obtain ⟨behind, hwhole, htail⟩ := h
  have hskip := skip_tail htail hstops
  have hhead := tail_head htail hstops
  rcases hwhole with ⟨_, rfl, rfl⟩ | ⟨t, ⟨b, ⟨hb, hzero⟩, rfl⟩, hstar⟩
  · refine bind_eq_ok.mpr ⟨some (ascii '0'), behind, rfl, ?_⟩
    simp only [↓reduceIte]
    refine bind_eq_ok.mpr ⟨behind.head?, behind, peek_eq_ok.mpr ⟨rfl, rfl⟩, ?_⟩
    cases behind with
    | nil => exact hskip
    | cons d behind =>
        simp only [List.head?_cons, hhead.of_cons, Bool.false_eq_true, ↓reduceIte]
        exact hskip
  · refine bind_eq_ok.mpr ⟨some b, t, rfl, ?_⟩
    simp only [hzero, hb, ↓reduceIte]
    exact bind_eq_ok.mpr ⟨_, behind, digits_eq_ok.mpr ⟨rfl, dropWhile_of_star hstar hhead⟩, hskip⟩

end Numbers

section Strings

theorem hexUnit_of_hex (h : Comp Hex (Comp Hex (Comp Hex Hex)) text rest) :
    ∃ n, hexUnit text = .ok n rest := by
  obtain ⟨_, ⟨a, ha, rfl⟩, _, ⟨b, hb, rfl⟩, _, ⟨c, hc, rfl⟩, d, hd, rfl⟩ := h
  obtain ⟨i, hi⟩ := Option.isSome_iff_exists.mp ha
  obtain ⟨j, hj⟩ := Option.isSome_iff_exists.mp hb
  obtain ⟨k, hk⟩ := Option.isSome_iff_exists.mp hc
  obtain ⟨l, hl⟩ := Option.isSome_iff_exists.mp hd
  exact ⟨_, hexUnit_eq_ok.mpr ⟨a, b, c, d, i, j, k, l, rfl, hi, hj, hk, hl, rfl⟩⟩

theorem skipPiece_escaped (h : Escaped t rest) : skipPiece (ascii '\\' :: t) = .ok false rest := by
  have hplain : (ascii '\\' :: t).dropWhile isPlainByte = ascii '\\' :: t :=
    List.dropWhile_cons_of_neg (by decide)
  rcases h with ⟨e, hsimple, rfl⟩ | ⟨_, ⟨e, rfl, rfl⟩, hhex⟩
  · have hu : e ≠ ascii 'u' := fun heq => absurd (heq ▸ hsimple) (by decide)
    rw [skipPiece_backslash hplain, if_neg hu, if_pos hsimple]
    rfl
  · obtain ⟨n, hn⟩ := hexUnit_of_hex hhex
    rw [skipPiece_backslash hplain, if_pos rfl]
    exact bind_eq_ok.mpr ⟨n, rest, hn, rfl⟩

/-- A plain byte is taken together with what comes behind it. -/
theorem skipPiece_plain {b : UInt8} (hb : isPlainByte b = true) :
    skipPiece (b :: t) = skipPiece t := by
  have hdrop : (b :: t).dropWhile isPlainByte = t.dropWhile isPlainByte :=
    List.dropWhile_cons_of_pos hb
  rw [skipPiece, bind_of_ok (plainBytes_eq_ok.mpr ⟨rfl, hdrop⟩),
    bind_of_ok (plainBytes_eq_ok.mpr ⟨rfl, rfl⟩)]

theorem skipStringBytes_of_quoted (h : Quoted text rest) {fuel : Fuel}
    (hfuel : text.length < fuel.length) : skipStringBytes fuel text = .ok () rest := by
  obtain ⟨quote, hpieces, _, rfl, rfl⟩ := h
  induction hpieces using ReflTransGen.head_induction_on generalizing fuel with
  | refl =>
      obtain ⟨f, fuel, rfl⟩ := List.exists_cons_of_length_pos (Nat.zero_lt_of_lt hfuel)
      have hquote : skipPiece (ascii '"' :: rest) = .ok true rest :=
        skipPiece_quote (List.dropWhile_cons_of_neg (by decide))
      rw [skipStringBytes, bind_of_ok hquote]
      rfl
  | head hpiece _ ih =>
      obtain ⟨f, fuel, rfl⟩ := List.exists_cons_of_length_pos (Nat.zero_lt_of_lt hfuel)
      rw [List.length_cons] at hfuel
      rcases hpiece with ⟨b, hb, rfl⟩ | ⟨t, ⟨_, rfl, rfl⟩, hescaped⟩
      · rw [List.length_cons] at hfuel
        have hrest := ih (by rw [List.length_cons]; omega : _ < (f :: fuel).length)
        rw [skipStringBytes] at hrest ⊢
        exact (bind_of_same (skipPiece_plain hb) _).trans hrest
      · have hpiece := skipPiece_escaped hescaped
        have hless := length_lt_of_skipPiece hpiece
        rw [skipStringBytes, bind_of_ok hpiece]
        exact ih (by omega)

theorem skipString_of_quoted (h : Quoted text rest) : skipString text = .ok () rest :=
  bind_eq_ok.mpr ⟨_, text, fuel_eq_ok.mpr ⟨rfl, rfl⟩, skipStringBytes_of_quoted h (by simp)⟩

end Strings

section Values

variable {frame : Frame} {outer frames : List Frame} {last : List UInt8}

theorem goesOn_of_blank {b : UInt8} (hb : isBlankByte b = true) : goesOn b = false := by
  simp only [isBlankByte, Bool.or_eq_true, decide_eq_true_eq] at hb
  rcases hb with ((rfl | rfl) | rfl) | rfl <;> decide

theorem stops_of_blanks (h : Blanks text rest) (hstops : Stops goesOn rest) :
    Stops goesOn text := by
  rcases ReflTransGen.cases_head h with rfl | ⟨_, ⟨b, hb, rfl⟩, -⟩
  · exact hstops
  · exact stops_cons (goesOn_of_blank hb)

/-- What comes behind a value in its container is no part of the value. -/
theorem stops_of_inside (h : Spells (.inside frame false) text rest) : Stops goesOn text := by
  cases h with
  | closed h =>
      obtain ⟨_, hblanks, _, rfl, rfl⟩ := h
      exact stops_of_blanks hblanks (stops_cons (by cases frame <;> decide))
  | later h =>
      obtain ⟨_, ⟨_, hblanks, _, rfl, rfl⟩, -⟩ := h
      exact stops_of_blanks hblanks (stops_cons (by decide))

def startsNumber (b : UInt8) : Bool := isDigit b || b = ascii '-'

theorem number_head (h : Number text rest) : ∃ b t, startsNumber b = true ∧ text = b :: t := by
  obtain ⟨_, hsign, _, hwhole, -⟩ := h
  cases hsign with
  | single hminus =>
      obtain ⟨b, rfl, rfl⟩ := hminus
      exact ⟨_, _, by decide, rfl⟩
  | refl =>
      rcases hwhole with ⟨b, rfl, rfl⟩ | ⟨_, ⟨b, ⟨hb, -⟩, rfl⟩, -⟩
      · exact ⟨_, _, by decide, rfl⟩
      · exact ⟨b, _, by simp [startsNumber, hb], rfl⟩

theorem not_blank_of_startsNumber {b : UInt8} (hb : startsNumber b = true) :
    isBlankByte b = false := by
  by_contra hblank
  simp only [isBlankByte, Bool.not_eq_false, Bool.or_eq_true, decide_eq_true_eq] at hblank
  rcases hblank with ((rfl | rfl) | rfl) | rfl <;> exact absurd hb (by decide)

theorem value_head (h : Spells .value text rest) :
    ∃ b t, isBlankByte b = false ∧ b ≠ ascii ']' ∧ text = b :: t := by
  cases h with
  | null h => exact ⟨_, _, by decide, by decide, h⟩
  | true h => exact ⟨_, _, by decide, by decide, h⟩
  | false h => exact ⟨_, _, by decide, by decide, h⟩
  | number h =>
      obtain ⟨b, t, hb, rfl⟩ := number_head h
      refine ⟨b, t, not_blank_of_startsNumber hb, ?_, rfl⟩
      rintro rfl
      exact absurd hb (by decide)
  | string h =>
      obtain ⟨_, ⟨_, rfl, rfl⟩, -⟩ := h
      exact ⟨_, _, by decide, by decide, rfl⟩
  | @container frame _ _ _ hopening =>
      obtain ⟨_, rfl, rfl⟩ := hopening
      exact ⟨_, _, by cases frame <;> decide, by cases frame <;> decide, rfl⟩

theorem skipKey_of_key (h : Key frame text rest) :
    ∃ middle, skipKey frame text = .ok () middle ∧ Blanks middle rest := by
  cases frame with
  | list => exact ⟨text, rfl, h⟩
  | object =>
      obtain ⟨_, hblanks, quoted, ⟨_, rfl, rfl⟩, named, hquoted, _, hblanks', middle, ⟨_, rfl, rfl⟩,
        hrest⟩ := h
      have hcolon : colon named = .ok () middle :=
        (peeked_eq (past_of_blanks hblanks' (by decide))).trans rfl
      refine ⟨middle, (peeked_eq (past_of_blanks hblanks (by decide))).trans ?_, hrest⟩
      rw [if_pos rfl]
      refine bind_eq_ok.mpr ⟨(), _, rfl, ?_⟩
      exact bind_eq_ok.mpr ⟨(), _, skipString_of_quoted hquoted, hcolon⟩

/-- A container with a value in it is entered up to the value. -/
theorem enter_of_key (hkey : Key frame text t) (hvalue : Spells .value t rest)
    (outer : List Frame) (b : UInt8) :
    ∃ middle, enter frame outer (b :: text) = .ok (some (frame :: outer)) middle ∧
      Blanks middle t := by
  cases frame with
  | list =>
      obtain ⟨c, t, hblank, hclosing, rfl⟩ := value_head hvalue
      have hpast := past_of_blanks hkey (by simp [hblank])
      exact ⟨c :: t, enter_filled hpast hclosing rfl, .refl⟩
  | object =>
      obtain ⟨_, hblanks, quoted, ⟨_, rfl, rfl⟩, hnamed⟩ := hkey
      have hkey : Key .object (ascii '"' :: quoted) t := ⟨_, .refl, quoted, ⟨_, rfl, rfl⟩, hnamed⟩
      obtain ⟨middle, hskip, hbehind⟩ := skipKey_of_key hkey
      exact ⟨middle, enter_filled (past_of_blanks hblanks (by decide)) (by decide) hskip, hbehind⟩

theorem skipStart_of_blanks (h : Blanks text t) : skipStart outer text = skipStart outer t := by
  have hpeek : peekPastBlanks text = peekPastBlanks t := by
    change EStateM.Result.ok (pastBlanks text).head? (pastBlanks text) =
      .ok (pastBlanks t).head? (pastBlanks t)
    rw [pastBlanks_of_blanks h]
  exact bind_of_same hpeek _

/-- Skipping, start after start, until the outermost container is closed. -/
inductive Skips : Option (List Frame) → List UInt8 → List UInt8 → Prop where
  | done {text : List UInt8} : Skips none text text
  | value {frames : List Frame} {next : Option (List Frame)} {text middle rest : List UInt8} :
      skipStart frames text = .ok next middle → Skips next middle rest →
        Skips (some frames) text rest

theorem Skips.blanks (h : Skips (some frames) t rest) (hblanks : Blanks text t) :
    Skips (some frames) text rest := by
  cases h with
  | value hstart hrest => exact .value ((skipStart_of_blanks hblanks).trans hstart) hrest

theorem Skips.skipFrom_eq {next : Option (List Frame)} (h : Skips next text rest)
    (hnext : next = some frames) {fuel : Fuel} (hfuel : text.length < fuel.length) :
    skipFrom fuel frames text = .ok () rest := by
  induction h generalizing frames fuel with
  | done => cases hnext
  | @value _ next _ _ _ hstart hrest ih =>
      cases hnext
      obtain ⟨f, fuel, rfl⟩ := List.exists_cons_of_length_pos (Nat.zero_lt_of_lt hfuel)
      have hless := length_lt_of_skipStart hstart
      rw [List.length_cons] at hfuel
      rw [skipFrom, bind_of_ok hstart]
      cases next with
      | none =>
          cases hrest
          rfl
      | some frames => exact ih rfl (by omega)

/-- From behind a value, skipping gets to the end. -/
def LeavesTo (outer : List Frame) (text last : List UInt8) : Prop :=
  ∃ next middle, leave outer text = .ok next middle ∧ Skips next middle last

/-- Skipping takes what is spelled and goes on behind it. -/
def Taken : Form → List UInt8 → List UInt8 → Prop
  | .value, text, rest => Stops startsNumber text ∨ Stops goesOn rest →
    ∀ frames last, LeavesTo frames rest last → Skips (some frames) text last
  | .inside frame true, text, rest => ∀ outer last b, LeavesTo outer rest last →
    ∃ next middle, enter frame outer (b :: text) = .ok next middle ∧ Skips next middle last
  | .inside frame false, text, rest => ∀ outer last, LeavesTo outer rest last →
    LeavesTo (frame :: outer) text last

theorem taken_word {word : List Char} {c : Char} (h : Word ((c :: word).map ascii) text rest)
    (hstart : ∀ outer t, skipStart outer (ascii c :: t) =
      (do literal (c :: word); leave outer) (ascii c :: t)) : Taken .value text rest := by
  intro _ frames last ⟨next, middle, hleave, hskips⟩
  have hword := literal_of_word h
  obtain rfl : text = ascii c :: (word.map ascii ++ rest) := h
  refine .value ((hstart frames _).trans ?_) hskips
  exact (bind_of_ok hword).trans hleave

theorem taken_number (h : Number text rest) : Taken .value text rest := by
  intro hends frames last ⟨next, middle, hleave, hskips⟩
  have hstops : Stops goesOn rest := by
    obtain ⟨b, t, hb, rfl⟩ := number_head h
    rcases hends with hends | hends
    · exact absurd hends.of_cons (by simp [hb])
    · exact hends
  refine .value ?_ hskips
  obtain ⟨t, hsign, hunsigned⟩ := h
  have hskip := skip_unsigned hunsigned hstops
  cases hsign with
  | single hminus =>
      obtain ⟨_, rfl, rfl⟩ := hminus
      have hstart : skipStart frames (ascii '-' :: t) = (do skipNumber; leave frames) t := rfl
      exact hstart.trans ((bind_of_ok hskip).trans hleave)
  | refl =>
      obtain ⟨b, t, hb, rfl⟩ : ∃ b t, isDigit b = true ∧ text = b :: t := by
        obtain ⟨_, hwhole, -⟩ := hunsigned
        rcases hwhole with ⟨b, rfl, rfl⟩ | ⟨_, ⟨b, ⟨hb, -⟩, rfl⟩, -⟩
        · exact ⟨_, _, by decide, rfl⟩
        · exact ⟨b, _, hb, rfl⟩
      have hnot (c : Char) (hc : isDigit (ascii c) = false) : b ≠ ascii c := by
        rintro rfl
        rw [hb] at hc
        cases hc
      have hblank := not_blank_of_startsNumber (by simp [startsNumber, hb] : startsNumber b = true)
      have hpast : pastBlanks (b :: t) = b :: t := List.dropWhile_cons_of_neg (by simp [hblank])
      refine (peeked_eq hpast).trans ?_
      rw [if_neg (hnot 'n' (by decide)), if_neg (hnot 't' (by decide)),
        if_neg (hnot 'f' (by decide)), if_neg (hnot '-' (by decide)), if_pos hb]
      exact (bind_of_ok hskip).trans hleave

theorem taken_of_spells {form : Form} (h : Spells form text rest) : Taken form text rest := by
  induction h with
  | null h => exact taken_word h fun _ _ => rfl
  | true h => exact taken_word h fun _ _ => rfl
  | false h => exact taken_word h fun _ _ => rfl
  | number h => exact taken_number h
  | string h =>
      intro _ frames last ⟨next, middle, hleave, hskips⟩
      obtain ⟨t, ⟨_, rfl, rfl⟩, hquoted⟩ := h
      have hstart : skipStart frames (ascii '"' :: t) = (do skipString; leave frames) t := rfl
      have hskip := skipString_of_quoted hquoted
      exact .value (hstart.trans ((bind_of_ok hskip).trans hleave)) hskips
  | @container frame _ t _ hopening _ ih =>
      intro _ frames last hleaves
      obtain ⟨b, rfl, rfl⟩ := hopening
      obtain ⟨next, middle, henter, hskips⟩ := ih frames last (ascii (opening frame)) hleaves
      have hstart : skipStart frames (ascii (opening frame) :: t) =
          enter frame frames (ascii (opening frame) :: t) := by
        cases frame <;> rfl
      exact .value (hstart.trans henter) hskips
  | @closed frame first _ _ h =>
      obtain ⟨_, hblanks, _, rfl, rfl⟩ := h
      have hpast := past_of_blanks hblanks (not_blank_closing frame)
      rw [← closing_eq] at hpast
      cases first with
      | true =>
          intro outer last b ⟨next, middle, hleave, hskips⟩
          exact ⟨next, middle, (enter_empty hpast).trans hleave, hskips⟩
      | false =>
          intro outer last ⟨next, middle, hleave, hskips⟩
          exact ⟨next, middle, (leave_closing hpast).trans hleave, hskips⟩
  | @first frame _ _ _ _ hkey hvalue hinside ihvalue ih =>
      intro outer last b hleaves
      have hskips := ihvalue (.inr (stops_of_inside hinside)) (frame :: outer) last
        (ih outer last hleaves)
      obtain ⟨middle, henter, hbehind⟩ := enter_of_key hkey hvalue outer b
      exact ⟨_, middle, henter, hskips.blanks hbehind⟩
  | @later frame _ _ _ _ hcomma hvalue hinside ihvalue ih =>
      intro outer last hleaves
      have hskips := ihvalue (.inr (stops_of_inside hinside)) (frame :: outer) last
        (ih outer last hleaves)
      obtain ⟨t, ⟨_, hblanks, _, rfl, rfl⟩, hkey⟩ := hcomma
      obtain ⟨middle, hskip, hbehind⟩ := skipKey_of_key hkey
      exact ⟨_, middle, leave_comma (past_of_blanks hblanks (by decide)) hskip,
        hskips.blanks hbehind⟩

/-- A value is skipped to its end, if the value or what comes behind it tells where the end is. -/
theorem skipValue_of_spells (hblanks : Blanks text t) (hvalue : Spells .value t rest)
    (hends : Stops startsNumber t ∨ Stops goesOn rest) : skipValue text = .ok () rest := by
  have hleaves : LeavesTo [] rest rest := ⟨none, rest, rfl, .done⟩
  have hskips := (taken_of_spells hvalue hends [] rest hleaves).blanks hblanks
  exact bind_eq_ok.mpr ⟨_, text, fuel_eq_ok.mpr ⟨rfl, rfl⟩, hskips.skipFrom_eq rfl (by simp)⟩

end Values

end StubTree.Json.Grammar

namespace StubTree.Json

open Reader Grammar

/-- Whether a text is a document is found out by skipping a value. -/
theorem isDocument_iff {text : List UInt8} :
    IsDocument text ↔ ∃ rest, skipValue text = .ok () rest ∧ Blanks rest [] := by
  constructor
  · rintro ⟨t, hblanks, rest, hvalue, hrest⟩
    have hstops := stops_of_blanks hrest fun b hb => by cases hb
    exact ⟨rest, skipValue_of_spells hblanks hvalue (.inr hstops), hrest⟩
  · rintro ⟨rest, hskip, hrest⟩
    obtain ⟨t, hblanks, hvalue⟩ := spells_of_skipValue hskip
    exact ⟨t, hblanks, rest, hvalue, hrest⟩

end StubTree.Json
