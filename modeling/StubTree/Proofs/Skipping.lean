import StubTree.Proofs.LocalSkipping

/-!
A value that can be read can be skipped. Skipping checks less than reading does:
it takes the same bytes wherever reading succeeds. It goes through containers
without recursion, so what is compared is reading a value on the one hand, and
on the other skipping up to what comes after the value in the containers around
it.
-/

namespace StubTree.Json.Reader

open Effect

variable {α : Type} {text rest : List UInt8}

/-- A word takes at least one byte. -/
theorem length_lt_of_literal {word : List Char} (hne : word ≠ [])
    (h : literal word text = .ok () rest) : rest.length < text.length := by
  cases word with
  | nil => exact absurd rfl hne
  | cons c word =>
      obtain ⟨b, t, rfl, hbehind⟩ := taken h
      split at hbehind
      · exact Nat.lt_succ_of_le ((local_literal word).shortens _ _ _ hbehind)
      · exact absurd hbehind failHere_ne_ok

section Numbers

variable {negative : Bool} {significand : Nat} {n : Numeral}

theorem scaledNumber_still {exponent : Int}
    (h : scaledNumber negative significand exponent text = .ok n rest) : text = rest := by
  simp only [scaledNumber] at h
  cases hscaled : scaled significand exponent with
  | none => simp [hscaled] at h
  | some x =>
      rw [hscaled] at h
      exact (pure_eq_ok.mp h).2

theorem wholeNumber_still (h : wholeNumber negative significand text = .ok n rest) :
    text = rest := by
  simp only [wholeNumber] at h
  split at h
  · exact (pure_eq_ok.mp h).2
  · split at h
    · exact (pure_eq_ok.mp h).2
    · exact scaledNumber_still h

theorem atExponent_still {b : Bool} (h : atExponent text = .ok b rest) : text = rest := by
  simp only [atExponent, bind_eq_ok, peek_eq_ok] at h
  obtain ⟨first, _, ⟨-, rfl⟩, h⟩ := h
  cases first <;> exact (pure_eq_ok.mp h).2

theorem skipExponent_of_read {exponent : Int}
    (h : exponentPart negative significand exponent text = .ok n rest) :
    skipExponent text = .ok () rest := by
  simp only [exponentPart, bind_eq_ok, discard_eq_ok, peek_eq_ok] at h
  obtain ⟨_, _, rfl, down, signed, hsign, first, _, ⟨hfirst, rfl⟩, h⟩ := h
  cases signed with
  | nil =>
      subst hfirst
      simp at h
  | cons b t =>
      subst hfirst
      simp only [List.head?_cons] at h
      split at h
      · rename_i hdigit
        obtain ⟨ds, _, hdigits, h⟩ := bind_eq_ok.mp h
        obtain ⟨-, rfl⟩ := digits_eq_ok.mp hdigits
        have hrest : (b :: t).dropWhile isDigit = rest := by
          by_cases hwhole : (appendDigits largestExponent 0 ds).2.isEmpty = true
          · rw [if_pos hwhole] at h
            exact scaledNumber_still h
          · rw [if_neg hwhole] at h
            split at h
            · obtain ⟨_, _, -, h⟩ := bind_eq_ok.mp h
              exact absurd h throw_ne_ok
            · exact scaledNumber_still h
        rw [List.dropWhile_cons_of_pos hdigit] at hrest
        simp only [skipExponent, bind_eq_ok, discard_eq_ok, next_eq_ok]
        refine ⟨(), _, rfl, down, _, hsign, some b, t, ⟨rfl, rfl⟩, ?_⟩
        simp only [hdigit, ↓reduceIte, bind_eq_ok, digits_eq_ok]
        exact ⟨_, _, ⟨rfl, hrest⟩, rfl⟩
      · simp [bind_eq_ok] at h

theorem skipFraction_of_read {exponent : Int}
    (h : fractionPart negative significand exponent text = .ok n rest) :
    skipFraction text = .ok () rest := by
  simp only [fractionPart, bind_eq_ok, discard_eq_ok] at h
  obtain ⟨_, _, rfl, written, behind, hwritten, h⟩ := h
  simp only [skipFraction, bind_eq_ok, discard_eq_ok]
  refine ⟨(), _, rfl, written, behind, hwritten, ?_⟩
  by_cases hempty : written.isEmpty = true
  · rw [if_pos hempty] at h
    obtain ⟨first, _, -, h⟩ := bind_eq_ok.mp h
    cases first <;> simp at h
  · rw [if_neg hempty] at h ⊢
    obtain ⟨more, middle, hmore, h⟩ := bind_eq_ok.mp h
    obtain rfl := atExponent_still hmore
    refine bind_eq_ok.mpr ⟨more, _, hmore, ?_⟩
    cases more with
    | true => exact skipExponent_of_read h
    | false =>
        obtain rfl := scaledNumber_still h
        rfl

theorem skipNumberTail_of_read {beyond : Nat}
    (h : numberTail negative significand beyond text = .ok n rest) :
    skipNumberTail text = .ok () rest := by
  simp only [numberTail, bind_eq_ok, peek_eq_ok] at h
  obtain ⟨first, _, ⟨hfirst, rfl⟩, h⟩ := h
  simp only [skipNumberTail, bind_eq_ok, peek_eq_ok]
  refine ⟨first, _, ⟨hfirst, rfl⟩, ?_⟩
  by_cases hpoint : first = some (ascii '.')
  · rw [if_pos hpoint] at h ⊢
    exact skipFraction_of_read h
  · rw [if_neg hpoint] at h ⊢
    obtain ⟨more, middle, hmore, h⟩ := bind_eq_ok.mp h
    obtain rfl := atExponent_still hmore
    refine bind_eq_ok.mpr ⟨more, _, hmore, ?_⟩
    cases more with
    | true => exact skipExponent_of_read h
    | false =>
        have hstill : text = rest := by
          simp only [Bool.false_eq_true, ↓reduceIte] at h
          split at h
          · exact wholeNumber_still h
          · exact scaledNumber_still h
        subst hstill
        rfl

theorem skipNumber_of_read (h : unsignedNumber negative text = .ok n rest) :
    skipNumber text = .ok () rest := by
  simp only [unsignedNumber, bind_eq_ok, peek_eq_ok] at h
  obtain ⟨first, _, ⟨hfirst, rfl⟩, h⟩ := h
  cases text with
  | nil =>
      subst hfirst
      simp at h
  | cons b t =>
      subst hfirst
      simp only [List.head?_cons] at h
      simp only [skipNumber, bind_eq_ok, next_eq_ok]
      refine ⟨some b, t, ⟨rfl, rfl⟩, ?_⟩
      dsimp only
      by_cases hzero : b = ascii '0'
      · rw [if_pos hzero] at h ⊢
        simp only [bind_eq_ok, discard_eq_ok, peek_eq_ok] at h
        obtain ⟨_, _, rfl, second, _, ⟨hsecond, rfl⟩, h⟩ := h
        refine bind_eq_ok.mpr ⟨second, _, peek_eq_ok.mpr ⟨hsecond, rfl⟩, ?_⟩
        cases second with
        | none =>
            -- At the very end of the text nothing can follow the zero.
            have htail := skipNumberTail_of_read h
            have hnil : t = [] := List.head?_eq_none_iff.mp hsecond
            subst hnil
            simpa [skipNumberTail, atExponent, bind_eq_ok, pure_eq_ok] using htail
        | some d =>
            dsimp only at h ⊢
            split at h
            · simp at h
            · rename_i hdigit
              rw [if_neg hdigit]
              exact skipNumberTail_of_read h
      · rw [if_neg hzero] at h ⊢
        by_cases hdigit : isDigit b = true
        · rw [if_pos hdigit] at h ⊢
          obtain ⟨ds, _, hdigits, h⟩ := bind_eq_ok.mp h
          obtain ⟨-, rfl⟩ := digits_eq_ok.mp hdigits
          rw [List.dropWhile_cons_of_pos hdigit] at h
          exact bind_eq_ok.mpr ⟨_, _, digits_eq_ok.mpr ⟨rfl, rfl⟩, skipNumberTail_of_read h⟩
        · rw [if_neg hdigit] at h
          simp [bind_eq_ok] at h

/-- A number takes at least one byte. -/
theorem length_lt_of_skipNumber (h : skipNumber text = .ok () rest) :
    rest.length < text.length := by
  obtain ⟨b, t, rfl, hbehind⟩ := taken h
  refine Nat.lt_succ_of_le ?_
  split at hbehind
  · obtain ⟨second, _, hsecond, htail⟩ := bind_eq_ok.mp hbehind
    obtain ⟨-, rfl⟩ := peek_eq_ok.mp hsecond
    cases second with
    | none => exact (local_pure _).shortens _ _ _ htail
    | some d =>
        dsimp only at htail
        split at htail
        · exact absurd htail failAtNext_ne_ok
        · exact local_skipNumberTail.shortens _ _ _ htail
  · split at hbehind
    · exact (local_digits.bind fun _ => local_skipNumberTail).shortens _ _ _ hbehind
    · exact absurd hbehind failHere_ne_ok

end Numbers

section Strings

variable {t : List UInt8}

theorem hexUnit_length {n : Nat} (h : hexUnit text = .ok n rest) :
    text.length = rest.length + 4 := by
  obtain ⟨a, b, c, d, _, _, _, _, rfl, -⟩ := hexUnit_eq_ok.mp h
  simp

theorem pairByte_ok {c : Char} (h : pairByte c text = .ok () rest) : text = ascii c :: rest := by
  obtain ⟨b, t, rfl, hbehind⟩ := taken h
  split at hbehind
  · rename_i hb
    obtain ⟨-, rfl⟩ := pure_eq_ok.mp hbehind
    rw [hb]
  · exact absurd hbehind failHere_ne_ok

/-- What comes next in a string that is read is skipped in one piece or, if it is a pair of
surrogates, in two. -/
inductive SkipsPiece : List UInt8 → Bool → List UInt8 → Prop where
  | one {text rest last} : skipPiece text = .ok last rest → rest.length < text.length →
      SkipsPiece text last rest
  | two {text between rest} : skipPiece text = .ok false between →
      between.length < text.length → skipPiece between = .ok false rest →
        rest.length < between.length → SkipsPiece text false rest

theorem skipsPiece_of_unicode {found : List UInt8}
    (hplain : text.dropWhile isPlainByte = ascii '\\' :: ascii 'u' :: t)
    (h : unicodeEscape t = .ok found rest) : SkipsPiece text false rest := by
  have hshort := (List.dropWhile_suffix isPlainByte (l := text)).length_le
  rw [hplain, List.length_cons, List.length_cons] at hshort
  simp only [unicodeEscape, bind_eq_ok] at h
  obtain ⟨high, middle, hhigh, h⟩ := h
  have hlength := hexUnit_length hhigh
  have hfirst : skipPiece text = .ok false middle := by
    rw [skipPiece_backslash hplain, if_pos rfl]
    exact bind_eq_ok.mpr ⟨high, middle, hhigh, rfl⟩
  split at h
  · simp at h
  · split at h
    · obtain ⟨-, rfl⟩ := pure_eq_ok.mp h
      exact .one hfirst (by omega)
    · obtain ⟨_, behind, hback, hpair⟩ := bind_eq_ok.mp h
      obtain ⟨_, last, hu, hlast⟩ := bind_eq_ok.mp hpair
      obtain ⟨low, _, hlow, hend⟩ := bind_eq_ok.mp hlast
      obtain rfl := pairByte_ok hu
      obtain rfl := pairByte_ok hback
      have hlength' := hexUnit_length hlow
      rw [List.length_cons, List.length_cons] at hlength
      split at hend
      · simp at hend
      · obtain ⟨-, rfl⟩ := pure_eq_ok.mp hend
        refine .two hfirst (by simp only [List.length_cons]; omega) ?_
          (by simp only [List.length_cons]; omega)
        have hnone : (ascii '\\' :: ascii 'u' :: last).dropWhile isPlainByte =
            ascii '\\' :: ascii 'u' :: last := List.dropWhile_cons_of_neg (by decide)
        rw [skipPiece_backslash hnone, if_pos rfl]
        exact bind_eq_ok.mpr ⟨low, _, hlow, rfl⟩

theorem skipsPiece_of_read {piece : List UInt8} {last : Bool}
    (h : stringPiece text = .ok (piece, last) rest) : SkipsPiece text last rest := by
  obtain ⟨plain, behind, hbytes, hread⟩ := bind_eq_ok.mp h
  obtain ⟨-, hplain⟩ := plainBytes_eq_ok.mp hbytes
  have hshort := (List.dropWhile_suffix isPlainByte (l := text)).length_le
  obtain ⟨b, t, rfl, hbehind⟩ := taken hread
  rw [hplain, List.length_cons] at hshort
  split at hbehind
  · rename_i hb
    subst hb
    obtain ⟨heq, rfl⟩ := pure_eq_ok.mp hbehind
    cases heq
    exact .one (skipPiece_quote hplain) (by omega)
  · split at hbehind
    · rename_i hb
      subst hb
      obtain ⟨found, _, hescape, hend⟩ := bind_eq_ok.mp hbehind
      obtain ⟨heq, rfl⟩ := pure_eq_ok.mp hend
      cases heq
      obtain ⟨e, t, rfl, hescaped⟩ := taken hescape
      split at hescaped
      · rename_i he
        subst he
        exact skipsPiece_of_unicode hplain hescaped
      · rename_i he
        rw [List.length_cons] at hshort
        cases hsimple : simpleEscape e with
        | none => simp [hsimple] at hescaped
        | some found =>
            rw [hsimple] at hescaped
            obtain ⟨-, rfl⟩ := pure_eq_ok.mp hescaped
            refine .one ?_ (by omega)
            rw [skipPiece_backslash hplain, if_neg he, hsimple]
            rfl
    · exact absurd hbehind failHere_ne_ok

theorem skipStringBytes_of_read {fuel fuel' : Fuel} {found : List UInt8}
    (h : stringBytes fuel text = .ok found rest) (hfuel : text.length < fuel'.length) :
    skipStringBytes fuel' text = .ok () rest ∧ rest.length < text.length := by
  induction fuel generalizing fuel' text found with
  | nil => simp [stringBytes] at h
  | cons f fuel ih =>
      obtain ⟨f', fuel', rfl⟩ := List.exists_cons_of_length_pos (Nat.zero_lt_of_lt hfuel)
      simp only [stringBytes, bind_eq_ok] at h
      obtain ⟨⟨piece, last⟩, middle, hpiece, h⟩ := h
      rw [List.length_cons] at hfuel
      cases skipsPiece_of_read hpiece with
      | one hskip hshort =>
          simp only [skipStringBytes, bind_eq_ok]
          cases last with
          | true =>
              obtain ⟨-, rfl⟩ := pure_eq_ok.mp h
              exact ⟨⟨true, _, hskip, rfl⟩, hshort⟩
          | false =>
              obtain ⟨_, _, hrest, h⟩ := bind_eq_ok.mp h
              obtain ⟨-, rfl⟩ := pure_eq_ok.mp h
              obtain ⟨hread, hless⟩ := ih hrest (by omega : middle.length < fuel'.length)
              exact ⟨⟨false, _, hskip, hread⟩, Nat.lt_trans hless hshort⟩
      | two hskip hshort hskip' hshort' =>
          obtain ⟨f'', fuel'', rfl⟩ := List.exists_cons_of_length_pos
            (by omega : 0 < fuel'.length)
          rw [List.length_cons] at hfuel
          obtain ⟨_, _, hrest, h⟩ := bind_eq_ok.mp h
          obtain ⟨-, rfl⟩ := pure_eq_ok.mp h
          obtain ⟨hread, hless⟩ := ih hrest (by omega : middle.length < fuel''.length)
          refine ⟨?_, by omega⟩
          simp only [skipStringBytes, bind_eq_ok]
          exact ⟨false, _, hskip, bind_eq_ok.mpr ⟨false, _, hskip', hread⟩⟩

theorem skipString_of_read {s : String} (h : stringBody text = .ok s rest) :
    skipString text = .ok () rest ∧ rest.length < text.length := by
  simp only [stringBody, bind_eq_ok, fuel_eq_ok] at h
  obtain ⟨_, _, ⟨rfl, rfl⟩, found, middle, hbytes, h⟩ := h
  have hmiddle : middle = rest := by
    cases hs : String.fromUTF8? (ByteArray.mk found.toArray) with
    | some s =>
        rw [hs] at h
        exact (pure_eq_ok.mp h).2
    | none =>
        rw [hs] at h
        obtain ⟨_, _, -, h⟩ := bind_eq_ok.mp h
        exact absurd h throw_ne_ok
  have hfuel : text.length < (0 :: text).length := by simp
  obtain ⟨hskip, hshort⟩ := skipStringBytes_of_read hbytes hfuel
  exact ⟨hmiddle ▸ hskip, hmiddle ▸ hshort⟩

end Strings

section Containers

variable {t : List UInt8} {frame : Frame} {outer frames : List Frame}

/-- Skips from behind a value: what is left of the containers around it. -/
def skipOn (fuel : Fuel) (frames : List Frame) : Reader Unit := do
  match ← leave frames with
  | none => pure ()
  | some frames => skipFrom fuel frames

theorem leave_closing (hpast : pastBlanks text = frame.closing :: t) :
    leave (frame :: outer) text = leave outer t := by
  refine (peeked_eq hpast).trans ?_
  rw [if_neg (by cases frame <;> decide), if_pos rfl, bind_of_ok (discard_ok _)]
  rfl

theorem leave_comma (hpast : pastBlanks text = ascii ',' :: t)
    (hkey : skipKey frame t = .ok () rest) :
    leave (frame :: outer) text = .ok (some (frame :: outer)) rest := by
  refine (peeked_eq hpast).trans ?_
  rw [if_pos rfl, bind_of_ok (discard_ok _)]
  exact bind_of_ok hkey

theorem skipKey_object {name : String} {middle : List UInt8}
    (hpast : pastBlanks text = ascii '"' :: t) (hname : stringBody t = .ok name middle)
    (hcolon : colon middle = .ok () rest) : skipKey .object text = .ok () rest := by
  refine (peeked_eq hpast).trans ?_
  rw [if_pos rfl, bind_of_ok (discard_ok _)]
  exact (bind_of_ok (skipString_of_read hname).1).trans hcolon

theorem enter_empty (hpast : pastBlanks t = frame.closing :: rest) {b : UInt8} :
    enter frame outer (b :: t) = leave outer rest := by
  refine (bind_of_ok (discard_ok _)).trans ((peeked_eq hpast).trans ?_)
  rw [if_pos rfl, bind_of_ok (discard_ok _)]
  rfl

theorem enter_filled {b first : UInt8} {more : List UInt8} (hpast : pastBlanks t = first :: more)
    (hfirst : first ≠ frame.closing) (hkey : skipKey frame (first :: more) = .ok () rest) :
    enter frame outer (b :: t) = .ok (some (frame :: outer)) rest := by
  refine (bind_of_ok (discard_ok _)).trans ((peeked_eq hpast).trans ?_)
  rw [if_neg hfirst, bind_of_ok hkey]
  rfl

/-- A value that is no container is skipped in one go. -/
theorem skipStart_scalar (outer : List Frame) {sh : Shape} (h : shape text = .ok sh rest)
    (hlist : sh ≠ .list) (hobject : sh ≠ .object) :
    skipStart outer text = leave outer rest ∧ rest.length < text.length := by
  have hshort := (List.dropWhile_suffix isBlankByte (l := text)).length_le
  change (pastBlanks text).length ≤ _ at hshort
  have hbegins := shape_begins h
  generalize hpast : pastBlanks text = past at hbegins hshort
  cases hbegins with
  | null hword =>
      refine ⟨?_, Nat.lt_of_lt_of_le (length_lt_of_literal (by decide) hword) hshort⟩
      refine (peeked_eq hpast).trans ?_
      rw [if_pos rfl, bind_of_ok hword]
  | true hword =>
      refine ⟨?_, Nat.lt_of_lt_of_le (length_lt_of_literal (by decide) hword) hshort⟩
      refine (peeked_eq hpast).trans ?_
      rw [if_neg (by decide), if_pos rfl, bind_of_ok hword]
  | false hword =>
      refine ⟨?_, Nat.lt_of_lt_of_le (length_lt_of_literal (by decide) hword) hshort⟩
      refine (peeked_eq hpast).trans ?_
      rw [if_neg (by decide), if_neg (by decide), if_pos rfl, bind_of_ok hword]
  | negative hnumber =>
      have hskip := skipNumber_of_read hnumber
      have hless := length_lt_of_skipNumber hskip
      rw [List.length_cons] at hshort
      refine ⟨?_, by omega⟩
      refine (peeked_eq hpast).trans ?_
      rw [if_neg (by decide), if_neg (by decide), if_neg (by decide), if_pos rfl,
        bind_of_ok (discard_ok _)]
      exact bind_of_ok hskip
  | @number b _ _ _ hdigit hnumber =>
      have hskip := skipNumber_of_read hnumber
      refine ⟨?_, Nat.lt_of_lt_of_le (length_lt_of_skipNumber hskip) hshort⟩
      refine (peeked_eq hpast).trans ?_
      have hnot (c : Char) (hc : isDigit (ascii c) = false) : ¬ b = ascii c := by
        rintro rfl
        rw [hdigit] at hc
        cases hc
      rw [if_neg (hnot 'n' (by decide)), if_neg (hnot 't' (by decide)),
        if_neg (hnot 'f' (by decide)), if_neg (hnot '-' (by decide)), if_pos hdigit,
        bind_of_ok hskip]
  | string hstring =>
      obtain ⟨hskip, hless⟩ := skipString_of_read hstring
      rw [List.length_cons] at hshort
      refine ⟨?_, by omega⟩
      refine (peeked_eq hpast).trans ?_
      rw [if_neg (by decide), if_neg (by decide), if_neg (by decide), if_neg (by decide),
        if_neg (by decide), if_pos rfl, bind_of_ok (discard_ok _)]
      exact bind_of_ok hskip
  | list => exact absurd rfl hlist
  | object => exact absurd rfl hobject

/-- How a container of values is read, as far as skipping has to follow it. -/
structure Framed (frame : Frame) (inner : Nat) (step : Nat → Reader (Option α))
    (close : Reader Unit) : Prop where
  close : ∀ {text rest}, close text = .ok () rest → pastBlanks text = frame.closing :: rest
  last : ∀ {i text rest}, step i text = .ok none rest → rest = pastBlanks text
  first : ∀ {text a rest}, step 0 text = .ok (some a) rest →
    ∃ b t middle v, b ≠ frame.closing ∧ pastBlanks text = b :: t ∧
      skipKey frame (b :: t) = .ok () middle ∧ value inner middle = .ok v rest
  later : ∀ {i text a rest}, i ≠ 0 → step i text = .ok (some a) rest →
    ∃ t middle v, pastBlanks text = ascii ',' :: t ∧ skipKey frame t = .ok () middle ∧
      value inner middle = .ok v rest

theorem framed_list (inner : Nat) : Framed .list inner (element? (value inner)) closeList := by
  refine ⟨closeList_ok, fun {i text rest} h => ?_, fun {text a rest} h => ?_,
    fun {i text a rest} hi h => ?_⟩
  · obtain ⟨t, hpast, rfl⟩ := atElement_false (element?_none.mp h)
    exact hpast.symm
  · obtain ⟨_, hmore, hread⟩ := element?_some.mp h
    obtain ⟨b, t, hb, hpast, rfl⟩ := atElement_first hmore
    exact ⟨b, t, _, _, hb, hpast, rfl, hread⟩
  · obtain ⟨_, hmore, hread⟩ := element?_some.mp h
    rw [decide_eq_false hi] at hmore
    obtain ⟨t, hpast, rfl⟩ := atElement_later hmore
    rw [value_pastBlanks] at hread
    exact ⟨t, t, _, hpast, rfl, hread⟩

theorem framed_object (inner : Nat) :
    Framed .object inner (keyedValue? (value inner)) closeObject := by
  have hquoted {t : List UInt8} : pastBlanks (ascii '"' :: t) = ascii '"' :: t :=
    List.dropWhile_cons_of_neg (by decide)
  refine ⟨closeObject_ok, fun {i text rest} h => ?_, fun {text a rest} h => ?_,
    fun {i text a rest} hi h => ?_⟩
  · obtain ⟨t, hpast, rfl⟩ := atKey_false (key?_none.mp (keyedValue?_none.mp h))
    exact hpast.symm
  · obtain ⟨_, hkey, hread⟩ := keyedValue?_some.mp h
    obtain ⟨_, hmore, hname⟩ := key?_some.mp hkey
    obtain ⟨t, hpast, rfl⟩ := atKey_first hmore
    obtain ⟨middle, hcolon, hread⟩ := entryValue_eq_ok.mp hread
    exact ⟨_, t, middle, a.2, by decide, hpast, skipKey_object hquoted hname hcolon, hread⟩
  · obtain ⟨_, hkey, hread⟩ := keyedValue?_some.mp h
    obtain ⟨_, hmore, hname⟩ := key?_some.mp hkey
    rw [decide_eq_false hi] at hmore
    obtain ⟨t, t', hpast, hpast', rfl⟩ := atKey_later hmore
    obtain ⟨middle, hcolon, hread⟩ := entryValue_eq_ok.mp hread
    exact ⟨t, middle, a.2, hpast, skipKey_object hpast' hname hcolon, hread⟩

/-- Skipping from the front of a text leads to where reading a value ends, with fuel left for what
comes behind it. -/
def Follows (inner : Nat) : Prop :=
  ∀ {text rest v}, value inner text = .ok v rest → ∀ {fuel : Fuel}, text.length < fuel.length →
    ∀ frames, ∃ fuel' : Fuel, rest.length < fuel'.length ∧ fuel'.length < fuel.length ∧
      skipFrom fuel frames text = skipOn fuel' frames rest

theorem length_lt_of_pastBlanks {b : UInt8} (hpast : pastBlanks text = b :: t) :
    t.length < text.length := by
  have hshort := (List.dropWhile_suffix isBlankByte (l := text)).length_le
  change (pastBlanks text).length ≤ _ at hshort
  rw [hpast, List.length_cons] at hshort
  omega

section Frames

variable {inner : Nat} {step : Nat → Reader (Option α)} {close : Reader Unit}
  (hframed : Framed frame inner step close) (hfollows : Follows inner)
include hframed hfollows

/-- From behind an element, skipping leaves the container where reading closes it. -/
theorem skipOn_of_collects {cfuel fuel : Fuel} {count : Nat} {as : List α} {middle : List UInt8}
    (hcollects : Collects step cfuel count text as middle) (hcount : count ≠ 0)
    (hclose : close middle = .ok () rest) (hfuel : text.length < fuel.length) :
    ∃ fuel' : Fuel, rest.length < fuel'.length ∧ fuel'.length ≤ fuel.length ∧
      skipOn fuel (frame :: outer) text = skipOn fuel' outer rest := by
  have hleave {text : List UInt8} {fuel : Fuel} (hfuel : text.length < fuel.length)
      (hpast : pastBlanks text = frame.closing :: rest) : ∃ fuel' : Fuel,
        rest.length < fuel'.length ∧ fuel'.length ≤ fuel.length ∧
          skipOn fuel (frame :: outer) text = skipOn fuel' outer rest :=
    ⟨fuel, Nat.lt_trans (length_lt_of_pastBlanks hpast) hfuel, le_rfl,
      bind_of_same (leave_closing hpast) _⟩
  induction hcollects generalizing fuel with
  | spent => exact hleave hfuel (hframed.close hclose)
  | last hstep =>
      have hpast := hframed.close hclose
      rw [hframed.last hstep, pastBlanks_pastBlanks] at hpast
      exact hleave hfuel hpast
  | more hstep _ ih =>
      obtain ⟨t, next, v, hpast, hkey, hread⟩ := hframed.later hcount hstep
      have hshort := length_lt_of_pastBlanks hpast
      have hshort' := (local_skipKey frame).shortens _ _ _ hkey
      obtain ⟨fuel', hfuel', hless, hskip⟩ :=
        hfollows hread (by omega : next.length < fuel.length) (frame :: outer)
      obtain ⟨fuel'', hfuel'', hless', hskip'⟩ := ih (Nat.succ_ne_zero _) hclose hfuel'
      refine ⟨fuel'', hfuel'', hless'.trans hless.le, ?_⟩
      rw [skipOn, bind_of_ok (leave_comma hpast hkey)]
      exact hskip.trans hskip'

/-- A container is entered and left where reading ends. -/
theorem enter_of_collects (outer : List Frame) (b : UInt8) {fuel : Fuel} {as : List α}
    {middle : List UInt8} (hcollects : Collects step (0 :: t) 0 t as middle)
    (hclose : close middle = .ok () rest) (hfuel : t.length < fuel.length) :
    ∃ fuel' : Fuel, rest.length < fuel'.length ∧ fuel'.length ≤ fuel.length ∧
      (do match ← enter frame outer with
        | none => pure ()
        | some frames => skipFrom fuel frames) (b :: t) = skipOn fuel' outer rest := by
  cases hcollects with
  | last hstep =>
      have hpast := hframed.close hclose
      rw [hframed.last hstep, pastBlanks_pastBlanks] at hpast
      exact ⟨fuel, Nat.lt_trans (length_lt_of_pastBlanks hpast) hfuel, le_rfl,
        bind_of_same (enter_empty hpast) _⟩
  | more hstep hrest =>
      obtain ⟨first, more, next, v, hfirst, hpast, hkey, hread⟩ := hframed.first hstep
      have hshort := length_lt_of_pastBlanks hpast
      have hshort' := (local_skipKey frame).shortens _ _ _ hkey
      rw [List.length_cons] at hshort'
      obtain ⟨fuel', hfuel', hless, hskip⟩ :=
        hfollows hread (by omega : next.length < fuel.length) (frame :: outer)
      obtain ⟨fuel'', hfuel'', hless', hskip'⟩ :=
        skipOn_of_collects hframed hfollows hrest (Nat.succ_ne_zero _) hclose hfuel'
      refine ⟨fuel'', hfuel'', hless'.trans hless.le, ?_⟩
      rw [bind_of_ok (enter_filled hpast hfirst hkey)]
      exact hskip.trans hskip'

end Frames

end Containers

theorem follows_value (depth : Nat) : Follows depth := by
  induction depth using Nat.strong_induction_on with
  | h depth ih =>
    intro text rest v h fuel hfuel frames
    obtain ⟨f, fuel, rfl⟩ := List.exists_cons_of_length_pos (Nat.zero_lt_of_lt hfuel)
    rw [List.length_cons] at hfuel
    have hscalar {sh : Shape} (hshape : shape text = .ok sh rest) (hlist : sh ≠ .list)
        (hobject : sh ≠ .object) : ∃ fuel' : Fuel, rest.length < fuel'.length ∧
          fuel'.length < (f :: fuel).length ∧
            skipFrom (f :: fuel) frames text = skipOn fuel' frames rest := by
      obtain ⟨hskip, hshort⟩ := skipStart_scalar frames hshape hlist hobject
      exact ⟨fuel, by omega, by simp, bind_of_same hskip _⟩
    cases value_reads h with
    | null hshape => exact hscalar hshape (by simp) (by simp)
    | boolean hshape => exact hscalar hshape (by simp) (by simp)
    | number hshape => exact hscalar hshape (by simp) (by simp)
    | string hshape => exact hscalar hshape (by simp) (by simp)
    | list hshape hnested =>
        obtain ⟨-, t, hpast⟩ := shape_list hshape
        obtain ⟨inner, middle, rfl, hitems, hclose⟩ := nested_eq_ok.mp hnested
        rw [hpast, List.tail_cons] at hitems
        have hshort := length_lt_of_pastBlanks hpast
        obtain ⟨fuel', hfuel', hless, hskip⟩ := enter_of_collects (framed_list inner)
          (ih inner (Nat.lt_succ_self inner)) frames (ascii '[') (untilNone_eq_ok.mp hitems) hclose
          (by omega : t.length < fuel.length)
        have hstart : skipStart frames text = enter .list frames (ascii '[' :: t) :=
          (peeked_eq hpast).trans rfl
        exact ⟨fuel', hfuel', Nat.lt_succ_of_le hless, (bind_of_same hstart _).trans hskip⟩
    | object hshape hnested =>
        obtain ⟨-, t, hpast⟩ := shape_object hshape
        obtain ⟨inner, middle, rfl, hentries, hclose⟩ := nested_eq_ok.mp hnested
        rw [hpast, List.tail_cons] at hentries
        have hshort := length_lt_of_pastBlanks hpast
        obtain ⟨fuel', hfuel', hless, hskip⟩ := enter_of_collects (framed_object inner)
          (ih inner (Nat.lt_succ_self inner)) frames (ascii '\x7b') (untilNone_eq_ok.mp hentries)
          hclose (by omega : t.length < fuel.length)
        have hstart : skipStart frames text = enter .object frames (ascii '\x7b' :: t) :=
          (peeked_eq hpast).trans rfl
        exact ⟨fuel', hfuel', Nat.lt_succ_of_le hless, (bind_of_same hstart _).trans hskip⟩

/-- Whatever is read can be skipped instead. -/
theorem skipValue_of_value {depth : Nat} {v : Value} (h : value depth text = .ok v rest) :
    skipValue text = .ok () rest := by
  have hfuel : text.length < (0 :: text).length := by simp
  obtain ⟨fuel', -, -, hskip⟩ := follows_value depth h hfuel []
  rw [skipValue, bind_of_ok (fuel_eq_ok.mpr ⟨rfl, rfl⟩), hskip]
  rfl

/-- Every value takes a byte at least. -/
theorem length_lt_of_value {depth : Nat} {v : Value} (h : value depth text = .ok v rest) :
    rest.length < text.length := by
  have hfuel : text.length < (0 :: text).length := by simp
  obtain ⟨fuel', hfuel', hless, -⟩ := follows_value depth h hfuel []
  rw [List.length_cons] at hless
  omega

theorem length_lt_of_keyedValue? {depth i : Nat} {entry : String × Value}
    (h : keyedValue? (value depth) i text = .ok (some entry) rest) :
    rest.length < text.length := by
  have hframed := framed_object depth
  by_cases hi : i = 0
  · subst hi
    obtain ⟨b, t, middle, v, -, hpast, hkey, hread⟩ := hframed.first h
    have hshort := length_lt_of_pastBlanks hpast
    have hshort' := (local_skipKey _).shortens _ _ _ hkey
    have hshort'' := length_lt_of_value hread
    rw [List.length_cons] at hshort'
    omega
  · obtain ⟨t, middle, v, hpast, hkey, hread⟩ := hframed.later hi h
    have hshort := length_lt_of_pastBlanks hpast
    have hshort' := (local_skipKey _).shortens _ _ _ hkey
    have hshort'' := length_lt_of_value hread
    omega

end StubTree.Json.Reader
