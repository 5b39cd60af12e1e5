import StubTree.Proofs.Grammar

/-!
How far reading looks. No reader of numbers, strings, containers or whole values
looks further than one byte behind what it takes, and neither does skipping
whole values.
-/

namespace StubTree.Json.Reader

open Effect

variable {α : Type} {text rest : List UInt8}

section Numbers

variable {negative : Bool} {significand : Nat}

theorem local_scaledNumber (exponent : Int) :
    Local (scaledNumber negative significand exponent) := by
  simp only [scaledNumber]
  split
  · exact local_pure _
  · exact local_failHere _

theorem local_exponentPart (exponent : Int) :
    Local (exponentPart negative significand exponent) := by
  refine local_discard.bind fun _ => local_exponentSign.bind fun down => local_peek.bind fun b => ?_
  cases b with
  | none => exact local_failHere _
  | some b =>
      dsimp only
      split
      · refine local_digits.bind fun ds => ?_
        split
        · exact local_scaledNumber _
        · split
          · intro text a rest h
            obtain ⟨_, _, -, h⟩ := bind_eq_ok.mp h
            exact absurd h throw_ne_ok
          · exact local_scaledNumber _
      · exact local_discard.bind fun _ => local_failHere _

theorem local_fractionPart (exponent : Int) :
    Local (fractionPart negative significand exponent) := by
  refine local_discard.bind fun _ => local_digits.bind fun written => ?_
  split
  · refine local_peek.bind fun b => ?_
    cases b <;> exact local_failAtNext _
  · refine local_atExponent.bind fun more => ?_
    split
    · exact local_exponentPart _
    · exact local_scaledNumber _

theorem local_numberTail (beyond : Nat) : Local (numberTail negative significand beyond) := by
  refine local_peek.bind fun b => ?_
  split
  · exact local_fractionPart _
  · refine local_atExponent.bind fun more => ?_
    split
    · exact local_exponentPart _
    · split
      · simp only [wholeNumber]
        split
        · exact local_pure _
        · split
          · exact local_pure _
          · exact local_scaledNumber _
      · exact local_scaledNumber _

theorem local_unsignedNumber : Local (unsignedNumber negative) := by
  refine local_peek.bind fun b => ?_
  cases b with
  | none => exact local_failHere _
  | some b =>
      dsimp only
      split
      · refine local_discard.bind fun _ => local_peek.bind fun d => ?_
        cases d with
        | none => exact local_numberTail _
        | some d =>
            dsimp only
            split
            · exact local_failAtNext _
            · exact local_numberTail _
      · split
        · exact local_digits.bind fun ds => local_numberTail _
        · exact local_discard.bind fun _ => local_failHere _

end Numbers

section Strings

theorem local_pairByte (c : Char) : Local (pairByte c) := by
  refine local_next.bind fun b => ?_
  cases b with
  | none => exact local_failHere _
  | some b =>
      dsimp only
      split
      · exact local_pure _
      · exact local_failHere _

theorem local_unicodeEscape : Local unicodeEscape := by
  refine local_hexUnit.bind fun high => ?_
  split
  · exact local_failHere _
  · split
    · exact local_pure _
    · refine (local_pairByte _).bind fun _ => (local_pairByte _).bind fun _ =>
        local_hexUnit.bind fun low => ?_
      split
      · exact local_failHere _
      · exact local_pure _

theorem local_escape : Local escape := by
  refine local_next.bind fun b => ?_
  cases b with
  | none => exact local_failHere _
  | some b =>
      dsimp only
      split
      · exact local_unicodeEscape
      · split
        · exact local_pure _
        · exact local_failHere _

theorem local_stringPiece : Local stringPiece := by
  refine local_plainBytes.bind fun plain => local_next.bind fun b => ?_
  cases b with
  | none => exact local_failHere _
  | some b =>
      dsimp only
      split
      · exact local_pure _
      · split
        · exact local_escape.bind fun _ => local_pure _
        · exact local_failHere _

theorem length_lt_of_stringPiece {piece : List UInt8} {last : Bool}
    (h : stringPiece text = .ok (piece, last) rest) : rest.length < text.length := by
  cases skipsPiece_of_read h with
  | one _ hshort => exact hshort
  | two _ hshort _ hshort' => exact hshort'.trans hshort

theorem stringPiece_last {piece : List UInt8} :
    stringPiece text = .ok (piece, true) rest ↔
      text.takeWhile isPlainByte = piece ∧ text.dropWhile isPlainByte = ascii '"' :: rest := by
  constructor
  · intro h
    obtain ⟨plain, behind, hbytes, hread⟩ := bind_eq_ok.mp h
    obtain ⟨hplain, hbehind⟩ := plainBytes_eq_ok.mp hbytes
    obtain ⟨b, t, rfl, hlast⟩ := taken hread
    split at hlast
    · rename_i hquote
      obtain ⟨heq, rfl⟩ := pure_eq_ok.mp hlast
      cases heq
      exact ⟨hplain, hquote ▸ hbehind⟩
    · split at hlast
      · obtain ⟨_, _, -, hlast⟩ := bind_eq_ok.mp hlast
        cases (pure_eq_ok.mp hlast).1
      · exact absurd hlast failHere_ne_ok
  · rintro ⟨hplain, hbehind⟩
    exact bind_eq_ok.mpr ⟨piece, _, plainBytes_eq_ok.mpr ⟨hplain, hbehind⟩, rfl⟩

theorem endsAt_stringPiece (piece : List UInt8) : EndsAt stringPiece (piece, true) := by
  intro text rest h
  obtain ⟨rfl, hbehind⟩ := stringPiece_last.mp h
  refine ⟨text.takeWhile isPlainByte ++ [ascii '"'], by simp, ?_, fun rest' => ?_⟩
  · rw [List.append_assoc, List.singleton_append, ← hbehind, List.takeWhile_append_dropWhile]
  · have hhead : (ascii '"' :: rest').head? = (text.dropWhile isPlainByte).head? := by
      rw [hbehind]
      rfl
    rw [List.append_assoc, List.singleton_append]
    exact stringPiece_last.mpr (spans isPlainByte hhead)

/-- Bytes up to the closing quote are the same in any text, if only the fuel is enough. -/
theorem stringBytes_ends {fuel : Fuel} {found : List UInt8}
    (h : stringBytes fuel text = .ok found rest) : ∃ used, used ≠ [] ∧ text = used ++ rest ∧
      ∀ rest' (fuel' : Fuel), (used ++ rest').length < fuel'.length →
        stringBytes fuel' (used ++ rest') = .ok found rest' := by
  induction fuel generalizing text found with
  | nil => simp [stringBytes] at h
  | cons f fuel ih =>
      simp only [stringBytes, bind_eq_ok] at h
      obtain ⟨⟨piece, last⟩, middle, hpiece, h⟩ := h
      have hless := length_lt_of_stringPiece hpiece
      cases last with
      | true =>
          obtain ⟨rfl, rfl⟩ := pure_eq_ok.mp h
          obtain ⟨used, hne, rfl, hpiece'⟩ := endsAt_stringPiece piece _ _ hpiece
          refine ⟨used, hne, rfl, fun rest' fuel' hfuel' => ?_⟩
          obtain ⟨f', fuel', rfl⟩ := List.exists_cons_of_length_pos (Nat.zero_lt_of_lt hfuel')
          rw [stringBytes, bind_of_ok (hpiece' rest')]
          rfl
      | false =>
          obtain ⟨more, behind, hmore, h⟩ := bind_eq_ok.mp h
          obtain ⟨rfl, rfl⟩ := pure_eq_ok.mp h
          obtain ⟨used, rfl, hpiece'⟩ := local_stringPiece _ _ _ hpiece
          obtain ⟨used', hne, rfl, hmore'⟩ := ih hmore
          refine ⟨used ++ used', by simp [hne], (List.append_assoc ..).symm,
            fun rest' fuel' hfuel' => ?_⟩
          obtain ⟨f', fuel', rfl⟩ := List.exists_cons_of_length_pos (Nat.zero_lt_of_lt hfuel')
          have hmiddle : (used' ++ rest').head? = (used' ++ behind).head? := by
            rw [List.head?_append_of_ne_nil _ hne, List.head?_append_of_ne_nil _ hne]
          rw [List.append_assoc] at hfuel' ⊢
          simp only [List.length_append, List.length_cons] at hless hfuel'
          rw [stringBytes, bind_of_ok (hpiece' _ hmiddle)]
          refine bind_eq_ok.mpr ⟨more, rest', hmore' rest' fuel' ?_, rfl⟩
          rw [List.length_append]
          omega

theorem endsAt_stringBody (s : String) : EndsAt stringBody s := by
  intro text rest h
  obtain ⟨_, _, hfuel, h⟩ := bind_eq_ok.mp h
  obtain ⟨rfl, rfl⟩ := fuel_eq_ok.mp hfuel
  obtain ⟨found, middle, hbytes, h⟩ := bind_eq_ok.mp h
  cases hs : String.fromUTF8? (ByteArray.mk found.toArray) with
  | none =>
      rw [hs] at h
      obtain ⟨_, _, -, h⟩ := bind_eq_ok.mp h
      exact absurd h throw_ne_ok
  | some s' =>
      rw [hs] at h
      obtain ⟨rfl, rfl⟩ := pure_eq_ok.mp h
      obtain ⟨used, hne, rfl, hbytes'⟩ := stringBytes_ends hbytes
      refine ⟨used, hne, rfl, fun rest' => ?_⟩
      rw [stringBody, bind_of_ok (fuel_eq_ok.mpr ⟨rfl, rfl⟩),
        bind_of_ok (hbytes' rest' _ (by simp)), hs]
      rfl

end Strings

section Containers

theorem local_shape : Local shape := by
  have hword {word : List Char} {sh : Shape} : Local (do literal word; return sh) :=
    (local_literal _).bind fun _ => local_pure _
  refine local_peeked fun b => ?_
  split
  · exact hword
  · split
    · exact hword
    · split
      · exact hword
      · split
        · exact local_discard.bind fun _ => local_unsignedNumber.bind fun _ => local_pure _
        · split
          · exact local_unsignedNumber.bind fun _ => local_pure _
          · split
            · exact local_discard.bind fun _ =>
                (local_of_endsAt endsAt_stringBody).bind fun _ => local_pure _
            · split
              · exact local_pure _
              · split
                · exact local_pure _
                · exact local_failAtNext _

theorem endsAt_closeList (u : Unit) : EndsAt closeList u :=
  endsAt_of_past ⟨closeList_ok, fun hpast => (peeked_eq hpast).trans rfl⟩

theorem endsAt_closeObject (u : Unit) : EndsAt closeObject u :=
  endsAt_of_past ⟨closeObject_ok, fun hpast => (peeked_eq hpast).trans rfl⟩

theorem local_atElement (first : Bool) : Local (atElement first) := by
  refine local_peeked fun b => ?_
  split
  · exact local_pure _
  · split
    · exact local_pure _
    · split
      · refine local_discard.bind fun _ => local_peeked fun b => ?_
        split
        · exact local_failAtNext _
        · exact local_pure _
      · exact local_failAtNext _

theorem local_atKey (first : Bool) : Local (atKey first) := by
  refine local_peeked fun b => ?_
  split
  · exact local_pure _
  · split
    · split
      · exact local_pure _
      · exact local_failAtNext _
    · split
      · refine local_discard.bind fun _ => local_peeked fun b => ?_
        split
        · exact local_pure _
        · split <;> exact local_failAtNext _
      · exact local_failAtNext _

theorem local_key? (first : Bool) : Local (key? first) := by
  refine Local.within ((local_atKey first).bind fun more => ?_) .unknown
  split
  · exact local_discard.bind fun _ =>
      (local_of_endsAt endsAt_stringBody).bind fun _ => local_pure _
  · exact local_pure _

theorem length_lt_of_key? {first : Bool} {name : String}
    (h : key? first text = .ok (some name) rest) : rest.length < text.length := by
  obtain ⟨quoted, hmore, hname⟩ := key?_some.mp h
  have hshort := (local_atKey first).shortens _ _ _ hmore
  have hless := (endsAt_stringBody name).length_lt hname
  rw [List.length_tail] at hless
  omega

theorem Local.entryValue {reader : Reader α} (h : Local reader) (name : String) :
    Local (entryValue name reader) :=
  local_colon.bind fun _ => h.within _

theorem Local.element? {reader : Reader α} (h : Local reader) (i : Nat) :
    Local (element? reader i) := by
  refine (local_atElement _).bind fun more => ?_
  split
  · exact (h.within _).bind fun _ => local_pure _
  · exact local_pure _

theorem Local.keyedValue? {reader : Reader Value} (h : Local reader) (i : Nat) :
    Local (keyedValue? reader i) := by
  refine (local_key? _).bind fun name => ?_
  cases name with
  | none => exact local_pure _
  | some name => exact (h.entryValue name).bind fun _ => local_pure _

theorem local_untilNone {step : Nat → Reader (Option α)} (h : ∀ i, Local (step i))
    (hless : ∀ {i text a rest}, step i text = .ok (some a) rest → rest.length < text.length) :
    Local (untilNone step) := by
  refine local_fuel fun fuel => ?_
  generalize 0 = count
  induction fuel generalizing count with
  | nil => exact localWith_nil _
  | cons f fuel ih =>
      refine localWith_cons _ (fun _ _ => rfl) (h count) fun found => ?_
      cases found with
      | none => exact .inl ⟨pure [], fun _ => rfl, local_pure _⟩
      | some a => exact .inr ⟨hless, (ih (count + 1)).bind fun _ => local_pure _⟩

theorem endsAt_nested {close : Reader Unit} {body : Nat → Reader α} {depth : Nat}
    (hbody : ∀ inner < depth, Local (body inner)) (hclose : ∀ u, EndsAt close u) (a : α) :
    EndsAt (nested close body depth) a := by
  cases depth with
  | zero => exact fun _ _ h => absurd h failAtNext_ne_ok
  | succ inner =>
      have hends : EndsAt (do discard; let a ← body inner; close; return a) a :=
        local_discard.bind_endsAt fun _ _ =>
          (hbody inner inner.lt_succ_self).bind_endsAt fun a' _ =>
            endsAt_bind_still hclose (fun _ => still_pure a') a
      refine (endsAt_congr fun {text rest} => ?_).mpr hends
      simp only [nested, bind_eq_ok, closedBy_eq_ok, pure_eq_ok]
      constructor
      · rintro ⟨_, t, hdiscard, middle, hbody, hclose⟩
        exact ⟨(), t, hdiscard, a, middle, hbody, (), rest, hclose, rfl, rfl⟩
      · rintro ⟨_, t, hdiscard, _, middle, hbody, _, _, hclose, rfl, rfl⟩
        exact ⟨(), t, hdiscard, middle, hbody, hclose⟩

theorem length_lt_of_element? {reader : Reader α} {i : Nat} {a : α}
    (h : element? reader i text = .ok (some a) rest)
    (hless : ∀ {text a rest}, reader text = .ok a rest → rest.length < text.length) :
    rest.length < text.length := by
  obtain ⟨middle, hmore, hread⟩ := element?_some.mp h
  exact (hless hread).trans_le ((local_atElement _).shortens _ _ _ hmore)

theorem local_elements {reader : Reader α} (h : Local reader)
    (hless : ∀ {text a rest}, reader text = .ok a rest → rest.length < text.length) :
    Local (elements reader) :=
  local_untilNone h.element? fun hstep => length_lt_of_element? hstep hless

end Containers

theorem local_value (depth : Nat) : Local (value depth) := by
  induction depth using Nat.strong_induction_on with
  | h depth ih =>
    rw [value_eq]
    refine Local.located (local_shape.bind fun sh => ?_)
    have hlist : Local (nested closeList (fun depth => elements (value depth)) depth) :=
      local_of_endsAt (endsAt_nested
        (fun inner hinner => local_elements (ih inner hinner) length_lt_of_value) endsAt_closeList)
    have hobject : Local (nested closeObject (fun depth => entries (value depth)) depth) :=
      local_of_endsAt (endsAt_nested
        (fun inner hinner => local_untilNone (ih inner hinner).keyedValue? length_lt_of_keyedValue?)
        endsAt_closeObject)
    cases sh with
    | null => exact local_pure _
    | boolean b => exact local_pure _
    | number n => exact local_pure _
    | string s => exact local_pure _
    | list => exact hlist.bind fun _ => local_pure _
    | object => exact hobject.bind fun _ => local_pure _

theorem local_skipValue : Local skipValue := by
  refine local_fuel fun fuel => ?_
  generalize ([] : List Frame) = frames
  induction fuel generalizing frames with
  | nil => exact localWith_nil _
  | cons f fuel ih =>
      refine localWith_cons _ (fun _ _ => rfl) (local_skipStart frames) fun next => ?_
      cases next with
      | none => exact .inl ⟨pure (), fun _ => rfl, local_pure _⟩
      | some frames => exact .inr ⟨Grammar.length_lt_of_skipStart, ih frames⟩

end StubTree.Json.Reader
