import StubTree.Json.Printer
import StubTree.Proofs.ByteOrder
import StubTree.Proofs.Readers

/-!
Printed values are read back. The bytes of a printed string are plain bytes and
escapes, each of which stands for the bytes of one character; so a string is
read as it was before it was printed, whatever comes behind it. Blanks and
commas between the elements of a container are read over.
-/

namespace StubTree.Json.Reader

open Effect

variable {text rest : List UInt8}

/-- The bytes of a text, character by character. -/
def encoded (cs : List Char) : List UInt8 := cs.flatMap String.utf8EncodeChar

@[simp] theorem encoded_append (cs cs' : List Char) :
    encoded (cs ++ cs') = encoded cs ++ encoded cs' := List.flatMap_append

theorem encoded_cons (c : Char) (cs : List Char) :
    encoded (c :: cs) = String.utf8EncodeChar c ++ encoded cs := List.flatMap_cons

section Strings

/-- Plain bytes in front of a piece belong to it. -/
theorem stringPiece_plain {plain piece : List UInt8} {last : Bool}
    (hplain : ∀ b ∈ plain, isPlainByte b = true)
    (h : stringPiece text = .ok (piece, last) rest) :
    stringPiece (plain ++ text) = .ok (plain ++ piece, last) rest := by
  obtain ⟨found, behind, hbytes, h⟩ := bind_eq_ok.mp h
  obtain ⟨rfl, rfl⟩ := plainBytes_eq_ok.mp hbytes
  have hfront : plainBytes (plain ++ text) =
      .ok (plain ++ text.takeWhile isPlainByte) (text.dropWhile isPlainByte) := by
    rw [plainBytes_eq_ok, List.takeWhile_append_of_pos hplain,
      List.dropWhile_append_of_pos hplain]
    exact ⟨rfl, rfl⟩
  refine bind_eq_ok.mpr ⟨_, _, hfront, ?_⟩
  obtain ⟨b, t, htext, h⟩ := taken h
  rw [htext]
  refine bind_eq_ok.mpr ⟨some b, t, rfl, ?_⟩
  dsimp only
  split at h
  · rename_i hquote
    rw [if_pos hquote]
    obtain ⟨heq, rfl⟩ := pure_eq_ok.mp h
    cases heq
    rfl
  · rename_i hquote
    rw [if_neg hquote]
    split at h
    · rename_i hback
      rw [if_pos hback]
      obtain ⟨found, middle, hescape, h⟩ := bind_eq_ok.mp h
      obtain ⟨heq, rfl⟩ := pure_eq_ok.mp h
      cases heq
      refine bind_eq_ok.mpr ⟨found, middle, hescape, ?_⟩
      rw [← List.append_assoc]
      rfl
    · exact absurd h failHere_ne_ok

theorem stringBytes_plain {plain found : List UInt8} {fuel : Fuel}
    (hplain : ∀ b ∈ plain, isPlainByte b = true)
    (h : stringBytes fuel text = .ok found rest) :
    stringBytes fuel (plain ++ text) = .ok (plain ++ found) rest := by
  cases fuel with
  | nil => exact absurd h failHere_ne_ok
  | cons f fuel =>
      simp only [stringBytes] at h ⊢
      obtain ⟨⟨piece, last⟩, middle, hpiece, h⟩ := bind_eq_ok.mp h
      refine bind_eq_ok.mpr ⟨(plain ++ piece, last), middle, stringPiece_plain hplain hpiece, ?_⟩
      cases last with
      | true =>
          obtain ⟨rfl, rfl⟩ := pure_eq_ok.mp h
          rfl
      | false =>
          obtain ⟨more, _, hmore, h⟩ := bind_eq_ok.mp h
          obtain ⟨rfl, rfl⟩ := pure_eq_ok.mp h
          refine bind_eq_ok.mpr ⟨more, _, hmore, ?_⟩
          rw [List.append_assoc]
          rfl

theorem stringBytes_escape {found more middle : List UInt8} {f : UInt8} {fuel : Fuel}
    (hescape : escape text = .ok found middle) (h : stringBytes fuel middle = .ok more rest) :
    stringBytes (f :: fuel) (ascii '\\' :: text) = .ok (found ++ more) rest := by
  have hpiece : stringPiece (ascii '\\' :: text) = .ok (found, false) middle := by
    refine bind_eq_ok.mpr ⟨[], ascii '\\' :: text, plainBytes_eq_ok.mpr ⟨rfl, rfl⟩, ?_⟩
    refine bind_eq_ok.mpr ⟨some (ascii '\\'), text, rfl, ?_⟩
    exact bind_eq_ok.mpr ⟨found, middle, hescape, rfl⟩
  rw [stringBytes, bind_of_ok hpiece]
  exact bind_eq_ok.mpr ⟨more, rest, h, rfl⟩

theorem stringBytes_quote (f : UInt8) (fuel : Fuel) :
    stringBytes (f :: fuel) (ascii '"' :: rest) = .ok [] rest := by
  rfl

theorem isPlainByte_iff {b : UInt8} :
    isPlainByte b = true ↔ 32 ≤ b.toNat ∧ b.toNat ≠ 34 ∧ b.toNat ≠ 92 := by
  simp only [isPlainByte, Bool.and_eq_true, decide_eq_true_eq, UInt8.le_iff_toNat_le, ne_eq,
    ← UInt8.toNat_inj, and_assoc]
  rfl

/-- A character that needs no escape is printed as plain bytes. -/
theorem isPlainByte_utf8EncodeChar {c : Char} (hquote : c ≠ '"') (hback : c ≠ '\\')
    (hplain : 32 ≤ c.toNat) {b : UInt8} (hb : b ∈ String.utf8EncodeChar c) :
    isPlainByte b = true := by
  have hquote : c.val.toNat ≠ 34 := fun h => hquote (Char.ext (UInt32.toNat_inj.mp h))
  have hback : c.val.toNat ≠ 92 := fun h => hback (Char.ext (UInt32.toNat_inj.mp h))
  have hplain : 32 ≤ c.val.toNat := hplain
  have hmarked {n bits mark : Nat} (hbits : 0 < bits) (hmark : 128 ≤ mark)
      (hle : bits + mark ≤ 256) (heq : b = UInt8.ofNat (n % bits + mark)) :
      isPlainByte b = true := by
    rw [heq, isPlainByte_iff, Text.toNat_marked n hbits hle]
    omega
  simp only [String.utf8EncodeChar] at hb
  split_ifs at hb with hone htwo hthree <;>
    simp only [List.mem_cons, List.not_mem_nil, or_false] at hb
  · rw [hb, isPlainByte_iff, Text.toNat_plain hone]
    exact ⟨hplain, hquote, hback⟩
  · rcases hb with hb | hb <;> exact hmarked (by decide) (by decide) (by decide) hb
  · rcases hb with hb | hb | hb <;> exact hmarked (by decide) (by decide) (by decide) hb
  · rcases hb with hb | hb | hb | hb <;> exact hmarked (by decide) (by decide) (by decide) hb

theorem hexValue_hexDigit : ∀ n < 16, hexValue (ascii (Text.hexDigit n)) = some n := by
  decide

theorem encoded_hexDigit : ∀ n < 16,
    String.utf8EncodeChar (Text.hexDigit n) = [ascii (Text.hexDigit n)] := by
  decide

theorem escape_codePoint {n : Nat} (h : n < 32) :
    escape (encoded ['u', '0', '0', Text.hexDigit (n / 16), Text.hexDigit (n % 16)] ++ rest) =
      .ok (String.utf8EncodeChar (Char.ofNat n)) rest := by
  have hhigh : n / 16 < 16 := by omega
  have hlow : n % 16 < 16 := Nat.mod_lt n (by decide)
  have hbytes : encoded ['u', '0', '0', Text.hexDigit (n / 16), Text.hexDigit (n % 16)] =
      [ascii 'u', ascii '0', ascii '0', ascii (Text.hexDigit (n / 16)),
        ascii (Text.hexDigit (n % 16))] := by
    simp only [encoded, List.flatMap_cons, encoded_hexDigit _ hhigh, encoded_hexDigit _ hlow]
    rfl
  have hunit : hexUnit (ascii '0' :: ascii '0' :: ascii (Text.hexDigit (n / 16)) ::
      ascii (Text.hexDigit (n % 16)) :: rest) = .ok n rest := by
    refine hexUnit_eq_ok.mpr ⟨_, _, _, _, 0, 0, n / 16, n % 16, rfl, rfl, rfl,
      hexValue_hexDigit _ hhigh, hexValue_hexDigit _ hlow, by omega⟩
  rw [hbytes]
  refine bind_eq_ok.mpr ⟨some (ascii 'u'), _, rfl, ?_⟩
  change unicodeEscape _ = _
  refine bind_eq_ok.mpr ⟨n, rest, hunit, ?_⟩
  rw [if_neg (by omega), if_pos (by omega)]
  rfl

/-- What is printed of a character that needs an escape stands for its bytes. -/
theorem escape_of_escapedChar {c : Char} (h : c = '"' ∨ c = '\\' ∨ c.toNat < 32)
    (rest : List UInt8) :
    ∃ tail, escapedChar c = '\\' :: tail ∧
      escape (encoded tail ++ rest) = .ok (String.utf8EncodeChar c) rest := by
  have hof (n : Nat) (hn : c.toNat = n) : c = Char.ofNat n := by
    rw [← hn, Char.ofNat_toNat]
  simp only [escapedChar]
  split_ifs with hmark hplain hline hreturn htab hback hfeed
  · refine ⟨[c], rfl, ?_⟩
    cases hmark with
    | inl hquote =>
        subst hquote
        rfl
    | inr hback =>
        subst hback
        rfl
  · rcases h with hquote | hback | hcontrol
    · exact absurd (.inl hquote) hmark
    · exact absurd (.inr hback) hmark
    · exact absurd hplain (Nat.not_le.mpr hcontrol)
  · subst hline
    exact ⟨_, rfl, rfl⟩
  · subst hreturn
    exact ⟨_, rfl, rfl⟩
  · subst htab
    exact ⟨_, rfl, rfl⟩
  · obtain rfl := hof 8 hback
    exact ⟨_, rfl, rfl⟩
  · obtain rfl := hof 12 hfeed
    exact ⟨_, rfl, rfl⟩
  · refine ⟨_, rfl, (escape_codePoint (Nat.not_le.mp hplain)).trans ?_⟩
    rw [Char.ofNat_toNat]

/-- The bytes of a printed string are read as the bytes of the string. -/
theorem stringBytes_printed (cs : List Char) {fuel : Fuel} (hfuel : cs.length < fuel.length) :
    stringBytes fuel (encoded (cs.flatMap escapedChar ++ ['"']) ++ rest) =
      .ok (encoded cs) rest := by
  induction cs generalizing fuel with
  | nil =>
      obtain ⟨f, fuel, rfl⟩ := List.exists_cons_of_length_pos hfuel
      exact stringBytes_quote f fuel
  | cons c cs ih =>
      rw [List.flatMap_cons, List.append_assoc, encoded_append, encoded_cons, List.append_assoc]
      by_cases hescape : c = '"' ∨ c = '\\' ∨ c.toNat < 32
      · obtain ⟨f, fuel, rfl⟩ := List.exists_cons_of_length_pos (Nat.zero_lt_of_lt hfuel)
        obtain ⟨tail, htail, hread⟩ := escape_of_escapedChar hescape
          (encoded (cs.flatMap escapedChar ++ ['"']) ++ rest)
        rw [htail, encoded_cons, List.append_assoc]
        exact stringBytes_escape hread (ih (Nat.lt_of_succ_lt_succ hfuel))
      · simp only [not_or, Nat.not_lt] at hescape
        obtain ⟨hquote, hback, hplain⟩ := hescape
        have hkept : escapedChar c = [c] := by
          simp [escapedChar, hquote, hback, hplain]
        rw [hkept, encoded_cons, List.append_assoc]
        refine stringBytes_plain (fun b => isPlainByte_utf8EncodeChar hquote hback hplain) ?_
        exact ih (Nat.lt_of_succ_lt hfuel)

theorem fromUTF8?_encoded (s : String) :
    String.fromUTF8? (ByteArray.mk (encoded s.toList).toArray) = some s := by
  have hbytes : ByteArray.mk (encoded s.toList).toArray = s.toByteArray := by
    rw [← String.utf8Encode_toList]
    exact ByteArray.ext List.data_toByteArray.symm
  rw [hbytes, String.fromUTF8?, dif_pos s.isValidUTF8]
  rfl

theorem length_le_flatMap {α β : Type} {f : α → List β} (h : ∀ a, f a ≠ []) (as : List α) :
    as.length ≤ (as.flatMap f).length := by
  induction as with
  | nil => exact Nat.le_refl 0
  | cons a as ih =>
      have hpos := List.length_pos_of_ne_nil (h a)
      rw [List.flatMap_cons, List.length_append, List.length_cons]
      omega

theorem escapedChar_ne_nil (c : Char) : escapedChar c ≠ [] := by
  simp only [escapedChar]
  split_ifs <;> exact List.cons_ne_nil _ _

theorem stringBody_printed (s : String) (rest : List UInt8) :
    stringBody (encoded (s.toList.flatMap escapedChar ++ ['"']) ++ rest) = .ok s rest := by
  have hlength : s.toList.length <
      (0 :: (encoded (s.toList.flatMap escapedChar ++ ['"']) ++ rest)).length := by
    have hchars := length_le_flatMap escapedChar_ne_nil s.toList
    have hne (c : Char) : String.utf8EncodeChar c ≠ [] := String.utf8EncodeChar_ne_nil
    have hbytes := length_le_flatMap hne (s.toList.flatMap escapedChar ++ ['"'])
    simp only [List.length_append, List.length_cons, encoded] at hbytes ⊢
    omega
  rw [stringBody, bind_of_ok (fuel_eq_ok.mpr ⟨rfl, rfl⟩),
    bind_of_ok (stringBytes_printed s.toList hlength), fromUTF8?_encoded]
  rfl

end Strings

section Containers

variable {depth : Nat} {v : Value}

/-- What a value begins with does not close a list. -/
theorem exists_head_of_value (h : value depth text = .ok v rest) :
    ∃ b t, pastBlanks text = b :: t ∧ b ≠ ascii ']' := by
  obtain ⟨middle, hshape⟩ := exists_shape_of_value h
  have hbegins := shape_begins hshape
  generalize pastBlanks text = past, v.shape = sh at hbegins
  cases hbegins with
  | number hdigit =>
      refine ⟨_, _, rfl, ?_⟩
      rintro rfl
      exact absurd hdigit (by decide)
  | _ => exact ⟨_, _, rfl, by decide⟩

/-- What stands in front of an element or entry with index `i`. -/
def comma (i : Nat) : List UInt8 := if i = 0 then [] else [ascii ',']

theorem element?_printed {i : Nat} (h : value depth text = .ok v rest) :
    element? (value depth) i (comma i ++ text) = .ok (some v) rest := by
  obtain ⟨b, t, hpast, hopen⟩ := exists_head_of_value h
  refine element?_some.mpr ⟨pastBlanks text, ?_, by rw [value_pastBlanks, h]⟩
  by_cases hi : i = 0
  · simp only [comma, hi, ↓reduceIte, List.nil_append, decide_true]
    refine (peeked_eq hpast).trans ?_
    rw [if_neg hopen, hpast]
    rfl
  · simp only [comma, hi, ↓reduceIte, decide_false]
    have hcomma : pastBlanks ([ascii ','] ++ text) = ascii ',' :: text := rfl
    refine (peeked_eq hcomma).trans ((peeked_eq hpast).trans ?_)
    rw [if_neg hopen, hpast]
    rfl

theorem value_blank : value depth (ascii ' ' :: text) = value depth text := by
  have hpast : pastBlanks (ascii ' ' :: text) = pastBlanks text := rfl
  rw [← value_pastBlanks, hpast, value_pastBlanks]

theorem entryValue_colon {name : String} (h : value depth text = .ok v rest) :
    entryValue name (value depth) (ascii ':' :: text) = .ok v rest := by
  refine entryValue_eq_ok.mpr ⟨text, ?_, h⟩
  have hcolon : pastBlanks (ascii ':' :: text) = ascii ':' :: text := rfl
  refine (peeked_eq hcolon).trans ?_
  rw [if_pos rfl, discard_ok]
  rfl

theorem atKey_quote {i : Nat} {quoted : List UInt8}
    (hpast : pastBlanks text = ascii '"' :: quoted) :
    atKey (i = 0) (comma i ++ text) = .ok true (ascii '"' :: quoted) := by
  by_cases hi : i = 0
  · simp only [comma, hi, ↓reduceIte, List.nil_append, decide_true]
    exact (peeked_eq hpast).trans rfl
  · simp only [comma, hi, ↓reduceIte, decide_false]
    have hcomma : pastBlanks ([ascii ','] ++ text) = ascii ',' :: text := rfl
    exact (peeked_eq hcomma).trans ((peeked_eq hpast).trans rfl)

theorem pastBlanks_newLine (level : Nat) (text : List UInt8) :
    pastBlanks (encoded (Value.newLine level) ++ text) = pastBlanks text := by
  refine List.dropWhile_append_of_pos fun b hb => ?_
  obtain ⟨c, hc, hb⟩ := List.mem_flatMap.mp hb
  rcases List.mem_cons.mp hc with rfl | hc
  · rw [List.mem_singleton.mp hb]
    rfl
  · obtain rfl := (List.mem_replicate.mp hc).2
    rw [List.mem_singleton.mp hb]
    rfl

theorem encoded_stringText (s : String) :
    encoded (stringText s) = ascii '"' :: encoded (s.toList.flatMap escapedChar ++ ['"']) := rfl

theorem keyedValue?_printed {i : Nat} (level : Nat) (name : String)
    (h : value depth text = .ok v rest) :
    keyedValue? (value depth) i (comma i ++ (encoded (Value.newLine level) ++
      (encoded (stringText name) ++ ascii ':' :: text))) = .ok (some (name, v)) rest := by
  have hpast := pastBlanks_newLine level (encoded (stringText name) ++ ascii ':' :: text)
  rw [encoded_stringText] at hpast
  exact keyedValue?_some.mpr ⟨_, key?_some.mpr ⟨_, atKey_quote hpast, stringBody_printed name _⟩,
    entryValue_colon h⟩

end Containers

end StubTree.Json.Reader

namespace StubTree.Json.Value

mutual

/-- A value without numbers. -/
def Numberless : Value → Prop
  | .number _ => False
  | .list items => NumberlessItems items
  | .object entries => NumberlessEntries entries
  | _ => True

def NumberlessItems : List Value → Prop
  | [] => True
  | v :: rest => v.Numberless ∧ NumberlessItems rest

def NumberlessEntries : List (String × Value) → Prop
  | [] => True
  | (_, v) :: rest => v.Numberless ∧ NumberlessEntries rest

end

end StubTree.Json.Value

namespace StubTree.Json.Reader

open Effect
open Value (Numberless NumberlessItems NumberlessEntries)

theorem value_of_shape {depth : Nat} {text rest : List UInt8} {v : Value}
    (h : shape text = .ok v.shape rest) (hlist : v.shape ≠ .list) (hobject : v.shape ≠ .object) :
    value depth text = .ok v rest := by
  rw [value_eq, located_eq_ok]
  refine bind_eq_ok.mpr ⟨v.shape, rest, h, ?_⟩
  cases v with
  | list => exact absurd rfl hlist
  | object => exact absurd rfl hobject
  | _ => rfl

theorem encoded_comma (i : Nat) :
    encoded (if decide (i = 0) then [] else [',']) = comma i := by
  by_cases hi : i = 0
  · simp only [hi, decide_true, ↓reduceIte]
    rfl
  · simp only [hi, decide_false, comma]
    rfl

theorem closing_pretty (level i : Nat) (bracket : Char) (text : List UInt8) :
    pastBlanks
        (encoded ((if decide (i = 0) then [] else Value.newLine level) ++ [bracket]) ++ text) =
      pastBlanks (encoded [bracket] ++ text) := by
  by_cases hi : i = 0
  · simp only [hi, decide_true, ↓reduceIte, List.nil_append]
  · simp only [hi, decide_false, encoded_append, List.append_assoc]
    exact pastBlanks_newLine level _

/-- Each line takes some of the text. -/
theorem length_lt_of_line {text line : List UInt8} {i level : Nat} {f : UInt8} {fuel : Fuel}
    (h : (comma i ++ (encoded (Value.newLine level) ++ line)).length < (f :: fuel).length)
    (hsuffix : text <:+ line) : text.length < fuel.length := by
  have hbreak : 0 < (encoded (Value.newLine level)).length := by
    rw [Value.newLine, encoded_cons, List.length_append]
    exact Nat.lt_add_right _ (by decide)
  have hle := hsuffix.length_le
  simp only [List.length_append, List.length_cons] at h
  omega

theorem encoded_colon (cs : List Char) :
    encoded (':' :: ' ' :: cs) = ascii ':' :: ascii ' ' :: encoded cs := rfl

mutual

theorem value_pretty {depth : Nat} (level : Nat) (rest : List UInt8) : (v : Value) →
    v.Numberless → v.depth ≤ depth →
      value depth (encoded (v.pretty level) ++ rest) = .ok v rest
  | .null, _, _ => value_of_shape rfl nofun nofun
  | .boolean true, _, _ => value_of_shape rfl nofun nofun
  | .boolean false, _, _ => value_of_shape rfl nofun nofun
  | .number _, hnone, _ => hnone.elim
  | .string s, _, _ =>
      value_of_shape (shape_quoted (stringBody_printed s rest)) nofun nofun
  | .list items, hnone, hdepth => by
      obtain ⟨inner, rfl⟩ := Nat.exists_eq_add_of_le' (Nat.le_of_add_left_le hdepth)
      have hitems := elements_pretty level rest items hnone (Nat.le_of_succ_le_succ hdepth) 0
        (0 :: _) (Nat.lt_succ_self _)
      rw [value_eq, located_eq_ok]
      refine bind_eq_ok.mpr ⟨.list, _, rfl, ?_⟩
      refine bind_eq_ok.mpr ⟨items, rest, nested_eq_ok.mpr ?_, rfl⟩
      exact ⟨inner, _, rfl, untilNone_eq_ok.mpr hitems, rfl⟩
  | .object entries, hnone, hdepth => by
      obtain ⟨inner, rfl⟩ := Nat.exists_eq_add_of_le' (Nat.le_of_add_left_le hdepth)
      have hentries := entries_pretty level rest entries hnone (Nat.le_of_succ_le_succ hdepth) 0
        (0 :: _) (Nat.lt_succ_self _)
      rw [value_eq, located_eq_ok]
      refine bind_eq_ok.mpr ⟨.object, _, rfl, ?_⟩
      refine bind_eq_ok.mpr ⟨entries, rest, nested_eq_ok.mpr ?_, rfl⟩
      exact ⟨inner, _, rfl, untilNone_eq_ok.mpr hentries, rfl⟩

theorem elements_pretty {depth : Nat} (level : Nat) (rest : List UInt8) :
    (items : List Value) → NumberlessItems items → Value.depthOfItems items ≤ depth →
      (i : Nat) → (fuel : Fuel) →
        (encoded (Value.prettyItems level (i = 0) items) ++ rest).length < fuel.length →
          Collects (element? (value depth)) fuel i
            (encoded (Value.prettyItems level (i = 0) items) ++ rest) items (ascii ']' :: rest)
  | [], _, _, i, f :: _, _ => by
      refine .last (element?_none.mpr ?_)
      have hpast := closing_pretty level i ']' rest
      exact (peeked_eq hpast).trans rfl
  | v :: items, hnone, hdepth, i, f :: fuel, hfuel => by
      obtain ⟨hv, hitems⟩ := Nat.max_le.mp hdepth
      simp only [Value.prettyItems, encoded_append, encoded_comma, List.append_assoc] at hfuel ⊢
      refine .more (element?_printed ?_) (elements_pretty level rest items hnone.2 hitems (i + 1)
        fuel (length_lt_of_line hfuel (List.suffix_append _ _)))
      rw [← value_pastBlanks, pastBlanks_newLine, value_pastBlanks]
      exact value_pretty (level + 1) _ v hnone.1 hv

theorem entries_pretty {depth : Nat} (level : Nat) (rest : List UInt8) :
    (entries : List (String × Value)) → NumberlessEntries entries →
      Value.depthOfEntries entries ≤ depth → (i : Nat) → (fuel : Fuel) →
        (encoded (Value.prettyEntries level (i = 0) entries) ++ rest).length < fuel.length →
          Collects (keyedValue? (value depth)) fuel i
            (encoded (Value.prettyEntries level (i = 0) entries) ++ rest) entries
            (ascii '\x7d' :: rest)
  | [], _, _, i, f :: fuel, _ => by
      refine .last (keyedValue?_none.mpr (key?_none.mpr ?_))
      have hpast := closing_pretty level i '\x7d' rest
      exact (peeked_eq hpast).trans rfl
  | (name, v) :: entries, hnone, hdepth, i, f :: fuel, hfuel => by
      obtain ⟨hv, hentries⟩ := Nat.max_le.mp hdepth
      simp only [Value.prettyEntries, encoded_append, encoded_comma, encoded_colon,
        List.append_assoc, List.cons_append] at hfuel ⊢
      refine .more (keyedValue?_printed (level + 1) name ?_) (entries_pretty level rest entries
        hnone.2 hentries (i + 1) fuel (length_lt_of_line hfuel ?_))
      · rw [value_blank]
        exact value_pretty (level + 1) _ v hnone.1 hv
      · refine ⟨encoded (stringText name) ++ ascii ':' :: ascii ' ' ::
          encoded (v.pretty (level + 1)), ?_⟩
        simp only [List.append_assoc, List.cons_append]
        rfl

end

end StubTree.Json.Reader
