import StubTree.Proofs.Skipping

/-!
What decoders take out of values. A decoder takes the same thing out of a value
that has been read before as out of any text from which the value is read; how
the value is spelled in the text does not matter, nor what comes behind it.
-/

namespace StubTree.Json.Decoder

open Effect Reader

variable {α β : Type}

/-- A decoder gets the same out of a value and out of every text of it. -/
structure Takes (d : Decoder α) (v : Value) (a : α) : Prop where
  ofValue : d.ofValue v = .ok a
  read : ∀ {depth text rest}, value depth text = .ok v rest → d.read depth text = .ok a rest

theorem Takes.map {d : Decoder α} {v : Value} {a : α} (h : Takes d v a) (f : α → β) :
    Takes (d.map f) v (f a) := by
  refine ⟨?_, fun hread => map_of_ok (h.read hread) f⟩
  simp only [Decoder.map, h.ofValue]
  rfl

theorem takes_scalar {accept : Shape → Except Cause α} {v : Value} {a : α}
    (h : accept v.shape = .ok a) (hlist : v.shape ≠ .list) (hobject : v.shape ≠ .object) :
    Takes (scalar accept) v a := by
  refine ⟨h, fun hread => located_eq_ok.mpr ?_⟩
  exact bind_eq_ok.mpr ⟨_, _, shape_of_value hread hlist hobject, ofExcept_eq_ok.mpr ⟨h, rfl⟩⟩

theorem takes_string (s : String) : Takes string (.string s) s :=
  takes_scalar rfl (by simp [Value.shape]) (by simp [Value.shape])

theorem takes_boolean (b : Bool) : Takes boolean (.boolean b) b :=
  takes_scalar rfl (by simp [Value.shape]) (by simp [Value.shape])

theorem takes_bounded {least most n : Int} (wanted : Expectation) (hleast : least ≤ n)
    (hmost : n ≤ most) : Takes (bounded least most wanted) (.number (.integer n)) n := by
  refine takes_scalar ?_ (by simp [Value.shape]) (by simp [Value.shape])
  simp only [Value.shape, hleast, hmost, and_self, ↓reduceIte]

theorem takes_int64 (n : Int64) : Takes int64 (.number (.integer n.toInt)) n := by
  have hleast := n.le_toInt
  have hmost := n.toInt_lt
  have htakes := (takes_bounded .int64 (by omega : -9223372036854775808 ≤ n.toInt)
    (by omega : n.toInt ≤ 9223372036854775807)).map Int64.ofInt
  rwa [Int64.ofInt_toInt] at htakes

theorem takes_uint32 (n : UInt32) : Takes uint32 (.number (.integer n.toNat)) n := by
  have htakes := (takes_bounded .uint32 (Int.natCast_nonneg n.toNat)
    (by have := n.toNat_lt; omega : (n.toNat : Int) ≤ 4294967295)).map
      fun n => UInt32.ofNat n.toNat
  rwa [Int.toNat_natCast, UInt32.ofNat_toNat] at htakes

theorem takes_none (d : Decoder α) : Takes (optional d) .null none := by
  refine ⟨rfl, fun {depth text rest} hread => ?_⟩
  have hshape := shape_of_value hread (by simp [Value.shape]) (by simp [Value.shape])
  have hbegins := shape_begins hshape
  refine bind_eq_ok.mpr ⟨_, _, peekPastBlanks_eq_ok.mpr ⟨rfl, rfl⟩, ?_⟩
  generalize pastBlanks text = past at hbegins
  cases hbegins with
  | null hword =>
      rw [List.head?_cons, if_pos rfl]
      exact bind_eq_ok.mpr ⟨(), _, hword, rfl⟩

/-- A value that is not `null` is left to the decoder inside. -/
theorem read_optional {d : Decoder α} {v : Value} {depth : Nat} {text rest : List UInt8}
    (hread : value depth text = .ok v rest) (hne : v ≠ .null) :
    (optional d).read depth text = (some <$> d.read depth) (pastBlanks text) := by
  obtain ⟨_, hshape⟩ := exists_shape_of_value hread
  have hbegins := shape_begins hshape
  refine (bind_of_ok (peekPastBlanks_eq_ok.mpr ⟨rfl, rfl⟩)).trans ?_
  rw [if_neg]
  intro hn
  obtain ⟨t, hpast⟩ := List.head?_eq_some_iff.mp hn
  rw [hpast] at hbegins
  have hnull := begins_null hbegins
  cases v <;> simp [Value.shape] at hnull hne

theorem takes_some {d : Decoder α} {v : Value} {a : α} (h : Takes d v a) (hne : v ≠ .null) :
    Takes (optional d) v (some a) := by
  refine ⟨?_, fun {depth text rest} hread => ?_⟩
  · have hvalue := h.ofValue
    cases v with
    | null => exact absurd rfl hne
    | _ =>
        simp only [optional, hvalue]
        rfl
  · rw [read_optional hread hne]
    rw [← value_pastBlanks] at hread
    exact map_of_ok (h.read hread) some

/-- Element by element, one reader takes what the other has read. -/
theorem collects_takes {d : Decoder α} {depth : Nat} {fuel : Fuel} {count : Nat}
    {text rest : List UInt8} {items : List Value}
    (hcollects : Collects (element? (value depth)) fuel count text items rest) {as : List α}
    (h : List.Forall₂ (Takes d) items as) :
    Collects (element? (d.read depth)) fuel count text as rest := by
  induction hcollects generalizing as with
  | spent =>
      cases h
      exact .spent
  | last hstep =>
      cases h
      exact .last (element?_none.mpr (element?_none.mp hstep))
  | more hstep _ ih =>
      cases h with
      | cons hhead htail =>
          obtain ⟨_, hmore, hitem⟩ := element?_some.mp hstep
          exact .more (element?_some.mpr ⟨_, hmore, hhead.read hitem⟩) (ih htail)

theorem takes_list {d : Decoder α} {items : List Value} {as : List α}
    (h : List.Forall₂ (Takes d) items as) : Takes (list d) (.list items) as := by
  refine ⟨?_, fun {depth text rest} hread => located_eq_ok.mpr ?_⟩
  · have hmap : items.mapM d.ofValue = .ok as := by
      induction h with
      | nil => rfl
      | cons hhead _ ih =>
          rw [List.mapM_cons, hhead.ofValue]
          simp only [bind, Except.bind, ih]
          rfl
    exact hmap
  · cases value_reads hread with
    | list hshape hnested =>
        obtain ⟨inner, middle, rfl, hitems, hclose⟩ := nested_eq_ok.mp hnested
        have hcollects := collects_takes (untilNone_eq_ok.mp hitems) h
        exact bind_eq_ok.mpr ⟨_, _, hshape, nested_eq_ok.mpr
          ⟨inner, middle, rfl, untilNone_eq_ok.mpr hcollects, hclose⟩⟩

section Choices

variable {variants : List (String × Payload α)} {fallback : Option α} {name : String}

/-- Behind the first entry of an object there is a comma, or the closing brace if it is the only
one. -/
theorem value_firstEntry {depth : Nat} {text rest : List UInt8} {v : Value}
    {more : List (String × Value)}
    (h : value depth text = .ok (.object ((name, v) :: more)) rest) :
    ∃ inner t quoted named middle, depth = inner + 1 ∧
      pastBlanks text = ascii '\x7b' :: t ∧ pastBlanks t = ascii '"' :: quoted ∧
      stringBody quoted = .ok name named ∧ entryValue name (value inner) named = .ok v middle ∧
      ((more = [] ∧ pastBlanks middle = ascii '\x7d' :: rest) ∨
        more ≠ [] ∧ ∃ t', pastBlanks middle = ascii ',' :: t') := by
  cases value_reads h with
  | object hshape hnested =>
      obtain ⟨-, t, hpast⟩ := shape_object hshape
      obtain ⟨inner, middle, rfl, hentries, hclose⟩ := nested_eq_ok.mp hnested
      rw [hpast, List.tail_cons] at hentries
      cases untilNone_eq_ok.mp hentries with
      | more hfirst hrest =>
          obtain ⟨named, hkey, hread⟩ := keyedValue?_some.mp hfirst
          obtain ⟨_, hmore, hname⟩ := key?_some.mp hkey
          obtain ⟨quoted, hquote, rfl⟩ := atKey_first hmore
          refine ⟨inner, _, quoted, named, _, rfl, hpast, hquote, hname, hread, ?_⟩
          -- there is at least the quote, so the steps do not run out before the brace
          cases hrest with
          | spent => cases hquote
          | last hlast =>
              obtain ⟨t', hpast', rfl⟩ := atKey_false (key?_none.mp (keyedValue?_none.mp hlast))
              have hbrace := closeObject_ok hclose
              rw [← hpast', pastBlanks_pastBlanks] at hbrace
              exact .inl ⟨rfl, hbrace⟩
          | more hnext _ =>
              obtain ⟨_, hkey', -⟩ := keyedValue?_some.mp hnext
              obtain ⟨_, hmore', -⟩ := key?_some.mp hkey'
              obtain ⟨t', _, hcomma, -⟩ := atKey_later hmore'
              exact .inr ⟨List.cons_ne_nil _ _, t', hcomma⟩

theorem atOnlyKey_ok {t quoted : List UInt8} (h : pastBlanks t = ascii '"' :: quoted) :
    atOnlyKey t = .ok () (ascii '"' :: quoted) := by
  refine (peeked_eq h).trans ?_
  rw [if_pos rfl]
  rfl

theorem closeOnly_ok {t rest : List UInt8} (h : pastBlanks t = ascii '\x7d' :: rest) :
    closeOnly t = .ok () rest := by
  rw [closeOnly, bind_of_ok (peekPastBlanks_eq_ok.mpr ⟨rfl, rfl⟩), h]
  rfl

theorem readVariant_ok {payload : Payload α} {quoted rest : List UInt8}
    (hname : stringBody quoted = .ok name rest)
    (hvariant : variant? variants fallback name = .ok payload) :
    readVariant variants fallback (ascii '"' :: quoted) = .ok (name, payload) rest := by
  refine located_eq_ok.mpr (bind_eq_ok.mpr ⟨.string name, rest, shape_quoted hname, ?_⟩)
  refine bind_eq_ok.mpr ⟨name, rest, rfl, bind_eq_ok.mpr ⟨payload, rest, ?_, rfl⟩⟩
  exact ofExcept_eq_ok.mpr ⟨hvariant, rfl⟩

theorem takes_bare {a : α} (hname : variants.lookup name = some (.bare a)) :
    Takes (choice variants fallback) (.string name) a := by
  have hvariant : variant? variants fallback name = .ok (.bare a) := by
    simp only [variant?, hname]
  refine ⟨?_, fun {depth text rest} hread => ?_⟩
  · simp only [choice, hvariant]
    rfl
  · have hshape := shape_of_value hread (by simp [Value.shape]) (by simp [Value.shape])
    have hbegins := shape_begins hshape
    generalize hpast : pastBlanks text = past at hbegins
    cases hbegins with
    | string hstring =>
        refine (peeked_eq hpast).trans ?_
        rw [if_neg (by decide), if_pos rfl]
        exact bind_eq_ok.mpr ⟨_, _, readVariant_ok hstring hvariant, rfl⟩

theorem takes_carrying {d : Decoder α} {v : Value} {a : α}
    (hname : variants.lookup name = some (.carrying d)) (h : Takes d v a) :
    Takes (choice variants fallback) (.object [(name, v)]) a := by
  have hvariant : variant? variants fallback name = .ok (.carrying d) := by
    simp only [variant?, hname]
  refine ⟨?_, fun {depth text rest} hread => ?_⟩
  · simp only [choice, hvariant]
    exact h.ofValue
  · obtain ⟨inner, t, quoted, named, middle, rfl, hpast, hquote, hstring, hvalue, hbehind⟩ :=
      value_firstEntry hread
    have hclose := (hbehind.resolve_right fun h => h.1 rfl).2
    refine (peeked_eq hpast).trans ?_
    rw [if_pos rfl]
    refine bind_eq_ok.mpr ⟨(), t, rfl, bind_eq_ok.mpr ⟨(), _, atOnlyKey_ok hquote, ?_⟩⟩
    refine bind_eq_ok.mpr ⟨_, _, readVariant_ok hstring hvariant, ?_⟩
    refine bind_eq_ok.mpr ⟨a, middle, entryValue_of hvalue h.read, ?_⟩
    exact bind_eq_ok.mpr ⟨(), _, closeOnly_ok hclose, rfl⟩

end Choices

section Tags

variable {t : Tagged α} {front back : List (String × Value)}
  {content : Value → Except Cause α}

theorem contentOfEntries_untagged (hfront : ∀ entry ∈ front, entry.1 ≠ t.tag)
    (found : Option (Value → Except Cause α)) (rest others : List (String × Value)) :
    t.contentOfEntries (front ++ rest) found others =
      t.contentOfEntries rest found (front.reverse ++ others) := by
  induction front generalizing others with
  | nil => rfl
  | cons entry front ih =>
      rw [List.forall_mem_cons] at hfront
      rw [List.cons_append, Tagged.contentOfEntries, if_neg hfront.1, ih hfront.2,
        List.reverse_cons, List.append_assoc]
      rfl

/-- Entries other than the tag are read as values, whether the tag has been found or not. -/
theorem readEntries_untagged (hfront : ∀ entry ∈ front, entry.1 ≠ t.tag) {depth : Nat}
    {fuel : Fuel} {count : Nat} {text rest : List UInt8} {others : List (String × Value)}
    (hread : Collects (keyedValue? (value depth)) fuel count text (front ++ others) rest)
    (hfuel : text.length < fuel.length) (found : Option (Value → Except Cause α))
    (read : List (String × Value)) :
    ∃ fuel' count' text', text'.length < fuel'.length ∧
      Collects (keyedValue? (value depth)) fuel' count' text' others rest ∧
      t.readEntries depth fuel count found read text =
        t.readEntries depth fuel' count' found (front.reverse ++ read) text' := by
  induction front generalizing fuel count text read with
  | nil => exact ⟨fuel, count, text, hfuel, hread, rfl⟩
  | cons entry front ih =>
      rw [List.forall_mem_cons] at hfront
      cases hread with
      | more hstep hread =>
          have hshort := length_lt_of_keyedValue? hstep
          rw [List.length_cons] at hfuel
          obtain ⟨fuel', count', text', hfuel', hread, hsame⟩ :=
            ih hfront.2 hread (by omega) (entry :: read)
          obtain ⟨_, hkey, hvalue⟩ := keyedValue?_some.mp hstep
          refine ⟨fuel', count', text', hfuel', hread, Eq.trans ?_ (hsame.trans (by simp))⟩
          refine (bind_of_ok hkey).trans ?_
          simp only [if_neg hfront.1]
          exact bind_of_ok hvalue

theorem readTag_ok {name : String} (hname : t.named name = .ok content) {depth : Nat}
    {text rest : List UInt8} (hread : value depth text = .ok (.string name) rest) :
    t.readTag text = .ok content rest :=
  located_eq_ok.mpr (bind_eq_ok.mpr ⟨.string name, rest,
    shape_of_value hread (by simp [Value.shape]) (by simp [Value.shape]),
    ofExcept_eq_ok.mpr ⟨hname, rfl⟩⟩)

/-- The tag may stand anywhere among the entries of its variant. -/
theorem readEntries_tagged {name : String} (hname : t.named name = .ok content)
    (hfront : ∀ entry ∈ front, entry.1 ≠ t.tag) (hback : ∀ entry ∈ back, entry.1 ≠ t.tag)
    {depth : Nat} {text rest : List UInt8}
    (hread : entries (value depth) text = .ok (front ++ (t.tag, .string name) :: back) rest) :
    t.readEntries depth (0 :: text) 0 none [] text =
      .ok ⟨content, .object (front ++ back)⟩ rest := by
  obtain ⟨fuel, count, behind, hfuel, hread, hstart⟩ := readEntries_untagged hfront
    (untilNone_eq_ok.mp hread) (Nat.lt_succ_self _) (t := t) none []
  cases hread with
  | more hstep hread =>
      have hshort := length_lt_of_keyedValue? hstep
      rw [List.length_cons] at hfuel
      obtain ⟨_, hkey, hvalue⟩ := keyedValue?_some.mp hstep
      rw [← List.append_nil back] at hread
      obtain ⟨fuel', _, _, hfuel', hread, hend⟩ := readEntries_untagged hback hread (by omega)
        (t := t) (some content) (front.reverse ++ [])
      cases hread with
      | spent => simp at hfuel'
      | last hlast =>
          refine hstart.trans ((bind_of_ok hkey).trans ?_)
          simp only [↓reduceIte, Option.isSome_none, Bool.false_eq_true]
          refine (bind_of_ok (entryValue_of hvalue (readTag_ok hname))).trans ?_
          refine hend.trans ((bind_of_ok (keyedValue?_none.mp hlast)).trans ?_)
          rw [List.append_nil, List.reverse_append, List.reverse_reverse, List.reverse_reverse]
          rfl

theorem takes_tagged {name : String} {a : α} (hname : t.named name = .ok content)
    (hfront : ∀ entry ∈ front, entry.1 ≠ t.tag) (hback : ∀ entry ∈ back, entry.1 ≠ t.tag)
    (hcontent : content (.object (front ++ back)) = .ok a) :
    Takes (tagged t) (.object (front ++ (t.tag, .string name) :: back)) a := by
  refine ⟨?_, fun {depth text rest} hread => ?_⟩
  · have hend := contentOfEntries_untagged hback (some content) [] front.reverse
    rw [List.append_nil, Tagged.contentOfEntries, List.reverse_append, List.reverse_reverse,
      List.reverse_reverse] at hend
    simp only [tagged, Tagged.ofValue, contentOfEntries_untagged hfront, List.append_nil,
      Tagged.contentOfEntries, ↓reduceIte, Option.isSome_none, Bool.false_eq_true,
      Tagged.tagOfValue, hname]
    exact hend.trans hcontent
  · cases value_reads hread with
    | object hshape hnested =>
        obtain ⟨inner, middle, rfl, hentries, hclose⟩ := nested_eq_ok.mp hnested
        refine bind_eq_ok.mpr ⟨⟨content, .object (front ++ back)⟩, rest, ?_,
          ofExcept_eq_ok.mpr ⟨hcontent, rfl⟩⟩
        refine located_eq_ok.mpr (bind_eq_ok.mpr ⟨_, _, hshape, nested_eq_ok.mpr
          ⟨inner, middle, rfl, ?_, hclose⟩⟩)
        exact bind_eq_ok.mpr ⟨_, _, fuel_eq_ok.mpr ⟨rfl, rfl⟩,
          readEntries_tagged hname hfront hback hentries⟩

end Tags

end StubTree.Json.Decoder
