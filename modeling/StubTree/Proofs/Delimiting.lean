import StubTree.Proofs.Completeness
import StubTree.Proofs.Decoders
import StubTree.Proofs.LocalReading

/-!
How much of a text decoders take: one value of the grammar at its front, and no
look behind it if the value ends in a bracket or a quote. Each way of making a
decoder is gone through once.
-/

namespace StubTree.Json

open Effect Reader Grammar Relation

variable {α β ρ : Type} {text rest middle t : List UInt8}

namespace Grammar

/-- A value that tells by itself where it ends: any but a number. -/
def EndsItself (text rest : List UInt8) : Prop :=
  Spells .value text rest ∧ Stops startsNumber text

/-- At its closing bracket a container is closed. -/
theorem closes_at {frame : Frame} (h : Spells (.inside frame false) text rest)
    (hpast : pastBlanks text = ascii (closing frame) :: t) : rest = t := by
  cases h with
  | closed h =>
      obtain ⟨_, hblanks, _, rfl, rfl⟩ := h
      rw [past_of_blanks hblanks (not_blank_closing frame)] at hpast
      exact (List.cons.inj hpast).2
  | later h =>
      obtain ⟨_, ⟨_, hblanks, _, rfl, rfl⟩, -⟩ := h
      rw [past_of_blanks hblanks (by decide)] at hpast
      have hcomma := (List.cons.inj hpast).1
      cases frame <;> exact absurd hcomma (by decide)

theorem spells_nested (frame : Frame) {close : Reader Unit} {body : Nat → Reader α} {depth : Nat}
    {a : α} (hpast : pastBlanks text = ascii (opening frame) :: t)
    (h : nested close body depth (pastBlanks text) = .ok a rest)
    (hbody : ∀ {inner middle}, body inner t = .ok a middle → close middle = .ok () rest →
      Spells (.inside frame true) t rest) : Comp Blanks EndsItself text rest := by
  obtain ⟨inner, middle, -, hinner, hclose⟩ := nested_eq_ok.mp h
  rw [hpast, List.tail_cons] at hinner
  exact ⟨_, blanks_of_past hpast, .container ⟨_, rfl, rfl⟩ (hbody hinner hclose),
    stops_cons (by cases frame <;> decide)⟩

theorem spells_scalar {sh : Shape} (h : shape text = .ok sh rest) (hlist : sh ≠ .list)
    (hobject : sh ≠ .object) : Comp Blanks (Spells .value) text rest := by
  have hskip : skipStart [] text = .ok none rest := (skipStart_scalar [] h hlist hobject).1
  have hnothing : Remaining none rest rest := rfl
  obtain ⟨t, hblanks, t', hvalue, rfl⟩ := remaining_of_skipStart hskip hnothing
  exact ⟨t, hblanks, hvalue⟩

theorem quoted_of_stringBody {s : String} (h : stringBody text = .ok s rest) : Quoted text rest :=
  quoted_of_skipString (skipString_of_read h).1

theorem shape_string {s : String} :
    shape text = .ok (.string s) rest ↔
      ∃ quoted, pastBlanks text = ascii '"' :: quoted ∧ stringBody quoted = .ok s rest := by
  constructor
  · intro h
    have hbegins := shape_begins h
    generalize pastBlanks text = past at hbegins
    cases hbegins with
    | string hstring => exact ⟨_, rfl, hstring⟩
  · rintro ⟨quoted, hpast, hstring⟩
    rw [← shape_pastBlanks, hpast]
    exact shape_quoted hstring

theorem spells_string {s : String} (h : shape text = .ok (.string s) rest) :
    Comp Blanks EndsItself text rest := by
  obtain ⟨quoted, hpast, hstring⟩ := shape_string.mp h
  exact ⟨_, blanks_of_past hpast, .string ⟨_, ⟨_, rfl, rfl⟩, quoted_of_stringBody hstring⟩,
    stops_cons (by decide)⟩

end Grammar

section Steps

variable {reader : Reader α} {i : Nat} {a : α}
  (hspells : ∀ {text a rest}, reader text = .ok a rest → Comp Blanks (Spells .value) text rest)
include hspells

theorem spells_element (h : element? reader i text = .ok (some a) middle)
    (hrest : Spells (.inside .list false) middle rest) :
    Spells (.inside .list (i = 0)) text rest := by
  obtain ⟨_, hmore, hread⟩ := element?_some.mp h
  obtain ⟨t, hblanks, hvalue⟩ := hspells hread
  by_cases hi : i = 0
  · rw [decide_eq_true hi] at hmore ⊢
    obtain ⟨b, t, -, hpast, rfl⟩ := atElement_first hmore
    exact .first ((blanks_of_past hpast).trans hblanks) hvalue hrest
  · rw [decide_eq_false hi] at hmore ⊢
    obtain ⟨t, hpast, rfl⟩ := atElement_later hmore
    have hcomma : Comp Blanks (Only ',') text t := ⟨_, blanks_of_past hpast, _, rfl, rfl⟩
    exact .later ⟨t, hcomma, (blanks_pastBlanks t).trans hblanks⟩ hvalue hrest

theorem spells_entry {name : String} {named : List UInt8}
    (hkey : key? (i = 0) text = .ok (some name) named)
    (h : entryValue name reader named = .ok a middle)
    (hrest : Spells (.inside .object false) middle rest) :
    Spells (.inside .object (i = 0)) text rest := by
  obtain ⟨quoted, hmore, hname⟩ := key?_some.mp hkey
  obtain ⟨_, hcolon, hread⟩ := entryValue_eq_ok.mp h
  obtain ⟨t, hblanks, hvalue⟩ := hspells hread
  by_cases hi : i = 0
  · rw [decide_eq_true hi] at hmore ⊢
    obtain ⟨_, hpast, rfl⟩ := atKey_first hmore
    exact .first (key_object hpast (quoted_of_stringBody hname) hcolon hblanks) hvalue hrest
  · rw [decide_eq_false hi] at hmore ⊢
    obtain ⟨t, _, hpast, hquote, rfl⟩ := atKey_later hmore
    have hcomma : Comp Blanks (Only ',') text t := ⟨_, blanks_of_past hpast, _, rfl, rfl⟩
    have hkey := key_object hquote (quoted_of_stringBody hname) hcolon hblanks
    exact .later ⟨t, hcomma, hkey⟩ hvalue hrest

end Steps

theorem past_of_noElement {reader : Reader α} {i : Nat}
    (h : element? reader i text = .ok none middle) (hclose : closeList middle = .ok () rest) :
    pastBlanks text = ascii ']' :: rest := by
  obtain ⟨t, hpast, rfl⟩ := atElement_false (element?_none.mp h)
  rw [hpast, ← closeList_ok hclose, ← hpast, pastBlanks_pastBlanks]

theorem past_of_noKey {first : Bool} (h : key? first text = .ok none middle)
    (hclose : closeObject middle = .ok () rest) : pastBlanks text = ascii '\x7d' :: rest := by
  obtain ⟨t, hpast, rfl⟩ := atKey_false (key?_none.mp h)
  rw [hpast, ← closeObject_ok hclose, ← hpast, pastBlanks_pastBlanks]

theorem spells_elements {reader : Reader α}
    (hspells : ∀ {text a rest}, reader text = .ok a rest → Comp Blanks (Spells .value) text rest)
    {k : Nat} {fuel : Fuel} {count : Nat} {as : List α}
    (h : Collects (fun i => element? reader (i + k)) fuel count text as middle)
    (hclose : closeList middle = .ok () rest) :
    Spells (.inside .list (count + k = 0)) text rest := by
  induction h with
  | spent => exact closed_of_past (closeList_ok hclose)
  | last hstep => exact closed_of_past (past_of_noElement hstep hclose)
  | more hstep _ ih =>
      have hrest := ih hclose
      rw [decide_eq_false (by omega)] at hrest
      exact spells_element hspells hstep hrest

namespace Decoder

/-- A decoder that takes a value of the grammar and looks at no more than the byte behind it. -/
structure Regular (d : Decoder α) : Prop where
  spells : ∀ {depth text a rest}, d.read depth text = .ok a rest →
    Comp Blanks (Spells .value) text rest
  isLocal : ∀ depth, Local (d.read depth)
  length_lt : ∀ {depth text a rest}, d.read depth text = .ok a rest → rest.length < text.length

/-- A decoder that takes a value of the grammar and looks at nothing behind it. -/
structure Delimited (d : Decoder α) : Prop where
  spells : ∀ {depth text a rest}, d.read depth text = .ok a rest → Comp Blanks EndsItself text rest
  ends : ∀ depth a, EndsAt (d.read depth) a

theorem Delimited.regular {d : Decoder α} (h : Delimited d) : Regular d := by
  refine ⟨fun hread => ?_, fun depth => local_of_endsAt (h.ends depth), (h.ends _ _).length_lt⟩
  obtain ⟨t, hblanks, hvalue, -⟩ := h.spells hread
  exact ⟨t, hblanks, hvalue⟩

/-- A text is a document if nothing but blanks is left when its value has been taken. -/
theorem Delimited.isDocument_iff {d : Decoder α} (h : Delimited d) {depth : Nat} {a : α}
    (hread : d.read depth text = .ok a rest) : IsDocument text ↔ Blanks rest [] := by
  obtain ⟨t, hblanks, hvalue, hstart⟩ := h.spells hread
  have hskip := skipValue_of_spells hblanks hvalue (.inl hstart)
  rw [Json.isDocument_iff]
  constructor
  · rintro ⟨rest', hskip', hrest⟩
    cases hskip.symm.trans hskip'
    exact hrest
  · exact fun hrest => ⟨rest, hskip, hrest⟩

theorem Regular.map {d : Decoder α} (h : Regular d) (f : α → β) : Regular (d.map f) := by
  refine ⟨fun hread => ?_, fun depth => (h.isLocal depth).map f, fun hread => ?_⟩
  · obtain ⟨a, hread, -⟩ := map_eq_ok.mp hread
    exact h.spells hread
  · obtain ⟨a, hread, -⟩ := map_eq_ok.mp hread
    exact h.length_lt hread

theorem regular_scalar {accept : Shape → Except Cause α} (hlist : ∀ a, accept .list ≠ .ok a)
    (hobject : ∀ a, accept .object ≠ .ok a) : Regular (scalar accept) := by
  have hshape {depth : Nat} {text rest : List UInt8} {a : α}
      (h : (scalar accept).read depth text = .ok a rest) :
      ∃ sh, shape text = .ok sh rest ∧ sh ≠ .list ∧ sh ≠ .object := by
    obtain ⟨sh, _, hshape, h⟩ := bind_eq_ok.mp (located_eq_ok.mp h)
    obtain ⟨haccept, rfl⟩ := ofExcept_eq_ok.mp h
    refine ⟨sh, hshape, ?_, ?_⟩
    · rintro rfl
      exact hlist a haccept
    · rintro rfl
      exact hobject a haccept
  refine ⟨fun hread => ?_, fun depth => ?_, fun hread => ?_⟩
  · obtain ⟨sh, hshape, hlist, hobject⟩ := hshape hread
    exact spells_scalar hshape hlist hobject
  · exact (local_shape.bind fun sh => (still_ofExcept _).local).located
  · obtain ⟨sh, hshape, hlist, hobject⟩ := hshape hread
    exact (skipStart_scalar [] hshape hlist hobject).2

theorem regular_string : Regular string := regular_scalar nofun nofun

theorem regular_boolean : Regular boolean := regular_scalar nofun nofun

theorem regular_bounded (least most : Int) (wanted : Expectation) :
    Regular (bounded least most wanted) := regular_scalar nofun nofun

theorem regular_unit : Regular unit := regular_scalar nofun nofun

theorem Regular.optional {d : Decoder α} (h : Regular d) : Regular (optional d) := by
  have hcases {depth : Nat} {text rest : List UInt8} {a : Option α}
      (hread : (Decoder.optional d).read depth text = .ok a rest) :
      literal "null".toList (pastBlanks text) = .ok () rest ∨
        ∃ a, d.read depth (pastBlanks text) = .ok a rest := by
    obtain ⟨b, _, hpeek, hread⟩ := bind_eq_ok.mp hread
    obtain ⟨-, rfl⟩ := peekPastBlanks_eq_ok.mp hpeek
    split at hread
    · obtain ⟨_, _, hword, hread⟩ := bind_eq_ok.mp hread
      obtain ⟨-, rfl⟩ := pure_eq_ok.mp hread
      exact .inl hword
    · obtain ⟨a, hread, -⟩ := map_eq_ok.mp hread
      exact .inr ⟨a, hread⟩
  refine ⟨fun {depth text a rest} hread => ?_, fun depth => ?_, fun {depth text a rest} hread => ?_⟩
  · rcases hcases hread with hword | ⟨a, hread⟩
    · exact ⟨_, blanks_pastBlanks _, .null (word_of_literal hword)⟩
    · obtain ⟨t, hblanks, hvalue⟩ := h.spells hread
      exact ⟨t, (blanks_pastBlanks _).trans hblanks, hvalue⟩
  · refine local_peekPastBlanks.bind fun b => ?_
    split
    · exact (local_literal _).bind fun _ => local_pure _
    · exact (h.isLocal depth).map some
  · have hshort : (pastBlanks text).length ≤ text.length := (List.dropWhile_suffix _).length_le
    rcases hcases hread with hword | ⟨a, hread⟩
    · exact (length_lt_of_literal (by decide) hword).trans_le hshort
    · exact (h.length_lt hread).trans_le hshort

theorem delimited_list {d : Decoder α} (h : Regular d) : Delimited (list d) := by
  refine ⟨fun {depth text a rest} hread => ?_, fun depth a => ?_⟩
  · obtain ⟨sh, _, hshape, hread⟩ := bind_eq_ok.mp (located_eq_ok.mp hread)
    cases sh with
    | list =>
        obtain ⟨rfl, t, hpast⟩ := shape_list hshape
        exact spells_nested .list hpast hread fun hitems hclose =>
          spells_elements (k := 0) h.spells (untilNone_eq_ok.mp hitems) hclose
    | _ => exact absurd hread fail_ne_ok
  · refine (endsAt_congr located_eq_ok).mpr (local_shape.bind_endsAt fun sh _ => ?_)
    cases sh with
    | list =>
        exact endsAt_nested (fun inner _ => local_elements (h.isLocal inner) h.length_lt)
          endsAt_closeList a
    | _ => exact fun _ _ hread => absurd hread fail_ne_ok

section Records

variable {fields : List (Field ρ)} {depth : Nat}

theorem spells_readEntries (h : ∀ field ∈ fields, Regular field.update) {fuel : Fuel} {count : Nat}
    {seen : List String} {r r' : ρ}
    (hread : readEntries fields depth fuel count seen r text = .ok r' middle)
    (hclose : closeObject middle = .ok () rest) :
    Spells (.inside .object (count = 0)) text rest := by
  induction fuel generalizing count seen r text with
  | nil =>
      obtain ⟨-, rfl⟩ := ofExcept_eq_ok.mp hread
      exact closed_of_past (closeObject_ok hclose)
  | cons f fuel ih =>
      obtain ⟨key, named, hkey, hread⟩ := bind_eq_ok.mp hread
      cases key with
      | none =>
          obtain ⟨-, rfl⟩ := ofExcept_eq_ok.mp hread
          exact closed_of_past (past_of_noKey hkey hclose)
      | some name =>
          cases hfind : fields.find? (·.name = name) with
          | none =>
              simp only [hfind] at hread
              obtain ⟨_, _, hentry, hread⟩ := bind_eq_ok.mp hread
              exact spells_entry spells_of_skipValue hkey hentry (ih hread)
          | some field =>
              simp only [hfind] at hread
              split at hread
              · exact absurd hread fail_ne_ok
              · obtain ⟨_, _, hentry, hread⟩ := bind_eq_ok.mp hread
                have hfield := h field (List.mem_of_find?_eq_some hfind)
                exact spells_entry hfield.spells hkey hentry (ih hread)

theorem spells_readPositions (h : ∀ field ∈ fields, Regular field.update) {wanted : Expectation}
    {i : Nat} {r r' : ρ} (hread : readPositions wanted depth fields i r text = .ok r' middle)
    (hclose : closeList middle = .ok () rest) :
    Spells (.inside .list (i = 0)) text rest := by
  induction fields generalizing i r text with
  | nil =>
      obtain ⟨-, rfl⟩ := pure_eq_ok.mp hread
      exact closed_of_past (closeList_ok hclose)
  | cons field fields ih =>
      rw [List.forall_mem_cons] at h
      obtain ⟨found, _, hstep, hread⟩ := bind_eq_ok.mp hread
      cases found with
      | some update => exact spells_element h.1.spells hstep (ih h.2 hread)
      | none =>
          dsimp only at hread
          split at hread
          · exact absurd hread fail_ne_ok
          · obtain ⟨t, hpast, rfl⟩ := atElement_false (element?_none.mp hstep)
            obtain rfl : rest = t := closes_at (ih h.2 hread) (pastBlanks_bracket t)
            exact closed_of_past hpast

theorem local_readEntries (h : ∀ field ∈ fields, Regular field.update) (fuel : Fuel) (count : Nat)
    (seen : List String) (r : ρ) :
    LocalWith fuel fun fuel => readEntries fields depth fuel count seen r := by
  induction fuel generalizing count seen r with
  | nil => exact localWith_nil _
  | cons f fuel ih =>
      refine localWith_cons _ (fun _ _ => rfl) (local_key? _) fun key => ?_
      cases key with
      | none => exact .inl ⟨_, fun _ => rfl, (still_ofExcept _).local⟩
      | some name =>
          refine .inr ⟨length_lt_of_key?, ?_⟩
          dsimp only
          split
          · exact (local_skipValue.entryValue name).bind_localWith fun _ => ih _ _ _
          · rename_i field hfind
            have hfield := h field (List.mem_of_find?_eq_some hfind)
            split
            · exact (local_fail _).localWith fuel
            · exact ((hfield.isLocal depth).entryValue name).bind_localWith fun _ => ih _ _ _

theorem local_readPositions (h : ∀ field ∈ fields, Regular field.update) (wanted : Expectation)
    (i : Nat) (r : ρ) : Local (readPositions wanted depth fields i r) := by
  induction fields generalizing i r with
  | nil => exact local_pure _
  | cons field fields ih =>
      rw [List.forall_mem_cons] at h
      refine ((h.1.isLocal depth).element? i).bind fun found => ?_
      cases found with
      | some update => exact ih h.2 _ _
      | none =>
          dsimp only
          split
          · exact local_fail _
          · exact ih h.2 _ _

theorem delimited_record {shown : String} {blank : ρ}
    (h : fields.Forall fun field => Regular field.update) :
    Delimited (record shown fields blank) := by
  have h := List.forall_iff_forall_mem.mp h
  refine ⟨fun {depth text a rest} hread => ?_, fun depth a => ?_⟩
  · obtain ⟨sh, _, hshape, hread⟩ := bind_eq_ok.mp (located_eq_ok.mp hread)
    cases sh with
    | object =>
        obtain ⟨rfl, t, hpast⟩ := shape_object hshape
        refine spells_nested .object hpast hread fun hentries hclose => ?_
        obtain ⟨_, _, hfuel, hentries⟩ := bind_eq_ok.mp hentries
        obtain ⟨-, rfl⟩ := fuel_eq_ok.mp hfuel
        exact spells_readEntries h hentries hclose
    | list =>
        obtain ⟨rfl, t, hpast⟩ := shape_list hshape
        exact spells_nested .list hpast hread (spells_readPositions h)
    | _ => exact absurd hread fail_ne_ok
  · refine (endsAt_congr located_eq_ok).mpr (local_shape.bind_endsAt fun sh _ => ?_)
    cases sh with
    | object =>
        exact endsAt_nested
          (fun inner _ => local_fuel fun fuel => local_readEntries h fuel 0 [] blank)
          endsAt_closeObject a
    | list =>
        exact endsAt_nested (fun inner _ => local_readPositions h _ 0 blank) endsAt_closeList a
    | _ => exact fun _ _ hread => absurd hread fail_ne_ok

end Records

section Tags

variable {t : Tagged α} {depth : Nat}

theorem spells_value {v : Value} (h : value depth text = .ok v rest) :
    Comp Blanks (Spells .value) text rest :=
  spells_of_skipValue (skipValue_of_value h)

theorem spells_readTag {content : Value → Except Cause α}
    (h : t.readTag text = .ok content rest) : Comp Blanks (Spells .value) text rest := by
  obtain ⟨sh, _, hshape, h⟩ := bind_eq_ok.mp (located_eq_ok.mp h)
  obtain ⟨hname, rfl⟩ := ofExcept_eq_ok.mp h
  cases sh with
  | string s => exact spells_scalar hshape (by simp) (by simp)
  | _ => cases hname

theorem local_readTag (t : Tagged α) : Local t.readTag :=
  (local_shape.bind fun _ => (still_ofExcept _).local).located

theorem spells_taggedEntries {fuel : Fuel} {count : Nat}
    {found : Option (Value → Except Cause α)} {others : List (String × Value)}
    {unopened : Tagged.Unopened α}
    (hread : t.readEntries depth fuel count found others text = .ok unopened middle)
    (hclose : closeObject middle = .ok () rest) :
    Spells (.inside .object (count = 0)) text rest := by
  induction fuel generalizing count found others text with
  | nil => exact absurd hread fail_ne_ok
  | cons f fuel ih =>
      obtain ⟨key, named, hkey, hread⟩ := bind_eq_ok.mp hread
      cases key with
      | none =>
          cases found with
          | none => exact absurd hread fail_ne_ok
          | some variant =>
              obtain ⟨-, rfl⟩ := pure_eq_ok.mp hread
              exact closed_of_past (past_of_noKey hkey hclose)
      | some name =>
          dsimp only at hread
          split at hread
          · split at hread
            · exact absurd hread fail_ne_ok
            · obtain ⟨_, _, hentry, hread⟩ := bind_eq_ok.mp hread
              exact spells_entry spells_readTag hkey hentry (ih hread)
          · obtain ⟨_, _, hentry, hread⟩ := bind_eq_ok.mp hread
            exact spells_entry spells_value hkey hentry (ih hread)

theorem local_taggedEntries (t : Tagged α) (depth : Nat) (fuel : Fuel) (count : Nat)
    (found : Option (Value → Except Cause α)) (others : List (String × Value)) :
    LocalWith fuel fun fuel => t.readEntries depth fuel count found others := by
  induction fuel generalizing count found others with
  | nil => exact localWith_nil _
  | cons f fuel ih =>
      refine localWith_cons _ (fun _ _ => rfl) (local_key? _) fun key => ?_
      cases key with
      | none =>
          cases found with
          | none => exact .inl ⟨_, fun _ => rfl, local_fail _⟩
          | some variant => exact .inl ⟨_, fun _ => rfl, local_pure _⟩
      | some name =>
          refine .inr ⟨length_lt_of_key?, ?_⟩
          dsimp only
          split
          · split
            · exact (local_fail _).localWith fuel
            · exact ((local_readTag t).entryValue name).bind_localWith fun _ => ih _ _ _
          · exact ((local_value depth).entryValue name).bind_localWith fun _ => ih _ _ _

theorem spells_taggedElements {unopened : Tagged.Unopened α}
    (hread : t.readElements depth text = .ok unopened middle)
    (hclose : closeList middle = .ok () rest) : Spells (.inside .list true) text rest := by
  obtain ⟨found, _, hstep, hread⟩ := bind_eq_ok.mp hread
  cases found with
  | none => exact absurd hread fail_ne_ok
  | some variant =>
      obtain ⟨items, _, hitems, hread⟩ := bind_eq_ok.mp hread
      obtain ⟨-, rfl⟩ := pure_eq_ok.mp hread
      exact spells_element spells_readTag hstep
        (spells_elements (k := 1) spells_value (untilNone_eq_ok.mp hitems) hclose)

theorem local_taggedElements (t : Tagged α) (depth : Nat) : Local (t.readElements depth) := by
  refine ((local_readTag t).element? 0).bind fun found => ?_
  cases found with
  | none => exact local_fail _
  | some variant =>
      have hitems : Local (untilNone fun i => Reader.element? (value depth) (i + 1)) :=
        local_untilNone (fun i => (local_value depth).element? (i + 1))
          fun hstep => length_lt_of_element? hstep length_lt_of_value
      exact hitems.bind fun _ => local_pure _

/-- What is read into is looked at after its container has been closed. -/
theorem delimited_tagged (t : Tagged α) : Delimited (tagged t) := by
  refine ⟨fun {depth text a rest} hread => ?_, fun depth a => ?_⟩
  · obtain ⟨unopened, _, hunopened, hcontent⟩ := bind_eq_ok.mp hread
    obtain ⟨-, rfl⟩ := ofExcept_eq_ok.mp hcontent
    obtain ⟨sh, _, hshape, hunopened⟩ := bind_eq_ok.mp (located_eq_ok.mp hunopened)
    cases sh with
    | object =>
        obtain ⟨rfl, behind, hpast⟩ := shape_object hshape
        refine spells_nested .object hpast hunopened fun hentries hclose => ?_
        obtain ⟨_, _, hfuel, hentries⟩ := bind_eq_ok.mp hentries
        obtain ⟨-, rfl⟩ := fuel_eq_ok.mp hfuel
        exact spells_taggedEntries hentries hclose
    | list =>
        obtain ⟨rfl, behind, hpast⟩ := shape_list hshape
        exact spells_nested .list hpast hunopened spells_taggedElements
    | _ => exact absurd hunopened fail_ne_ok
  · refine endsAt_bind_still (fun unopened => ?_) (fun unopened => still_ofExcept _) a
    refine (endsAt_congr located_eq_ok).mpr (local_shape.bind_endsAt fun sh _ => ?_)
    cases sh with
    | object =>
        exact endsAt_nested
          (fun inner _ => local_fuel fun fuel => local_taggedEntries t inner fuel 0 none [])
          endsAt_closeObject unopened
    | list =>
        exact endsAt_nested (fun inner _ => local_taggedElements t inner) endsAt_closeList unopened
    | _ => exact fun _ _ hread => absurd hread fail_ne_ok

end Tags

section Choices

variable {variants : List (String × Payload α)} {fallback : Option α} {name : String}
  {payload : Payload α} {depth : Nat}

def Payload.Regular : Payload α → Prop
  | .bare _ => True
  | .carrying d => d.Regular

theorem regular_of_variant? (h : ∀ entry ∈ variants, entry.2.Regular)
    (hvariant : variant? variants fallback name = .ok payload) : payload.Regular := by
  simp only [variant?] at hvariant
  cases hlookup : variants.lookup name with
  | some found =>
      rw [hlookup] at hvariant
      cases hvariant
      obtain ⟨front, back, rfl, -⟩ := List.lookup_eq_some_iff.mp hlookup
      exact h (name, payload) (by simp)
  | none =>
      rw [hlookup] at hvariant
      cases fallback with
      | none => cases hvariant
      | some a =>
          cases hvariant
          trivial

theorem Payload.Regular.spells (h : payload.Regular) {a : α}
    (hread : readPayload depth payload text = .ok a rest) :
    Comp Blanks (Spells .value) text rest := by
  cases payload with
  | carrying d => exact Decoder.Regular.spells h hread
  | bare b =>
      obtain ⟨_, _, hnull, hread⟩ := bind_eq_ok.mp hread
      obtain ⟨-, rfl⟩ := pure_eq_ok.mp hread
      exact regular_unit.spells hnull

theorem Payload.Regular.isLocal (h : payload.Regular) (depth : Nat) :
    Local (readPayload depth payload) := by
  cases payload with
  | carrying d => exact Decoder.Regular.isLocal h depth
  | bare b => exact (regular_unit.isLocal depth).bind fun _ => local_pure _

theorem readVariant_eq_ok :
    readVariant variants fallback text = .ok (name, payload) rest ↔
      shape text = .ok (.string name) rest ∧ variant? variants fallback name = .ok payload := by
  simp only [readVariant, located_eq_ok, bind_eq_ok, ofExcept_eq_ok, pure_eq_ok]
  constructor
  · rintro ⟨sh, _, hshape, found, _, ⟨hname, rfl⟩, _, _, ⟨hvariant, rfl⟩, heq, rfl⟩
    cases heq
    cases sh with
    | string s =>
        cases hname
        exact ⟨hshape, hvariant⟩
    | _ => cases hname
  · rintro ⟨hshape, hvariant⟩
    exact ⟨_, rest, hshape, name, rest, ⟨rfl, rfl⟩, payload, rest, ⟨hvariant, rfl⟩, rfl, rfl⟩

theorem endsAt_shape_string (s : String) : EndsAt shape (.string s) := by
  intro text rest h
  obtain ⟨quoted, hpast, hstring⟩ := shape_string.mp h
  have hpast : text.dropWhile isBlankByte = ascii '"' :: quoted := hpast
  obtain ⟨used, hne, rfl, hstring'⟩ := endsAt_stringBody s _ _ hstring
  refine ⟨text.takeWhile isBlankByte ++ ascii '"' :: used, by simp, ?_, fun rest' => ?_⟩
  · rw [List.append_assoc, List.cons_append, ← hpast, List.takeWhile_append_dropWhile]
  · have hhead : (ascii '"' :: (used ++ rest')).head? = (text.dropWhile isBlankByte).head? := by
      rw [hpast]
      rfl
    rw [List.append_assoc, List.cons_append]
    exact shape_string.mpr ⟨used ++ rest', (spans isBlankByte hhead).2, hstring' rest'⟩

theorem endsAt_readVariant (found : String × Payload α) :
    EndsAt (readVariant variants fallback) found := by
  intro text rest h
  obtain ⟨hshape, hvariant⟩ := readVariant_eq_ok.mp h
  obtain ⟨used, hne, htext, hshape'⟩ := endsAt_shape_string _ _ _ hshape
  exact ⟨used, hne, htext, fun rest' => readVariant_eq_ok.mpr ⟨hshape' rest', hvariant⟩⟩

theorem atOnlyKey_eq_ok :
    atOnlyKey text = .ok () rest ↔
      pastBlanks text = rest ∧ ∃ quoted, rest = ascii '"' :: quoted := by
  constructor
  · intro h
    obtain ⟨b, behind, hpast, h⟩ := peeked h
    split at h
    · rename_i hquote
      obtain ⟨-, rfl⟩ := pure_eq_ok.mp h
      exact ⟨hpast, behind, by rw [hquote]⟩
    · split at h <;> simp at h
  · rintro ⟨hpast, quoted, rfl⟩
    exact atOnlyKey_ok hpast

theorem local_atOnlyKey : Local atOnlyKey := by
  refine local_peeked fun b => ?_
  split
  · exact local_pure _
  · split <;> exact local_failAtNext _

theorem closeOnly_eq_ok :
    closeOnly text = .ok () rest ↔ pastBlanks text = ascii '\x7d' :: rest := by
  refine ⟨fun h => ?_, closeOnly_ok⟩
  obtain ⟨b, _, hpeek, h⟩ := bind_eq_ok.mp h
  obtain ⟨hb, rfl⟩ := peekPastBlanks_eq_ok.mp hpeek
  cases b with
  | none => simp at h
  | some b =>
      dsimp only at h
      split at h
      · rename_i hbrace
        obtain ⟨behind, hpast⟩ := List.head?_eq_some_iff.mp hb
        rw [hpast] at h ⊢
        obtain rfl := discard_eq_ok.mp h
        rw [hbrace]
        rfl
      · simp at h

theorem endsAt_closeOnly (u : Unit) : EndsAt closeOnly u := endsAt_of_past closeOnly_eq_ok

theorem spells_readOnly (h : ∀ entry ∈ variants, entry.2.Regular) {a : α} {b : UInt8}
    (hread : readOnly variants fallback depth (b :: t) = .ok a rest) :
    Spells (.inside .object true) t rest := by
  cases depth with
  | zero => exact absurd hread failAtNext_ne_ok
  | succ inner =>
      obtain ⟨_, _, hdiscard, hread⟩ := bind_eq_ok.mp hread
      obtain rfl := discard_eq_ok.mp hdiscard
      obtain ⟨_, _, hquote, hread⟩ := bind_eq_ok.mp hread
      obtain ⟨hpast, quoted, rfl⟩ := atOnlyKey_eq_ok.mp hquote
      obtain ⟨⟨name, payload⟩, named, hname, hread⟩ := bind_eq_ok.mp hread
      obtain ⟨hshape, hvariant⟩ := readVariant_eq_ok.mp hname
      obtain ⟨quoted', hquoted, hstring⟩ := shape_string.mp hshape
      obtain ⟨a', middle, hentry, hread⟩ := bind_eq_ok.mp hread
      obtain ⟨_, _, hclose, hread⟩ := bind_eq_ok.mp hread
      obtain ⟨-, rfl⟩ := pure_eq_ok.mp hread
      obtain ⟨_, hcolon, hpayload⟩ := entryValue_eq_ok.mp hentry
      obtain ⟨t', hblanks, hvalue⟩ := (regular_of_variant? h hvariant).spells hpayload
      rw [← hpast, pastBlanks_pastBlanks] at hquoted
      exact .first (key_object hquoted (quoted_of_stringBody hstring) hcolon hblanks) hvalue
        (closed_of_past (closeOnly_eq_ok.mp hclose))

theorem endsAt_readOnly (h : ∀ entry ∈ variants, entry.2.Regular) (a : α) :
    EndsAt (readOnly variants fallback depth) a := by
  cases depth with
  | zero => exact fun _ _ hread => absurd hread failAtNext_ne_ok
  | succ inner =>
      refine local_discard.bind_endsAt fun _ _ => local_atOnlyKey.bind_endsAt fun _ _ => ?_
      refine (local_of_endsAt endsAt_readVariant).bind_endsAt fun ⟨name, payload⟩ hfound => ?_
      obtain ⟨text, rest, hname⟩ := hfound
      have hpayload := regular_of_variant? h (readVariant_eq_ok.mp hname).2
      refine ((hpayload.isLocal inner).entryValue name).bind_endsAt fun a' _ => ?_
      exact endsAt_bind_still endsAt_closeOnly (fun _ => still_pure a') a

theorem delimited_choice (h : ∀ entry ∈ variants, entry.2.Regular) :
    Delimited (choice variants fallback) := by
  refine ⟨fun {depth text a rest} hread => ?_, fun depth a => ?_⟩
  · obtain ⟨b, t, hpast, hread⟩ := peeked hread
    split at hread
    · rename_i hbrace
      subst hbrace
      have hopening : Only (opening .object) (ascii '\x7b' :: t) t := ⟨_, rfl, rfl⟩
      exact ⟨_, blanks_of_past hpast, .container hopening (spells_readOnly h hread),
        stops_cons (by decide)⟩
    · split at hread
      · obtain ⟨⟨name, payload⟩, _, hname, hread⟩ := bind_eq_ok.mp hread
        obtain ⟨-, rfl⟩ := ofExcept_eq_ok.mp (within_eq_ok.mp hread)
        have hshape := (readVariant_eq_ok.mp hname).1
        rw [← hpast, shape_pastBlanks] at hshape
        exact spells_string hshape
      · simp at hread
  · refine local_peekPastBlanks.bind_endsAt fun b _ => ?_
    cases b with
    | none => exact fun _ _ hread => absurd hread failAtNext_ne_ok
    | some b =>
        dsimp only
        split
        · exact endsAt_readOnly h a
        · split
          · exact endsAt_bind_still endsAt_readVariant
              (fun found => (still_ofExcept _).within _) a
          · exact fun _ _ hread => absurd hread failAtNext_ne_ok

end Choices

end Decoder

end StubTree.Json
