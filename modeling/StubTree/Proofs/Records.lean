import Mathlib.Data.List.Nodup
import StubTree.Proofs.Decoders

/-!
Records from objects. What may stand in an object is said slot by slot: which
key, which values, and whether the entry may be missing. A record is restored
from any object that fits its slots, whatever the order of the entries and
whatever stands between them.
-/

namespace StubTree.Json

/-- A place of an object: its key, whether it may be left empty, and what may stand there. -/
structure Slot where
  key : String
  omissible : Prop
  spells : Value → Prop

namespace Slot

def required (key : String) (spells : Value → Prop) : Slot := ⟨key, False, spells⟩

/-- A slot for `a`, which may be left empty if a missing entry stands for `a`. -/
def optional {α : Type} (key : String) (a standard : α) (spells : Value → Prop) : Slot :=
  ⟨key, a = standard, spells⟩

@[simp] theorem required_key (key : String) (spells : Value → Prop) :
    (required key spells).key = key := rfl

@[simp] theorem optional_key {α : Type} (key : String) (a standard : α) (spells : Value → Prop) :
    (optional key a standard spells).key = key := rfl

end Slot

/-- The entries for some slots in their order. -/
inductive Written : List Slot → List (String × Value) → Prop where
  | nil : Written [] []
  | entry {slot : Slot} {slots : List Slot} {v : Value} {kept : List (String × Value)} :
      slot.spells v → Written slots kept → Written (slot :: slots) ((slot.key, v) :: kept)
  | omitted {slot : Slot} {slots : List Slot} {kept : List (String × Value)} :
      slot.omissible → Written slots kept → Written (slot :: slots) kept

/-- An object with the entries for some slots, in any order and with others among them. -/
def ObjectSpells (slots : List Slot) (v : Value) : Prop :=
  ∃ kept extra entries, Written slots kept ∧ (∀ entry ∈ extra, entry.1 ∉ slots.map Slot.key) ∧
    entries.Perm (kept ++ extra) ∧ v = .object entries

/-- A list with a value for each place of it. -/
def ListSpells (places : List (Value → Prop)) (v : Value) : Prop :=
  ∃ items, v = .list items ∧ List.Forall₂ (fun spells v => spells v) places items

/-- Entries that fit some slots, where the entries for the keys in `seen` are gone. -/
structure Fits (slots : List Slot) (entries : List (String × Value)) (seen : List String) :
    Prop where
  spelled : ∀ slot ∈ slots, ∀ v, (slot.key, v) ∈ entries → slot.spells v
  once : ∀ slot ∈ slots, (entries.map Prod.fst ++ seen).count slot.key ≤ 1
  omitted : ∀ slot ∈ slots, slot.key ∉ entries.map Prod.fst ++ seen → slot.omissible

section Fitting

variable {slots : List Slot} {entries kept : List (String × Value)} {seen : List String}

theorem Written.keys_sublist (h : Written slots kept) :
    (kept.map Prod.fst).Sublist (slots.map Slot.key) := by
  induction h with
  | nil => exact .slnil
  | entry _ _ ih => exact ih.cons_cons _
  | omitted _ _ ih => exact ih.cons _

theorem Written.spelled (h : Written slots kept) (hkeys : (slots.map Slot.key).Nodup) :
    ∀ slot ∈ slots, ∀ v, (slot.key, v) ∈ kept → slot.spells v := by
  induction h with
  | nil => simp
  | @entry slot slots v kept hspells hwritten ih =>
      obtain ⟨hslot, hkeys⟩ := List.nodup_cons.mp hkeys
      have hkept {u : Value} : (slot.key, u) ∉ kept := fun hu =>
        hslot (hwritten.keys_sublist.subset (List.mem_map_of_mem hu))
      intro other hother u hu
      rcases List.mem_cons.mp hother with rfl | hother
      · rcases List.mem_cons.mp hu with heq | hu
        · cases heq
          exact hspells
        · exact absurd hu hkept
      · rcases List.mem_cons.mp hu with heq | hu
        · rw [Prod.mk.injEq] at heq
          exact absurd (heq.1 ▸ List.mem_map_of_mem hother) hslot
        · exact ih hkeys other hother u hu
  | @omitted slot slots kept _ hwritten ih =>
      obtain ⟨hslot, hkeys⟩ := List.nodup_cons.mp hkeys
      intro other hother u hu
      rcases List.mem_cons.mp hother with rfl | hother
      · exact absurd (hwritten.keys_sublist.subset (List.mem_map_of_mem hu)) hslot
      · exact ih hkeys other hother u hu

theorem Written.omissible (h : Written slots kept) :
    ∀ slot ∈ slots, slot.key ∉ kept.map Prod.fst → slot.omissible := by
  induction h with
  | nil => simp
  | entry _ _ ih =>
      intro slot hslot hkey
      rw [List.map_cons, List.mem_cons, not_or] at hkey
      rcases List.mem_cons.mp hslot with rfl | hslot
      · exact absurd rfl hkey.1
      · exact ih slot hslot hkey.2
  | omitted homissible _ ih =>
      intro slot hslot hkey
      rcases List.mem_cons.mp hslot with rfl | hslot
      · exact homissible
      · exact ih slot hslot hkey

theorem ObjectSpells.fits {v : Value} (h : ObjectSpells slots v)
    (hkeys : (slots.map Slot.key).Nodup) :
    ∃ entries, v = .object entries ∧ Fits slots entries [] := by
  obtain ⟨kept, extra, entries, hwritten, hextra, hperm, rfl⟩ := h
  have hunknown {slot : Slot} (hslot : slot ∈ slots) : slot.key ∉ extra.map Prod.fst := by
    intro hmem
    obtain ⟨entry, hentry, hkey⟩ := List.mem_map.mp hmem
    exact hextra entry hentry (hkey ▸ List.mem_map_of_mem hslot)
  have hnames := hperm.map Prod.fst
  rw [List.map_append] at hnames
  refine ⟨entries, rfl, fun slot hslot v hv => ?_, fun slot hslot => ?_, fun slot hslot hkey => ?_⟩
  · rcases List.mem_append.mp (hperm.mem_iff.mp hv) with hv | hv
    · exact hwritten.spelled hkeys slot hslot v hv
    · exact absurd (List.mem_map_of_mem hv) (hunknown hslot)
  · rw [List.append_nil, hnames.count_eq, List.count_append,
      List.count_eq_zero_of_not_mem (hunknown hslot)]
    exact List.nodup_iff_count_le_one.mp (hkeys.sublist hwritten.keys_sublist) slot.key
  · rw [List.append_nil, hnames.mem_iff, List.mem_append, not_or] at hkey
    exact hwritten.omissible slot hslot hkey.1

theorem Written.spells (h : Written slots kept) : ObjectSpells slots (.object kept) :=
  ⟨kept, [], kept, h, by simp, by simp, rfl⟩

variable {name : String} {v : Value}

theorem Fits.skip (h : Fits slots ((name, v) :: entries) seen)
    (hname : ∀ slot ∈ slots, slot.key ≠ name) : Fits slots entries seen := by
  refine ⟨fun slot hslot u hu => h.spelled slot hslot u (List.mem_cons_of_mem _ hu),
    fun slot hslot => le_trans ?_ (h.once slot hslot), fun slot hslot hkey => ?_⟩
  · exact (List.sublist_cons_self name _).count_le slot.key
  · refine h.omitted slot hslot fun hmem => ?_
    rcases List.mem_cons.mp hmem with heq | hmem
    · exact hname slot hslot heq
    · exact hkey hmem

theorem Fits.take (h : Fits slots ((name, v) :: entries) seen) :
    Fits slots entries (name :: seen) := by
  have hperm : (entries.map Prod.fst ++ name :: seen).Perm
      (((name, v) :: entries).map Prod.fst ++ seen) := List.perm_middle
  refine ⟨fun slot hslot u hu => h.spelled slot hslot u (List.mem_cons_of_mem _ hu),
    fun slot hslot => hperm.count_eq slot.key ▸ h.once slot hslot,
    fun slot hslot hkey => h.omitted slot hslot (mt hperm.mem_iff.mpr hkey)⟩

theorem Fits.gone {slot : Slot} (h : Fits slots ((slot.key, v) :: entries) seen)
    (hslot : slot ∈ slots) : slot.key ∉ entries.map Prod.fst ++ seen := by
  have honce := h.once slot hslot
  rw [List.map_cons, List.cons_append, List.count_cons_self] at honce
  exact List.count_eq_zero.mp (Nat.le_zero.mp (Nat.le_of_succ_le_succ honce))

theorem Fits.perm {others : List (String × Value)} (h : Fits slots entries seen)
    (hperm : entries.Perm others) : Fits slots others seen := by
  have hnames := (hperm.map Prod.fst).append_right seen
  refine ⟨fun slot hslot u hu => h.spelled slot hslot u (hperm.mem_iff.mpr hu),
    fun slot hslot => hnames.count_eq slot.key ▸ h.once slot hslot,
    fun slot hslot hkey => h.omitted slot hslot (mt hnames.mem_iff.mp hkey)⟩

/-- The entry of a required slot stands somewhere, once; the others fit the slots that are left. -/
theorem Fits.split {key : String} {spells : Value → Prop}
    (h : Fits (.required key spells :: slots) entries []) (hkey : key ∉ slots.map Slot.key) :
    ∃ front v back, entries = front ++ (key, v) :: back ∧ spells v ∧
      (∀ entry ∈ front ++ back, entry.1 ≠ key) ∧ Fits slots (front ++ back) [] := by
  have hmem : key ∈ entries.map Prod.fst := by
    by_contra hmissing
    exact h.omitted (.required key spells) (List.mem_cons_self ..) (by simpa using hmissing)
  obtain ⟨⟨name, v⟩, hentry, hname⟩ := List.mem_map.mp hmem
  obtain rfl : key = name := hname.symm
  obtain ⟨front, back, rfl⟩ := List.append_of_mem hentry
  have hfirst := h.perm List.perm_middle
  refine ⟨front, v, back, rfl, ?_, fun entry hentry heq => ?_, ?_⟩
  · exact h.spelled (.required key spells) List.mem_cons_self v hentry
  · have hslot : Slot.required key spells ∈ Slot.required key spells :: slots := List.mem_cons_self
    have hgone := hfirst.gone hslot
    rw [List.append_nil, Slot.required_key] at hgone
    exact hgone (List.mem_map.mpr ⟨entry, hentry, heq⟩)
  · have hrest : Fits slots ((key, v) :: (front ++ back)) [] :=
      ⟨fun slot hslot => hfirst.spelled slot (List.mem_cons_of_mem _ hslot),
        fun slot hslot => hfirst.once slot (List.mem_cons_of_mem _ hslot),
        fun slot hslot => hfirst.omitted slot (List.mem_cons_of_mem _ hslot)⟩
    exact hrest.skip fun slot hslot heq => hkey (heq ▸ List.mem_map_of_mem hslot)

end Fitting

namespace Decoder

open Effect Reader

variable {ρ : Type}

section Filling

variable {fields : List (Field ρ)} {entries : List (String × Value)} {seen : List String} {r r' : ρ}

/-- How entries fill a record, one after the other. -/
inductive Fills (fields : List (Field ρ)) : List (String × Value) → List String → ρ → ρ → Prop where
  | done {seen : List String} {r : ρ} : missing? fields seen = none → Fills fields [] seen r r
  | unknown {name : String} {v : Value} {rest : List (String × Value)} {seen : List String}
      {r r' : ρ} : fields.find? (·.name = name) = none → Fills fields rest seen r r' →
        Fills fields ((name, v) :: rest) seen r r'
  | known {name : String} {v : Value} {rest : List (String × Value)} {seen : List String}
      {r r' : ρ} {field : Field ρ} {update : ρ → ρ} :
      fields.find? (·.name = name) = some field → name ∉ seen → Takes field.update v update →
        Fills fields rest (name :: seen) (update r) r' → Fills fields ((name, v) :: rest) seen r r'

theorem checkMissing_ok (h : missing? fields seen = none) : checkMissing fields seen r = .ok r := by
  rw [checkMissing, h]

theorem Fills.ofEntries_eq (h : Fills fields entries seen r r') :
    ofEntries fields entries seen r = .ok r' := by
  induction h with
  | done hmissing => exact checkMissing_ok hmissing
  | unknown hfind _ ih => simp only [ofEntries, hfind, ih]
  | known hfind hseen htakes _ ih =>
      simp only [ofEntries, hfind, List.contains_eq_mem, hseen, decide_false, Bool.false_eq_true,
        ↓reduceIte, htakes.ofValue]
      exact ih

/-- Reading the fields goes in step with reading the entries as values. -/
theorem Fills.readEntries_eq (h : Fills fields entries seen r r') {depth : Nat} {fuel : Fuel}
    {count : Nat} {text rest : List UInt8}
    (hread : Collects (keyedValue? (value depth)) fuel count text entries rest) :
    readEntries fields depth fuel count seen r text = .ok r' rest := by
  induction h generalizing fuel count text with
  | done hmissing =>
      cases hread with
      | spent => exact ofExcept_eq_ok.mpr ⟨checkMissing_ok hmissing, rfl⟩
      | last hstep =>
          refine bind_eq_ok.mpr ⟨none, _, keyedValue?_none.mp hstep, ?_⟩
          exact ofExcept_eq_ok.mpr ⟨checkMissing_ok hmissing, rfl⟩
  | unknown hfind _ ih =>
      cases hread with
      | more hstep hread =>
          obtain ⟨_, hkey, hvalue⟩ := keyedValue?_some.mp hstep
          refine bind_eq_ok.mpr ⟨_, _, hkey, ?_⟩
          simp only [hfind]
          exact bind_eq_ok.mpr ⟨_, _, entryValue_of hvalue skipValue_of_value, ih hread⟩
  | known hfind hseen htakes _ ih =>
      cases hread with
      | more hstep hread =>
          obtain ⟨_, hkey, hvalue⟩ := keyedValue?_some.mp hstep
          refine bind_eq_ok.mpr ⟨_, _, hkey, ?_⟩
          simp only [hfind, List.contains_eq_mem, hseen, decide_false, Bool.false_eq_true,
            ↓reduceIte]
          exact bind_eq_ok.mpr ⟨_, _, entryValue_of hvalue htakes.read, ih hread⟩

theorem takes_filled {shown : String} {blank : ρ} (h : Fills fields entries [] blank r) :
    Takes (record shown fields blank) (.object entries) r := by
  refine ⟨h.ofEntries_eq, fun hread => located_eq_ok.mpr ?_⟩
  cases value_reads hread with
  | object hshape hnested =>
      obtain ⟨inner, middle, rfl, hentries, hclose⟩ := nested_eq_ok.mp hnested
      refine bind_eq_ok.mpr ⟨_, _, hshape, nested_eq_ok.mpr ⟨inner, middle, rfl, ?_, hclose⟩⟩
      exact bind_eq_ok.mpr ⟨_, _, fuel_eq_ok.mpr ⟨rfl, rfl⟩,
        h.readEntries_eq (untilNone_eq_ok.mp hentries)⟩

end Filling

/-- A slot with the field that is read from it, and what its entry does to the record. -/
structure Part (ρ : Type) extends Slot where
  field : Field ρ
  update : ρ → ρ

namespace Part

structure Restores (depth : Nat) (blank : ρ) (p : Part ρ) : Prop where
  name : p.field.name = p.key
  takes : ∀ v, v.depth ≤ depth → p.spells v → Takes p.field.update v p.update
  omitted : p.omissible → p.field.required = false ∧ p.update blank = blank

/-- Parts that may be filled in any order. -/
def Independent (parts : List (Part ρ)) : Prop :=
  parts.Pairwise fun p q => ∀ r, p.update (q.update r) = q.update (p.update r)

/-- The record whose entries for the keys in `seen` have been read. -/
def filled (blank : ρ) (seen : List String) : List (Part ρ) → ρ
  | [] => blank
  | p :: parts =>
    if p.key ∈ seen then p.update (filled blank seen parts) else filled blank seen parts

variable {blank : ρ} {seen seen' : List String} {p : Part ρ} {parts : List (Part ρ)}

theorem filled_nil : filled blank [] parts = blank := by
  induction parts with
  | nil => rfl
  | cons p parts ih => simp [filled, ih]

theorem filled_congr (h : ∀ p ∈ parts, p.key ∈ seen ↔ p.key ∈ seen') :
    filled blank seen parts = filled blank seen' parts := by
  induction parts with
  | nil => rfl
  | cons p parts ih =>
      rw [List.forall_mem_cons] at h
      simp only [filled, h.1, ih h.2]

theorem filled_cons (hmem : p ∈ parts) (hkeys : (parts.map (·.key)).Nodup)
    (hparts : Independent parts) (hseen : p.key ∉ seen) :
    filled blank (p.key :: seen) parts = p.update (filled blank seen parts) := by
  induction parts with
  | nil => simp at hmem
  | cons q parts ih =>
      obtain ⟨hq, hparts⟩ := List.pairwise_cons.mp hparts
      obtain ⟨hkey, hkeys⟩ := List.nodup_cons.mp hkeys
      rcases List.mem_cons.mp hmem with rfl | hmem
      · have hrest : filled blank (p.key :: seen) parts = filled blank seen parts :=
          filled_congr fun other hother => by
            have hne : other.key ≠ p.key := fun heq =>
              hkey (List.mem_map.mpr ⟨other, hother, heq⟩)
            simp [hne]
        simp only [filled, List.mem_cons_self, ↓reduceIte, hseen, hrest]
      · have hne : q.key ≠ p.key := fun heq => hkey (List.mem_map.mpr ⟨p, hmem, heq.symm⟩)
        simp only [filled, List.mem_cons, hne, false_or, ih hmem hkeys hparts]
        split
        · exact hq p hmem _
        · rfl

theorem update_filled (hupdate : p.update blank = blank)
    (hparts : ∀ q ∈ parts, ∀ r, p.update (q.update r) = q.update (p.update r)) :
    p.update (filled blank seen parts) = filled blank seen parts := by
  induction parts with
  | nil => exact hupdate
  | cons q parts ih =>
      rw [List.forall_mem_cons] at hparts
      simp only [filled]
      split
      · rw [hparts.1, ih hparts.2]
      · exact ih hparts.2

/-- Parts that have not been seen need not be filled if they leave the blank record as it is. -/
theorem filled_eq_foldr (hparts : Independent parts)
    (hunseen : ∀ p ∈ parts, p.key ∉ seen → p.update blank = blank) :
    filled blank seen parts = (parts.map Part.update).foldr (fun update r => update r) blank := by
  induction parts with
  | nil => rfl
  | cons p parts ih =>
      obtain ⟨hp, hparts⟩ := List.pairwise_cons.mp hparts
      rw [List.forall_mem_cons] at hunseen
      rw [List.map_cons, List.foldr_cons, ← ih hparts hunseen.2, filled]
      split
      · rfl
      · rename_i hseen
        exact (update_filled (hunseen.1 hseen) hp).symm

/-- Entries that fit the slots of some parts fill the record with all of them. -/
theorem fills {depth : Nat} {entries : List (String × Value)}
    (hrestores : ∀ p ∈ parts, p.Restores depth blank) (hkeys : (parts.map (·.key)).Nodup)
    (hparts : Independent parts) (hfits : Fits (parts.map Part.toSlot) entries seen)
    (hdepth : ∀ entry ∈ entries, entry.2.depth ≤ depth) :
    Fills (parts.map Part.field) entries seen (filled blank seen parts)
      ((parts.map Part.update).foldr (fun update r => update r) blank) := by
  induction entries generalizing seen with
  | nil =>
      have homitted : ∀ p ∈ parts, p.key ∉ seen → p.omissible := fun p hp hseen =>
        hfits.omitted p.toSlot (List.mem_map_of_mem hp) hseen
      rw [← filled_eq_foldr hparts fun p hp hseen =>
        ((hrestores p hp).omitted (homitted p hp hseen)).2]
      refine .done ?_
      rw [missing?, Option.map_eq_none_iff, List.find?_eq_none]
      intro field hfield
      obtain ⟨p, hp, rfl⟩ := List.mem_map.mp hfield
      by_cases hseen : p.key ∈ seen
      · simp [(hrestores p hp).name, hseen]
      · simp [((hrestores p hp).omitted (homitted p hp hseen)).1]
  | cons entry entries ih =>
      obtain ⟨name, v⟩ := entry
      rw [List.forall_mem_cons] at hdepth
      cases hfind : (parts.map Part.field).find? (·.name = name) with
      | none =>
          refine .unknown hfind (ih (hfits.skip fun slot hslot heq => ?_) hdepth.2)
          obtain ⟨p, hp, rfl⟩ := List.mem_map.mp hslot
          have hname := List.find?_eq_none.mp hfind p.field (List.mem_map_of_mem hp)
          simp [(hrestores p hp).name, heq] at hname
      | some field =>
          obtain ⟨p, hp, rfl⟩ := List.mem_map.mp (List.mem_of_find?_eq_some hfind)
          obtain rfl : p.key = name := by
            simpa [(hrestores p hp).name] using List.find?_some hfind
          have hslot : p.toSlot ∈ parts.map Part.toSlot := List.mem_map_of_mem hp
          have hseen : p.key ∉ seen := fun hseen =>
            hfits.gone hslot (List.mem_append_right _ hseen)
          have hspells := hfits.spelled p.toSlot hslot v (List.mem_cons_self ..)
          refine .known hfind hseen ((hrestores p hp).takes v hdepth.1 hspells) ?_
          rw [← filled_cons hp hkeys hparts hseen]
          exact ih hfits.take hdepth.2

end Part

/-- Slots answer to fields. The last list is what the entries do to the record. -/
inductive Restores (depth : Nat) (blank : ρ) :
    List (Field ρ) → List Slot → List (ρ → ρ) → Prop where
  | nil : Restores depth blank [] [] []
  | required {α : Type} {key : String} {spells : Value → Prop} {d : Decoder α} {set : α → ρ → ρ}
      {a : α} {fields : List (Field ρ)} {slots : List Slot} {updates : List (ρ → ρ)} :
      (∀ v, v.depth ≤ depth → spells v → Takes d v a) → Restores depth blank fields slots updates →
        Restores depth blank (requiredField key d set :: fields) (.required key spells :: slots)
          (set a :: updates)
  | optional {α : Type} {key : String} {spells : Value → Prop} {d : Decoder α} {set : α → ρ → ρ}
      {a standard : α} {fields : List (Field ρ)} {slots : List Slot} {updates : List (ρ → ρ)} :
      (∀ v, v.depth ≤ depth → spells v → Takes d v a) → set standard blank = blank →
        Restores depth blank fields slots updates →
          Restores depth blank (optionalField key d set :: fields)
            (.optional key a standard spells :: slots) (set a :: updates)

theorem Restores.exists_parts {depth : Nat} {blank : ρ} {fields : List (Field ρ)}
    {slots : List Slot} {updates : List (ρ → ρ)} (h : Restores depth blank fields slots updates) :
    ∃ parts : List (Part ρ), parts.map Part.field = fields ∧ parts.map Part.toSlot = slots ∧
      parts.map Part.update = updates ∧ ∀ p ∈ parts, p.Restores depth blank := by
  induction h with
  | nil => exact ⟨[], rfl, rfl, rfl, by simp⟩
  | @required α key spells d set a _ _ _ htakes _ ih =>
      obtain ⟨parts, rfl, rfl, rfl, hparts⟩ := ih
      refine ⟨⟨.required key spells, requiredField key d set, set a⟩ :: parts, rfl, rfl, rfl, ?_⟩
      exact List.forall_mem_cons.mpr
        ⟨⟨rfl, fun v hv hspells => (htakes v hv hspells).map set, False.elim⟩, hparts⟩
  | @optional α key spells d set a standard _ _ _ htakes hstandard _ ih =>
      obtain ⟨parts, rfl, rfl, rfl, hparts⟩ := ih
      refine ⟨⟨.optional key a standard spells, optionalField key d set, set a⟩ :: parts,
        rfl, rfl, rfl, ?_⟩
      refine List.forall_mem_cons.mpr ⟨⟨rfl, fun v hv hspells => (htakes v hv hspells).map set,
        fun homitted => ⟨rfl, ?_⟩⟩, hparts⟩
      exact (congrArg (set · blank) homitted).trans hstandard

/-- The entries of a record may come in any order because no two of its updates interfere. -/
theorem Restores.takes {shown : String} {depth : Nat} {blank r : ρ} {fields : List (Field ρ)}
    {slots : List Slot} {updates : List (ρ → ρ)} {entries : List (String × Value)}
    (h : Restores depth blank fields slots updates) (hkeys : (slots.map Slot.key).Nodup)
    (hupdates : updates.Pairwise fun f g => ∀ r, f (g r) = g (f r))
    (hfits : Fits slots entries []) (hdepth : (Value.object entries).depth ≤ depth + 1)
    (hr : updates.foldr (fun update r => update r) blank = r) :
    Takes (record shown fields blank) (.object entries) r := by
  obtain ⟨parts, rfl, rfl, rfl, hparts⟩ := h.exists_parts
  rw [Value.depth, Nat.add_le_add_iff_right, depthOfEntries_le] at hdepth
  rw [List.map_map] at hkeys
  have hfills := Part.fills hparts hkeys (List.pairwise_map.mp hupdates) hfits hdepth
  rw [Part.filled_nil, hr] at hfills
  exact takes_filled hfills

theorem takes_listSpells {α : Type} {d : Decoder α} {spells : α → Value → Prop} {depth : Nat}
    (h : ∀ a v, v.depth ≤ depth → spells a v → Takes d v a) {as : List α} :
    ∀ v, v.depth ≤ depth → ListSpells (as.map spells) v → Takes (list d) v as := by
  rintro _ hdepth ⟨items, rfl, hitems⟩
  have hdepth' := depthOfItems_le.mp (Nat.le_of_succ_le hdepth)
  rw [List.forall₂_map_left_iff] at hitems
  refine takes_list ?_
  clear hdepth
  induction hitems with
  | nil => exact .nil
  | cons hspells _ ih =>
      rw [List.forall_mem_cons] at hdepth'
      exact .cons (h _ _ hdepth'.1 hspells) (ih hdepth'.2)

/-- A variant is restored if its content is, whatever the place of its tag. -/
theorem takes_variant {α : Type} {t : Tagged α} {slots : List Slot} {name : String}
    {content : Value → Except Cause α} {a : α} {v : Value}
    (hspells : ObjectSpells (.required t.tag (· = .string name) :: slots) v)
    (hkeys : ((.required t.tag (· = .string name) :: slots).map Slot.key).Nodup)
    (hname : t.named name = .ok content)
    (hcontent : ∀ others, Fits slots others [] → (Value.object others).depth ≤ v.depth →
      content (.object others) = .ok a) :
    Takes (tagged t) v a := by
  obtain ⟨entries, rfl, hfits⟩ := hspells.fits hkeys
  obtain ⟨front, _, back, rfl, rfl, hrest, hothers⟩ := hfits.split (List.nodup_cons.mp hkeys).1
  rw [List.forall_mem_append] at hrest
  refine takes_tagged hname hrest.1 hrest.2 (hcontent _ hothers ?_)
  rw [Value.depth, Value.depth, Nat.add_le_add_iff_right, depthOfEntries_le]
  intro entry hentry
  refine depthOfEntries_le.mp le_rfl entry ?_
  rw [List.mem_append, List.mem_cons]
  rcases List.mem_append.mp hentry with hentry | hentry
  · exact .inl hentry
  · exact .inr (.inr hentry)

theorem Restores.takes_variant {α : Type} {t : Tagged α} {slots : List Slot} {name : String}
    {shown : String} {depth : Nat} {blank a : α} {fields : List (Field α)} {updates : List (α → α)}
    {v : Value} (hspells : ObjectSpells (.required t.tag (· = .string name) :: slots) v)
    (hkeys : ((.required t.tag (· = .string name) :: slots).map Slot.key).Nodup)
    (hname : t.named name = .ok (record shown fields blank).ofValue)
    (h : Restores depth blank fields slots updates)
    (hupdates : updates.Pairwise fun f g => ∀ r, f (g r) = g (f r)) (hdepth : v.depth ≤ depth + 1)
    (ha : updates.foldr (fun update r => update r) blank = a) : Takes (tagged t) v a :=
  Decoder.takes_variant hspells hkeys hname fun _ hfits hle =>
    (h.takes (List.nodup_cons.mp hkeys).2 hupdates hfits (hle.trans hdepth) ha).ofValue

theorem Takes.exactly {α : Type} {d : Decoder α} {v : Value} {a : α} (h : Takes d v a)
    {depth : Nat} : ∀ w, w.depth ≤ depth → w = v → Takes d w a := by
  rintro _ _ rfl
  exact h

end Decoder

end StubTree.Json
