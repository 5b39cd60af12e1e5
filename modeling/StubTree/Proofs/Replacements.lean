import Mathlib.Data.List.Forall2
import StubTree.Proofs.Formats

/-!
One value in the place of another. A value that is taken somewhere is replaced
by one that is not. If no value of the same JSON type can stand there, then the
path of the fault is the path to that place, as far as the format shows it.
-/

namespace StubTree.Json

/-- The JSON type of a value. -/
inductive Form where
  | null
  | boolean
  | number
  | string
  | list
  | object
deriving DecidableEq, Repr

def Value.form : Value → Form
  | null => .null
  | boolean _ => .boolean
  | number _ => .number
  | string _ => .string
  | list _ => .list
  | object _ => .object

/-- What stands around a value in the container that holds it. -/
inductive Surround where
  | item (before after : List Value)
  | entry (before : List (String × Value)) (name : String) (after : List (String × Value))
deriving Repr

namespace Surround

def fill : Surround → Value → Value
  | item before after, v => .list (before ++ v :: after)
  | entry before name after, v => .object (before ++ (name, v) :: after)

def step : Surround → Step
  | item before _ => .index before.length
  | entry _ name _ => .key name

end Surround

/-- What stands around a hole in a document, the outermost container first. -/
abbrev Context := List Surround

namespace Context

def fill (c : Context) (v : Value) : Value := c.foldr Surround.fill v

/-- The path from the root to the hole. -/
def path (c : Context) : Path := c.map Surround.step

@[simp] theorem fill_nil (v : Value) : fill [] v = v := rfl

@[simp] theorem fill_cons (s : Surround) (c : Context) (v : Value) :
    fill (s :: c) v = s.fill (fill c v) := rfl

@[simp] theorem path_nil : path [] = [] := rfl

@[simp] theorem path_cons (s : Surround) (c : Context) : path (s :: c) = s.step :: path c := rfl

end Context

open Context

/-- The fault of a value has this path, unless another value of its JSON type is taken. -/
def Reports (fault? : Value → Option Path) (y : Value) (path : Path) : Prop :=
  (∃ y', y'.form = y.form ∧ fault? y' = none) ∨ fault? y = some path

section Reporting

variable {fault? other : Value → Option Path} {y : Value} {path : Path}

theorem reports_of_taken (h : fault? y = none) : Reports fault? y path := .inl ⟨y, rfl, h⟩

/-- A value inside is all that a container can be refused for. -/
theorem Reports.outward (h : Reports fault? y path) {step : Step}
    (hother : ∀ y, other y = (fault? y).map (step :: ·)) : Reports other y (step :: path) := by
  rcases h with ⟨y', hform, hnone⟩ | hsome
  · exact .inl ⟨y', hform, by rw [hother, hnone]; rfl⟩
  · exact .inr (by rw [hother, hsome]; rfl)

end Reporting

namespace Format

/-- Where a value that is taken is replaced by another, the format says which path the fault has. -/
structure Points (F : Format) : Prop where
  here : ∀ y, Reports F.fault? y []
  inside : ∀ s c x y, F.fault? (fill (s :: c) x) = none →
    Reports (fun y => F.fault? (fill (s :: c) y)) y (F.shown (path (s :: c)))
  shown_nil : F.shown [] = []

theorem Points.anywhere {F : Format} (h : F.Points) (c : Context) {x : Value} (y : Value)
    (hx : F.fault? (fill c x) = none) :
    Reports (fun y => F.fault? (fill c y)) y (F.shown (path c)) := by
  cases c with
  | nil =>
      rw [path_nil, h.shown_nil]
      exact h.here y
  | cons s c => exact h.inside s c x y hx

theorem points_scalar {takes : Shape → Bool} (hlist : takes .list = false)
    (hobject : takes .object = false) : (scalar takes).Points where
  here y := by
    cases h : takes y.shape with
    | true => exact reports_of_taken (by simp only [scalar, h, if_true])
    | false => exact .inr (by simp only [scalar, h, Bool.false_eq_true, if_false])
  inside s c x y hx := by
    cases s with
    | item before after => simp [scalar, Surround.fill, Value.shape, hlist] at hx
    | entry before name after => simp [scalar, Surround.fill, Value.shape, hobject] at hx
  shown_nil := rfl

theorem points_string : string.Points := points_scalar rfl rfl

theorem points_boolean : boolean.Points := points_scalar rfl rfl

theorem points_unit : unit.Points := points_scalar rfl rfl

theorem points_bounded (least most : Int) : (bounded least most).Points := points_scalar rfl rfl

theorem fault?_optional {F : Format} {v : Value} (h : v.form ≠ .null) :
    (optional F).fault? v = F.fault? v := by
  cases v <;> first | rfl | exact absurd rfl h

theorem points_optional {F : Format} (h : F.Points) : (optional F).Points where
  here y := by
    by_cases hnull : y.form = .null
    · exact .inl ⟨.null, hnull.symm, rfl⟩
    · rcases h.here y with ⟨y', hform, hnone⟩ | hsome
      · exact .inl ⟨y', hform, by rwa [fault?_optional (hform ▸ hnull)]⟩
      · exact .inr (by rwa [fault?_optional hnull])
  inside s c x y hx := by
    have hcontainer (v : Value) : (fill (s :: c) v).form ≠ .null := by
      cases s <;> exact Form.noConfusion
    simp only [fault?_optional (hcontainer _)] at hx ⊢
    exact h.inside s c x y hx
  shown_nil := h.shown_nil

theorem faultOfItems?_append {F : Format} {before : List Value} (i : Nat) (items : List Value)
    (h : ∀ v ∈ before, F.fault? v = none) :
    faultOfItems? F i (before ++ items) = faultOfItems? F (i + before.length) items := by
  induction before generalizing i with
  | nil => rfl
  | cons v before ih =>
      rw [List.forall_mem_cons] at h
      rw [List.cons_append, faultOfItems?, h.1, ih _ h.2, List.length_cons, Nat.add_right_comm]
      rfl

theorem faultOfItems?_eq_none {F : Format} {i : Nat} {items : List Value} :
    faultOfItems? F i items = none ↔ ∀ v ∈ items, F.fault? v = none := by
  induction items generalizing i with
  | nil => simp [faultOfItems?]
  | cons v items ih => simp [faultOfItems?, ih]

theorem points_list {F : Format} (h : F.Points) : (list F).Points where
  here y := by
    cases y with
    | list items => exact .inl ⟨.list [], rfl, rfl⟩
    | null | boolean | number | string | object => exact .inr rfl
  inside s c x y hx := by
    cases s with
    | entry before name after => cases hx
    | item before after =>
        have hall := faultOfItems?_eq_none.mp hx
        rw [List.forall_mem_append, List.forall_mem_cons] at hall
        obtain ⟨hbefore, hhole, hafter⟩ := hall
        refine (h.anywhere c y hhole).outward fun y => ?_
        have hrest (i : Nat) : faultOfItems? F i after = none := faultOfItems?_eq_none.mpr hafter
        simp only [list, fill_cons, Surround.fill, faultOfItems?_append _ _ hbefore,
          faultOfItems?, hrest, Option.or_none, Nat.zero_add]
  shown_nil := rfl

section Records

variable {parts : List Part}

/-- The path to a value in a record, as far as its part shows it. -/
def shownIn (part : Option Part) (path : Path) : Path :=
  part.elim path fun part => part.format.shown path

/-- By induction on the entries before the one that is replaced: they have no fault. -/
theorem reports_entries (hparts : ∀ part ∈ parts, part.format.Points)
    {before after : List (String × Value)} {name : String} (c : Context) {x : Value} (y : Value)
    {seen : List String}
    (hx : faultOfEntries? parts (before ++ (name, fill c x) :: after) seen = none) :
    Reports (fun y => faultOfEntries? parts (before ++ (name, fill c y) :: after) seen) y
      (.key name :: shownIn (parts.find? (·.name = name)) (path c)) := by
  induction before generalizing seen with
  | nil =>
      simp only [List.nil_append, faultOfEntries?] at hx ⊢
      cases hpart : parts.find? (·.name = name) with
      | none =>
          rw [hpart] at hx
          exact reports_of_taken hx
      | some part =>
          simp only [hpart] at hx
          split at hx
          · cases hx
          · rename_i hseen
            obtain ⟨hhole, hafter⟩ := Option.or_eq_none_iff.mp hx
            have hpoints := hparts part (List.mem_of_find?_eq_some hpart)
            refine (hpoints.anywhere c y (Option.map_eq_none_iff.mp hhole)).outward fun y => ?_
            simp only [hseen, hafter, Option.or_none]
            rfl
  | cons entry before ih =>
      obtain ⟨other, v⟩ := entry
      simp only [List.cons_append, faultOfEntries?] at hx ⊢
      cases hpart : parts.find? (·.name = other) with
      | none =>
          simp only [hpart] at hx
          exact ih hx
      | some part =>
          simp only [hpart] at hx
          split at hx
          · cases hx
          · rename_i hseen
            obtain ⟨hfirst, hrest⟩ := Option.or_eq_none_iff.mp hx
            simp only [hseen, hfirst, Option.none_or]
            exact ih hrest

/-- By induction on the items before the one that is replaced, each of which takes a part. -/
theorem reports_positions (hparts : ∀ part ∈ parts, part.format.Points)
    {before after : List Value} (c : Context) {x : Value} (y : Value) {i : Nat}
    (hx : faultOfPositions? parts i (before ++ fill c x :: after) = none) :
    Reports (fun y => faultOfPositions? parts i (before ++ fill c y :: after)) y
      (.index (i + before.length) :: shownIn parts[before.length]? (path c)) := by
  induction before generalizing parts i with
  | nil =>
      cases parts with
      | nil => cases hx
      | cons part parts =>
          obtain ⟨hhole, hafter⟩ := Option.or_eq_none_iff.mp hx
          have hpoints := hparts part List.mem_cons_self
          refine (hpoints.anywhere c y (Option.map_eq_none_iff.mp hhole)).outward fun y => ?_
          simp only [List.nil_append, faultOfPositions?, hafter, Option.or_none]
          rfl
  | cons v before ih =>
      cases parts with
      | nil => cases hx
      | cons part parts =>
          obtain ⟨hfirst, hrest⟩ := Option.or_eq_none_iff.mp hx
          simp only [List.cons_append, faultOfPositions?, hfirst, Option.none_or, List.length_cons,
            List.getElem?_cons_succ]
          rw [Nat.add_comm before.length, ← Nat.add_assoc]
          exact ih (fun part hpart => hparts part (List.mem_cons_of_mem _ hpart)) hrest

theorem points_record (hparts : ∀ part ∈ parts, part.format.Points)
    (hobject : ∃ entries, faultOfEntries? parts entries [] = none)
    (hlist : ∃ items, faultOfPositions? parts 0 items = none) : (record parts).Points where
  here y := by
    cases y with
    | object _ =>
        obtain ⟨entries, hnone⟩ := hobject
        exact .inl ⟨.object entries, rfl, hnone⟩
    | list _ =>
        obtain ⟨items, hnone⟩ := hlist
        exact .inl ⟨.list items, rfl, hnone⟩
    | null | boolean | number | string => exact .inr rfl
  inside s c x y hx := by
    cases s with
    | item before after =>
        have hreports := reports_positions hparts c y (i := 0) hx
        rwa [Nat.zero_add] at hreports
    | entry before name after => exact reports_entries hparts c y hx
  shown_nil := rfl

end Records

/-- `null` alone is taken behind a word, so nothing can be replaced further in. -/
theorem points_words {known : String → Bool} {word : String} (hword : known word = true) :
    (words known).Points where
  here y := by
    cases y with
    | string _ => exact .inl ⟨.string word, rfl, by simp only [words, hword, if_true]⟩
    | object _ =>
        refine .inl ⟨.object [(word, .null)], rfl, ?_⟩
        simp only [words, hword, if_true]
        rfl
    | null | boolean | number | list => exact .inr rfl
  inside s c x y hx := by
    cases s with
    | item before after => cases hx
    | entry before name after =>
        cases before with
        | cons entry before =>
            simp only [words, fill_cons, Surround.fill, List.cons_append] at hx
            split at hx
            · have hlast := (Option.or_eq_none_iff.mp hx).2
              simp at hlast
            · cases hx
        | nil =>
            simp only [words, fill_cons, Surround.fill, List.nil_append] at hx ⊢
            split at hx
            · rename_i hname
              obtain ⟨hhole, hafter⟩ := Option.or_eq_none_iff.mp hx
              have hreports := points_unit.anywhere c y (Option.map_eq_none_iff.mp hhole)
              refine hreports.outward fun y => ?_
              simp only [hname, if_true, hafter, Option.or_none]
              rfl
            · cases hx
  shown_nil := rfl

section Tags

variable {α : Type} {t : Decoder.Tagged α} {found : Option (Value → Except Cause α)}

theorem faultOfContent?_cases (content : Value → Except Cause α) (v : Value) :
    faultOfContent? content v = none ∨ faultOfContent? content v = some [] := by
  rw [faultOfContent?]
  cases content v with
  | ok a => exact .inl rfl
  | error cause => exact .inr rfl

/-- Two entries under one key, with one value if it is that of the tag. -/
def Agrees (t : Decoder.Tagged α) (entry entry' : String × Value) : Prop :=
  entry.1 = entry'.1 ∧ (entry.1 = t.tag → entry.2 = entry'.2)

theorem agrees_self (entries : List (String × Value)) :
    List.Forall₂ (Agrees t) entries entries :=
  List.forall₂_same.mpr fun _ _ => ⟨rfl, fun _ => rfl⟩

/-- With the same tag, other values can only make a difference to the content. -/
theorem faultOfTagged?_cases {entries entries' others : List (String × Value)}
    (hagree : List.Forall₂ (Agrees t) entries entries')
    (h : faultOfTagged? t entries found others = none) (others' : List (String × Value)) :
    faultOfTagged? t entries' found others' = none ∨
      faultOfTagged? t entries' found others' = some [] := by
  induction hagree generalizing found others others' with
  | nil =>
      cases found with
      | none => cases h
      | some content => exact faultOfContent?_cases content _
  | @cons entry entry' entries entries' hentry _ ih =>
      obtain ⟨name, v⟩ := entry
      obtain ⟨name', v'⟩ := entry'
      obtain ⟨hname, hvalue⟩ := hentry
      dsimp only at hname hvalue
      subst hname
      simp only [faultOfTagged?] at h ⊢
      split at h
      · rename_i htag
        rw [← hvalue htag, if_pos htag]
        split at h
        · cases h
        · rename_i hfound
          rw [if_neg hfound]
          cases hselect : select? t v with
          | none => simp [hselect] at h
          | some content =>
              simp only [hselect] at h ⊢
              exact ih h others'
      · rename_i htag
        rw [if_neg htag]
        exact ih h _

/-- By induction on the entries before the tag. -/
theorem faultOfTagged?_tag {before after others : List (String × Value)} {x : Value}
    (h : faultOfTagged? t (before ++ (t.tag, x) :: after) found others = none) :
    (∃ content, select? t x = some content) ∧ ∀ y, select? t y = none →
      faultOfTagged? t (before ++ (t.tag, y) :: after) found others = some [.key t.tag] := by
  induction before generalizing found others with
  | nil =>
      simp only [List.nil_append, faultOfTagged?, if_true] at h ⊢
      split at h
      · cases h
      · rename_i hfound
        cases hselect : select? t x with
        | none => simp [hselect] at h
        | some content =>
            refine ⟨⟨content, rfl⟩, fun y hy => ?_⟩
            rw [if_neg hfound, hy]
  | cons entry before ih =>
      obtain ⟨name, v⟩ := entry
      simp only [List.cons_append, faultOfTagged?] at h ⊢
      split at h
      · rename_i htag
        split at h
        · cases h
        · rename_i hfound
          simp only [if_pos htag, if_neg hfound]
          cases hselect : select? t v with
          | none => simp [hselect] at h
          | some content =>
              simp only [hselect] at h ⊢
              exact ih h
      · rename_i htag
        simp only [if_neg htag]
        exact ih h

/-- Only a string is a tag. -/
theorem fill_of_select {c : Context} {x : Value} {content : Value → Except Cause α}
    (h : select? t (fill c x) = some content) : c = [] ∧ x.form = .string := by
  cases c with
  | cons s c => cases s <;> cases h
  | nil =>
      cases x with
      | string => exact ⟨rfl, rfl⟩
      | null | boolean | number | list | object => cases h

theorem select?_eq_none {y : Value} (h : y.form ≠ .string) : select? t y = none := by
  cases y <;> first | rfl | exact absurd rfl h

theorem points_tagged (hobject : ∃ entries, faultOfTagged? t entries none [] = none)
    (hlist : ∃ items, (tagged t).fault? (.list items) = none) : (tagged t).Points where
  here y := by
    cases y with
    | object _ =>
        obtain ⟨entries, hnone⟩ := hobject
        exact .inl ⟨.object entries, rfl, hnone⟩
    | list _ =>
        obtain ⟨items, hnone⟩ := hlist
        exact .inl ⟨.list items, rfl, hnone⟩
    | null | boolean | number | string => exact .inr rfl
  inside s c x y hx := by
    -- the value that is replaced is the tag, with its own path, or part of the content
    cases s with
    | entry before name after =>
        by_cases hname : name = t.tag
        · subst hname
          obtain ⟨⟨content, hselect⟩, hrefused⟩ := faultOfTagged?_tag hx
          obtain ⟨rfl, hstring⟩ := fill_of_select hselect
          by_cases hform : y.form = .string
          · exact .inl ⟨x, hstring.trans hform.symm, hx⟩
          · right
            simp only [tagged, path_cons, path_nil, Surround.step, true_or, if_true]
            exact hrefused y (select?_eq_none hform)
        · have hagree : List.Forall₂ (Agrees t) (before ++ (name, fill c x) :: after)
              (before ++ (name, fill c y) :: after) :=
            List.rel_append (agrees_self before)
              (.cons ⟨rfl, fun h => absurd h hname⟩ (agrees_self after))
          have hshown : (tagged t).shown (path (.entry before name after :: c)) = [] := by
            simp [tagged, Surround.step, hname]
          rw [hshown]
          exact (faultOfTagged?_cases hagree hx []).imp (fun h => ⟨y, rfl, h⟩) id
    | item before after =>
        cases before with
        | nil =>
            have hselect : ∃ content, select? t (fill c x) = some content := by
              by_contra hnone
              rw [not_exists, ← Option.eq_none_iff_forall_ne_some] at hnone
              simp [tagged, Surround.fill, hnone] at hx
            obtain ⟨content, hselect⟩ := hselect
            obtain ⟨rfl, hstring⟩ := fill_of_select hselect
            by_cases hform : y.form = .string
            · exact .inl ⟨x, hstring.trans hform.symm, hx⟩
            · right
              simp [tagged, Surround.fill, Surround.step, select?_eq_none hform]
        | cons v before =>
            simp only [tagged, fill_cons, Surround.fill, List.cons_append] at hx ⊢
            cases hselect : select? t v with
            | none => simp [hselect] at hx
            | some content =>
                have hshown : (tagged t).shown (path (.item (v :: before) after :: c)) = [] := by
                  simp [tagged, Surround.step]
                simp only [tagged] at hshown
                rw [hshown]
                exact (faultOfContent?_cases content _).imp (fun h => ⟨y, rfl, h⟩) id
  shown_nil := by simp [tagged]

end Tags

end Format

end StubTree.Json
