import StubTree.Proofs.Declarations
import StubTree.Proofs.Pruning

/-!
Suites of types. The sections of a class are entries of its suite, nested types
are entries that have suites of their own, and a suite without entries is a
single `pass`. This holds at every level by induction on types and members.
-/

namespace StubTree.Stub

open Metadata Python Statement

section Bodies

variable {level : Nat} {title : String} {body : List Statement}

theorem linesOfBody_eq (level : Nat) (body : List Statement) :
    linesOfBody level body = body.flatMap (lines level) := by
  induction body with
  | nil => rfl
  | cons s rest ih => rw [linesOfBody, ih, List.flatMap_cons]

theorem linesOfBody_append (level : Nat) (body body' : List Statement) :
    linesOfBody level (body ++ body') = linesOfBody level body ++ linesOfBody level body' := by
  simp only [linesOfBody_eq, List.flatMap_append]

theorem lines_ne_nil (s : Statement) (level : Nat) : s.lines level ≠ [] := by
  cases s <;> simp [lines, Function.lines]

theorem linesOfBody_eq_nil : linesOfBody level body = [] ↔ body = [] := by
  rw [linesOfBody_eq, List.flatMap_eq_nil_iff]
  constructor
  · intro h
    exact List.eq_nil_iff_forall_not_mem.mpr fun s hs => lines_ne_nil s level (h s hs)
  · intro h
    simp [h]

theorem titled_eq_nil : titled title body = [] ↔ body = [] := by
  rw [titled]
  split <;> simp_all

theorem entries_of_declaring (h : ∀ s ∈ body, Declaring s) :
    Entries level [] (linesOfBody level body) := by
  rw [linesOfBody_eq]
  exact .flatMap fun s hs => (h s hs).entries level

theorem entries_titled (htitle : OneLine title) (h : Entries level [] (linesOfBody level body)) :
    Entries level [title] (linesOfBody level (titled title body)) := by
  rw [titled]
  split
  · exact .nil level [title]
  · rename_i hbody
    exact .below htitle h (mt linesOfBody_eq_nil.mp (by simpa using hbody))

theorem indentOf_titled (h : ∀ line ∈ linesOfBody level body, indentOf line = 4 * level) :
    ∀ line ∈ linesOfBody level (titled title body), indentOf line = 4 * level := by
  intro line hline
  rw [titled] at hline
  split at hline
  · cases hline
  · rw [linesOfBody, lines, List.singleton_append] at hline
    cases hline with
    | head =>
        rw [String.append_assoc]
        exact indentOf_indented (by simp) level
    | tail _ hline => exact h line hline

theorem indentOf_of_declaring (h : ∀ s ∈ body, Declaring s) :
    ∀ line ∈ linesOfBody level body, indentOf line = 4 * level := by
  intro line hline
  rw [linesOfBody_eq] at hline
  obtain ⟨s, hs, hline⟩ := List.mem_flatMap.mp hline
  exact (h s hs).indentOf_eq hline

theorem suiteLaid_pass (level : Nat) {bare : Prop} (h : bare) :
    SuiteLaid level bare [passLine level] where
  deeper line hline _ := by
    rw [List.mem_singleton.mp hline, passLine, indentOf_indented (by simp)]
  comments := by
    rw [List.filter_cons_of_neg (by simp [isComment_passLine])]
    exact List.nil_sublist _
  sections := by
    refine ⟨fun hcomment => ?_, trivial⟩
    rw [isComment_passLine] at hcomment
    exact absurd hcomment (by simp)
  decorators := by
    refine ⟨fun hdecorator => ?_, trivial⟩
    rw [IsDecorator, passLine, codeOf_indented (by simp)] at hdecorator
    simp at hdecorator
  statement := ⟨passLine level, List.mem_singleton_self _, .inl rfl⟩
  single_iff := ⟨fun _ => h, fun _ => rfl⟩
  no_pass hbare := absurd h hbare

theorem suiteLaid_of_entries {bare : Prop} {lines : List String}
    (h : Entries level sectionTitles lines) (hne : lines ≠ []) (hbare : ¬bare) :
    SuiteLaid level bare lines where
  toLaid := h.toLaid
  statement := by
    obtain ⟨line, hline, hdeclares⟩ := h.declares hne
    exact ⟨line, hline, .inr hdeclares⟩
  single_iff := by
    refine ⟨fun hpass => ?_, fun h => absurd h hbare⟩
    exact absurd (hpass ▸ List.mem_singleton_self (passLine level)) h.no_pass
  no_pass _ := h.no_pass

end Bodies

section Classes

variable {level : Nat} {members : List Member}

/-- Members of one sort are found under their constructor. -/
theorem mem_filterMap_iff {α : Type} {f : Member → Option α} {g : α → Member}
    (h : ∀ m a, f m = some a ↔ m = g a) {a : α} : a ∈ members.filterMap f ↔ g a ∈ members := by
  simp only [List.mem_filterMap, h, exists_eq_right]

theorem mem_constructorsOf {c : Constructor} :
    c ∈ constructorsOf members ↔ .constructor c ∈ members :=
  mem_filterMap_iff fun m _ => by cases m <;> simp

theorem mem_propertiesOf {p : Property} : p ∈ propertiesOf members ↔ .property p ∈ members :=
  mem_filterMap_iff fun m _ => by cases m <;> simp

theorem mem_fieldsOf {f : Field} : f ∈ fieldsOf members ↔ .field f ∈ members :=
  mem_filterMap_iff fun m _ => by cases m <;> simp

theorem mem_methodsOf {m : Method} : m ∈ methodsOf members ↔ .method m ∈ members :=
  mem_filterMap_iff fun m _ => by cases m <;> simp

theorem mem_accepted {m : Member} :
    m ∈ accepted members ↔ m ∈ members ∧ (memberRejection? m).isSome = false := by
  rw [accepted, List.mem_filter]
  cases memberRejection? m <;> simp

theorem mem_nestedIn {t : TypeInfo} :
    t ∈ nestedIn members ↔ .nested t ∈ accepted members ∧ t.kind ≠ .unsupported := by
  simp only [nestedIn, List.mem_filterMap]
  constructor
  · intro ⟨m, hm, heq⟩
    cases m with
    | nested t' =>
        simp only at heq
        split at heq
        · cases heq
        · rename_i hkind
          cases heq
          exact ⟨hm, hkind⟩
    | constructor _ | property _ | field _ | method _ => cases heq
  · intro ⟨hm, hkind⟩
    exact ⟨.nested t, hm, by simp [hkind]⟩

theorem printableMembers_iff : PrintableMembers members ↔ ∀ m ∈ members, PrintableMember m := by
  induction members with
  | nil => simp [PrintableMembers]
  | cons m rest ih => simp [PrintableMembers, ih]

/-- The sections of a class apart from that of the nested types. -/
def sectionsOf (members : List Member) : List Statement :=
  titled "Constructors" (constructorStubs (constructorsOf members)) ++
    titled "Properties" ((propertiesOf members).flatMap propertyStubs) ++
    titled "Fields" ((fieldsOf members).map fieldStub) ++
    titled "Methods" (methodStubs (methodsOf members))

theorem classBody_eq (members : List Member) (nested : List Statement) :
    classBody members nested =
      if (sectionsOf (accepted members) ++ titled "Nested Types" nested).isEmpty then [.pass]
      else sectionsOf (accepted members) ++ titled "Nested Types" nested := rfl

/-- All that members other than nested types leave are declarations. -/
theorem declaring_sections (h : ∀ m ∈ members, PrintableMember m) :
    (∀ s ∈ constructorStubs (constructorsOf members), Declaring s) ∧
      (∀ s ∈ (propertiesOf members).flatMap propertyStubs, Declaring s) ∧
      (∀ s ∈ (fieldsOf members).map fieldStub, Declaring s) ∧
      ∀ s ∈ methodStubs (methodsOf members), Declaring s := by
  refine ⟨?_, fun s hs => ?_, fun s hs => ?_, ?_⟩
  · exact declaring_constructorStubs fun c hc => h _ (mem_constructorsOf.mp hc)
  · obtain ⟨p, hp, hs⟩ := List.mem_flatMap.mp hs
    exact declaring_propertyStubs (h _ (mem_propertiesOf.mp hp)) s hs
  · obtain ⟨f, hf, rfl⟩ := List.mem_map.mp hs
    exact declaring_fieldStub (h _ (mem_fieldsOf.mp hf))
  · exact declaring_methodStubs fun m hm => h _ (mem_methodsOf.mp hm)

theorem entries_sectionsOf (h : ∀ m ∈ members, PrintableMember m) :
    Entries level ["Constructors", "Properties", "Fields", "Methods"]
      (linesOfBody level (sectionsOf members)) := by
  obtain ⟨hconstructors, hproperties, hfields, hmethods⟩ := declaring_sections h
  simp only [sectionsOf, linesOfBody_append]
  have htitled {title : String} {body : List Statement} (htitle : OneLine title)
      (h : ∀ s ∈ body, Declaring s) :
      Entries level [title] (linesOfBody level (titled title body)) :=
    entries_titled htitle (entries_of_declaring h)
  exact (((htitled (by decide) hconstructors).append (htitled (by decide) hproperties)).append
    (htitled (by decide) hfields)).append (htitled (by decide) hmethods)

theorem indentOf_sectionsOf (level : Nat) (h : ∀ m ∈ members, PrintableMember m) :
    ∀ line ∈ linesOfBody level (sectionsOf members), indentOf line = 4 * level := by
  obtain ⟨hconstructors, hproperties, hfields, hmethods⟩ := declaring_sections h
  simp only [sectionsOf, linesOfBody_append, List.mem_append]
  intro line hline
  cases hline with
  | inl hline =>
      cases hline with
      | inl hline =>
          exact hline.elim (indentOf_titled (indentOf_of_declaring hconstructors) line)
            (indentOf_titled (indentOf_of_declaring hproperties) line)
      | inr hline => exact indentOf_titled (indentOf_of_declaring hfields) line hline
  | inr hline => exact indentOf_titled (indentOf_of_declaring hmethods) line hline

theorem sectionsOf_eq_nil : sectionsOf members = [] ↔
    (∀ c, .constructor c ∉ members) ∧
      (∀ p, .property p ∈ members → LeavesNothing (.property p)) ∧
      (∀ f, .field f ∉ members) ∧ ∀ m, .method m ∈ members → LeavesNothing (.method m) := by
  have hconstructors : constructorsOf members = [] ↔ ∀ c, .constructor c ∉ members := by
    simp only [List.eq_nil_iff_forall_not_mem, mem_constructorsOf]
  have hfields : fieldsOf members = [] ↔ ∀ f, .field f ∉ members := by
    simp only [List.eq_nil_iff_forall_not_mem, mem_fieldsOf]
  simp only [sectionsOf, List.append_eq_nil_iff, titled_eq_nil, constructorStubs,
    List.map_eq_nil_iff, hconstructors, List.flatMap_eq_nil_iff, propertyStubs_eq_nil,
    mem_propertiesOf, hfields, methodStubs_eq_nil, mem_methodsOf, and_assoc]

/-- No section has anything in it, and no nested type has a stub. -/
theorem nothing_iff :
    sectionsOf (accepted members) = [] ∧ nestedIn members = [] ↔
      ∀ m ∈ members, (memberRejection? m).isSome = true ∨ LeavesNothing m := by
  rw [sectionsOf_eq_nil, List.eq_nil_iff_forall_not_mem]
  simp only [mem_nestedIn, not_and, Decidable.not_not]
  constructor
  · intro ⟨⟨hconstructors, hproperties, hfields, hmethods⟩, hnested⟩ m hm
    by_cases hrejected : (memberRejection? m).isSome = true
    · exact .inl hrejected
    · have haccepted : m ∈ accepted members := mem_accepted.mpr ⟨hm, by simpa using hrejected⟩
      refine .inr ?_
      cases m with
      | constructor c => exact absurd haccepted (hconstructors c)
      | property p => exact hproperties p haccepted
      | field f => exact absurd haccepted (hfields f)
      | method m => exact hmethods m haccepted
      | nested t => exact hnested t haccepted
  · intro h
    have hleaves {m : Member} (hm : m ∈ accepted members) : LeavesNothing m := by
      obtain ⟨hmem, hkept⟩ := mem_accepted.mp hm
      exact (h m hmem).resolve_left (by simp [hkept])
    exact ⟨⟨fun _ => hleaves, fun _ => hleaves, fun _ => hleaves, fun _ => hleaves⟩,
      fun _ => hleaves⟩

theorem classBody_laid (h : ∀ m ∈ members, PrintableMember m) {nested : List Statement}
    (hnested : Entries level [] (linesOfBody level nested))
    (hnil : nested = [] ↔ nestedIn members = []) :
    SuiteLaid level (∀ m ∈ members, (memberRejection? m).isSome = true ∨ LeavesNothing m)
        (linesOfBody level (classBody members nested)) ∧
      ∀ line ∈ linesOfBody level (classBody members nested), OneLine line := by
  have haccepted : ∀ m ∈ accepted members, PrintableMember m := fun m hm =>
    h m (mem_accepted.mp hm).1
  have hentries : Entries level sectionTitles
      (linesOfBody level (sectionsOf (accepted members) ++ titled "Nested Types" nested)) := by
    rw [linesOfBody_append]
    exact (entries_sectionsOf haccepted).append (entries_titled (by decide) hnested)
  have hempty : sectionsOf (accepted members) ++ titled "Nested Types" nested = [] ↔
      ∀ m ∈ members, (memberRejection? m).isSome = true ∨ LeavesNothing m := by
    rw [List.append_eq_nil_iff, titled_eq_nil, hnil, nothing_iff]
  rw [classBody_eq]
  split
  · rename_i hbody
    refine ⟨suiteLaid_pass level (hempty.mp (List.isEmpty_iff.mp hbody)), fun line hline => ?_⟩
    rw [List.mem_singleton.mp hline]
    exact oneLine_append.mpr ⟨oneLine_indentation level, by decide⟩
  · rename_i hbody
    have hne := mt List.isEmpty_iff.mpr hbody
    exact ⟨suiteLaid_of_entries hentries (mt linesOfBody_eq_nil.mp hne) (mt hempty.mpr hne),
      hentries.oneLine⟩

/-- What stands above the nested types is indented as far as the suite. -/
theorem classBody_own (level : Nat) (h : ∀ m ∈ members, PrintableMember m)
    (nested : List Statement) :
    ∃ own, linesOfBody level (classBody members nested) = own ++ linesOfBody level nested ∧
      ∀ line ∈ own, indentOf line = 4 * level := by
  have hsections := indentOf_sectionsOf level fun m hm => h m (mem_accepted.mp hm).1
  rw [classBody_eq]
  split
  · -- A lone `pass`, so there are no nested types either.
    rename_i hbody
    have hnested := titled_eq_nil.mp (List.append_eq_nil_iff.mp (List.isEmpty_iff.mp hbody)).2
    refine ⟨[passLine level], by rw [hnested]; rfl, fun line hline => ?_⟩
    rw [List.mem_singleton.mp hline]
    exact indentOf_indented (by simp) level
  · rw [linesOfBody_append, titled]
    split
    · rename_i hnested
      rw [List.isEmpty_iff.mp hnested]
      exact ⟨_, rfl, hsections⟩
    · refine ⟨linesOfBody level (sectionsOf (accepted members)) ++
        [commentLine level "Nested Types"], by rw [List.append_assoc]; rfl, fun line hline => ?_⟩
      cases List.mem_append.mp hline with
      | inl hline => exact hsections line hline
      | inr hline =>
          rw [List.mem_singleton.mp hline, commentLine_eq]
          exact indentOf_indented (by simp) level

end Classes

section Types

theorem nestedIn_cons (m : Member) (rest : List Member) :
    nestedIn (m :: rest) = nestedIn [m] ++ nestedIn rest := by
  rw [nestedIn, nestedIn, nestedIn, ← List.filterMap_append, accepted_cons, accepted_cons]
  split <;> rfl

theorem nestedIn_nested (t : TypeInfo) :
    nestedIn [.nested t] =
      if (typeRejection? t.toTypeHeader).isSome then [] else
        if t.kind = .unsupported then [] else [t] := by
  rw [nestedIn, accepted_cons, isSome_memberRejection?_nested]
  split
  · rfl
  · by_cases hkind : t.kind = .unsupported <;> simp [hkind, accepted]

theorem nestedIn_of_not_nested {m : Member} (h : ∀ t, m ≠ .nested t) : nestedIn [m] = [] := by
  rw [nestedIn, List.filterMap_eq_nil_iff]
  intro m' hm'
  have heq : m' = m := List.mem_singleton.mp (mem_accepted.mp hm').1
  subst heq
  cases m' with
  | nested t => exact absurd rfl (h t)
  | constructor _ | property _ | field _ | method _ => rfl

/-- Blocks of lines for types next to one another. -/
structure BlocksLaid (level : Nat) (ts : List TypeInfo) (blocks : List (List String)) : Prop where
  length : blocks.length = ts.length
  wellLaid : ∀ pair ∈ ts.zip blocks, WellLaid level pair.1 pair.2
  ne_nil : ∀ block ∈ blocks, block ≠ []
  entries : ∀ block ∈ blocks, Entries level [] block

theorem BlocksLaid.nil (level : Nat) : BlocksLaid level [] [] where
  length := rfl
  wellLaid := by simp
  ne_nil := by simp
  entries := by simp

theorem BlocksLaid.cons {level : Nat} {t : TypeInfo} {ts : List TypeInfo} {block : List String}
    {blocks : List (List String)} (hlaid : WellLaid level t block) (hne : block ≠ [])
    (hentries : Entries level [] block) (h : BlocksLaid level ts blocks) :
    BlocksLaid level (t :: ts) (block :: blocks) where
  length := by rw [List.length_cons, List.length_cons, h.length]
  wellLaid := by
    rw [List.zip_cons_cons]
    exact List.forall_mem_cons.mpr ⟨hlaid, h.wellLaid⟩
  ne_nil := List.forall_mem_cons.mpr ⟨hne, h.ne_nil⟩
  entries := List.forall_mem_cons.mpr ⟨hentries, h.entries⟩

theorem lines_classDef (depth : Nat) (name : String) (heading : Heading) (body : List Statement) :
    (classDef name heading body).lines depth =
      (indentation depth ++ ("class " ++ name ++ heading.text)) :: linesOfBody (depth + 1) body := by
  rw [lines, String.append_assoc, String.append_assoc, String.append_assoc]

/-- Seen from outside, a type is a declaration with deeper lines below it. -/
theorem entries_class {depth : Nat} {name : String} {heading : Heading} {bare : Prop}
    {suite : List String} (hname : IsName name) (hheading : OneLine heading.text)
    (hsuite : SuiteLaid (depth + 1) bare suite) (honeLine : ∀ line ∈ suite, OneLine line) :
    Entries depth [] ((indentation depth ++ ("class " ++ name ++ heading.text)) :: suite) := by
  have hdeclares : Declares ("class " ++ name ++ heading.text) := .type hname heading
  refine .of_lines (fun line hline => ?_) ⟨fun hdecorator => ?_, hsuite.decorators⟩
    ⟨_, List.mem_cons_self, _, rfl, hdeclares⟩
  · cases hline with
    | head =>
        refine entryLine_of_declares hdeclares ?_
        simp only [oneLine_append]
        exact ⟨⟨by decide, hname.oneLine⟩, hheading⟩
    | tail _ hline =>
        by_cases hblank : line = ""
        · rw [hblank]
          exact entryLine_blank depth
        · have hdeeper := hsuite.deeper line hline hblank
          exact entryLine_of_deeper (honeLine line hline) (by omega)
  · exact absurd hdecorator (not_decorator_of_declaration ⟨_, rfl, hdeclares⟩)

variable {header : TypeHeader} {members : List Member}

theorem enumBody_laid {constants : List EnumConstant} (h : ∀ c ∈ constants, IsName c.name)
    (level : Nat) :
    SuiteLaid level (constants = []) (linesOfBody level (enumBody constants)) ∧
      (∀ line ∈ linesOfBody level (enumBody constants), OneLine line) ∧
      ∀ line ∈ linesOfBody level (enumBody constants), line ≠ "" → indentOf line = 4 * level := by
  rw [enumBody]
  split
  · rename_i hnone
    refine ⟨suiteLaid_pass level (List.isEmpty_iff.mp hnone), fun line hline => ?_,
      fun line hline _ => ?_⟩
    · rw [List.mem_singleton.mp hline]
      exact oneLine_append.mpr ⟨oneLine_indentation level, by decide⟩
    · rw [List.mem_singleton.mp hline]
      exact indentOf_indented (by simp) level
  · rename_i hsome
    have hne : constants ≠ [] := mt List.isEmpty_iff.mpr hsome
    have hdeclaring : ∀ s ∈ constants.map fun c => Statement.assign (safeName c.name) c.value.toInt,
        Declaring s := by
      intro s hs
      obtain ⟨c, hc, rfl⟩ := List.mem_map.mp hs
      exact .assign _ (h c hc).safeName
    have hentries : Entries level [] (linesOfBody level _) := entries_of_declaring hdeclaring
    have hended := hentries.before_blank (mt linesOfBody_eq_nil.mp (mt List.map_eq_nil_iff.mp hne))
    rw [linesOfBody_append]
    refine ⟨suiteLaid_of_entries (hended.widen sectionTitles) (by simp [linesOfBody, lines]) hne,
      hended.oneLine, fun line hline hblank => ?_⟩
    cases List.mem_append.mp hline with
    | inl hline => exact indentOf_of_declaring hdeclaring line hline
    | inr hline => exact absurd (List.mem_singleton.mp hline) hblank

theorem enum_laid (h : PrintableHeader header) (hkind : header.kind = .enumeration) (depth : Nat) :
    WellLaid depth ⟨header, members⟩
        ((classDef header.name .enumeration (enumBody header.constants)).lines depth) ∧
      Entries depth []
        ((classDef header.name .enumeration (enumBody header.constants)).lines depth) := by
  obtain ⟨hsuite, honeLine, hown⟩ := enumBody_laid h.constants (depth + 1)
  rw [lines_classDef]
  refine ⟨?_, entries_class h.name (by decide) hsuite honeLine⟩
  have hbare : IsBare ⟨header, members⟩ = (header.constants = []) := if_pos hkind
  have hnested : nestedOf ⟨header, members⟩ = [] := if_pos hkind
  rw [← List.append_nil (linesOfBody _ _)] at hsuite ⊢
  refine @WellLaid.intro depth ⟨header, members⟩ .enumeration _ [] ?_ hown ?_ ?_
  · rw [hbare]
    exact hsuite
  · rw [hnested]
    rfl
  · rw [hnested]
    simp

theorem class_laid (h : PrintableHeader header) (hkind : header.kind ≠ .enumeration)
    (hmembers : ∀ m ∈ members, PrintableMember m) (depth : Nat) {blocks : List (List String)}
    (hlines : linesOfBody (depth + 1) (nestedStubs members) = blocks.flatMap ("" :: ·))
    (hblocks : BlocksLaid (depth + 1) (nestedIn members) blocks) :
    WellLaid depth ⟨header, members⟩
        ((classDef header.name (classHeading header.base)
          (classBody members (nestedStubs members))).lines depth) ∧
      Entries depth []
        ((classDef header.name (classHeading header.base)
          (classBody members (nestedStubs members))).lines depth) := by
  have hheading : OneLine (classHeading header.base).text := by
    cases hbase : header.base with
    | none => decide
    | some base => exact oneLine_append.mpr ⟨by decide, h.base base hbase⟩
  have hnested : Entries (depth + 1) [] (linesOfBody (depth + 1) (nestedStubs members)) := by
    rw [hlines]
    exact .flatMap fun block hblock =>
      (hblocks.entries block hblock).after_blank (hblocks.ne_nil block hblock)
  have hnil : nestedStubs members = [] ↔ nestedIn members = [] := by
    have hblank : blocks.flatMap ("" :: ·) = [] ↔ blocks = [] := by cases blocks <;> simp
    rw [← linesOfBody_eq_nil, hlines, hblank, ← List.length_eq_zero_iff, hblocks.length,
      List.length_eq_zero_iff]
  obtain ⟨hsuite, honeLine⟩ := classBody_laid hmembers hnested hnil
  obtain ⟨own, hsplit, hown⟩ := classBody_own (depth + 1) hmembers (nestedStubs members)
  rw [lines_classDef]
  refine ⟨?_, entries_class h.name hheading hsuite honeLine⟩
  -- The blocks of nested types are told apart from the lines of the class itself.
  rw [hsplit, hlines]
  have hbare : IsBare ⟨header, members⟩ = ∀ m ∈ members,
      (memberRejection? m).isSome = true ∨ LeavesNothing m := if_neg hkind
  have hnestedOf : nestedOf ⟨header, members⟩ = nestedIn members := if_neg hkind
  refine .intro (by rw [hbare, ← hlines, ← hsplit]; exact hsuite) (fun line hline _ => hown line hline)
    ?_ ?_
  · rw [hnestedOf]
    exact hblocks.length
  · rw [hnestedOf]
    exact hblocks.wellLaid

mutual

theorem stub?_laid (t : TypeInfo) (h : Printable t) (hkind : t.kind ≠ .unsupported) (depth : Nat) :
    ∃ s, stub? t = some s ∧ WellLaid depth t (s.lines depth) ∧ Entries depth [] (s.lines depth) := by
  obtain ⟨header, members⟩ := t
  have hmembers := printableMembers_iff.mp h.2
  by_cases henum : header.kind = .enumeration
  · exact ⟨_, by simp only [stub?, henum], enum_laid h.1 henum depth⟩
  · obtain ⟨blocks, hlines, hblocks⟩ := nestedStubs_laid members h.2 (depth + 1)
    refine ⟨_, ?_, class_laid h.1 henum hmembers depth hlines hblocks⟩
    simp only [stub?]

theorem nestedStubs_laid (members : List Member) (h : PrintableMembers members) (level : Nat) :
    ∃ blocks, linesOfBody level (nestedStubs members) = blocks.flatMap ("" :: ·) ∧
      BlocksLaid level (nestedIn members) blocks := by
  match members with
  | [] => exact ⟨[], rfl, .nil level⟩
  | .nested t :: rest =>
    obtain ⟨blocks, hlines, hblocks⟩ := nestedStubs_laid rest h.2 level
    rw [nestedIn_cons, nestedIn_nested]
    simp only [nestedStubs]
    by_cases hrejected : (typeRejection? t.toTypeHeader).isSome = true
    · rw [if_pos hrejected, if_pos hrejected]
      exact ⟨blocks, hlines, hblocks⟩
    · by_cases hkind : t.kind = .unsupported
      · rw [if_neg hrejected, if_neg hrejected, if_pos hkind, stub?_of_unsupported hkind]
        exact ⟨blocks, hlines, hblocks⟩
      · obtain ⟨s, hs, hlaid, hentries⟩ := stub?_laid t h.1 hkind level
        rw [if_neg hrejected, if_neg hrejected, if_neg hkind, hs]
        refine ⟨s.lines level :: blocks, ?_, .cons hlaid (lines_ne_nil s level) hentries hblocks⟩
        rw [linesOfBody_append, hlines, List.flatMap_cons]
        simp [linesOfBody, lines]
  | .constructor c :: rest | .property c :: rest | .field c :: rest | .method c :: rest =>
    rw [nestedIn_cons, nestedIn_of_not_nested (by simp)]
    exact nestedStubs_laid rest h.2 level

end

theorem stub?_of_class {t : TypeInfo} (hkind : t.kind ≠ .unsupported)
    (hclass : t.kind ≠ .enumeration) :
    stub? t = some (.classDef t.name (classHeading t.base)
      (classBody t.members (nestedStubs t.members))) := by
  obtain ⟨header, members⟩ := t
  rw [stub?]
  cases hheader : header.kind with
  | unsupported => exact absurd hheader hkind
  | enumeration => exact absurd hheader hclass
  | reference | value | interface => rfl

/-- The stub of a printable type, read line by line, is laid out at every level. -/
theorem stub_text_wellLaid (t : TypeInfo) (h : Printable t) (hkind : t.kind ≠ .unsupported)
    (depth : Nat) : ∃ text, text? depth t = some text ∧ WellLaid depth t (linesOf text) := by
  obtain ⟨s, hs, hlaid, hentries⟩ := stub?_laid t h hkind depth
  refine ⟨s.text depth, by rw [text?, hs]; rfl, ?_⟩
  rw [linesOf_text hentries.oneLine]
  exact hlaid

/-- A class with an overloaded method, an operator without a slot, and nested types of which one
has nothing to declare and one is an enumeration. -/
def canvas : TypeInfo where
  name := "Canvas"
  kind := .reference
  base := some "Game.Surface"
  members :=
    [.method { name := "draw", returnType := .delegate },
      .method { name := "draw", returnType := .delegate, isStatic := true,
                parameters := [{ name := "scale", type := .array .delegate, variadic := true }] },
      .method (.ofOperator "op_True" [] (.primitive .bool)),
      .nested { name := "Layer", kind := .value,
                members := [.property { name := "Item", type := .delegate, readable := false,
                                        indexParameters := [{ name := "i", type := .delegate }] }] },
      .nested { name := "Mode", kind := .enumeration, constants := [⟨"Fast", 1⟩] }]

theorem canvas_text_wellLaid :
    ∃ text, text? 1 canvas = some text ∧ WellLaid 1 canvas (linesOf text) :=
  stub_text_wellLaid canvas (by decide +kernel) (by decide) 1

example : (stub? canvas).map (·.lines 0) = some
    ["class Canvas: # Inherits from Game.Surface", "    # Methods", "    @overload",
      "    def draw(self) -> Callable[..., Any]: ...", "    @overload", "    @staticmethod",
      "    def draw(*scale: Callable[..., Any]) -> Callable[..., Any]: ...", "    # Nested Types",
      "", "    class Layer:", "        pass",
      "", "    class Mode(Enum):", "        Fast = 1", ""] := by decide +kernel

end Types

end StubTree.Stub
