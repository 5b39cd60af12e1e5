import Mathlib.Data.List.TakeWhile
import StubTree.Proofs.Layout

/-!
Entries of a suite. The lines of statements that declare something can be put
one after the other and below a title, and stay laid out as a suite asks for.
-/

namespace StubTree.Stub

open Python

section Lines

variable {level : Nat} {line code mark title : String}

theorem isComment_indented (h : code.toList.head? ≠ some ' ') :
    isComment level (indentation level ++ code) = decide (code.toList.head? = some '#') := by
  simp [isComment, indentOf_indented h, codeOf_indented h]

theorem commentLine_eq (level : Nat) (title : String) :
    commentLine level title = indentation level ++ ("# " ++ title) := String.append_assoc ..

theorem isComment_commentLine (level : Nat) (title : String) :
    isComment level (commentLine level title) = true := by
  rw [commentLine_eq, isComment_indented (by simp)]
  simp

theorem isComment_passLine (level : Nat) : isComment level (passLine level) = false := by
  rw [passLine, isComment_indented (by simp)]
  simp

theorem isComment_of_deeper (h : 4 * level < indentOf line) : isComment level line = false := by
  simp [isComment, Nat.ne_of_gt h]

theorem not_decorator_of_declaration (h : IsDeclaration level line) : ¬IsDecorator line := by
  obtain ⟨code, rfl, hcode⟩ := h
  obtain ⟨c, hc, hblank, -, hmark⟩ := hcode.head?
  rw [IsDecorator, codeOf_indented (by simp [hc, hblank]), hc]
  simpa using hmark

/-- What may stand among the entries of a suite: nothing that is taken for a title or for an empty
suite. -/
structure EntryLine (level : Nat) (line : String) : Prop where
  oneLine : OneLine line
  deeper : line ≠ "" → 4 * level ≤ indentOf line
  not_comment : isComment level line = false
  ne_pass : line ≠ passLine level

theorem entryLine_blank (level : Nat) : EntryLine level "" where
  oneLine := by simp [OneLine]
  deeper h := absurd rfl h
  not_comment := by
    rw [isComment, Bool.and_eq_false_iff]
    exact .inr (by decide)
  ne_pass h := by
    have htexts := congrArg String.toList h
    simp [passLine] at htexts

theorem entryLine_of_deeper (honeLine : OneLine line) (h : 4 * level < indentOf line) :
    EntryLine level line where
  oneLine := honeLine
  deeper _ := Nat.le_of_lt h
  not_comment := isComment_of_deeper h
  ne_pass heq := by
    rw [heq, passLine, indentOf_indented (by simp)] at h
    exact Nat.lt_irrefl _ h

theorem entryLine_indented {c : Char} (hhead : code.toList.head? = some c) (hblank : c ≠ ' ')
    (hcomment : c ≠ '#') (hpass : code ≠ "pass") (honeLine : OneLine code) :
    EntryLine level (indentation level ++ code) where
  oneLine := oneLine_append.mpr ⟨oneLine_indentation level, honeLine⟩
  deeper _ := Nat.le_of_eq (indentOf_indented (by simp [hhead, hblank]) level).symm
  not_comment := by
    rw [isComment_indented (by simp [hhead, hblank])]
    simp [hhead, hcomment]
  ne_pass heq := hpass (String.append_right_inj _ |>.mp heq)

theorem entryLine_of_declares (h : Declares code) (honeLine : OneLine code) :
    EntryLine level (indentation level ++ code) := by
  obtain ⟨c, hc, hblank, hcomment, -⟩ := h.head?
  exact entryLine_indented hc hblank hcomment h.ne_pass honeLine

theorem entryLine_decorator (honeLine : OneLine mark) :
    EntryLine level (indentation level ++ ("@" ++ mark)) := by
  refine entryLine_indented (c := '@') (by simp) (by decide) (by decide) ?_
    (oneLine_append.mpr ⟨by simp [OneLine], honeLine⟩)
  intro heq
  have htexts := congrArg (fun s => s.toList.head?) heq
  simp at htexts

end Lines

/-- Lines with something to declare, if there are any. -/
structure Entries (level : Nat) (titles lines : List String) : Prop extends
    Laid level titles lines where
  oneLine : ∀ line ∈ lines, OneLine line
  no_pass : passLine level ∉ lines
  declares : lines ≠ [] → ∃ line ∈ lines, IsDeclaration level line

namespace Entries

variable {level : Nat} {titles titles' lines lines' : List String}

theorem nil (level : Nat) (titles : List String) : Entries level titles [] where
  deeper := by simp
  comments := List.nil_sublist _
  sections := trivial
  decorators := trivial
  oneLine := by simp
  no_pass := by simp
  declares h := absurd rfl h

theorem of_lines (hlines : ∀ line ∈ lines, EntryLine level line)
    (hdecorators : EveryTail Decorated lines) (hdeclares : ∃ line ∈ lines, IsDeclaration level line) :
    Entries level [] lines where
  deeper line h := (hlines line h).deeper
  comments := by
    rw [List.filter_eq_nil_iff.mpr fun line h => by simp [(hlines line h).not_comment]]
    exact List.Sublist.refl []
  sections := .of_forall fun line h _ hcomment =>
    absurd hcomment (by simp [(hlines line h).not_comment])
  decorators := hdecorators
  oneLine line h := (hlines line h).oneLine
  no_pass h := (hlines _ h).ne_pass rfl
  declares _ := hdeclares

theorem append (h : Entries level titles lines) (h' : Entries level titles' lines') :
    Entries level (titles ++ titles') (lines ++ lines') where
  deeper line hline := (List.mem_append.mp hline).elim (h.deeper line) (h'.deeper line)
  comments := by
    rw [List.filter_append, List.map_append]
    exact h.comments.append h'.comments
  sections := h.sections.append (Filled.append level) h'.sections
  decorators := h.decorators.append Decorated.append h'.decorators
  oneLine line hline := (List.mem_append.mp hline).elim (h.oneLine line) (h'.oneLine line)
  no_pass hpass := (List.mem_append.mp hpass).elim h.no_pass h'.no_pass
  declares hne := by
    by_cases hlines : lines = []
    · subst hlines
      exact h'.declares hne
    · obtain ⟨line, hline, hdeclares⟩ := h.declares hlines
      exact ⟨line, List.mem_append_left _ hline, hdeclares⟩

theorem flatMap {α : Type} {f : α → List String} {items : List α}
    (h : ∀ a ∈ items, Entries level [] (f a)) : Entries level [] (items.flatMap f) := by
  induction items with
  | nil => exact nil level []
  | cons a rest ih =>
      rw [List.flatMap_cons]
      exact (h a List.mem_cons_self).append (ih fun b hb => h b (List.mem_cons_of_mem _ hb))

theorem entryLine (h : Entries level [] lines) {line : String} (hline : line ∈ lines) :
    EntryLine level line where
  oneLine := h.oneLine line hline
  deeper := h.deeper line hline
  not_comment := by
    have hnone := List.filter_eq_nil_iff.mp (List.eq_nil_of_sublist_nil h.comments)
    simpa using hnone line hline
  ne_pass heq := h.no_pass (heq ▸ hline)

theorem decorated_blank (rest : List String) : Decorated "" rest := by
  intro hdecorator
  simp [IsDecorator, codeOf] at hdecorator

theorem after_blank (h : Entries level [] lines) (hne : lines ≠ []) :
    Entries level [] ("" :: lines) := by
  refine of_lines (fun line hline => ?_) ⟨decorated_blank lines, h.decorators⟩ ?_
  · cases hline with
    | head => exact entryLine_blank level
    | tail _ hline => exact h.entryLine hline
  · obtain ⟨line, hline, hdeclares⟩ := h.declares hne
    exact ⟨line, List.mem_cons_of_mem _ hline, hdeclares⟩

theorem before_blank (h : Entries level [] lines) (hne : lines ≠ []) :
    Entries level [] (lines ++ [""]) := by
  refine of_lines (fun line hline => ?_)
    (h.decorators.append Decorated.append ⟨decorated_blank [], trivial⟩) ?_
  · cases List.mem_append.mp hline with
    | inl hline => exact h.entryLine hline
    | inr hline =>
        rw [List.mem_singleton.mp hline]
        exact entryLine_blank level
  · obtain ⟨line, hline, hdeclares⟩ := h.declares hne
    exact ⟨line, List.mem_append_left _ hline, hdeclares⟩

theorem widen (h : Entries level [] lines) (titles : List String) :
    Entries level titles lines := by
  have hwide := h.append (nil level titles)
  rwa [List.nil_append, List.append_nil] at hwide

/-- A title needs something to stand above. -/
theorem below {title : String} (htitle : OneLine title) (h : Entries level [] lines)
    (hne : lines ≠ []) : Entries level [title] (commentLine level title :: lines) where
  deeper line hline := by
    cases hline with
    | head =>
        intro _
        rw [commentLine_eq, indentOf_indented (by simp)]
    | tail _ hline => exact h.deeper line hline
  comments := by
    have hnone := List.eq_nil_of_sublist_nil h.comments
    rw [List.filter_cons_of_pos (isComment_commentLine level title), hnone]
    exact List.Sublist.refl _
  sections := by
    have hnone := List.filter_eq_nil_iff.mp (List.eq_nil_of_sublist_nil h.comments)
    refine ⟨fun _ => ?_, h.sections⟩
    rw [List.takeWhile_eq_self_iff.mpr fun line hline => by simpa using hnone line hline]
    exact h.declares hne
  decorators := by
    refine ⟨fun hdecorator => ?_, h.decorators⟩
    rw [IsDecorator, commentLine_eq, codeOf_indented (by simp)] at hdecorator
    simp at hdecorator
  oneLine line hline := by
    cases hline with
    | head =>
        simp only [commentLine_eq, oneLine_append]
        exact ⟨oneLine_indentation level, by simp [OneLine], htitle⟩
    | tail _ hline => exact h.oneLine line hline
  no_pass hpass := by
    refine (List.mem_cons.mp hpass).elim (fun heq => ?_) h.no_pass
    have htitled := isComment_commentLine level title
    rw [← heq, isComment_passLine] at htitled
    exact absurd htitled (by simp)
  declares _ := by
    obtain ⟨line, hline, hdeclares⟩ := h.declares hne
    exact ⟨line, List.mem_cons_of_mem _ hline, hdeclares⟩

end Entries

end StubTree.Stub
