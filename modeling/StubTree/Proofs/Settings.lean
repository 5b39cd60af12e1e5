import StubTree.Package.Readme
import StubTree.Proofs.Printing
import StubTree.Proofs.Segments

/-!
The settings in the readme. A printed value breaks lines only between the
parts of a container, so none of its lines but the first begins with a
backtick, whatever its strings hold. The fence behind the settings is therefore
the first one after them, and what it closes is read back.
-/

namespace StubTree.Json

/-- A text in which no line but the first begins with a backtick. -/
def NoFence (cs : List Char) : Prop :=
  ∀ front back, cs = front ++ '\n' :: back → ∃ c rest, back = c :: rest ∧ c ≠ '`'

section Lines

variable {cs cs' : List Char}

theorem NoFence.of_not_mem (h : '\n' ∉ cs) : NoFence cs := by
  rintro front back rfl
  exact absurd (List.mem_append_right front List.mem_cons_self) h

theorem NoFence.append (h : NoFence cs) (h' : NoFence cs') : NoFence (cs ++ cs') := by
  intro front back heq
  rcases List.append_eq_append_iff.mp heq with ⟨between, rfl, hback⟩ | ⟨between, hfront, hback⟩
  · exact h' between back hback
  · cases between with
    | nil => exact h' [] back hback.symm
    | cons c behind =>
        obtain ⟨rfl, rfl⟩ := List.cons.inj hback
        obtain ⟨c, rest, rfl, hc⟩ := h front behind hfront
        exact ⟨c, rest ++ cs', rfl, hc⟩

theorem NoFence.break {c : Char} (hc : c ≠ '`') (h : '\n' ∉ c :: cs) :
    NoFence ('\n' :: c :: cs) := by
  rintro (_ | ⟨first, front⟩) back heq
  · obtain ⟨-, rfl⟩ := List.cons.inj heq
    exact ⟨c, cs, rfl, hc⟩
  · obtain ⟨-, hrest⟩ := List.cons.inj heq
    exact absurd (hrest ▸ List.mem_append_right front List.mem_cons_self) h

theorem head?_first_line {c : Char} {line : List Char} {lines : List (List Char)} (hc : c ≠ '`')
    (h : Text.splitChars '\n' (c :: cs) = line :: lines) : line.head? ≠ some '`' := by
  obtain ⟨first, later, hpieces⟩ :=
    List.exists_cons_of_ne_nil (Text.splitChars_ne_nil '\n' cs)
  simp only [Text.splitChars, hpieces] at h
  split at h
  · obtain ⟨rfl, -⟩ := List.cons.inj h
    simp
  · obtain ⟨rfl, -⟩ := List.cons.inj h
    simpa using hc

theorem NoFence.later_lines (h : NoFence cs) :
    ∀ line ∈ (Text.splitChars '\n' cs).tail, line.head? ≠ some '`' := by
  induction cs with
  | nil => simp [Text.splitChars]
  | cons c rest ih =>
      have hrest : NoFence rest := fun front back heq => h (c :: front) back (by rw [heq]; rfl)
      obtain ⟨first, later, hpieces⟩ :=
        List.exists_cons_of_ne_nil (Text.splitChars_ne_nil '\n' rest)
      have hlater := ih hrest
      rw [hpieces, List.tail_cons] at hlater
      by_cases hc : c = '\n'
      · rw [Text.splitChars, if_pos hc, List.tail_cons, hpieces, List.forall_mem_cons]
        obtain ⟨c', rest', rfl, hc'⟩ := h [] rest (by rw [hc]; rfl)
        exact ⟨head?_first_line hc' hpieces, hlater⟩
      · rw [Text.splitChars, if_neg hc, hpieces]
        exact hlater

theorem NoFence.lines {c : Char} (hc : c ≠ '`') (h : NoFence (c :: cs)) :
    ∀ line ∈ Text.splitChars '\n' (c :: cs), line.head? ≠ some '`' := by
  obtain ⟨first, later, hpieces⟩ :=
    List.exists_cons_of_ne_nil (Text.splitChars_ne_nil '\n' (c :: cs))
  have hlater := h.later_lines
  rw [hpieces] at hlater ⊢
  exact List.forall_mem_cons.mpr ⟨head?_first_line hc hpieces, hlater⟩

theorem hexDigit_ne_newline : ∀ n < 16, Text.hexDigit n ≠ '\n' := by
  decide

theorem newline_not_mem_escapedChar (c : Char) : '\n' ∉ escapedChar c := by
  simp only [escapedChar]
  split_ifs with hmark hplain
  case pos => rcases hmark with rfl | rfl <;> decide
  case pos =>
    intro hmem
    rw [← List.mem_singleton.mp hmem] at hplain
    exact absurd hplain (by decide)
  case neg =>
    have hhigh := hexDigit_ne_newline (c.toNat / 16) (by omega)
    have hlow := hexDigit_ne_newline (c.toNat % 16) (by omega)
    simp [Ne.symm hhigh, Ne.symm hlow]
  all_goals decide

theorem noFence_stringText (s : String) : NoFence (stringText s) := by
  refine .of_not_mem fun hmem => ?_
  simp only [stringText, List.cons_append, List.mem_cons, List.mem_append, List.mem_flatMap] at hmem
  rcases hmem with hmem | ⟨c, -, hmem⟩ | hmem
  · exact absurd hmem (by decide)
  · exact newline_not_mem_escapedChar c hmem
  · exact absurd hmem (by decide)

theorem noFence_newLine (level : Nat) : NoFence (Value.newLine (level + 1)) := by
  rw [Value.newLine, Nat.mul_add_one, List.replicate_succ]
  refine .break (by decide) fun hmem => ?_
  rw [← List.replicate_succ] at hmem
  exact absurd (List.eq_of_mem_replicate hmem) (by decide)

theorem noFence_closing {c : Char} (level : Nat) (hc : c ≠ '`') (hline : c ≠ '\n') :
    NoFence (Value.newLine level ++ [c]) := by
  cases level with
  | zero => exact .break hc (by simpa using Ne.symm hline)
  | succ level => exact (noFence_newLine level).append (.of_not_mem (by simpa using Ne.symm hline))

theorem noFence_comma (first : Bool) : NoFence (if first then [] else [',']) := by
  cases first <;> exact .of_not_mem (by decide)

theorem noFence_end {c : Char} (level : Nat) (first : Bool) (hc : c ≠ '`') (hline : c ≠ '\n') :
    NoFence ((if first then [] else Value.newLine level) ++ [c]) := by
  cases first with
  | true => exact .of_not_mem (by simpa using Ne.symm hline)
  | false => exact noFence_closing level hc hline

mutual

theorem noFence_pretty (level : Nat) : (v : Value) → v.Numberless → NoFence (v.pretty level)
  | .null, _ => .of_not_mem (show '\n' ∉ "null".toList by decide)
  | .boolean true, _ => .of_not_mem (show '\n' ∉ "true".toList by decide)
  | .boolean false, _ => .of_not_mem (show '\n' ∉ "false".toList by decide)
  | .number _, hnone => hnone.elim
  | .string s, _ => noFence_stringText s
  | .list items, hnone =>
      (NoFence.of_not_mem (show '\n' ∉ ['['] by decide)).append
        (noFence_prettyItems level true items hnone)
  | .object entries, hnone =>
      (NoFence.of_not_mem (show '\n' ∉ ['\x7b'] by decide)).append
        (noFence_prettyEntries level true entries hnone)

theorem noFence_prettyItems (level : Nat) (first : Bool) : (items : List Value) →
    Value.NumberlessItems items → NoFence (Value.prettyItems level first items)
  | [], _ => noFence_end level first (by decide) (by decide)
  | v :: rest, hnone => by
      have hline := (noFence_comma first).append (noFence_newLine level)
      exact (hline.append (noFence_pretty (level + 1) v hnone.1)).append
        (noFence_prettyItems level false rest hnone.2)

theorem noFence_prettyEntries (level : Nat) (first : Bool) :
    (entries : List (String × Value)) → Value.NumberlessEntries entries →
      NoFence (Value.prettyEntries level first entries)
  | [], _ => noFence_end level first (by decide) (by decide)
  | (name, v) :: rest, hnone => by
      have hline := (noFence_comma first).append (noFence_newLine level)
      have hcolon : NoFence [':', ' '] := .of_not_mem (by decide)
      have hentry := hcolon.append (noFence_pretty (level + 1) v hnone.1)
      exact ((hline.append (noFence_stringText name)).append hentry).append
        (noFence_prettyEntries level false rest hnone.2)

end

end Lines

end StubTree.Json

namespace StubTree.Package

open Json (Value)

section Settings

variable (root : String)

end Settings

end StubTree.Package
