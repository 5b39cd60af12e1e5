import StubTree.Text.Segments

/-!
Cutting and joining. Cutting a text at a character and joining the pieces with
it gives the text back, so two texts with the same pieces are the same; a piece
never contains the character. Ascending lists without repetitions are
determined by their members.
-/

namespace StubTree.Text

theorem splitChars_ne_nil (sep : Char) (cs : List Char) : splitChars sep cs ≠ [] := by
  cases cs with
  | nil => simp [splitChars]
  | cons c rest =>
      simp only [splitChars]
      split
      · simp
      · split <;> simp

theorem splitChars_of_not_mem {sep : Char} {cs : List Char} (h : sep ∉ cs) :
    splitChars sep cs = [cs] := by
  induction cs with
  | nil => rfl
  | cons c rest ih =>
      simp only [List.mem_cons, not_or] at h
      simp only [splitChars, if_neg (Ne.symm h.1), ih h.2]

theorem splitChars_append (sep : Char) (front back : List Char) :
    splitChars sep (front ++ sep :: back) = splitChars sep front ++ splitChars sep back := by
  induction front with
  | nil => simp [splitChars]
  | cons c rest ih =>
      simp only [List.cons_append, splitChars, ih]
      split
      · rfl
      · cases h : splitChars sep rest with
        | nil => exact absurd h (splitChars_ne_nil sep rest)
        | cons piece pieces => rfl

theorem not_mem_of_mem_splitChars {sep : Char} {cs piece : List Char}
    (h : piece ∈ splitChars sep cs) : sep ∉ piece := by
  induction cs generalizing piece with
  | nil => simp_all [splitChars]
  | cons c rest ih =>
      simp only [splitChars] at h
      split at h
      case isTrue =>
        cases h with
        | head => simp
        | tail _ h => exact ih h
      case isFalse hc =>
        split at h
        case h_1 hs => exact absurd hs (splitChars_ne_nil sep rest)
        case h_2 first pieces hs =>
          rw [hs] at ih
          cases h with
          | head =>
              have hfirst := ih List.mem_cons_self
              simp only [List.mem_cons, not_or]
              exact ⟨Ne.symm hc, hfirst⟩
          | tail _ h => exact ih (List.mem_cons_of_mem _ h)

/-- The last piece is empty only if the text is, or ends in the separator. -/
theorem getLast?_splitChars {sep : Char} {cs : List Char} (hne : cs ≠ [])
    (hlast : cs.getLast? ≠ some sep) : (splitChars sep cs).getLast? ≠ some [] := by
  induction cs with
  | nil => exact absurd rfl hne
  | cons c rest ih =>
      by_cases hrest : rest = []
      · subst hrest
        have hc : c ≠ sep := by simpa using hlast
        simp [splitChars, hc]
      · have hlast' : rest.getLast? ≠ some sep := by
          rwa [List.getLast?_cons, List.getLast?_eq_some_getLast hrest, Option.getD_some,
            ← List.getLast?_eq_some_getLast hrest] at hlast
        have hlater := ih hrest hlast'
        simp only [splitChars]
        cases hpieces : splitChars sep rest with
        | nil => exact absurd hpieces (splitChars_ne_nil sep rest)
        | cons piece pieces =>
            rw [hpieces] at hlater
            split
            · simpa [List.getLast?_cons] using hlater
            · cases pieces with
              | nil => simp
              | cons next more => simpa [List.getLast?_cons] using hlater

theorem intercalate_splitChars (sep : Char) (cs : List Char) :
    List.intercalate [sep] (splitChars sep cs) = cs := by
  induction cs with
  | nil => rfl
  | cons c rest ih =>
      simp only [splitChars]
      cases h : splitChars sep rest with
      | nil => exact absurd h (splitChars_ne_nil sep rest)
      | cons piece pieces =>
          rw [h] at ih
          split
          case isTrue hc => rw [List.intercalate_cons_cons, ih, hc]; rfl
          case isFalse =>
            cases pieces with
            | nil =>
                rw [List.intercalate_singleton] at ih ⊢
                rw [ih]
            | cons next more =>
                rw [List.intercalate_cons_cons] at ih ⊢
                rw [← ih]
                rfl

theorem segments_ne_nil (sep : Char) (s : String) : segments sep s ≠ [] := by
  simpa [segments] using splitChars_ne_nil sep s.toList

theorem segments_of_not_mem {sep : Char} {s : String} (h : sep ∉ s.toList) :
    segments sep s = [s] := by
  simp [segments, splitChars_of_not_mem h]

theorem segments_of_toList_eq {sep : Char} {s front back : String}
    (h : s.toList = front.toList ++ sep :: back.toList) :
    segments sep s = segments sep front ++ segments sep back := by
  simp [segments, h, splitChars_append]

theorem not_mem_of_mem_segments {sep : Char} {s segment : String}
    (h : segment ∈ segments sep s) : sep ∉ segment.toList := by
  obtain ⟨piece, hpiece, rfl⟩ := List.mem_map.mp h
  simpa using not_mem_of_mem_splitChars hpiece

theorem getLast?_segments {sep : Char} {s : String} (hne : s ≠ "")
    (hlast : s.toList.getLast? ≠ some sep) : (segments sep s).getLast? ≠ some "" := by
  have hchars := getLast?_splitChars (mt String.toList_eq_nil_iff.mp hne) hlast
  rw [segments, List.getLast?_map]
  intro hempty
  obtain ⟨piece, hpiece, heq⟩ := Option.map_eq_some_iff.mp hempty
  rw [hpiece, String.ofList_eq_empty_iff.mp heq] at hchars
  exact hchars rfl

theorem segments_injective (sep : Char) : Function.Injective (segments sep) := by
  intro s s' h
  have hpieces : splitChars sep s.toList = splitChars sep s'.toList :=
    List.map_inj_right (fun _ _ => String.ofList_injective) |>.mp h
  have hlists := congrArg (List.intercalate [sep]) hpieces
  rw [intercalate_splitChars, intercalate_splitChars] at hlists
  exact String.toList_inj.mp hlists

@[simp] theorem mem_insertSorted {x y : String} {ys : List String} :
    x ∈ insertSorted y ys ↔ x = y ∨ x ∈ ys := by
  induction ys with
  | nil => simp [insertSorted]
  | cons z rest ih =>
      simp only [insertSorted]
      split
      · simp
      · split
        · simp_all
        · simp only [List.mem_cons, ih]
          exact or_left_comm

theorem pairwise_insertSorted {y : String} {ys : List String} (h : ys.Pairwise (· < ·)) :
    (insertSorted y ys).Pairwise (· < ·) := by
  induction ys with
  | nil => simp [insertSorted]
  | cons z rest ih =>
      have hz := List.pairwise_cons.mp h
      simp only [insertSorted]
      split
      case isTrue hlt =>
        refine List.pairwise_cons.mpr ⟨?_, h⟩
        intro w hw
        cases hw with
        | head => exact hlt
        | tail _ hw => exact String.lt_trans hlt (hz.1 w hw)
      case isFalse hlt =>
        split
        case isTrue => exact h
        case isFalse hne =>
          refine List.pairwise_cons.mpr ⟨?_, ih hz.2⟩
          intro w hw
          rcases mem_insertSorted.mp hw with rfl | hw
          · apply String.not_le.mp
            intro hle
            exact hne (String.le_antisymm hle (String.not_lt.mp hlt))
          · exact hz.1 w hw

theorem nodup_of_ascending {xs : List String} (h : xs.Pairwise (· < ·)) : xs.Nodup := by
  refine h.imp ?_
  rintro s _ hlt rfl
  exact String.lt_irrefl s hlt

theorem eq_of_ascending {xs ys : List String} (hx : xs.Pairwise (· < ·))
    (hy : ys.Pairwise (· < ·)) (h : ∀ s, s ∈ xs ↔ s ∈ ys) : xs = ys := by
  have hperm : xs.Perm ys :=
    (List.perm_ext_iff_of_nodup (nodup_of_ascending hx) (nodup_of_ascending hy)).mpr h
  exact hperm.eq_of_pairwise (fun a b _ _ hab hba => absurd hab (String.lt_asymm hba)) hx hy

/-- Adds texts to an ascending list, one after the other. -/
def insertEach (known : List String) (xs : List String) : List String :=
  xs.foldl (fun known x => insertSorted x known) known

theorem insertEach_append (known xs ys : List String) :
    insertEach known (xs ++ ys) = insertEach (insertEach known xs) ys := List.foldl_append

theorem mem_insertEach {s : String} {known xs : List String} :
    s ∈ insertEach known xs ↔ s ∈ known ∨ s ∈ xs := by
  induction xs generalizing known with
  | nil => simp [insertEach]
  | cons x rest ih =>
      rw [insertEach, List.foldl_cons, ← insertEach, ih, mem_insertSorted, List.mem_cons,
        or_assoc, or_left_comm]

theorem pairwise_insertEach {known : List String} (h : known.Pairwise (· < ·))
    (xs : List String) : (insertEach known xs).Pairwise (· < ·) := by
  induction xs generalizing known with
  | nil => exact h
  | cons x rest ih => exact ih (pairwise_insertSorted h)

end StubTree.Text
