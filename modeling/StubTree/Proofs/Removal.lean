import StubTree.Proofs.Access

/-!
What becomes of a directory that is removed. First everything in it goes, and
then the directory by the last step of its path, so the way to it is taken
twice. Where the way leads through what is gone by then, the directory stays and
nobody is told; where the last step is no name, the removal fails when there is
nothing left in the directory.
-/

namespace StubTree.Files

namespace Tree

variable {tree : Tree} {place start last : Place}

/-- In a tree with a place cleared, a way is the same as before unless it leads into the place. -/
theorem follow_clear {segments : List String} (hstart : ¬StrictlyAbove place start)
    (hfollow : tree.follow start segments = .ok last) :
    (tree.clear place).follow start segments =
      if ∃ p ∈ entered start (namesIn segments), StrictlyAbove place p then .error .notFound
      else .ok last := by
  induction segments generalizing start with
  | nil =>
      rw [if_neg (by simp [namesIn, entered])]
      exact hfollow
  | cons segment rest ih =>
      obtain ⟨hhere, hsteps⟩ := follow_cons_eq_ok.mp hfollow
      have hcleared : (tree.clear place).get? start = some .directory := by
        rw [get?_clear, if_neg hstart, hhere]
      simp only [follow, hcleared]
      rcases hsteps with ⟨hidle, hrest⟩ | ⟨hidle, rfl, hrest⟩ | ⟨hidle, hup, hshort, hnext, hrest⟩
      · rw [if_pos hidle, ih hstart hrest, entered_idle hidle]
      · have habove : ¬StrictlyAbove place start.dropLast := fun habove =>
          hstart (habove.trans_prefix (List.dropLast_prefix start))
        rw [if_neg (by simp [hidle]), if_pos rfl, ih habove hrest, entered_upwards]
      · rw [if_neg (by simp [hidle]), if_neg hup, if_neg (Nat.not_lt.mpr hshort),
          entered_named hidle hup]
        by_cases hinside : StrictlyAbove place (start ++ [segment])
        · have hgone : (tree.clear place).get? (start ++ [segment]) = none := by
            rw [get?_clear, if_pos hinside]
          rw [hgone, if_pos Option.isNone_none, if_pos ⟨_, List.mem_cons_self, hinside⟩]
        · have hstays : (tree.clear place).get? (start ++ [segment]) ≠ none := by
            rwa [get?_clear, if_neg hinside]
          rw [if_neg (by simp [hstays]), ih hinside hrest]
          simp only [List.mem_cons, exists_eq_or_imp, hinside, false_or]

/-- Empty segments can be left out. -/
theorem follow_filled {segments : List String} (hfollow : tree.follow start segments = .ok last) :
    tree.follow start (segments.filter (· ≠ "")) = .ok last := by
  induction segments generalizing start with
  | nil => exact hfollow
  | cons segment rest ih =>
      obtain ⟨hhere, hsteps⟩ := follow_cons_eq_ok.mp hfollow
      by_cases hempty : segment = ""
      · subst hempty
        have hidle : isIdle "" = true := by decide
        simp only [hidle, true_and, Bool.true_eq_false, false_and, or_false] at hsteps
        rw [List.filter_cons_of_neg (by simp)]
        exact ih hsteps
      · rw [List.filter_cons_of_pos (by simpa using hempty)]
        refine follow_cons_eq_ok.mpr ⟨hhere, ?_⟩
        rcases hsteps with ⟨hidle, hrest⟩ | ⟨hidle, hup, hrest⟩ | ⟨hidle, hup, hshort, hnext, hrest⟩
        · exact .inl ⟨hidle, ih hrest⟩
        · exact .inr (.inl ⟨hidle, hup, ih hrest⟩)
        · exact .inr (.inr ⟨hidle, hup, hshort, hnext, ih hrest⟩)

/-- Once a place has been cleared, the directory that its last step is taken in is found unless the
way to the place led through it. -/
theorem follow_upper_clear {segments : List String}
    (hfollow : tree.follow [] segments = .ok place) :
    ∃ upper, (tree.clear place).follow [] (segments.filter (· ≠ "")).dropLast =
      if ∃ p ∈ entered [] (namesIn segments), StrictlyAbove place p then .error .notFound
      else .ok upper := by
  have hfilled := follow_filled hfollow
  rw [← namesIn_filled segments]
  have hstart : ¬StrictlyAbove place [] := not_strictlyAbove_of_isPrefix List.nil_prefix
  rcases List.eq_nil_or_concat (segments.filter (· ≠ "")) with hnil | ⟨front, step, hconcat⟩
  · rw [hnil]
    exact ⟨[], by simp [follow, namesIn, entered]⟩
  · rw [List.concat_eq_append] at hconcat
    rw [hconcat, follow_append] at hfilled
    obtain ⟨upper, hupper, hstep⟩ := bind_eq_ok.mp hfilled
    refine ⟨upper, ?_⟩
    rw [hconcat, List.dropLast_concat, follow_clear hstart hupper, namesIn_append, entered_append]
    -- The last step enters the place itself if it enters anything.
    have hlast : ∀ p ∈ entered (walk [] (namesIn front)) (namesIn [step]), p = place := by
      intro p hp
      rw [← (follow_ok hupper).1] at hp
      rw [(follow_ok hstep).1]
      by_cases hidle : isIdle step = true
      · simp [namesIn, hidle, entered] at hp
      · have hnames : namesIn [step] = [step] := by simp [namesIn, hidle]
        rw [hnames] at hp ⊢
        exact eq_of_mem_entered_single hp
    congr 1
    refine propext ⟨?_, ?_⟩
    · rintro ⟨p, hp, habove⟩
      exact ⟨p, List.mem_append_left _ hp, habove⟩
    · rintro ⟨p, hp, habove⟩
      cases List.mem_append.mp hp with
      | inl hp => exact ⟨p, hp, habove⟩
      | inr hp => exact absurd (hlast p hp ▸ habove) (not_strictlyAbove_of_isPrefix List.prefix_rfl)

theorem isDirectoryAt_iff {path : String} :
    tree.isDirectoryAt path = true ↔
      tree.locate path = .ok (placeOf tree path) ∧
        tree.get? (placeOf tree path) = some .directory := by
  rw [isDirectoryAt, entryAt?]
  cases hlocate : tree.locate path with
  | error fault => simp
  | ok place =>
      obtain ⟨-, rfl, -⟩ := locate_ok hlocate
      simp

theorem isPresent_of_directory {path : String} (h : tree.isDirectoryAt path = true) :
    tree.isPresent path = true := by
  rw [isDirectoryAt, decide_eq_true_eq] at h
  rw [isPresent, h]
  rfl

theorem ne_empty_of_directory {path : String} (h : tree.isDirectoryAt path = true) :
    path ≠ "" := by
  rintro rfl
  have habsent : tree.isDirectoryAt "" = false := rfl
  rw [habsent] at h
  cases h

end Tree

/-- The way to a place leads through something in it. -/
def Reenters (tree : Tree) (path : String) : Prop :=
  ∃ p ∈ wayTo tree path, StrictlyAbove (placeOf tree path) p

instance (tree : Tree) (path : String) : Decidable (Reenters tree path) :=
  inferInstanceAs (Decidable (∃ p ∈ wayTo tree path, _))

/-- Straight down, nothing in a place is met on the way to it. -/
theorem not_reenters_of_not_upwards {tree : Tree} {path : String}
    (hup : ".." ∉ pathNames tree.home path) : ¬Reenters tree path := by
  rintro ⟨p, hp, habove⟩
  rw [Tree.placeOf_of_not_upwards hup] at habove
  exact not_strictlyAbove_of_isPrefix ((Tree.mem_wayTo_of_not_upwards hup).mp hp).2 habove

namespace Action

variable {path : String} {tree tree' : Tree}

/-- A directory is emptied in any case, and then removed if its last step is found and is a name. -/
theorem removeDirectory_of_directory (h : tree.isDirectoryAt path = true) :
    removeDirectory path tree =
      if Reenters tree path then .ok () (tree.clear (placeOf tree path))
      else match unlinkFault? path with
        | some fault => .error fault (tree.clear (placeOf tree path))
        | none => .ok () ((tree.clear (placeOf tree path)).remove (placeOf tree path)) := by
  obtain ⟨hlocate, hdirectory⟩ := Tree.isDirectoryAt_iff.mp h
  obtain ⟨segments, hok, hfollow⟩ := bind_eq_ok.mp hlocate
  obtain ⟨upper, hupper⟩ := Tree.follow_upper_clear hfollow
  rw [Tree.namesIn_segmentsFrom hok] at hupper
  change _ = if Reenters tree path then _ else _ at hupper
  have hplace : ofExcept (tree.locate path) tree = .ok (placeOf tree path) tree := by
    rw [hlocate]
    rfl
  have hset : (set (tree.clear (placeOf tree path)) : Action PUnit) tree =
      .ok () (tree.clear (placeOf tree path)) := rfl
  have hsegments : ofExcept ((tree.clear (placeOf tree path)).segmentsFrom path)
      (tree.clear (placeOf tree path)) = .ok segments (tree.clear (placeOf tree path)) :=
    ofExcept_eq_ok.mpr ⟨hok, rfl⟩
  rw [removeDirectory, Effect.get_bind, Effect.bind_of_ok hplace]
  simp only [hdirectory]
  rw [Effect.bind_of_ok hset, unlinkDirectory, Effect.get_bind,
    Effect.bind_of_ok hsegments, hupper]
  by_cases hthrough : Reenters tree path
  · rw [if_pos hthrough, if_pos hthrough]
    rfl
  · rw [if_neg hthrough, if_neg hthrough]
    cases unlinkFault? path <;> rfl

/-- Where there is no directory, none is removed. -/
theorem removeDirectory_of_other (h : tree.isDirectoryAt path = false) :
    ∃ fault, removeDirectory path tree = .error fault tree := by
  rw [removeDirectory, Effect.get_bind]
  cases hlocate : tree.locate path with
  | error fault => exact ⟨fault, rfl⟩
  | ok place =>
      have hplace : ofExcept (.ok place) tree = .ok place tree := rfl
      rw [Effect.bind_of_ok hplace]
      cases hthere : tree.get? place with
      | none => exact ⟨.notFound, rfl⟩
      | some entry =>
          cases entry with
          | file content => exact ⟨.notDirectory, rfl⟩
          | directory =>
              obtain ⟨-, rfl, -⟩ := Tree.locate_ok hlocate
              rw [Tree.isDirectoryAt_iff.mpr ⟨hlocate, hthere⟩] at h
              cases h

theorem removeDirectory_ok {u : Unit} (h : removeDirectory path tree = .ok u tree') :
    tree.isDirectoryAt path = true ∧ Tree.Gone (placeOf tree path) tree tree' ∧
      (Reenters tree path ∨ unlinkFault? path = none) := by
  cases hthere : tree.isDirectoryAt path with
  | false =>
      obtain ⟨fault, herror⟩ := removeDirectory_of_other hthere
      rw [herror] at h
      cases h
  | true =>
      rw [removeDirectory_of_directory hthere] at h
      split at h
      · rename_i hthrough
        cases h
        exact ⟨rfl, Tree.gone_clear tree _, .inl hthrough⟩
      · split at h
        · cases h
        · rename_i hnone
          cases h
          exact ⟨rfl, (Tree.gone_clear tree _).remove, .inr hnone⟩

theorem unlinkFault?_eq_none {path : String} :
    unlinkFault? path = none ↔
      ∃ step, lastStep? (Text.segments '/' path) = some step ∧ step ≠ "." ∧ step ≠ ".." := by
  rw [unlinkFault?]
  cases lastStep? (Text.segments '/' path) with
  | none => simp
  | some step =>
      by_cases hdot : step = "."
      · simp [hdot]
      · by_cases hup : step = ".."
        · simp [hup]
        · simp [hdot, hup]

/-- Of the paths of ordinary roots, those that end in a dot are all that cannot be unlinked. -/
theorem unlinkFault?_of_ordinary {home root : String} (hroot : IsOrdinaryRoot home root)
    (hdot : endsInDot (Text.segments '/' root) = false) : unlinkFault? root = none := by
  obtain ⟨segments, hsegments⟩ := exists_fromHome_segments hroot.reached
  have hnames := pathNames_of_segments hsegments
  obtain ⟨step, hstep⟩ := exists_lastStep? (hnames ▸ hroot.names_ne_nil)
  have hlast := lastStep?_fromHome hsegments hstep
  refine unlinkFault?_eq_none.mpr ⟨step, hlast, ?_, ?_⟩
  · rintro rfl
    simp [endsInDot, hlast] at hdot
  · rintro rfl
    have hmem := (List.mem_filter.mp (List.mem_of_getLast? hstep)).1
    refine hroot.not_upwards ?_
    rw [hnames, namesIn, List.mem_filter]
    exact ⟨hmem, by decide⟩

end Action

end StubTree.Files
