import StubTree.Package.Run
import StubTree.Proofs.Namespaces
import StubTree.Proofs.Removal

/-!
The root after it has been emptied. What was there before is gone and nothing
outside is touched, except for directories that were missing on the way to the
root. Whether emptying succeeds does not depend on what is below the root.
-/

namespace StubTree.Package

open Files

/-- A root that can be emptied: its path can be followed, and no file is in the way. -/
structure Emptiable (root : String) (tree : Tree) : Prop where
  path : checkPath root = .ok ()
  names : Tree.NamesFit (pathNames tree.home root)
  not_dot : Action.endsInDot (Text.segments '/' root) = false
  free : ∀ place content, place <+: pathNames tree.home root →
    tree.get? place ≠ some (.file content)

structure Emptied (root : String) (tree base : Tree) : Prop where
  home : base.home = tree.home
  get? : ∀ place, base.get? place =
    if place <+: pathNames base.home root then some .directory
    else if pathNames base.home root <+: place then none
    else tree.get? place

section Steps

variable {root : String} {tree cleared base : Tree} {u : Unit}

theorem emptyRoot_of_absent (h : tree.isPresent root = false) :
    emptyRoot root tree = Action.createDirectories root tree := by
  rw [emptyRoot, Effect.get_bind, h]
  rfl

theorem emptyRoot_of_removed (hpresent : tree.isPresent root = true)
    (h : Action.removeDirectory root tree = .ok u cleared) :
    emptyRoot root tree = Action.createDirectories root cleared := by
  rw [emptyRoot, Effect.get_bind, if_pos hpresent, Effect.bind_of_ok h]

/-- An emptied root is removed if it is there, and made last in any case. -/
theorem emptyRoot_eq_ok :
    emptyRoot root tree = .ok u base ↔
      (tree.isPresent root = false ∧ Action.createDirectories root tree = .ok u base) ∨
        (tree.isPresent root = true ∧ ∃ cleared,
          Action.removeDirectory root tree = .ok () cleared ∧
            Action.createDirectories root cleared = .ok u base) := by
  cases hpresent : tree.isPresent root with
  | false => simp [emptyRoot_of_absent hpresent]
  | true =>
      rw [emptyRoot, Effect.get_bind, if_pos hpresent, Effect.bind_eq_ok]
      simp only [Bool.true_eq_false, false_and, true_and, false_or]
      constructor
      · rintro ⟨⟨⟩, hsteps⟩
        exact hsteps
      · exact fun hsteps => ⟨(), hsteps⟩

theorem made_of_emptyRoot (h : emptyRoot root tree = .ok u base) :
    ∃ cleared, Action.createDirectories root cleared = .ok u base := by
  rcases emptyRoot_eq_ok.mp h with ⟨-, hmade⟩ | ⟨-, cleared, -, hmade⟩
  · exact ⟨tree, hmade⟩
  · exact ⟨cleared, hmade⟩

/-- Once a root has been made, it is known to lie below the working directory. -/
theorem leads_of_emptyRoot (h : emptyRoot root tree = .ok u base) :
    Namespace.Leads base.home root := by
  obtain ⟨cleared, hmade⟩ := made_of_emptyRoot h
  intro habs
  have hne : root ≠ "" := by
    rintro rfl
    exact absurd habs (by decide)
  obtain ⟨segments, hok, halong, -⟩ := Action.createDirectories_ok hne hmade
  have hfrom := (Tree.segmentsFrom_eq_ok.mp hok).2
  simp only [fromHome, habs, ↓reduceIte, List.isPrefixOf?_eq_some_iff_append_eq] at hfrom
  exact ⟨segments, by rw [halong.home, hfrom]⟩

theorem along_root (hne : root ≠ "") (h : Action.createDirectories root tree = .ok u base) :
    Tree.Along (wayTo tree root) tree base := by
  obtain ⟨segments, hok, halong, -⟩ := Action.createDirectories_ok hne h
  rwa [Tree.namesIn_segmentsFrom hok] at halong

theorem placeOf_congr (h : base.home = tree.home) :
    placeOf base root = placeOf tree root := by rw [placeOf, placeOf, h]

theorem wayTo_congr (h : base.home = tree.home) :
    wayTo base root = wayTo tree root := by rw [wayTo, wayTo, h]

end Steps

section Ordinary

variable {root : String} {tree : Tree} (hroot : IsOrdinaryRoot tree.home root)
include hroot

theorem along_root_get? {cleared base : Tree} (hhome : cleared.home = tree.home)
    (h : Tree.Along (wayTo cleared root) cleared base) (place : Place) :
    base.get? place =
      if place <+: pathNames tree.home root then some .directory else cleared.get? place := by
  rw [h.get?, wayTo_congr hhome]
  by_cases hnil : place = []
  · simp [hnil, Tree.get?_nil]
  · simp [Tree.mem_wayTo_of_not_upwards hroot.not_upwards, hnil]

variable (hground : tree.Grounded)
include hground

omit hroot in
/-- Nothing is below a place that holds nothing. -/
private theorem get?_of_absent {outer : Place} (habsent : tree.get? outer = none) (place : Place)
    (hinside : outer <+: place) : tree.get? place = none := by
  obtain ⟨more, rfl⟩ := hinside
  by_cases hmore : more = []
  · rwa [hmore, List.append_nil]
  · refine Option.not_isSome_iff_eq_none.mp fun hsome => ?_
    rw [hground.above hmore hsome] at habsent
    simp at habsent

/-- Above a directory there are only directories, so the way to it is open. -/
theorem isDirectoryAt_root (hcheck : checkPath root = .ok ())
    (hfit : Tree.NamesFit (pathNames tree.home root))
    (hdirectory : tree.get? (pathNames tree.home root) = some .directory) :
    tree.isDirectoryAt root = true := by
  obtain ⟨segments, hok⟩ := Tree.exists_segmentsFrom hcheck hroot.reached
  refine Tree.isDirectoryAt_iff.mpr ⟨Tree.locate_eq hok ?_ hfit, ?_⟩
  · intro place hplace
    exact hground.outer hdirectory ((Tree.mem_wayTo_of_not_upwards hroot.not_upwards).mp hplace).2
  · rw [Tree.placeOf_of_not_upwards hroot.not_upwards, hdirectory]

private theorem isPresent_iff (hcheck : checkPath root = .ok ())
    (hfit : Tree.NamesFit (pathNames tree.home root))
    (hfile : ∀ content, tree.get? (pathNames tree.home root) ≠ some (.file content)) :
    tree.isPresent root = true ↔ tree.get? (pathNames tree.home root) = some .directory := by
  constructor
  · simp only [Tree.isPresent, Tree.entryAt?]
    intro hpresent
    cases hlocate : tree.locate root with
    | error fault => simp [hlocate] at hpresent
    | ok place =>
        obtain ⟨-, rfl, -⟩ := Tree.locate_ok hlocate
        simp only [hlocate, Tree.placeOf_of_not_upwards hroot.not_upwards] at hpresent
        cases hentry : tree.get? (pathNames tree.home root) with
        | none => simp [hentry] at hpresent
        | some entry =>
            cases entry with
            | directory => rfl
            | file content => exact absurd hentry (hfile content)
  · intro hdirectory
    exact Tree.isPresent_of_directory (isDirectoryAt_root hroot hground hcheck hfit hdirectory)

private theorem absent_of_not_present (hcheck : checkPath root = .ok ())
    (hfit : Tree.NamesFit (pathNames tree.home root))
    (hfile : ∀ content, tree.get? (pathNames tree.home root) ≠ some (.file content))
    (hpresent : ¬tree.isPresent root = true) : tree.get? (pathNames tree.home root) = none := by
  rw [isPresent_iff hroot hground hcheck hfit hfile] at hpresent
  cases hentry : tree.get? (pathNames tree.home root) with
  | none => rfl
  | some entry =>
      cases entry with
      | directory => exact absurd hentry hpresent
      | file content => exact absurd hentry (hfile content)

section Emptied

variable {cleared base : Tree} {u : Unit}

private theorem emptied_of_removed (hremove : Action.removeDirectory root tree = .ok () cleared)
    (hmake : Action.createDirectories root cleared = .ok u base) :
    Emptiable root tree ∧ Emptied root tree base := by
  obtain ⟨hthere, hgone, hunlinked⟩ := Action.removeDirectory_ok hremove
  obtain ⟨hlocate, hdirectory⟩ := Tree.isDirectoryAt_iff.mp hthere
  obtain ⟨hcheck, -, hfit⟩ := Tree.locate_ok hlocate
  have halong := along_root hroot.ne_empty hmake
  have hhome := halong.home.trans hgone.home
  obtain ⟨step, hstep, hdot, -⟩ := Action.unlinkFault?_eq_none.mp
    (hunlinked.resolve_left (not_reenters_of_not_upwards hroot.not_upwards))
  rw [Tree.placeOf_of_not_upwards hroot.not_upwards] at hdirectory hgone
  refine ⟨⟨hcheck, hfit, ?_, fun place content habove => ?_⟩, ⟨hhome, fun place => ?_⟩⟩
  · simp [Action.endsInDot, hstep, hdot]
  · simp [hground.outer hdirectory habove]
  · rw [along_root_get? hroot hgone.home halong, hhome]
    split
    · rfl
    · rename_i habove
      split
      · rename_i hinside
        exact hgone.inside place ⟨hinside, fun heq => habove (heq ▸ List.prefix_rfl)⟩
      · rename_i houtside
        exact hgone.outside place houtside

omit hground in
/-- A path that ends in a dot is made only if it is there. -/
private theorem not_endsInDot_of_absent
    (habsent : tree.get? (pathNames tree.home root) = none)
    (hmake : Action.createDirectories root tree = .ok u base) :
    Action.endsInDot (Text.segments '/' root) = false := by
  obtain ⟨segments, hok, -, -, hdot⟩ := Action.createDirectories_ok hroot.ne_empty hmake
  have hne := hroot.names_ne_nil
  rw [← Tree.namesIn_segmentsFrom hok] at hne habsent
  obtain ⟨step, hstep⟩ := exists_lastStep? hne
  have hlast := lastStep?_fromHome (Tree.segmentsFrom_eq_ok.mp hok).2 hstep
  rw [Bool.eq_false_iff]
  intro hends
  rw [Action.endsInDot, hlast, ← hstep] at hends
  have hdirectory := hdot hends (Tree.namesIn_segmentsFrom hok ▸ hroot.not_upwards)
  rw [habsent] at hdirectory
  cases hdirectory

private theorem emptied_of_absent (hpresent : tree.isPresent root = false)
    (hmake : Action.createDirectories root tree = .ok u base) :
    Emptiable root tree ∧ Emptied root tree base := by
  obtain ⟨segments, hok, -, hfit, -⟩ := Action.createDirectories_ok hroot.ne_empty hmake
  have halong := along_root hroot.ne_empty hmake
  have hcheck := (Tree.segmentsFrom_eq_ok.mp hok).1
  rw [Tree.namesIn_segmentsFrom hok] at hfit
  have hfree : ∀ place content, place <+: pathNames tree.home root →
      tree.get? place ≠ some (.file content) := by
    intro place content habove
    by_cases hnil : place = []
    · simp [hnil, Tree.get?_nil]
    · exact halong.free place
        ((Tree.mem_wayTo_of_not_upwards hroot.not_upwards).mpr ⟨hnil, habove⟩) content
  have habsent := absent_of_not_present hroot hground hcheck hfit
    (fun content => hfree _ content List.prefix_rfl) (by simp [hpresent])
  refine ⟨⟨hcheck, hfit, not_endsInDot_of_absent hroot habsent hmake, hfree⟩,
    ⟨halong.home, fun place => ?_⟩⟩
  rw [along_root_get? hroot rfl halong, halong.home]
  split
  · rfl
  · split
    · exact get?_of_absent hground habsent place ‹_›
    · rfl

theorem emptyRoot_ok (h : emptyRoot root tree = .ok u base) :
    Emptiable root tree ∧ Emptied root tree base := by
  rcases emptyRoot_eq_ok.mp h with ⟨hpresent, hmake⟩ | ⟨-, cleared, hremove, hmake⟩
  · exact emptied_of_absent hroot hground hpresent hmake
  · exact emptied_of_removed hroot hground hremove hmake

end Emptied

theorem emptyRoot_succeeds (h : Emptiable root tree) :
    ∃ base, emptyRoot root tree = .ok () base := by
  obtain ⟨segments, hok⟩ := Tree.exists_segmentsFrom h.path hroot.reached
  have hdot : Action.endsInDot segments ≠ true := by
    intro hends
    rw [Action.endsInDot, decide_eq_true_eq] at hends
    have hlast := lastStep?_fromHome (Tree.segmentsFrom_eq_ok.mp hok).2 hends
    have hnot := h.not_dot
    simp [Action.endsInDot, hlast] at hnot
  have hmake (cleared : Tree) (hhome : cleared.home = tree.home)
      (hcleared : ∀ place content, place <+: pathNames tree.home root →
        cleared.get? place ≠ some (.file content)) :
      ∃ base, Action.createDirectories root cleared = .ok () base := by
    have hok' := (Tree.segmentsFrom_congr hhome root).trans hok
    refine Action.createDirectories_succeeds hok' (fun hends => absurd hends hdot)
      (Tree.namesIn_segmentsFrom hok ▸ h.names) fun place hplace content => ?_
    rw [Tree.namesIn_segmentsFrom hok] at hplace
    exact hcleared place content ((Tree.mem_wayTo_of_not_upwards hroot.not_upwards).mp hplace).2
  have hpresent := isPresent_iff hroot hground h.path h.names
    fun content => h.free _ content List.prefix_rfl
  by_cases hdirectory : tree.get? (pathNames tree.home root) = some .directory
  · have hthere := isDirectoryAt_root hroot hground h.path h.names hdirectory
    have hremove := Action.removeDirectory_of_directory hthere
    rw [if_neg (not_reenters_of_not_upwards hroot.not_upwards),
      Action.unlinkFault?_of_ordinary hroot h.not_dot] at hremove
    obtain ⟨-, hgone, -⟩ := Action.removeDirectory_ok hremove
    obtain ⟨base, hbase⟩ :=
      hmake _ hgone.home fun place content habove => hgone.free (h.free place content habove)
    exact ⟨base, (emptyRoot_of_removed (hpresent.mpr hdirectory) hremove).trans hbase⟩
  · obtain ⟨base, hbase⟩ := hmake tree rfl h.free
    have habsent := Bool.eq_false_iff.mpr (mt hpresent.mp hdirectory)
    exact ⟨base, (emptyRoot_of_absent habsent).trans hbase⟩

end Ordinary

end StubTree.Package
