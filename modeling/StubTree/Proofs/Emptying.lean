import StubTree.Proofs.Invariants
import StubTree.Proofs.StubFiles

/-!
What is left when a root has been reset, whether that succeeds or not. A reset
should leave an empty directory if it succeeds and all files if it fails. It
does so for every path but for four kinds: the empty path, a directory whose way
leads through something in it, one whose last step is not its name, and one that
is there though its path leads nowhere. The first three come from what removing
a directory does, the last from what making one does.
-/

namespace StubTree.Files

/-- All the files of a tree are in another one as they were. -/
def FilesKept (tree after : Tree) : Prop :=
  ∀ place content, tree.get? place = some (.file content) →
    after.get? place = some (.file content)

/-- The path leads to a directory with nothing in it. -/
def IsEmptyDirectory (tree : Tree) (path : String) : Prop :=
  ∃ place, tree.locate path = .ok place ∧ tree.get? place = some .directory ∧
    ∀ name, tree.get? (place ++ [name]) = none

/-- There is a directory that stays when it is removed, since it is not called by its name. -/
def Sticks (tree : Tree) (path : String) : Prop :=
  tree.isDirectoryAt path = true ∧ ¬Reenters tree path ∧ Action.unlinkFault? path ≠ none

instance (tree : Tree) (path : String) : Decidable (Sticks tree path) :=
  inferInstanceAs (Decidable (_ ∧ _ ∧ _))

/-- There are files in a directory that is emptied though it stays. -/
def LosesFiles (tree : Tree) (path : String) : Prop :=
  Sticks tree path ∧ ∃ place content, StrictlyAbove (placeOf tree path) place ∧
    tree.get? place = some (.file content)

/-- The path leads nowhere, though there is something in the place that its names lead to. -/
def Overlooked (tree : Tree) (path : String) : Prop :=
  tree.isPresent path = false ∧ ∃ name, tree.get? (placeOf tree path ++ [name]) ≠ none

theorem FilesKept.refl (tree : Tree) : FilesKept tree tree := fun _ _ h => h

theorem filesKept_along {made : List Place} {tree after : Tree}
    (h : Tree.Along made tree after) : FilesKept tree after := by
  intro place content hfile
  rw [h.get?, if_neg]
  · exact hfile
  · exact fun hmade => h.free place hmade content hfile

theorem filesKept_clear_iff {tree : Tree} {place : Place} :
    FilesKept tree (tree.clear place) ↔
      ¬∃ p content, StrictlyAbove place p ∧ tree.get? p = some (.file content) := by
  constructor
  · rintro hkept ⟨p, content, habove, hfile⟩
    have hlost := hkept p content hfile
    rw [Tree.get?_clear, if_pos habove] at hlost
    cases hlost
  · intro hnone p content hfile
    rw [Tree.get?_clear, if_neg fun habove => hnone ⟨p, content, habove, hfile⟩, hfile]

/-- The way to a place enters it again if anything right in the place is on the way. -/
theorem reenters_iff {tree : Tree} {path : String} :
    Reenters tree path ↔ ∃ name, placeOf tree path ++ [name] ∈ wayTo tree path := by
  constructor
  · rintro ⟨p, hp, ⟨more, rfl⟩, hne⟩
    obtain ⟨name, rest, rfl⟩ := List.exists_cons_of_ne_nil (by simpa using hne : more ≠ [])
    refine ⟨name, (outer_entered hp ⟨rest, by simp⟩).resolve_left ?_⟩
    simp
  · rintro ⟨name, hmem⟩
    exact ⟨_, hmem, strictlyAbove_append (by simp)⟩

namespace Tree

variable {tree : Tree} {path : String}

/-- A directory is reached through directories. -/
theorem way_of_directory (h : tree.isDirectoryAt path = true) {p : Place}
    (hp : p ∈ wayTo tree path) : tree.get? p = some .directory := by
  obtain ⟨hlocate, hdirectory⟩ := isDirectoryAt_iff.mp h
  obtain ⟨segments, hok, hfollow⟩ := bind_eq_ok.mp hlocate
  rw [wayTo, ← namesIn_segmentsFrom hok] at hp
  exact directory_of_mem_entered hfollow hdirectory hp

theorem isEmptyDirectory_iff (h : tree.isDirectoryAt path = true) :
    IsEmptyDirectory tree path ↔ ∀ name, tree.get? (placeOf tree path ++ [name]) = none := by
  obtain ⟨hlocate, hdirectory⟩ := isDirectoryAt_iff.mp h
  constructor
  · rintro ⟨place, hplace, -, hempty⟩
    obtain rfl := (locate_ok hplace).2.1
    exact hempty
  · exact fun hempty => ⟨_, hlocate, hdirectory, hempty⟩

end Tree

namespace Action

variable {path : String} {tree base : Tree}

theorem createDirectories_keeps (path : String) (tree : Tree) :
    FilesKept tree (after (createDirectories path) tree) := by
  obtain ⟨made, halong, -⟩ := createDirectories_after path tree
  exact filesKept_along halong

/-- A directory that has been made is where the path leads. -/
theorem isDirectoryAt_of_made {u : Unit} (hne : path ≠ "")
    (h : createDirectories path tree = .ok u base) : base.isDirectoryAt path = true := by
  obtain ⟨segments, hok, halong, hfit, -⟩ := createDirectories_ok hne h
  have hok' := (Tree.segmentsFrom_congr halong.home path).trans hok
  have hway : ∀ p ∈ wayTo base path, base.get? p = some .directory := by
    intro p hp
    rw [wayTo, ← Tree.namesIn_segmentsFrom hok'] at hp
    rw [halong.get?, if_pos hp]
  rw [Tree.namesIn_segmentsFrom hok, ← halong.home] at hfit
  exact Tree.isDirectoryAt_iff.mpr ⟨Tree.locate_eq hok' hway hfit, Tree.get?_walk hway⟩

/-- What has been removed can be made again, since the way to it was free. -/
theorem createDirectories_of_removed {cleared : Tree} {u : Unit}
    (hthere : tree.isDirectoryAt path = true)
    (h : removeDirectory path tree = .ok u cleared) :
    ∃ base, createDirectories path cleared = .ok () base := by
  obtain ⟨-, hgone, hunlinked⟩ := removeDirectory_ok h
  obtain ⟨hlocate, hdirectory⟩ := Tree.isDirectoryAt_iff.mp hthere
  obtain ⟨segments, hok, -⟩ := bind_eq_ok.mp hlocate
  have hnames := Tree.namesIn_segmentsFrom hok
  have hok' := (Tree.segmentsFrom_congr hgone.home path).trans hok
  refine createDirectories_succeeds hok' (fun hends => ?_) (hnames ▸ (Tree.locate_ok hlocate).2.2)
    fun p hp content => ?_
  · -- Called by a dot, the directory has not been found again and so is still there.
    rw [endsInDot, decide_eq_true_eq] at hends
    have hlast := lastStep?_fromHome (Tree.segmentsFrom_eq_ok.mp hok).2 hends
    have hdotted : unlinkFault? path ≠ none := by simp [unlinkFault?, hlast]
    rw [removeDirectory_of_directory hthere,
      if_pos (hunlinked.resolve_right hdotted)] at h
    cases h
    rw [hnames, ← placeOf, Tree.get?_clear,
      if_neg (not_strictlyAbove_of_isPrefix List.prefix_rfl), hdirectory]
  · rw [hnames] at hp
    exact hgone.free (by simp [Tree.way_of_directory hthere hp])

end Action

end StubTree.Files

namespace StubTree.Package

open Files

theorem state_reset (root : String) (tree : Tree) :
    (reset root tree).state = Action.after (emptyRoot root) tree := Job.state_act _ _ tree

theorem emptyRoot_of_empty (tree : Tree) : emptyRoot "" tree = .ok () tree := by
  have habsent : tree.isPresent "" = false := rfl
  rw [emptyRoot, Effect.get_bind, habsent]
  rfl

section Cases

variable {root : String} {tree base cleared : Tree}

theorem emptyRoot_of_stuck {fault : Fault} (hpresent : tree.isPresent root = true)
    (h : Action.removeDirectory root tree = .error fault cleared) :
    emptyRoot root tree = .error fault cleared := by
  rw [emptyRoot, Effect.get_bind, if_pos hpresent]
  simp only [Bind.bind, EStateM.bind, h]

/-- A directory that sticks is emptied, and the fault tells by what it is called. -/
theorem emptyRoot_of_sticking (h : Sticks tree root) :
    ∃ fault, Action.unlinkFault? root = some fault ∧
      emptyRoot root tree = .error fault (tree.clear (placeOf tree root)) := by
  obtain ⟨hthere, hthrough, hfault⟩ := h
  obtain ⟨fault, hfault⟩ := Option.ne_none_iff_exists'.mp hfault
  have hremove := Action.removeDirectory_of_directory hthere
  rw [if_neg hthrough, hfault] at hremove
  exact ⟨fault, hfault, emptyRoot_of_stuck (Tree.isPresent_of_directory hthere) hremove⟩

/-- A directory that does not stick is emptied and then made along its way. -/
theorem emptyRoot_of_directory (hthere : tree.isDirectoryAt root = true)
    (hsticks : ¬Sticks tree root) :
    ∃ cleared base, emptyRoot root tree = .ok () base ∧
      Action.removeDirectory root tree = .ok () cleared ∧
      Tree.Along (wayTo tree root) cleared base := by
  have hremoved : ∃ cleared, Action.removeDirectory root tree = .ok () cleared := by
    rw [Action.removeDirectory_of_directory hthere]
    by_cases hthrough : Reenters tree root
    · exact ⟨_, if_pos hthrough⟩
    · have hnone : Action.unlinkFault? root = none := by
        by_contra hfault
        exact hsticks ⟨hthere, hthrough, hfault⟩
      rw [if_neg hthrough, hnone]
      exact ⟨_, rfl⟩
  obtain ⟨cleared, hcleared⟩ := hremoved
  obtain ⟨base, hmade⟩ := Action.createDirectories_of_removed hthere hcleared
  have hpresent := Tree.isPresent_of_directory hthere
  refine ⟨cleared, base, (emptyRoot_of_removed hpresent hcleared).trans hmade, hcleared, ?_⟩
  rw [← wayTo_congr (Action.removeDirectory_ok hcleared).2.1.home]
  exact along_root (Tree.ne_empty_of_directory hthere) hmade

/-- Where there is no directory, nothing is lost. -/
theorem filesKept_of_other (h : tree.isDirectoryAt root = false) :
    FilesKept tree (Action.after (emptyRoot root) tree) := by
  cases hpresent : tree.isPresent root with
  | false =>
      rw [Action.after, emptyRoot_of_absent hpresent]
      exact Action.createDirectories_keeps root tree
  | true =>
      obtain ⟨fault, hremove⟩ := Action.removeDirectory_of_other h
      simp only [Action.after, emptyRoot_of_stuck hpresent hremove]
      exact .refl tree

/-- Made along its way, a root is empty unless the way leads into it or something was left in it. -/
theorem isEmptyDirectory_made_iff {u : Unit} (hne : root ≠ "") (hhome : cleared.home = tree.home)
    (hmade : Action.createDirectories root cleared = .ok u base) :
    IsEmptyDirectory base root ↔
      ¬Reenters tree root ∧ ∀ name, cleared.get? (placeOf tree root ++ [name]) = none := by
  have halong := along_root hne hmade
  have hplace : placeOf base root = placeOf tree root := placeOf_congr (halong.home.trans hhome)
  rw [Tree.isEmptyDirectory_iff (Action.isDirectoryAt_of_made hne hmade), hplace, reenters_iff,
    ← wayTo_congr hhome]
  simp only [halong.get?]
  constructor
  · intro hempty
    have hoff (name : String) : placeOf tree root ++ [name] ∉ wayTo cleared root := by
      intro hmem
      have hnone := hempty name
      rw [if_pos hmem] at hnone
      cases hnone
    exact ⟨fun ⟨name, hmem⟩ => hoff name hmem,
      fun name => by rw [← hempty name, if_neg (hoff name)]⟩
  · rintro ⟨hoff, hnone⟩ name
    rw [if_neg fun hmem => hoff ⟨name, hmem⟩, hnone name]

theorem reset_empties_iff (h : (reset root tree).result = .ok ()) :
    IsEmptyDirectory (reset root tree).state root ↔
      root ≠ "" ∧ ¬Reenters tree root ∧ ¬Overlooked tree root := by
  have hempty : emptyRoot root tree = .ok () (reset root tree).state := Job.ends_act.mp ⟨h, rfl⟩
  by_cases hne : root = ""
  · subst hne
    simp only [ne_eq, not_true_eq_false, false_and, iff_false]
    rintro ⟨place, hlocate, -⟩
    simp [Tree.locate, Tree.segmentsFrom, checkPath, bind, Except.bind] at hlocate
  · simp only [ne_eq, hne, not_false_eq_true, true_and]
    cases hpresent : tree.isPresent root with
    | false =>
        rw [emptyRoot_of_absent hpresent] at hempty
        rw [isEmptyDirectory_made_iff hne rfl hempty, Overlooked, hpresent]
        simp only [true_and, ne_eq, not_exists, not_not]
    | true =>
        have hseen : ¬Overlooked tree root := fun hover => by simp [hover.1] at hpresent
        cases hthere : tree.isDirectoryAt root with
        | false =>
            obtain ⟨fault, hremove⟩ := Action.removeDirectory_of_other hthere
            rw [emptyRoot_of_stuck hpresent hremove] at hempty
            cases hempty
        | true =>
            by_cases hsticks : Sticks tree root
            · obtain ⟨fault, -, herror⟩ := emptyRoot_of_sticking hsticks
              rw [herror] at hempty
              cases hempty
            · obtain ⟨cleared, -, -, hremove, -⟩ := emptyRoot_of_directory hthere hsticks
              obtain ⟨-, hgone, -⟩ := Action.removeDirectory_ok hremove
              rw [emptyRoot_of_removed hpresent hremove] at hempty
              rw [isEmptyDirectory_made_iff hne hgone.home hempty]
              simp only [hseen, not_false_eq_true, and_true, and_iff_left_iff_imp]
              exact fun _ name => hgone.inside _ (strictlyAbove_append (by simp))

theorem reset_keeps_iff {failure : Failure} (h : (reset root tree).result = .error failure) :
    FilesKept tree (reset root tree).state ↔ ¬LosesFiles tree root := by
  rw [state_reset]
  cases hthere : tree.isDirectoryAt root with
  | false =>
      refine iff_of_true (filesKept_of_other hthere) fun hloses => ?_
      rw [hloses.1.1] at hthere
      cases hthere
  | true =>
      by_cases hsticks : Sticks tree root
      · obtain ⟨fault, -, herror⟩ := emptyRoot_of_sticking hsticks
        simp only [Action.after, herror]
        rw [filesKept_clear_iff, LosesFiles, and_iff_right hsticks]
      · obtain ⟨_, base, hempty, -⟩ := emptyRoot_of_directory hthere hsticks
        simp [reset, Job.act, hempty] at h

/-- Entered again on its way, a directory is left with what the way needs. -/
theorem reset_of_reentered (hthere : tree.isDirectoryAt root = true)
    (hthrough : Reenters tree root) :
    (reset root tree).result = .ok () ∧ ∀ p, (reset root tree).state.get? p =
      if p ∈ wayTo tree root then some .directory
      else if StrictlyAbove (placeOf tree root) p then none
      else tree.get? p := by
  obtain ⟨cleared, base, hempty, hremove, halong⟩ :=
    emptyRoot_of_directory hthere fun hsticks => hsticks.2.1 hthrough
  rw [Action.removeDirectory_of_directory hthere, if_pos hthrough] at hremove
  cases hremove
  simp only [reset, Job.act, hempty, true_and]
  intro p
  rw [halong.get?, Tree.get?_clear]

/-- A directory that sticks loses whatever is in it, and nothing else. -/
theorem reset_of_sticking (h : Sticks tree root) :
    ∃ fault, Action.unlinkFault? root = some fault ∧
      (reset root tree).result = .error (.rootUnusable root fault) ∧
      ∀ p, (reset root tree).state.get? p =
        if StrictlyAbove (placeOf tree root) p then none else tree.get? p := by
  obtain ⟨fault, hfault, herror⟩ := emptyRoot_of_sticking h
  simp only [reset, Job.act, herror]
  exact ⟨fault, hfault, rfl, Tree.get?_clear tree _⟩

/-- Straight down, a root that can be made is met if there is anything in it. -/
theorem not_overlooked_of_not_upwards (hne : root ≠ "") (hground : tree.Grounded)
    (hup : ".." ∉ pathNames tree.home root) (h : (reset root tree).result = .ok ()) :
    ¬Overlooked tree root := by
  rintro ⟨habsent, name, hsome⟩
  have hempty : emptyRoot root tree = .ok () (reset root tree).state := Job.ends_act.mp ⟨h, rfl⟩
  have hdirectory : tree.get? (placeOf tree root) = some .directory :=
    hground.parent _ name (Option.isSome_iff_ne_none.mpr hsome)
  rw [emptyRoot_of_absent habsent] at hempty
  obtain ⟨segments, hok, -, hfit, -⟩ := Action.createDirectories_ok hne hempty
  rw [Tree.namesIn_segmentsFrom hok] at hfit
  have hway : ∀ p ∈ wayTo tree root, tree.get? p = some .directory := by
    intro p hp
    rw [Tree.placeOf_of_not_upwards hup] at hdirectory
    exact hground.outer hdirectory ((Tree.mem_wayTo_of_not_upwards hup).mp hp).2
  rw [Tree.isPresent_of_directory
    (Tree.isDirectoryAt_iff.mpr ⟨Tree.locate_eq hok hway hfit, hdirectory⟩)] at habsent
  cases habsent

/-- A reset that succeeds leaves an empty directory, and one that fails leaves all files alone. -/
def AllOrNothing (root : String) (tree : Tree) : Prop :=
  ((reset root tree).result = .ok () → IsEmptyDirectory (reset root tree).state root) ∧
    ∀ failure, (reset root tree).result = .error failure → FilesKept tree (reset root tree).state

theorem reset_of_empty (tree : Tree) :
    (reset "" tree).result = .ok () ∧ (reset "" tree).state = tree := by
  simp only [reset, Job.act, emptyRoot_of_empty, and_self]

theorem allOrNothing_iff :
    AllOrNothing root tree ↔
      ((reset root tree).result = .ok () →
        root ≠ "" ∧ ¬Reenters tree root ∧ ¬Overlooked tree root) ∧ ¬LosesFiles tree root := by
  constructor
  · rintro ⟨hempties, hkeeps⟩
    refine ⟨fun hok => (reset_empties_iff hok).mp (hempties hok), fun hloses => ?_⟩
    obtain ⟨fault, -, herror, -⟩ := reset_of_sticking hloses.1
    exact (reset_keeps_iff herror).mp (hkeeps _ herror) hloses
  · rintro ⟨hmet, hloses⟩
    exact ⟨fun hok => (reset_empties_iff hok).mpr (hmet hok),
      fun failure herror => (reset_keeps_iff herror).mpr hloses⟩

theorem allOrNothing_iff_of_not_upwards (hground : tree.Grounded)
    (hup : ".." ∉ pathNames tree.home root) :
    AllOrNothing root tree ↔ root ≠ "" ∧ ¬LosesFiles tree root := by
  rw [allOrNothing_iff]
  refine and_congr_left fun _ => ⟨fun hmet => ?_, fun hne hok => ⟨hne, ?_, ?_⟩⟩
  · rintro rfl
    exact (hmet (reset_of_empty tree).1).1 rfl
  · exact not_reenters_of_not_upwards hup
  · exact not_overlooked_of_not_upwards hne hground hup hok

end Cases

/-- When a reset leaves an empty directory or keeps all files, for every path, and what is left
when it does neither. Straight down, only the empty path and a directory with files that is not
called by its name are not treated so. -/
theorem reset_all_or_nothing_iff (root : String) (tree : Tree) :
    (AllOrNothing root tree ↔
      ((reset root tree).result = .ok () →
        root ≠ "" ∧ ¬Reenters tree root ∧ ¬Overlooked tree root) ∧ ¬LosesFiles tree root) ∧
      (tree.Grounded → ".." ∉ pathNames tree.home root →
        (AllOrNothing root tree ↔ root ≠ "" ∧ ¬LosesFiles tree root)) ∧
      (root = "" → (reset root tree).result = .ok () ∧ (reset root tree).state = tree) ∧
      (tree.isDirectoryAt root = true → Reenters tree root →
        (reset root tree).result = .ok () ∧ ∀ p, (reset root tree).state.get? p =
          if p ∈ wayTo tree root then some .directory
          else if StrictlyAbove (placeOf tree root) p then none
          else tree.get? p) ∧
      (tree.isDirectoryAt root = false → FilesKept tree (reset root tree).state) ∧
      (Sticks tree root →
        ∃ fault, Action.unlinkFault? root = some fault ∧
          (reset root tree).result = .error (.rootUnusable root fault) ∧
          ∀ p, (reset root tree).state.get? p =
            if StrictlyAbove (placeOf tree root) p then none else tree.get? p) := by
  refine ⟨allOrNothing_iff, allOrNothing_iff_of_not_upwards, ?_, reset_of_reentered, fun h => ?_,
    reset_of_sticking⟩
  · rintro rfl
    exact reset_of_empty tree
  · rw [state_reset]
    exact filesKept_of_other h

/-- A tree with a directory of old stubs. -/
def staleTree : Tree :=
  ⟨"/w", [(["out"], .directory), (["out", "py"], .directory),
    (["out", "py", "old.pyi"], .file [1])]⟩

theorem reset_all_or_nothing_of_stale_stubs :
    (reset "out/./py/" staleTree).result = .ok () ∧
      IsEmptyDirectory (reset "out/./py/" staleTree).state "out/./py/" ∧
      (reset "/w/out" staleTree).result = .ok () ∧
      IsEmptyDirectory (reset "/w/out" staleTree).state "/w/out" ∧
      (reset "out/py/old.pyi/new" staleTree).result =
        .error (.rootUnusable "out/py/old.pyi/new" .notDirectory) ∧
      FilesKept staleTree (reset "out/py/old.pyi/new" staleTree).state ∧
      (reset "out/." staleTree).result = .error (.rootUnusable "out/." .invalidArgument) ∧
      (reset "out/." staleTree).state.get? ["out", "py", "old.pyi"] = none ∧
      (reset "out/py/.." staleTree).result = .ok () ∧
      (reset "out/py/.." staleTree).state.get? ["out", "py", "old.pyi"] = none ∧
      (reset "out/py/.." staleTree).state.get? ["out", "py"] = some .directory := by
  have hground : staleTree.Grounded := Tree.grounded_of_entries (by decide)
  have hempties : (reset "out/./py/" staleTree).result = .ok () := by decide +kernel
  have habsolute : (reset "/w/out" staleTree).result = .ok () := by decide +kernel
  have hkeeps : (reset "out/py/old.pyi/new" staleTree).result =
      .error (.rootUnusable "out/py/old.pyi/new" .notDirectory) := by decide +kernel
  have hfree {root : String} (h : ¬Sticks staleTree root) : ¬LosesFiles staleTree root :=
    fun hloses => h hloses.1
  obtain ⟨-, hopen, -⟩ := reset_all_or_nothing_iff "out/./py/" staleTree
  obtain ⟨-, htop, -⟩ := reset_all_or_nothing_iff "/w/out" staleTree
  obtain ⟨-, hblocked, -⟩ := reset_all_or_nothing_iff "out/py/old.pyi/new" staleTree
  obtain ⟨-, -, -, -, -, hdotted⟩ := reset_all_or_nothing_iff "out/." staleTree
  obtain ⟨-, -, -, hreentered, -⟩ := reset_all_or_nothing_iff "out/py/.." staleTree
  obtain ⟨fault, hfault, hresult, hget⟩ := hdotted (by decide +kernel)
  obtain ⟨hok, hget'⟩ := hreentered (by decide +kernel) (by decide +kernel)
  have hinvalid : Action.unlinkFault? "out/." = some .invalidArgument := by decide
  obtain rfl : fault = .invalidArgument := by
    rw [hinvalid] at hfault
    exact (Option.some.inj hfault).symm
  refine ⟨hempties, ?_, habsolute, ?_, hkeeps, ?_, hresult, ?_, hok, ?_, ?_⟩
  · exact ((hopen hground (by decide)).mpr
      ⟨by decide, hfree (by decide +kernel)⟩).1 hempties
  · exact ((htop hground (by decide)).mpr ⟨by decide, hfree (by decide +kernel)⟩).1 habsolute
  · exact ((hblocked hground (by decide)).mpr
      ⟨by decide, hfree (by decide +kernel)⟩).2 _ hkeeps
  · rw [hget, if_pos (by decide)]
  · rw [hget', if_neg (by decide), if_pos (by decide)]
  · rw [hget', if_pos (by decide)]

/-- A tree with a file of somebody's beside an empty directory. -/
def notesTree : Tree := ⟨"/w", [(["notes.txt"], .file [1]), (["out"], .directory)]⟩

/-- The working directory loses a file to a reset that fails, and a reset of nowhere succeeds; so
does one that leads out of a directory again, whether the directory is there or is made first. -/
theorem files_lost_to_reset_of_dot :
    (⟨"/w", [(["notes.txt"], .file [1])]⟩ : Tree).get? ["notes.txt"] = some (.file [1]) ∧
      (reset "." ⟨"/w", [(["notes.txt"], .file [1])]⟩).result =
        .error (.rootUnusable "." .invalidArgument) ∧
      (reset "." ⟨"/w", [(["notes.txt"], .file [1])]⟩).state.get? ["notes.txt"] = none ∧
      (reset "" ⟨"/w", [(["notes.txt"], .file [1])]⟩).result = .ok () ∧
      (reset "" ⟨"/w", [(["notes.txt"], .file [1])]⟩).state.isDirectoryAt "" = false ∧
      (reset "out/.." notesTree).result = .ok () ∧
      (reset "out/.." notesTree).state.get? ["notes.txt"] = none ∧
      (reset "out/.." notesTree).state.get? ["out"] = some .directory ∧
      (reset "new/.." notesTree).result = .ok () ∧
      (reset "new/.." notesTree).state.get? ["notes.txt"] = some (.file [1]) := by
  decide +kernel

end StubTree.Package
