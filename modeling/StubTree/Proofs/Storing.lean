import StubTree.Proofs.Headers
import StubTree.Proofs.PackageStructure

/-!
Which namespaces can be stored below a root that has just been emptied. Nothing
is in the way of a namespace then, so it depends on the names alone: none of
them may be too long, nor the whole path, and there must be no null character.
An accepted namespace may still fail in one of these ways, and then it stops the
whole run.
-/

namespace StubTree.Text

theorem mem_splitChars {sep c : Char} (hc : c ≠ sep) {cs : List Char} :
    (∃ piece ∈ splitChars sep cs, c ∈ piece) ↔ c ∈ cs := by
  induction cs with
  | nil => simp [splitChars]
  | cons first rest ih =>
      obtain ⟨piece, pieces, hpieces⟩ := List.exists_cons_of_ne_nil (splitChars_ne_nil sep rest)
      rw [hpieces] at ih
      by_cases hfirst : first = sep
      · simp only [splitChars, if_pos hfirst, hpieces, List.mem_cons, exists_eq_or_imp,
          List.not_mem_nil, false_or] at ih ⊢
        rw [ih, hfirst, or_iff_right hc]
      · simp only [splitChars, if_neg hfirst, hpieces, List.mem_cons, exists_eq_or_imp] at ih ⊢
        rw [← ih, or_assoc]

/-- Cutting loses no character but the one it cuts at. -/
theorem mem_segments {sep c : Char} (hc : c ≠ sep) {s : String} :
    (∃ segment ∈ segments sep s, c ∈ segment.toList) ↔ c ∈ s.toList := by
  simp [segments, ← @mem_splitChars sep c hc s.toList]

end StubTree.Text

namespace StubTree.Files

theorem mem_join {base name : String} (h : IsPlainName name) {c : Char} (hc : c ≠ '/') :
    c ∈ (join base name).toList ↔ c ∈ base.toList ∨ c ∈ name.toList := by
  by_cases hbase : base = ""
  · simp [hbase, join_empty]
  · obtain ⟨slash, heq, rfl | rfl⟩ := join_eq_append hbase h
    · simp [heq]
    · simp [heq, hc]

theorem mem_foldl_join {base : String} {names : List String}
    (h : ∀ name ∈ names, IsPlainName name) {c : Char} (hc : c ≠ '/') :
    c ∈ (names.foldl join base).toList ↔ c ∈ base.toList ∨ ∃ name ∈ names, c ∈ name.toList := by
  induction names generalizing base with
  | nil => simp
  | cons name rest ih =>
      rw [List.foldl_cons, ih fun n hn => h n (List.mem_cons_of_mem _ hn),
        mem_join (h name List.mem_cons_self) hc]
      simp [or_assoc]

theorem checkPath_eq_error {path : String} (hne : path ≠ "") {fault : Fault}
    (h : checkPath path = .error fault) : fault = .nulInName ∨ fault = .nameTooLong := by
  simp only [checkPath, String.isEmpty_iff, if_neg hne] at h
  split at h
  · exact .inl (Except.error.inj h).symm
  · split at h
    · exact .inr (Except.error.inj h).symm
    · cases h

namespace Tree

theorem segmentsFrom_of_error {tree : Tree} {path : String} {fault : Fault}
    (h : checkPath path = .error fault) : tree.segmentsFrom path = .error fault := by
  rw [segmentsFrom, h]
  rfl

/-- What is where a file belongs is found by its path. -/
theorem locate_of_filePlace {tree : Tree} {path : String} {place : Place}
    (h : tree.filePlace path = .ok place) (hsome : (tree.get? place).isSome) :
    tree.locate path = .ok place := by
  obtain ⟨segments, parent, name, hok, hfollow, hget, hlast, hidle, hup, hlong, -, rfl⟩ :=
    filePlace_eq_ok.mp h
  obtain ⟨front, rfl⟩ := List.getLast?_eq_some_iff.mp hlast
  rw [List.dropLast_concat] at hfollow
  have hthere : (tree.get? (parent ++ [name])).isNone = false := by
    simpa [Option.isNone_eq_false_iff] using hsome
  refine bind_eq_ok.mpr ⟨_, hok, ?_⟩
  rw [follow_append, hfollow]
  simp only [bind, Except.bind, follow, hget, hidle, Bool.false_eq_true, ↓reduceIte, hup,
    if_neg (Nat.not_lt.mpr hlong), hthere]

theorem read_of_filePlace {tree : Tree} {path : String} {place : Place} {content : List UInt8}
    (h : tree.filePlace path = .ok place) (hget : tree.get? place = some (.file content)) :
    tree.read path = .ok content := by
  refine bind_eq_ok.mpr ⟨place, locate_of_filePlace h (by simp [hget]), ?_⟩
  simp only [hget]
  rfl

end Tree

namespace Action

theorem createDirectories_of_error {path : String} {tree : Tree} {fault : Fault} (hne : path ≠ "")
    (h : checkPath path = .error fault) : createDirectories path tree = .error fault tree := by
  rw [createDirectories, if_neg (by simpa using hne), Effect.get_bind,
    Tree.segmentsFrom_of_error h]
  rfl

theorem append_of_error {path : String} {tree : Tree} {fault : Fault}
    (h : checkPath path = .error fault) (content : List UInt8) :
    append path content tree = .error fault tree := by
  have hplace : tree.filePlace path = .error fault := by
    rw [Tree.filePlace, Tree.segmentsFrom_of_error h]
    rfl
  rw [append, Effect.get_bind, hplace]
  rfl

/-- Where no file is in the way, it is the length of a name that stops directories from being
made. -/
theorem createFrom_of_long {place : Place} {names : List String} {tree : Tree}
    (hlong : ¬ Tree.NamesFit names)
    (hfree : ∀ p ∈ entered place names, ∀ content, tree.get? p ≠ some (.file content)) :
    ∃ left, createFrom place names tree = .error .nameTooLong left := by
  induction names generalizing place tree with
  | nil => exact absurd (by simp [Tree.NamesFit]) hlong
  | cons name rest ih =>
      simp only [createFrom, entered] at hfree ⊢
      by_cases hup : name = ".."
      · rw [if_pos hup] at hfree ⊢
        exact ih (fun hrest => hlong (Tree.namesFit_cons (hup ▸ Tree.upwards_fits) hrest)) hfree
      · rw [if_neg hup] at hfree ⊢
        by_cases hname : longestName < name.utf8ByteSize
        · rw [if_pos hname]
          exact ⟨tree, rfl⟩
        · rw [if_neg hname]
          have hrest : ¬ Tree.NamesFit rest := fun hrest =>
            hlong (Tree.namesFit_cons (Nat.le_of_not_lt hname) hrest)
          rw [Effect.get_bind]
          cases hnext : tree.get? (place ++ [name]) with
          | none =>
              have hfree' : ∀ p ∈ entered (place ++ [name]) rest, ∀ content,
                  (tree.put (place ++ [name]) .directory).get? p ≠ some (.file content) := by
                intro p hp content
                rw [Tree.get?_put tree (by simp)]
                split
                · simp
                · exact hfree p (List.mem_cons_of_mem _ hp) content
              exact ih hrest hfree'
          | some entry =>
              cases entry with
              | directory => exact ih hrest fun p hp => hfree p (List.mem_cons_of_mem _ hp)
              | file content => exact absurd hnext (hfree _ List.mem_cons_self content)

theorem createDirectories_of_undotted {path : String} {tree : Tree} {segments : List String}
    (hok : tree.segmentsFrom path = .ok segments) (hdot : endsInDot segments = false) :
    createDirectories path tree = createFrom [] (namesIn segments) tree := by
  have hne : path ≠ "" := (checkPath_eq_ok.mp (Tree.segmentsFrom_eq_ok.mp hok).1).2.1
  have hsegments : ofExcept (tree.segmentsFrom path) tree = .ok segments tree := by
    rw [hok]
    rfl
  rw [createDirectories, if_neg (by simpa using hne), Effect.get_bind,
    Effect.bind_of_ok hsegments, if_neg (by simp [hdot])]
  rfl

end Action

end StubTree.Files

namespace StubTree.Namespace

open Files

/-- The names of a namespace can be those of directories below the root. -/
structure IsStorable (root home : String) : Prop where
  no_nul : '\x00' ∉ home.toList
  names : Tree.NamesFit (Text.segments '.' home)
  path : (stubPath root home).utf8ByteSize < pathBound

theorem isStorable_iff {root home : String} :
    IsStorable root home ↔ '\x00' ∉ home.toList ∧
      (∀ name ∈ Text.segments '.' home, name.utf8ByteSize ≤ longestName) ∧
      (stubPath root home).utf8ByteSize < pathBound :=
  ⟨fun h => ⟨h.no_nul, h.names, h.path⟩, fun h => ⟨h.1, h.2.1, h.2.2⟩⟩

instance (root home : String) : Decidable (IsStorable root home) :=
  decidable_of_iff' _ isStorable_iff

theorem stubPath_ne_empty (root home : String) : stubPath root home ≠ "" :=
  join_ne_empty isPlainName_stubFile

section Accepted

variable {root home : String} (haccepted : rejection? home = none)
include haccepted

theorem mem_stubPath {c : Char} (hslash : c ≠ '/') (hdot : c ≠ '.') :
    c ∈ (stubPath root home).toList ↔
      (c ∈ root.toList ∨ c ∈ home.toList) ∨ c ∈ stubFile.toList := by
  rw [stubPath, mem_join isPlainName_stubFile hslash, directory,
    mem_foldl_join (fun _ => isPlainName_of_mem_names haccepted) hslash,
    names_eq_segments haccepted, Text.mem_segments hdot]

/-- Below a root that can be looked up, only the namespace can spoil the path. -/
theorem checkPath_stubPath_iff (hroot : checkPath root = .ok ()) :
    checkPath (stubPath root home) = .ok () ↔
      '\x00' ∉ home.toList ∧ (stubPath root home).utf8ByteSize < pathBound := by
  have hnul := forall_toNat_ne_zero.mp (checkPath_eq_ok.mp hroot).1
  have hfile : '\x00' ∉ stubFile.toList := by decide
  rw [checkPath_eq_ok, forall_toNat_ne_zero, mem_stubPath haccepted (by decide) (by decide)]
  simp only [hnul, hfile, false_or, or_false, ne_eq, stubPath_ne_empty,
    not_false_eq_true, true_and]

end Accepted

end StubTree.Namespace

namespace StubTree.Package

open Files Namespace Metadata

variable {home source : String} {types : List TypeInfo}

section Emptied

variable {root : String} {tree base : Tree} (hroot : IsOrdinaryRoot base.home root)
  (hable : Emptiable root tree) (hempty : Emptied root tree base)
include hroot hable hempty

omit hable in
/-- On the way to a namespace there are the directories to the root, and nothing further down. -/
theorem way_free (haccepted : rejection? home = none) {place : Place}
    (hplace : place ∈ way base root home) (content : List UInt8) :
    base.get? place ≠ some (.file content) := by
  have hinside := ((mem_way hroot haccepted).mp hplace).2
  rw [hempty.get?]
  rcases List.prefix_or_prefix_of_prefix hinside (List.prefix_append _ _) with habove | hbelow
  · simp [habove]
  · rw [if_pos hbelow]
    split <;> simp

/-- Below an emptied root, a namespace fits if its names do. -/
theorem fits_iff (haccepted : rejection? home = none) :
    Fits base root home ↔ IsStorable root home := by
  rw [isStorable_iff]
  have hpath := checkPath_stubPath_iff haccepted hable.path
  constructor
  · intro h
    obtain ⟨hnul, hshort⟩ := hpath.mp h.path
    refine ⟨hnul, fun name hname => h.names name ?_, hshort⟩
    rw [names_eq_segments haccepted]
    exact List.mem_append_right _ hname
  · rintro ⟨hnul, hnames, hshort⟩
    have hoff : stubAt base root home ∉ way base root home := by
      rw [mem_way hroot haccepted, stubAt_eq hroot, List.prefix_append_right_inj]
      exact fun hmem => stubPlace_not_within haccepted hmem.2
    refine ⟨haccepted, hpath.mpr ⟨hnul, hshort⟩, ?_, ?_,
      fun place => way_free hroot hempty haccepted, ?_, hoff⟩
    · exact hroot.reached
    · rw [names_eq_segments haccepted, hempty.home]
      exact hable.names.append hnames
    · rw [stubAt_eq hroot, get?_inside hempty (by simp [stubPlace])]
      simp

theorem append_stores_iff (hleads : Leads base.home root) (haccepted : rejection? home = none) :
    (∃ n site', Job.Ends (append home source types) ⟨base, { root := root }⟩ n site') ↔
      IsStorable root home := by
  rw [← fits_iff hroot hable hempty haccepted]
  constructor
  · rintro ⟨n, site', hends⟩
    obtain ⟨-, hlaid, -⟩ := append_ends hleads (.nil root base) haccepted hends
    exact hlaid.fits ⟨home, source, stubTexts types⟩ (by simp)
  · exact fun hfits => append_succeeds hleads (.nil root base) source types hfits

/-- A namespace that cannot be stored is refused for a null character or for its length. -/
theorem append_refuses (hleads : Leads base.home root) (haccepted : rejection? home = none)
    (hnot : ¬ IsStorable root home) :
    ∃ fault, (append home source types ⟨base, { root := root }⟩).result =
      .error (.access fault) ∧ (fault = .nulInName ∨ fault = .nameTooLong) := by
  rw [append_apply]
  cases hdirectory : checkPath (directory root home) with
  | error fault =>
      have hne := directory_ne_empty haccepted root
      rw [Action.createDirectories_of_error hne hdirectory]
      exact ⟨fault, rfl, checkPath_eq_error hne hdirectory⟩
  | ok u =>
      obtain ⟨front, hfront⟩ := Option.isSome_iff_exists.mp hroot.reached
      have hok : base.segmentsFrom (directory root home) = .ok (front ++ names home) :=
        (segmentsFrom_directory hleads haccepted).mpr ⟨hdirectory, front, hfront, rfl⟩
      have hnames : namesIn (front ++ names home) = pathNames base.home root ++ names home :=
        namesIn_front haccepted hfront
      have hfree : ∀ p ∈ entered [] (namesIn (front ++ names home)), ∀ content,
          base.get? p ≠ some (.file content) := by
        rw [hnames]
        exact fun p hp => way_free hroot hempty haccepted hp
      have hdot := endsInDot_names haccepted front
      by_cases hfit : Tree.NamesFit (namesIn (front ++ names home))
      · -- The directories are made, but the path of the file is longer than theirs.
        obtain ⟨made, hmade⟩ := Action.createDirectories_succeeds hok
          (fun hends => absurd hends (by simp [hdot])) hfit hfree
        cases hpath : checkPath (stubPath root home) with
        | error fault =>
            simp only [hmade, Action.append_of_error hpath]
            exact ⟨fault, rfl, checkPath_eq_error (stubPath_ne_empty root home) hpath⟩
        | ok u =>
            obtain ⟨hnul, hshort⟩ := (checkPath_stubPath_iff haccepted hable.path).mp hpath
            refine absurd ⟨hnul, fun name hname => hfit name ?_, hshort⟩ hnot
            rw [hnames, names_eq_segments haccepted]
            exact List.mem_append_right _ hname
      · obtain ⟨left, hleft⟩ := Action.createFrom_of_long hfit hfree
        rw [Action.createDirectories_of_undotted hok hdot, hleft]
        exact ⟨.nameTooLong, rfl, .inr rfl⟩

omit hable in
/-- The first stubs of a namespace begin with the header. -/
theorem read_appended (hleads : Leads base.home root) (haccepted : rejection? home = none)
    {n : Nat} {site' : Site}
    (hends : Job.Ends (append home source types) ⟨base, { root := root }⟩ n site') :
    n = (stubTexts types).length ∧ site'.tree.read (stubPath root home) =
      .ok (bytes (contribution true source (stubTexts types))) := by
  obtain ⟨hn, hlaid, -⟩ := append_ends hleads (.nil root base) haccepted hends
  obtain ⟨place, hplace, hget⟩ := append_adds hends
  have hfits := hlaid.fits ⟨home, source, stubTexts types⟩ (by simp)
  obtain ⟨front, hfront⟩ := Option.isSome_iff_exists.mp hfits.reached
  obtain ⟨rfl, -, -⟩ := stubPlace_ends hleads hlaid.home haccepted hfront hplace
  have hnone : base.get? (stubAt base root home) = none := by
    rw [stubAt_eq hroot]
    exact get?_inside hempty (by simp [stubPlace])
  refine ⟨hn, Tree.read_of_filePlace hplace ?_⟩
  simp only [hget, Tree.contentAt, hnone, List.nil_append, List.contains_nil, Bool.not_false]

section Finish

variable {cs : List Contribution} {site : Site} (hlaid : Laid root base cs site)
include hlaid

omit hable in
/-- Wherever a marker can be written in the root, the settings can be written too. -/
theorem isOpen_readme {marked : Tree} (hmarked : Marked site.context site.tree marked)
    (hopen : IsOpen marked root markerFile) : IsOpen marked root readmeFile := by
  have hhome : marked.home = base.home := hmarked.home.trans hlaid.home
  refine ⟨hopen.reached, hopen.not_upwards, ?_, hopen.names.left.append ?_, hopen.entered, ?_⟩
  · exact checkPath_shorter isPlainName_readmeFile isPlainName_markerFile (by decide) (by decide)
      hroot.ne_empty String.append_empty.symm hopen.path
  · simp only [Tree.NamesFit, List.mem_singleton, forall_eq]
    decide
  · rw [hmarked.get?, hhome, hlaid.home]
    cases hmark : markAt base.home site.context (pathNames base.home root ++ [readmeFile]) with
    | some entry =>
        obtain ⟨⟨content, rfl⟩, -⟩ := markAt_eq_some hroot hlaid hmark
        simp
    | none =>
        have hnone : site.tree.get? (pathNames base.home root ++ ([] ++ [readmeFile])) = none := by
          refine get?_dotted hroot hempty hlaid (by decide) fun c _ heq => ?_
          exact absurd (List.append_inj_right' heq rfl) (by decide)
        rw [List.nil_append] at hnone
        simp [hnone]

theorem finish_succeeds (hpath : checkPath (join root markerFile) = .ok ()) :
    ∃ report site', Job.Ends finish site report site' := by
  obtain ⟨marked, hends, hmarked, hmarkable⟩ :=
    finalize_ends site (markable_of_laid hroot hempty hlaid (hempty.home ▸ hable.names) hpath)
  have hopen := isOpen_readme hroot hempty hlaid hmarked (hlaid.root ▸ hmarkable.root)
  rw [← hlaid.root] at hopen
  simp only [finish, Job.ends_bind, Job.ends_get, Job.ends_pure]
  exact ⟨_, _, (), _, hends, _, _, ⟨rfl, rfl⟩, (), _,
    write_open _ hopen isPlainName_readmeFile _, rfl, rfl⟩

end Finish

omit hroot hempty in
theorem checkPath_rootMarker_iff :
    checkPath (join root markerFile) = .ok () ↔
      (join root markerFile).utf8ByteSize < pathBound := by
  have hnul := forall_toNat_ne_zero.mp (checkPath_eq_ok.mp hable.path).1
  have hfile : '\x00' ∉ markerFile.toList := by decide
  rw [checkPath_eq_ok, forall_toNat_ne_zero, mem_join isPlainName_markerFile (by decide)]
  simp [hnul, hfile, join_ne_empty isPlainName_markerFile]

end Emptied

/-- What is to be told of the loads is told on the way through the sources. -/
theorem told_loadEvents {sources : List Source} {total done : Nat} {site site' : Site}
    {told : List Notice} {u : Unit}
    (h : Job.Tells (processFrom total done sources) site u site' told) :
    ∀ load ∈ loadsFrom sources site, ∀ e ∈ loadEvents load, e ∈ eventsOf told := by
  induction sources generalizing done site told with
  | nil => simp [loadsFrom]
  | cons source rest ih =>
      simp only [processFrom, Job.tells_bind, Job.tells_tell, and_assoc, ↓existsAndEq,
        true_and] at h
      obtain ⟨_, _, middle, before, after, hsource, hrest, rfl⟩ := h
      rw [loadsFrom_cons hsource.ends, eventsOf_advance, eventsOf_append]
      intro load hload e he
      cases htypes : source.types site.tree with
      | error fault =>
          simp only [htypes] at hload
          exact List.mem_append_right _ (ih hrest load hload e he)
      | ok types =>
          simp only [htypes] at hload
          cases hload with
          | head =>
              rw [Job.Tells, processSource_of_ok htypes, ← Job.Tells] at hsource
              rw [(processTypes_tells hsource).1]
              exact List.mem_append_left _ he
          | tail _ hload => exact List.mem_append_right _ (ih hrest load hload e he)

/-- A type is either written with all others of its namespace, or there is a warning about it. -/
def IsHandled (root : String) (loads : List Load) (outcome : Outcome Tree Report) (t : TypeInfo) :
    Prop :=
  match rejection? (homeOf t.toTypeHeader) with
  | none => outcome.state.entryAt? (stubPath root (homeOf t.toTypeHeader)) =
      some (.file (bytes (stubText loads (homeOf t.toTypeHeader))))
  | some r => .namespaceRejected (homeOf t.toTypeHeader) t.name r.reason t.origin ∈
      eventsOf outcome.notices

section Runs

variable {root : String} {tree base : Tree} (hroot : IsOrdinaryRoot tree.home root)
  (hground : tree.Grounded)
  (hempty : emptyRoot root tree = .ok () base) (sources : List Source)
include hroot hground hempty

/-- A run succeeds if all namespaces that occur can be stored, and the marker of the root. -/
theorem run_succeeds_iff :
    (∃ report, (run sources root tree).result = .ok report) ↔
      (∀ home, Occurs (loadsOf sources root tree) home → IsStorable root home) ∧
        (join root markerFile).utf8ByteSize < pathBound := by
  have hleads := leads_of_emptyRoot hempty
  obtain ⟨hable, hemptied⟩ := emptyRoot_ok hroot hground hempty
  have hroot' : IsOrdinaryRoot base.home root := hemptied.home ▸ hroot
  rw [← checkPath_rootMarker_iff hable, loadsOf_of_emptied hempty]
  constructor
  · rintro ⟨report, hok⟩
    obtain ⟨base', site, site', hempty', hprocess, hfinish, -⟩ := run_ends.mp ⟨hok, rfl⟩
    rw [hempty] at hempty'
    cases hempty'
    obtain ⟨hlaid, -⟩ := processFrom_ends hleads (.nil root base) hprocess
    rw [List.nil_append] at hlaid
    refine ⟨fun home hoccurs => ?_, ?_⟩
    · obtain ⟨c, hc, rfl⟩ := exists_contribution_iff.mpr hoccurs
      exact (fits_iff hroot' hable hemptied hoccurs.accepted).mp (hlaid.fits c hc)
    · simp only [finish, Job.ends_bind] at hfinish
      obtain ⟨_, _, hfinalize, -⟩ := hfinish
      rw [← hlaid.root]
      exact checkPath_of_finalize hfinalize
  · rintro ⟨hstorable, hmarker⟩
    have hfits : ∀ c ∈ (loadsFrom sources ⟨base, { root := root }⟩).flatMap contributionsOf,
        Fits base root c.home := by
      intro c hc
      have hoccurs := exists_contribution_iff.mp ⟨c, hc, rfl⟩
      exact (fits_iff hroot' hable hemptied hoccurs.accepted).mpr (hstorable c.home hoccurs)
    obtain ⟨site, hprocess⟩ := processFrom_succeeds hleads (.nil root base) hfits
    obtain ⟨hlaid, -⟩ := processFrom_ends hleads (.nil root base) hprocess
    obtain ⟨report, site', hfinish⟩ := finish_succeeds hroot' hable hemptied hlaid hmarker
    exact ⟨report, (run_ends.mpr ⟨base, site, site', hempty, hprocess, hfinish, rfl⟩).1⟩

theorem run_handles {report : Report} (hok : (run sources root tree).result = .ok report)
    {load : Load} (hload : load ∈ loadsOf sources root tree) {t : TypeInfo} (ht : t ∈ load.types)
    (heligible : Stub.typeRejection? t.toTypeHeader = none) :
    IsHandled root (loadsOf sources root tree) (run sources root tree) t := by
  rw [IsHandled]
  cases hrejection : rejection? (homeOf t.toTypeHeader) with
  | none =>
      have hmem : t ∈ typesIn (homeOf t.toTypeHeader) load.types := by
        simp [typesIn, isAccepted, ht, heligible, hrejection]
      exact (run_comprises hroot hground ⟨hok, rfl⟩).stubs _
        ⟨load, hload, List.ne_nil_of_mem hmem⟩
  | some r =>
      have hunfiled : .namespaceRejected (homeOf t.toTypeHeader) t.name r.reason t.origin ∈
          unfiled load.types :=
        List.mem_filterMap.mpr ⟨t, ht, by simp [filing, heligible, hrejection]⟩
      rw [run_of_emptied sources hempty] at hok ⊢
      obtain ⟨_, _, before, after, hprocess, -, hnotices⟩ :=
        Job.tells_bind.mp (Job.tells_of_ok hok)
      rw [loadsOf_of_emptied hempty] at hload
      have htold := told_loadEvents hprocess load hload _ (List.mem_append_left _ hunfiled)
      simp only [← hnotices, eventsOf_append]
      exact List.mem_append_left _ (List.mem_append_left _ htold)

end Runs

/-- Below an emptied root, an accepted namespace is stored if its names allow it and refused for
a null character or for its length if they do not; and a run succeeds if all its namespaces can be
stored, and then each type is written or there is a warning about its namespace. -/
theorem accepted_stored_iff_storable {root : String} {tree base : Tree}
    (hroot : IsOrdinaryRoot tree.home root) (hground : tree.Grounded)
    (hempty : emptyRoot root tree = .ok () base) :
    (∀ home source types, rejection? home = none →
      (IsStorable root home →
        (append home source types ⟨base, { root := root }⟩).result =
            .ok (stubTexts types).length ∧
          (append home source types ⟨base, { root := root }⟩).state.tree.read
              (stubPath root home) =
            .ok (bytes (contribution true source (stubTexts types)))) ∧
        (¬ IsStorable root home →
          ∃ fault, (append home source types ⟨base, { root := root }⟩).result =
            .error (.access fault) ∧ (fault = .nulInName ∨ fault = .nameTooLong))) ∧
      ∀ sources,
        ((∃ report, (run sources root tree).result = .ok report) ↔
          (∀ home, Occurs (loadsOf sources root tree) home → IsStorable root home) ∧
            (join root markerFile).utf8ByteSize < pathBound) ∧
          ∀ report, (run sources root tree).result = .ok report →
            ∀ load ∈ loadsOf sources root tree, ∀ t ∈ load.types,
              Stub.typeRejection? t.toTypeHeader = none →
                IsHandled root (loadsOf sources root tree) (run sources root tree) t := by
  have hleads := leads_of_emptyRoot hempty
  obtain ⟨hable, hemptied⟩ := emptyRoot_ok hroot hground hempty
  have hroot' : IsOrdinaryRoot base.home root := hemptied.home ▸ hroot
  refine ⟨fun home source types haccepted => ⟨fun hstorable => ?_, fun hnot => ?_⟩,
    fun sources => ⟨run_succeeds_iff hroot hground hempty sources, ?_⟩⟩
  · obtain ⟨n, site', hends⟩ :=
      (append_stores_iff hroot' hable hemptied hleads haccepted).mpr hstorable
    obtain ⟨rfl, hread⟩ := read_appended hroot' hemptied hleads haccepted hends
    exact ⟨hends.1, by rw [hends.2, hread]⟩
  · exact append_refuses hroot' hable hemptied hleads haccepted hnot
  · exact fun report hok load hload t ht heligible =>
      run_handles hroot hground hempty sources hok hload ht heligible

/-- The namespace of the first type can be stored, and that of the second one is rejected. -/
def hauntedTypes : List TypeInfo :=
  [{ name := "Player", kind := .reference, home := some "Game" },
    { name := "Ghost", kind := .reference, home := some "Game..Attic" }]

theorem accepted_stored_iff_storable_below_out :
    ∃ base, emptyRoot "out" (.empty "/w") = .ok () base ∧
      (append "Game" "core" hauntedTypes ⟨base, { root := "out" }⟩).result = .ok 2 ∧
      (∃ fault, (append "odd\x00name" "core" hauntedTypes ⟨base, { root := "out" }⟩).result =
        .error (.access fault) ∧ (fault = .nulInName ∨ fault = .nameTooLong)) ∧
      ∃ report, (run [.fixed "core" hauntedTypes] "out" (.empty "/w")).result = .ok report ∧
        ∀ t ∈ Source.stamp "core" hauntedTypes,
          IsHandled "out" (loadsOf [.fixed "core" hauntedTypes] "out" (.empty "/w"))
            (run [.fixed "core" hauntedTypes] "out" (.empty "/w")) t := by
  have hroot : IsOrdinaryRoot "/w" "out" := ⟨by decide, by decide⟩
  have hground : (Tree.empty "/w").Grounded := Tree.grounded_of_entries (by decide)
  have hempty : emptyRoot "out" (.empty "/w") = .ok () ⟨"/w", [(["out"], .directory)]⟩ := rfl
  obtain ⟨hstores, hruns⟩ := accepted_stored_iff_storable hroot hground hempty
  obtain ⟨hstored, -⟩ := hstores "Game" "core" hauntedTypes (by decide +kernel)
  obtain ⟨-, hrefused⟩ := hstores "odd\x00name" "core" hauntedTypes (by decide +kernel)
  have hrun : (run [.fixed "core" hauntedTypes] "out" (.empty "/w")).result =
      .ok ⟨"/w/out", 1, 0, 1, 1⟩ := by decide +kernel
  have heligible : ∀ t ∈ Source.stamp "core" hauntedTypes,
      Stub.typeRejection? t.toTypeHeader = none := by decide +kernel
  refine ⟨_, hempty, (hstored (by decide +kernel)).1, hrefused (by decide +kernel), _, hrun,
    fun t ht => ?_⟩
  exact (hruns _).2 _ hrun ⟨"core", Source.stamp "core" hauntedTypes⟩ List.mem_cons_self t ht
    (heligible t ht)

/-- An accepted namespace stops a run, though its root can be emptied. -/
theorem run_stopped_by_accepted_namespace :
    rejection? "odd\x00name" = none ∧ (reset "out" (.empty "/w")).result = .ok () ∧
      (run [.fixed "core" [{ name := "X", kind := .reference, home := some "odd\x00name" }]] "out"
        (.empty "/w")).result = .error (.access .nulInName) := by
  decide +kernel

end StubTree.Package
