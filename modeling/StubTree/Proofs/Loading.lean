import StubTree.Proofs.Accounting
import StubTree.Proofs.Inputs
import StubTree.Proofs.Sparing

/-!
How inputs become sources, and which sources fail. Every path that the inputs
stand for is one source, under the name its document declares or else that of
its file. Whether it fails is decided anew when its turn comes, by the types of
the document alone; and a document outside the root is then found as it was.
-/

namespace StubTree

open Files

namespace Log.Event

/-- Whether a source has failed, where an event is the last word on one. -/
def verdict? : Event → Option Bool
  | sourceFailed .. => some true
  | sourceProcessed .. => some false
  | _ => none

theorem verdict?_eq (e : Event) :
    e.verdict? = if e.isFailure then some true else e.written?.map fun _ => false := by
  cases e <;> rfl

end Log.Event

namespace Package

open Log (Event)

/-- The verdicts of a log, one after the other. -/
def verdicts (log : List Event) : List Bool := log.filterMap Event.verdict?

/-- The trees that sources find, each in its turn. -/
def treesFrom : List Source → Site → List Tree
  | [], _ => []
  | source :: rest, site => site.tree :: treesFrom rest (processSource source site).state

def treesMet (sources : List Source) (root : String) (tree : Tree) : List Tree :=
  treesFrom sources ⟨(reset root tree).state, { root := root }⟩

section Verdicts

variable {site site' : Site} {told : List Notice}

theorem verdicts_append (before after : List Event) :
    verdicts (before ++ after) = verdicts before ++ verdicts after := List.filterMap_append

theorem verdicts_of_no_failure {log : List Event} (h : log.countP Event.isFailure = 0) :
    verdicts log = (log.filterMap Event.written?).map fun _ => false := by
  rw [verdicts, List.map_filterMap]
  refine List.filterMap_congr fun e he => ?_
  have hfailure : e.isFailure = false := by simpa using List.countP_eq_zero.mp h e he
  rw [Event.verdict?_eq, hfailure]
  rfl

/-- A source that has its turn gets one verdict, by whether its types are there. -/
theorem processSource_verdict {source : Source} {u : Unit}
    (h : Job.Tells (processSource source) site u site' told) :
    verdicts (eventsOf told) = [!(source.types site.tree).isOk] := by
  cases htypes : source.types site.tree with
  | ok types =>
      rw [Job.Tells, processSource_of_ok htypes, ← Job.Tells] at h
      rw [(processTypes_tells h).1, verdicts_of_no_failure (countP_isFailure_loadEvents _),
        written?_loadEvents]
      rfl
  | error fault =>
      rw [Job.Tells, processSource, Job.get_bind, htypes, ← Job.Tells] at h
      simp only [Job.tells_bind, Job.tells_report, Site.tells_onContext, and_assoc, ↓existsAndEq,
        true_and, List.append_nil] at h
      obtain ⟨_, -, rfl⟩ := h
      rfl

theorem processFrom_verdicts {sources : List Source} {total done : Nat} {u : Unit}
    (h : Job.Tells (processFrom total done sources) site u site' told) :
    verdicts (eventsOf told) =
      List.zipWith (fun source met => !(source.types met).isOk) sources
        (treesFrom sources site) := by
  induction sources generalizing done site told with
  | nil =>
      obtain ⟨-, rfl, rfl⟩ := Job.tells_pure.mp h
      rfl
  | cons source rest ih =>
      simp only [processFrom, Job.tells_bind, Job.tells_tell, and_assoc, ↓existsAndEq,
        true_and] at h
      obtain ⟨_, _, middle, before, after, hsource, hrest, rfl⟩ := h
      rw [eventsOf_advance, eventsOf_append, verdicts_append, processSource_verdict hsource,
        ih hrest, treesFrom, hsource.ends.2]
      rfl

theorem length_treesFrom (sources : List Source) (site : Site) :
    (treesFrom sources site).length = sources.length := by
  induction sources generalizing site with
  | nil => rfl
  | cons source rest ih => simp [treesFrom, ih]

theorem length_treesMet (sources : List Source) (root : String) (tree : Tree) :
    (treesMet sources root tree).length = sources.length := length_treesFrom _ _

theorem count_verdicts (log : List Event) :
    (verdicts log).count true = log.countP Event.isFailure := by
  induction log with
  | nil => rfl
  | cons e rest ih =>
      rw [verdicts, List.filterMap_cons, List.countP_cons, ← ih, verdicts]
      cases e <;> simp [Event.verdict?, Event.isFailure]

theorem run_verdicts {sources : List Source} {root : String} {tree : Tree} {report : Report}
    (h : (run sources root tree).result = .ok report) :
    verdicts (eventsOf (run sources root tree).notices) =
        List.zipWith (fun source met => !(source.types met).isOk) sources
          (treesMet sources root tree) ∧
      report.failed = (verdicts (eventsOf (run sources root tree).notices)).count true := by
  obtain ⟨base, middle, before, hempty, hprocess, hevents, -, hfailed, -⟩ :=
    run_told (Job.tells_of_ok h)
  have hcompleted : verdicts (eventsOf (run sources root tree).notices) =
      verdicts (eventsOf before) := by
    rw [hevents, verdicts_append]
    exact List.append_nil _
  obtain ⟨hcounted, -⟩ := processFrom_tells hprocess
  rw [hcompleted]
  constructor
  · rw [processFrom_verdicts hprocess, treesMet, reset, Job.act, hempty]
  · rw [count_verdicts, hfailed, hcounted.failed]
    exact Nat.zero_add _

end Verdicts

section Met

variable {root : String} {base : Tree}

theorem processSource_laid (hleads : Namespace.Leads base.home root) {source : Source}
    {cs : List Contribution} {site site' : Site} {u : Unit} (h : Laid root base cs site)
    (hends : Job.Ends (processSource source) site u site') :
    ∃ cs', Laid root base cs' site' := by
  cases htypes : source.types site.tree with
  | ok types =>
      rw [Job.Ends, processSource_of_ok htypes, ← Job.Ends] at hends
      exact ⟨_, (processTypes_ends hleads h hends).1⟩
  | error fault =>
      rw [hends.unique (processSource_of_error htypes)]
      exact ⟨cs, h.onContext _ rfl rfl⟩

/-- What has been laid when a source has its turn, by induction on the sources before it. -/
theorem treesFrom_laid (hleads : Namespace.Leads base.home root) {sources : List Source}
    {total done : Nat} {cs : List Contribution} {site site' : Site} {u : Unit}
    (h : Laid root base cs site)
    (hends : Job.Ends (processFrom total done sources) site u site') :
    ∀ met ∈ treesFrom sources site, ∃ cs' context, Laid root base cs' ⟨met, context⟩ := by
  induction sources generalizing done cs site with
  | nil => simp [treesFrom]
  | cons source rest ih =>
      simp only [processFrom, Job.ends_bind, Job.ends_tell] at hends
      obtain ⟨_, _, rfl, _, middle, hsource, hrest⟩ := hends
      obtain ⟨cs', hlaid⟩ := processSource_laid hleads h hsource
      intro met hmet
      rw [treesFrom, hsource.2] at hmet
      cases hmet with
      | head => exact ⟨cs, site.context, h⟩
      | tail _ hmet => exact ih hlaid hrest met hmet

theorem treesMet_spared {sources : List Source} {tree : Tree} {report : Report}
    (h : (run sources root tree).result = .ok report) :
    ∀ met ∈ treesMet sources root tree,
      Spared (placeOf tree root) (wayTo tree root) tree met := by
  obtain ⟨base, middle, _, hempty, hprocess, -⟩ := run_ends.mp ⟨h, rfl⟩
  intro met hmet
  rw [treesMet, reset, Job.act, hempty] at hmet
  obtain ⟨cs, context, hlaid⟩ :=
    treesFrom_laid (leads_of_emptyRoot hempty) (.nil root base) hprocess met hmet
  have hemptied := spared_emptyRoot hempty
  have hadded := spared_laid hlaid
  rw [placeOf, wayTo, hemptied.home] at hadded
  exact hemptied.trans hadded

end Met

end Package

namespace Source

open Metadata

variable {tree after : Tree} {path : String}

/-- The name that a document declares if it can be opened, or else that of its file. -/
def declaredId (tree : Tree) (path : String) : String :=
  match decodeFile documentName tree path with
  | .ok (some name) => name
  | _ => stemOrPath path

/-- A document is a source whether or not it can be opened. Only its name depends on that. -/
theorem openedOrNot_eq (tree : Tree) (path : String) :
    openedOrNot tree path = document path (declaredId tree path) := by
  rw [openedOrNot, opened, declaredId]
  cases hname : decodeFile documentName tree path with
  | error fault => rfl
  | ok name => cases name <;> rfl

/-- There is no file to read at a path, or what it holds are no types. -/
def IsUnloadable (tree : Tree) (path : String) : Prop :=
  (∃ fault, tree.read path = .error fault) ∨
    ∃ content fault, tree.read path = .ok content ∧ documentTypes.ofText content = .error fault

theorem not_isUnloadable : ¬IsUnloadable tree path ↔
    ∃ content types, tree.read path = .ok content ∧ documentTypes.ofText content = .ok types := by
  rw [IsUnloadable]
  cases hread : tree.read path with
  | error fault => simp
  | ok content =>
      cases hdecode : documentTypes.ofText content with
      | error fault => simp [hdecode]
      | ok types => simp [hdecode]

/-- The name of a document has no part in whether its types can be had. -/
theorem isOk_types {id : String} :
    ((document path id).types tree).isOk = true ↔ ¬IsUnloadable tree path := by
  rw [not_isUnloadable, types, decodeFile]
  cases hread : tree.read path with
  | error fault => simp [bind, Except.bind, Except.isOk, Except.toBool]
  | ok content =>
      cases hdecode : documentTypes.ofText content with
      | error fault => simp [hdecode, bind, Except.bind, Except.isOk, Except.toBool]
      | ok types =>
          simp [hdecode, bind, Except.bind, pure, Except.pure, Except.isOk, Except.toBool]

instance : Decidable (IsUnloadable tree path) :=
  decidable_of_iff (((document path "").types tree).isOk = false) <| by
    rw [← Bool.not_eq_true, isOk_types, not_not]

theorem isUnloadable_congr
    (h : ∀ content, after.read path = .ok content ↔ tree.read path = .ok content) :
    IsUnloadable after path ↔ IsUnloadable tree path := by
  rw [← not_iff_not, not_isUnloadable, not_isUnloadable]
  simp only [h]

end Source

namespace Command

open Package Source

variable {search : Search} {inputs paths : List String} {out : String} {tree : Tree}

theorem eq_standsFor_of_resolveAll (h : resolveAll search inputs = .ok paths) :
    paths = inputs.flatMap (standsFor search) := by
  have hgood : ∀ input ∈ inputs, ¬IsBadInput search input := fun input hinput hbad => by
    obtain ⟨fault, hfault⟩ := resolveAll_eq_error ⟨input, hinput, hbad⟩
    rw [h] at hfault
    cases hfault
  rw [resolveAll_eq_ok hgood] at h
  exact (Except.ok.inj h).symm

/-- Documents under the names they declare. -/
def sourcesOf (tree : Tree) (paths : List String) : List Source :=
  paths.map fun path => .document path (declaredId tree path)

theorem sourcesOf_eq (tree : Tree) (paths : List String) :
    paths.map (openedOrNot tree) = sourcesOf tree paths :=
  List.map_congr_left fun path _ => openedOrNot_eq tree path

theorem verdicts_sourcesOf {report : Report}
    (h : (run (sourcesOf tree paths) out tree).result = .ok report) :
    verdicts (eventsOf (run (sourcesOf tree paths) out tree).notices) =
      List.zipWith (fun path met => decide (IsUnloadable met path)) paths
        (treesMet (sourcesOf tree paths) out tree) := by
  rw [(run_verdicts h).1]
  generalize treesMet (sourcesOf tree paths) out tree = met
  rw [sourcesOf, List.zipWith_map_left]
  congr 1
  funext path met
  rw [Bool.eq_iff_iff, decide_eq_true_iff, Bool.not_eq_true', ← Bool.not_eq_true, isOk_types,
    not_not]

/-- Every path that inputs stand for is one source of the run, in their order; it fails if no types
can be had at its turn, and outside the root that is the same as before the run. -/
theorem executeBy_loads_every_input (desktop : Desktop) (hground : tree.Grounded)
    (hresolved : resolveAll search inputs = .ok paths) :
    paths = inputs.flatMap (standsFor search) ∧
    executeBy search desktop (.generate inputs out false) tree =
      conclude out paths.length (run (sourcesOf tree paths) out tree) ∧
    ∀ report, (run (sourcesOf tree paths) out tree).result = .ok report →
      (treesMet (sourcesOf tree paths) out tree).length = paths.length ∧
      verdicts (eventsOf (run (sourcesOf tree paths) out tree).notices) =
        List.zipWith (fun path met => decide (IsUnloadable met path)) paths
          (treesMet (sourcesOf tree paths) out tree) ∧
      report.failed =
        (verdicts (eventsOf (run (sourcesOf tree paths) out tree).notices)).count true ∧
      ∀ path met, (path, met) ∈ paths.zip (treesMet (sourcesOf tree paths) out tree) →
        IsOutside tree out path → (IsUnloadable met path ↔ IsUnloadable tree path) := by
  refine ⟨eq_standsFor_of_resolveAll hresolved, ?_, fun report hrun => ?_⟩
  · simp only [executeBy, hresolved, generate, sourcesOf_eq, Bool.false_eq_true, if_false]
  · refine ⟨?_, verdicts_sourcesOf hrun, (run_verdicts hrun).2, fun path met hpair hout => ?_⟩
    · rw [length_treesMet, sourcesOf, List.length_map]
    · have hspared := treesMet_spared hrun met (List.of_mem_zip hpair).2
      exact isUnloadable_congr fun _ => read_spared hground hout hspared

/-- One document with a name that is none, and one whose types are none. -/
def shelf : Tree :=
  ⟨"/work", [(["docs"], .directory),
    (["docs", "a.json"], .file (bytes "\x7b\"name\": 5, \"types\": []\x7d")),
    (["docs", "b.json"], .file (bytes "\x7b\"name\": \"Bins\", \"types\": [5]\x7d"))]⟩

/-- The first of these is missing, and the last one stands for a document that is found before. -/
def shelfInputs : List String := ["gone.json", "docs/*.json", "docs/a.json"]

def shelfPaths : List String := ["gone.json", "docs/a.json", "docs/b.json", "docs/a.json"]

theorem resolve_shelf :
    resolve (searchIn shelf) "docs/*.json" = .ok ["docs/a.json", "docs/b.json"] := by
  have hparse : Pattern.parse "docs/*.json" =
      .ok ⟨["docs".toList.map .char, .anyText :: ".json".toList.map .char], false⟩ := by rfl
  have hnames : namesIn shelf "docs" = ["a.json", "b.json"] := by cbv
  have hthere : shelf.isPresent "docs" = true := by decide +kernel
  have hdirectory : shelf.isDirectoryAt "docs" = true := by decide +kernel
  have hdocs : pathIn "." "docs" = "docs" := by decide +kernel
  have ha : pathIn "docs" "a.json" = "docs/a.json" := by decide +kernel
  have hb : pathIn "docs" "b.json" = "docs/b.json" := by decide +kernel
  simp only [resolve, hparse, searchIn, Pattern.paths]
  rw [show searchBound shelf _ = 28 by decide +kernel]
  simp [below, reached, candidates, matching, collapse, isRecursive, plainText?, dotsIn, fits,
    anySuffix, Token.accepts, hnames, hthere, hdirectory, hdocs, ha, hb]
  rfl

theorem shelf_loads_every_input :
    shelfPaths = shelfInputs.flatMap (standsFor (searchIn shelf)) ∧
    (sourcesOf shelf shelfPaths).map Source.id = ["gone", "a", "Bins", "a"] ∧
    executeBy (searchIn shelf) .bare (.generate shelfInputs "stubs" false) shelf =
      conclude "stubs" 4 (run (sourcesOf shelf shelfPaths) "stubs" shelf) ∧
    (run (sourcesOf shelf shelfPaths) "stubs" shelf).result = .ok ⟨"/work/stubs", 2, 2, 0, 0⟩ ∧
    verdicts (eventsOf (run (sourcesOf shelf shelfPaths) "stubs" shelf).notices) =
      [true, false, true, false] ∧
    ∀ path met, (path, met) ∈ shelfPaths.zip (treesMet (sourcesOf shelf shelfPaths) "stubs" shelf) →
      (IsUnloadable met path ↔ IsUnloadable shelf path) := by
  have hground : shelf.Grounded := Tree.grounded_of_entries (by decide +kernel)
  have hresolved : resolveAll (searchIn shelf) shelfInputs = .ok shelfPaths := by
    simp only [resolveAll, shelfInputs, List.mapM_cons, resolve_shelf]
    rfl
  have hrun : (run (sourcesOf shelf shelfPaths) "stubs" shelf).result =
      .ok ⟨"/work/stubs", 2, 2, 0, 0⟩ := by decide +kernel
  have houtside : ∀ path ∈ shelfPaths, IsOutside shelf "stubs" path := by decide +kernel
  obtain ⟨hpaths, hexecuted, hloads⟩ := executeBy_loads_every_input .bare hground hresolved
  obtain ⟨-, hverdicts, -, hsame⟩ := hloads _ hrun
  refine ⟨hpaths, by decide +kernel, hexecuted, hrun, hverdicts.trans (by decide +kernel), ?_⟩
  exact fun path met hpair => hsame path met hpair (houtside path (List.of_mem_zip hpair).1)

/-- A path that leads up from a directory above the root can lead somewhere only during the run. -/
example :
    let tree : Tree := ⟨"/work", [(["core.json"], .file (bytes "\x7b\x7d"))]⟩
    let met := treesMet (sourcesOf tree ["new/../core.json"]) "new/stubs" tree
    ¬IsOutside tree "new/stubs" "new/../core.json" ∧
      met.map (fun t => decide (IsUnloadable t "new/../core.json")) = [false] ∧
      IsUnloadable tree "new/../core.json" := by decide +kernel

end Command

end StubTree
