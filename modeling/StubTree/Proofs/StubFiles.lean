import StubTree.Proofs.Matching

/-!
What a run leaves below its root, to the byte. There is one stub file for each
namespace of an accepted type, the remaining files are markers and the readme,
and the directories are those of the namespaces. What was below the root before
cannot be told from anything that the run does.
-/

namespace StubTree.Package

open Files Namespace

/-- Below the root a tree holds the package of the loads, and nothing else. -/
structure Comprises (root : String) (loads : List Load) (tree : Tree) : Prop where
  stubs : ∀ home, Occurs loads home →
    tree.entryAt? (stubPath root home) = some (.file (bytes (stubText loads home)))
  apart : ∀ home home', Occurs loads home → Occurs loads home' →
    tree.locate (stubPath root home) = tree.locate (stubPath root home') → home = home'
  files : ∀ place content, tree.get? (pathNames tree.home root ++ place) = some (.file content) →
    (∃ home, Occurs loads home ∧
        tree.locate (stubPath root home) = .ok (pathNames tree.home root ++ place)) ∨
      (∃ inner, place = inner ++ [markerFile]) ∨ place = [readmeFile]
  directories : ∀ place, place ≠ [] →
    tree.get? (pathNames tree.home root ++ place) = some .directory →
      ∃ home, Occurs loads home ∧ place <+: names home

section Leaves

variable {root : String} {tree base : Tree} (hroot : IsOrdinaryRoot base.home root)
include hroot

theorem stubAt_eq (home : String) :
    stubAt base root home = pathNames base.home root ++ stubPlace home := by
  rw [stubAt, walk_of_not_upwards [] hroot.not_upwards, List.nil_append]

theorem mem_way {home : String} (h : rejection? home = none) {place : Place} :
    place ∈ way base root home ↔ place ≠ [] ∧ place <+: pathNames base.home root ++ names home := by
  have hup : ".." ∉ pathNames base.home root ++ names home := by
    rw [List.mem_append, not_or]
    exact ⟨hroot.not_upwards, names_not_upwards h⟩
  rw [way, mem_entered_of_not_upwards hup]
  simp only [List.nil_append]
  constructor
  · rintro ⟨inner, hne, hinner, rfl⟩
    exact ⟨hne, hinner⟩
  · rintro ⟨hne, hinner⟩
    exact ⟨place, hne, hinner, rfl⟩

theorem stubAt_not_extra (home : String) :
    ¬ IsExtra (pathNames base.home root) (stubAt base root home) := by
  rw [stubAt_eq hroot]
  intro hextra
  cases hextra with
  | inl hmarker =>
      obtain ⟨inner, heq⟩ := hmarker
      have hlast := List.append_inj_right' (List.append_cancel_left heq) rfl
      exact absurd hlast (by decide)
  | inr heq =>
      have hlast := List.append_inj_right' (List.append_cancel_left heq :
        names home ++ [stubFile] = [] ++ [readmeFile]) rfl
      exact absurd hlast (by decide)

omit hroot in
/-- Nothing is below a root that has just been emptied. -/
theorem get?_inside (hempty : Emptied root tree base) {place : Place} (hne : place ≠ []) :
    base.get? (pathNames base.home root ++ place) = none := by
  rw [hempty.get?, if_neg, if_pos (List.prefix_append _ _)]
  intro hwithin
  have hlength := hwithin.length_le
  have hpos := List.length_pos_iff.mpr hne
  rw [List.length_append] at hlength
  omega

variable {site : Site} (hempty : Emptied root tree base)

section Laid

variable {cs : List Contribution} (hlaid : Laid root base cs site)
include hempty hlaid

theorem laid_root {place : Place} (hplace : place <+: pathNames base.home root) :
    site.tree.get? place = some .directory := by
  rcases hlaid.place_cases place with ⟨c, -, rfl⟩ | ⟨c, hc, hmem⟩ | hsame
  · rw [stubAt_eq hroot] at hplace
    have hlength := hplace.length_le
    simp only [stubPlace, List.length_append, List.length_singleton] at hlength
    omega
  · exact hlaid.ways c hc _ hmem
  · rw [hsame, hempty.get?, if_pos hplace]

/-- Below the root there are only stub files and the directories that lead to them. -/
theorem laid_inside {place : Place} (hne : place ≠ []) {entry : Entry}
    (hget : site.tree.get? (pathNames base.home root ++ place) = some entry) :
    (∃ c ∈ cs, place = stubPlace c.home) ∨
      (∃ c ∈ cs, place <+: names c.home ∧ entry = .directory) := by
  rcases hlaid.place_cases (pathNames base.home root ++ place) with
    ⟨c, hc, heq⟩ | ⟨c, hc, hmem⟩ | hsame
  · rw [stubAt_eq hroot] at heq
    exact .inl ⟨c, hc, List.append_cancel_left heq⟩
  · rw [hlaid.ways c hc _ hmem] at hget
    rw [mem_way hroot (hlaid.fits c hc).accepted] at hmem
    exact .inr ⟨c, hc, (List.prefix_append_right_inj _).mp hmem.2, (Option.some.inj hget).symm⟩
  · rw [hsame, get?_inside hempty hne] at hget
    simp at hget

end Laid

variable {loads : List Load} {after : Tree}
  (hlaid : Laid root base (loads.flatMap contributionsOf) site)
  (hfinished : Finished (pathNames base.home root) site.tree after)
include hempty hlaid

include hfinished

/-- The stub file of a namespace is still as it was laid when the package has been finished. -/
theorem get?_stubAt {home : String} (hoccurs : Occurs loads home) :
    after.get? (stubAt base root home) = some (.file (bytes (stubText loads home))) := by
  obtain ⟨c, hc, rfl⟩ := exists_contribution_iff.mpr hoccurs
  have hnone : base.get? (stubAt base root c.home) = none := by
    rw [stubAt_eq hroot]
    exact get?_inside hempty (by simp [stubPlace])
  rw [hfinished.unchanged (stubAt_not_extra hroot c.home), hlaid.stubs c hc,
    Tree.contentAt, hnone, stubContent_contributions]
  simp only [List.nil_append]

theorem locate_stubPath {home : String} (hoccurs : Occurs loads home) :
    after.locate (stubPath root home) = .ok (stubAt base root home) := by
  have haccepted := hoccurs.accepted
  have hget := get?_stubAt hroot hempty hlaid hfinished hoccurs
  obtain ⟨c, hc, rfl⟩ := exists_contribution_iff.mpr hoccurs
  have hfits := hlaid.fits c hc
  obtain ⟨front, hfront⟩ := Option.isSome_iff_exists.mp hfits.reached
  have hnames := namesIn_front haccepted hfront
  have hhome : after.home = base.home := hfinished.home.trans hlaid.home
  have hok := (segmentsFrom_stubPath (hhome ▸ leads_of_reached hroot.reached) haccepted).mpr
    ⟨hfits.path, front, by rw [hhome, hfront], rfl⟩
  rw [← walk_way haccepted, ← hnames] at hget ⊢
  refine Tree.locate_named hok isPlainName_stubFile ?_ ?_ (by simp [hget])
  · intro p hp
    rw [hnames] at hp
    exact hfinished.kept p (hlaid.ways c hc p hp)
  · rw [hnames]
    exact namesFit_stub hfits

theorem comprises_of_laid : Comprises root loads after := by
  have hlocate := fun home (hoccurs : Occurs loads home) =>
    locate_stubPath hroot hempty hlaid hfinished hoccurs
  have hsame : after.home = base.home := hfinished.home.trans hlaid.home
  refine ⟨?_, ?_, ?_, ?_⟩
  · intro home hhome
    simp only [Tree.entryAt?, hlocate home hhome]
    exact get?_stubAt hroot hempty hlaid hfinished hhome
  · intro home home' hhome hhome' heq
    rw [hlocate home hhome, hlocate home' hhome'] at heq
    exact stubAt_injective hhome.accepted hhome'.accepted (Except.ok.inj heq)
  · intro place content hget
    rw [hsame] at hget ⊢
    cases hfinished.get? (pathNames base.home root ++ place) with
    | inl hsame =>
        rw [hsame] at hget
        have hne : place ≠ [] := by
          rintro rfl
          rw [List.append_nil, laid_root hroot hempty hlaid List.prefix_rfl] at hget
          simp at hget
        rcases laid_inside hroot hempty hlaid hne hget with ⟨c, hc, rfl⟩ | ⟨_, _, _, hentry⟩
        · have hoccurs := exists_contribution_iff.mp ⟨c, hc, rfl⟩
          exact .inl ⟨c.home, hoccurs, by rw [hlocate c.home hoccurs, stubAt_eq hroot]⟩
        · simp at hentry
    | inr hwritten =>
        cases hwritten.1 with
        | inl hmarker =>
            obtain ⟨inner, heq⟩ := hmarker
            exact .inr (.inl ⟨inner, List.append_cancel_left heq⟩)
        | inr heq => exact .inr (.inr (List.append_cancel_left heq))
  · intro place hne hget
    rw [hsame] at hget
    cases hfinished.get? (pathNames base.home root ++ place) with
    | inl hsame =>
        rw [hsame] at hget
        rcases laid_inside hroot hempty hlaid hne hget with ⟨c, hc, rfl⟩ | ⟨c, hc, hinner, -⟩
        · have hoccurs := exists_contribution_iff.mp ⟨c, hc, rfl⟩
          rw [← stubAt_eq hroot, ← hfinished.unchanged (stubAt_not_extra hroot c.home),
            get?_stubAt hroot hempty hlaid hfinished hoccurs] at hget
          simp at hget
        · exact ⟨c.home, exists_contribution_iff.mp ⟨c, hc, rfl⟩, hinner⟩
    | inr hwritten =>
        obtain ⟨content, hfile⟩ := hwritten.2
        rw [hget] at hfile
        simp at hfile

end Leaves

theorem additive_eq : Job.Additive (Eq : List Notice → List Notice → Prop) :=
  ⟨fun _ => rfl, fun h h' => by rw [h, h']⟩

theorem processSource_uniform (source : Source) :
    Job.Alike (Matching Eq) Eq Eq (processSource source) (processSource source) := by
  refine Job.Alike.bind additive_eq (Job.Alike.get additive_eq) fun site site' hmatch => ?_
  rw [hmatch.tree.types source]
  cases source.types site'.tree with
  | error fault =>
      refine Job.Alike.bind additive_eq (Job.Alike.report rfl) fun _ _ _ => ?_
      refine Job.Alike.modify additive_eq fun s s' h => ?_
      exact ⟨h.tree, h.root, h.touched, h.processed, h.written, by simp only [h.failed]⟩
  | ok types =>
      have hself : List.Forall₂ (GroupsMatch Eq) (Namespace.group (filed types))
          (Namespace.group (filed types)) :=
        List.forall₂_same.mpr fun _ _ => ⟨rfl, rfl, rfl⟩
      exact processTypes_alike additive_eq source.id hself rfl fun _ _ => rfl

theorem processFrom_uniform (sources : List Source) (total done : Nat) :
    Job.Alike (Matching Eq) Eq Eq (processFrom total done sources)
      (processFrom total done sources) := by
  induction sources generalizing done with
  | nil => exact Job.Alike.pure additive_eq rfl
  | cons source rest ih =>
      refine Job.Alike.bind additive_eq (Job.Alike.tell rfl) fun _ _ _ => ?_
      refine Job.Alike.bind additive_eq (processSource_uniform source) fun _ _ _ => ?_
      exact ih (done + 1)

/-- A run whose root can be emptied comes down to the work on the new package. -/
theorem run_of_emptied {root : String} {tree base : Tree} (sources : List Source)
    (hempty : emptyRoot root tree = .ok () base) :
    run sources root tree =
      let work := (processAll sources >>= fun _ => finish) ⟨base, { root := root }⟩
      ⟨work.result, work.state.tree, work.notices ++ lastWords work.result⟩ := by
  have hreset : reset root tree = ⟨.ok (), base, []⟩ := by simp only [reset, Job.act, hempty]
  simp only [run, Job.concluding]
  rw [Job.bind_apply, hreset]
  rfl

/-- A run whose root cannot be emptied comes to nothing, whatever the sources. -/
theorem run_of_unusable {root : String} {tree base : Tree} {fault : Fault}
    (sources : List Source) (hempty : emptyRoot root tree = .error fault base) :
    run sources root tree =
      ⟨.error (.rootUnusable root fault), base, lastWords (.error (.rootUnusable root fault))⟩ := by
  have hreset : reset root tree = ⟨.error (.rootUnusable root fault), base, []⟩ := by
    simp only [reset, Job.act, hempty]
  simp only [run, Job.concluding]
  rw [Job.bind_apply, hreset]
  rfl

/-- From emptied roots that are the same, steps that are alike make alike runs. -/
theorem run_alike {failures : Nat → Nat → Prop} {notices : List Notice → List Notice → Prop}
    (hadd : Job.Additive notices) {sources sources' : List Source} {root : String}
    {tree tree' base base' : Tree} (hempty : emptyRoot root tree = .ok () base)
    (hempty' : emptyRoot root tree' = .ok () base')
    (hsteps : Outcome.Alike (Matching failures) notices Eq
      (processAll sources ⟨base, { root := root }⟩)
      (processAll sources' ⟨base', { root := root }⟩))
    (hwords : ∀ report report', ReportsMatch failures report report' →
      notices (lastWords (.ok report)) (lastWords (.ok report'))) :
    Outcome.Alike Tree.Same notices (ReportsMatch failures) (run sources root tree)
      (run sources' root tree') := by
  have hends := Job.alike_bind_at hadd hsteps fun _ _ site site' _ _ hmatch =>
    finish_alike hadd site site' hmatch
  rw [run_of_emptied sources hempty, run_of_emptied sources' hempty']
  generalize (processAll sources >>= fun _ => finish) _ = work at hends
  generalize (processAll sources' >>= fun _ => finish) _ = work' at hends
  cases hends with
  | ok hreport hmatch hnotices =>
      exact .ok hreport hmatch.tree (hadd.append hnotices (hwords _ _ hreport))
  | error hmatch hnotices => exact .error hmatch.tree (hadd.append hnotices (hadd.refl _))

theorem ReportsMatch.eq {report report' : Report} (h : ReportsMatch Eq report report') :
    report = report' := by
  obtain ⟨houtput, hprocessed, hnamespaces, hwritten, hfailed⟩ := h
  cases report
  cases report'
  simp_all

theorem Outcome.Alike.mono {σ τ α β : Type} {states : σ → τ → Prop}
    {notices : List Notice → List Notice → Prop} {values values' : α → β → Prop}
    (hvalues : ∀ a b, values a b → values' a b) {outcome : Outcome σ α} {outcome' : Outcome τ β}
    (h : Outcome.Alike states notices values outcome outcome') :
    Outcome.Alike states notices values' outcome outcome' := by
  cases h with
  | ok hvalue hstate hnotice => exact .ok (hvalues _ _ hvalue) hstate hnotice
  | error hstate hnotice => exact .error hstate hnotice

section Exact

variable {sources : List Source} {root : String} {tree : Tree}
  (hroot : IsOrdinaryRoot tree.home root) (hground : tree.Grounded)
include hroot hground

theorem run_comprises {report : Report} {after : Tree}
    (hends : Job.Ends (run sources root) tree report after) :
    Comprises root (loadsOf sources root tree) after := by
  obtain ⟨base, site, site', hempty, hprocess, hfinish, rfl⟩ := run_ends.mp hends
  obtain ⟨-, hemptied⟩ := emptyRoot_ok hroot hground hempty
  have hroot' : IsOrdinaryRoot base.home root := hemptied.home ▸ hroot
  obtain ⟨hlaid, -⟩ :=
    processFrom_ends (leads_of_emptyRoot hempty) (.nil root base) hprocess
  rw [List.nil_append] at hlaid
  have haccepted : ∀ home ∈ site.context.touched, rejection? home = none := by
    intro home hhome
    rw [hlaid.touched, mem_touchedBy] at hhome
    obtain ⟨c, hc, rfl⟩ := hhome
    exact (hlaid.fits c hc).accepted
  have hfinished := finish_ends (hlaid.home ▸ hroot') haccepted hlaid.root hfinish
  rw [hlaid.home] at hfinished
  rw [loadsOf_of_emptied hempty]
  exact comprises_of_laid hroot' hemptied hlaid hfinished

/-- Trees that agree except below the root are emptied to the same tree. -/
theorem emptyRoot_same {base : Tree} (hempty : emptyRoot root tree = .ok () base)
    {tree' : Tree} (hground' : tree'.Grounded) (hhome : tree'.home = tree.home)
    (hagree : ∀ place, ¬StrictlyAbove (pathNames tree.home root) place →
      tree'.get? place = tree.get? place) :
    ∃ base', emptyRoot root tree' = .ok () base' ∧ Tree.Same base base' := by
  obtain ⟨hable, hemptied⟩ := emptyRoot_ok hroot hground hempty
  have hable' : Emptiable root tree' := by
    refine ⟨hable.path, hhome ▸ hable.names, hable.not_dot, fun place content hplace => ?_⟩
    rw [hhome] at hplace
    rw [hagree place (not_strictlyAbove_of_isPrefix hplace)]
    exact hable.free place content hplace
  have hroot' : IsOrdinaryRoot tree'.home root := hhome ▸ hroot
  obtain ⟨base', hempty'⟩ := emptyRoot_succeeds hroot' hground' hable'
  obtain ⟨-, hemptied'⟩ := emptyRoot_ok hroot' hground' hempty'
  have hsame : base.home = base'.home := by rw [hemptied.home, hemptied'.home, hhome]
  refine ⟨base', hempty', ⟨hsame, ?_⟩⟩
  funext place
  rw [hemptied.get?, hemptied'.get?, hsame]
  split
  · rfl
  · split
    · rfl
    · rename_i hoff
      rw [hemptied'.home, hhome] at hoff
      rw [hagree place fun hbelow => hoff hbelow.1]

theorem run_uninfluenced {report : Report} {after : Tree}
    (hends : Job.Ends (run sources root) tree report after) {tree' : Tree}
    (hground' : tree'.Grounded) (hhome : tree'.home = tree.home)
    (hagree : ∀ place, ¬StrictlyAbove (pathNames tree.home root) place →
      tree'.get? place = tree.get? place) :
    Outcome.Alike Tree.Same Eq Eq (run sources root tree) (run sources root tree') := by
  obtain ⟨base, _, _, hempty, -⟩ := run_ends.mp hends
  obtain ⟨base', hempty', hsame⟩ := emptyRoot_same hroot hground hempty hground' hhome hagree
  have hsteps := processFrom_uniform sources sources.length 0 ⟨base, { root := root }⟩
    ⟨base', { root := root }⟩ ⟨hsame, rfl, rfl, rfl, rfl, rfl⟩
  have halike := run_alike additive_eq hempty hempty' hsteps fun _ _ hreports => by
    rw [hreports.eq]
  exact Outcome.Alike.mono (fun _ _ hreports => hreports.eq) halike

/-- A run that succeeds leaves exactly the package of what its sources load, and takes no notice
of what was below the root. -/
theorem run_leaves_exact_package {report : Report}
    (hok : (run sources root tree).result = .ok report) :
    Comprises root (loadsOf sources root tree) (run sources root tree).state ∧
      ∀ tree' : Tree, tree'.Grounded → tree'.home = tree.home →
        (∀ place, ¬StrictlyAbove (pathNames tree.home root) place →
            tree'.get? place = tree.get? place) →
          Outcome.Alike Tree.Same Eq Eq (run sources root tree) (run sources root tree') :=
  ⟨run_comprises hroot hground ⟨hok, rfl⟩,
    fun _ hground' hhome hagree =>
      run_uninfluenced hroot hground ⟨hok, rfl⟩ hground' hhome hagree⟩

end Exact

/-- One source with a type, and one that is broken. -/
def rerunSources : List Source :=
  [.fixed "a" [{ name := "Point", kind := .value, home := some "geo.flat" }], .broken "b" "gone"]

/-- A tree with a stale file below the root. -/
def rerunTree : Tree := ⟨"/w", [(["out"], .directory), (["out", "old"], .file [])]⟩

theorem run_leaves_exact_package_over_stale_file :
    (run rerunSources "out" rerunTree).result = .ok ⟨"/w/out", 1, 1, 1, 1⟩ ∧
      Comprises "out" (loadsOf rerunSources "out" rerunTree)
        (run rerunSources "out" rerunTree).state ∧
      rerunTree.get? ["out", "old"] = some (.file []) ∧
      (rerunTree.clear ["out"]).get? ["out", "old"] = none ∧
      Outcome.Alike Tree.Same Eq Eq (run rerunSources "out" rerunTree)
        (run rerunSources "out" (rerunTree.clear ["out"])) := by
  have hroot : IsOrdinaryRoot rerunTree.home "out" := ⟨by decide, by decide⟩
  have hground : rerunTree.Grounded := Tree.grounded_of_entries (by decide)
  have hok : (run rerunSources "out" rerunTree).result = .ok ⟨"/w/out", 1, 1, 1, 1⟩ := by
    decide +kernel
  obtain ⟨hpackage, huninfluenced⟩ := run_leaves_exact_package hroot hground hok
  have hnames : pathNames rerunTree.home "out" = ["out"] := by decide
  refine ⟨hok, hpackage, by decide, by decide, huninfluenced (rerunTree.clear ["out"])
    (Tree.grounded_of_entries (by decide)) rfl fun place hoff => ?_⟩
  rw [hnames] at hoff
  rw [Tree.get?_clear, if_neg hoff]

end StubTree.Package
