import StubTree.Proofs.Markers
import StubTree.Proofs.StubFiles

/-!
The package as an importer sees it. The directories below the root are those of
the namespaces and those on the way to them; each of them is a package, either
by its stub file or by a marker, and the root imports its subdirectories. The
marks fit wherever the stubs do, so a package can always be finished.
-/

namespace StubTree.Package

open Files Namespace

/-- The directories below a root, each with one file that makes it a package. -/
structure IsPackage (root : String) (loads : List Load) (tree : Tree) : Prop where
  directories : ∀ place, place ≠ [] →
    (tree.get? (pathNames tree.home root ++ place) = some .directory ↔
      ∃ home, Occurs loads home ∧ place <+: names home)
  stubbed : ∀ home, Occurs loads home →
    (∃ content, tree.get? (pathNames tree.home root ++ names home ++ [stubFile]) =
        some (.file content)) ∧
      tree.get? (pathNames tree.home root ++ names home ++ [markerFile]) = none
  marked : ∀ place, place ≠ [] → tree.get? (pathNames tree.home root ++ place) = some .directory →
    (∀ home, Occurs loads home → names home ≠ place) →
      tree.get? (pathNames tree.home root ++ place ++ [markerFile]) = some (.file []) ∧
        tree.get? (pathNames tree.home root ++ place ++ [stubFile]) = none
  root : tree.get? (pathNames tree.home root ++ [stubFile]) = none ∧
    ∃ imported : List String, imported.Pairwise (· < ·) ∧
      (∀ name, name ∈ imported ↔ tree.get? (pathNames tree.home root ++ [name]) = some .directory) ∧
      tree.get? (pathNames tree.home root ++ [markerFile]) = some (.file (bytes (rootBanner ++
        String.join (imported.map fun name => "from . import " ++ name ++ "\n"))))

/-- A package to which namespaces have been added one by one, without a failure. -/
inductive Appended (root : String) (base : Tree) : Site → Prop where
  | none : Appended root base ⟨base, { root := root }⟩
  | append {site site' : Site} {home source : String} {types : List Metadata.TypeInfo} {n : Nat} :
      Appended root base site → rejection? home = .none →
        Job.Ends (append home source types) site n site' → Appended root base site'

theorem Appended.laid {root : String} {base : Tree} {site : Site} (hleads : Leads base.home root)
    (h : Appended root base site) : ∃ cs, Laid root base cs site := by
  induction h with
  | none => exact ⟨[], .nil root base⟩
  | append _ haccepted hends ih =>
      obtain ⟨cs, hlaid⟩ := ih
      exact ⟨_, (append_ends hleads hlaid haccepted hends).2.1⟩

/-- A short name is found in a directory if a longer one is found there or below. -/
theorem checkPath_shorter {directory deeper more name longer : String} (hname : IsPlainName name)
    (hlonger : IsPlainName longer) (hnul : '\x00' ∉ name.toList)
    (hsize : name.utf8ByteSize < longer.utf8ByteSize) (hne : directory ≠ "")
    (hdeeper : deeper = directory ++ more) (hpath : checkPath (join deeper longer) = .ok ()) :
    checkPath (join directory name) = .ok () := by
  have hne' : deeper ≠ "" := by simp [hdeeper, hne]
  obtain ⟨slash, hjoin, hslash⟩ := join_eq_append hne hname
  obtain ⟨slash', hjoin', -⟩ := join_eq_append hne' hlonger
  rw [hjoin', hdeeper] at hpath
  obtain ⟨hall, -, hshort⟩ := checkPath_eq_ok.mp hpath
  rw [hjoin]
  refine checkPath_eq_ok.mpr ⟨fun c hc => ?_, by simp [hne], ?_⟩
  · simp only [String.toList_append, List.mem_append] at hc
    rcases hc with hc | hc | hc
    · exact hall c (by simp [hc])
    · rcases hslash with rfl | rfl
      · cases hc
      · rw [List.mem_singleton.mp hc]
        decide
    · exact forall_toNat_ne_zero.mpr hnul c hc
  · have hone : slash.utf8ByteSize ≤ 1 := by rcases hslash with rfl | rfl <;> decide
    simp only [String.utf8ByteSize_append] at hshort ⊢
    omega

/-- The path of a marker is no longer than that of a stub file in the same directory or below. -/
theorem checkPath_marker {directory deeper more : String} (hne : directory ≠ "")
    (hdeeper : deeper = directory ++ more) (hpath : checkPath (join deeper stubFile) = .ok ()) :
    checkPath (join directory markerFile) = .ok () :=
  checkPath_shorter isPlainName_markerFile isPlainName_stubFile (by decide) (by decide) hne hdeeper
    hpath

section Marking

variable {root : String} {tree base : Tree} (hroot : IsOrdinaryRoot base.home root)
  (hempty : Emptied root tree base) {cs : List Contribution} {site : Site}
  (hlaid : Laid root base cs site)
include hroot hlaid

omit hroot in
theorem Laid.accepted {home : String} (hhome : home ∈ site.context.touched) :
    rejection? home = none := by
  rw [hlaid.touched, mem_touchedBy] at hhome
  obtain ⟨c, hc, rfl⟩ := hhome
  exact (hlaid.fits c hc).accepted

omit hroot in
theorem mem_marked {directory : String} :
    directory ∈ markedDirectories site.context ↔
      ∃ inner, IsBetween site.context.touched inner ∧ directory = inner.foldl join root := by
  have hmem : directory ∈ markedDirectories site.context ↔ ∃ inner,
      IsBetween site.context.touched inner ∧ directory = inner.foldl join site.context.root :=
    mem_markedDirectories_iff fun _ => hlaid.accepted
  rwa [hlaid.root] at hmem

/-- The root can be marked if anything has been written below it. -/
theorem checkPath_rootMarker (hsome : site.context.touched ≠ []) :
    checkPath (join root markerFile) = .ok () := by
  obtain ⟨home, hhome⟩ := List.exists_mem_of_ne_nil _ hsome
  rw [hlaid.touched, mem_touchedBy] at hhome
  obtain ⟨c, hc, rfl⟩ := hhome
  have hfits := hlaid.fits c hc
  obtain ⟨more, hmore⟩ := foldl_join_eq_append hroot.ne_empty
    fun _ => isPlainName_of_mem_names hfits.accepted
  exact checkPath_marker hroot.ne_empty hmore hfits.path

/-- Only files are marks, in the root or in a directory between. -/
theorem markAt_eq_some {place : Place} {entry : Entry}
    (h : markAt base.home site.context (pathNames base.home root ++ place) = some entry) :
    (∃ content, entry = .file content) ∧ ∃ inner, place = inner ++ [markerFile] ∧
      (inner = [] ∨ IsBetween site.context.touched inner) := by
  simp only [markAt, hlaid.root] at h
  split at h
  · rename_i hplace
    exact ⟨⟨_, (Option.some.inj h).symm⟩, [], List.append_cancel_left hplace, .inl rfl⟩
  · split at h
    · rename_i hplace
      obtain ⟨directory, hdirectory, heq⟩ := List.mem_map.mp hplace
      obtain ⟨inner, hbetween, rfl⟩ := (mem_marked hlaid).mp hdirectory
      rw [markerPlace, pathNames_foldl_join (hbetween.plain fun _ => hlaid.accepted)
        hroot.reached, List.append_assoc] at heq
      exact ⟨⟨_, (Option.some.inj h).symm⟩, inner, (List.append_cancel_left heq).symm,
        .inr hbetween⟩
    · simp at h

omit hroot in
theorem markAt_root : markAt base.home site.context (pathNames base.home root ++ [markerFile]) =
    some (.file (bytes (rootMarkerText site.context))) := by
  simp only [markAt, markerPlace, hlaid.root, ↓reduceIte]

theorem markAt_between {inner : List String}
    (hbetween : IsBetween site.context.touched inner) :
    markAt base.home site.context (pathNames base.home root ++ (inner ++ [markerFile])) =
      some (.file []) := by
  have hnames := pathNames_foldl_join (hbetween.plain fun _ => hlaid.accepted) hroot.reached
  rw [markAt, if_neg, if_pos]
  · refine List.mem_map.mpr ⟨_, (mem_marked hlaid).mpr ⟨inner, hbetween, rfl⟩, ?_⟩
    rw [markerPlace, hnames, List.append_assoc]
  · rw [markerPlace, hlaid.root, List.append_cancel_left_eq]
    exact fun heq => hbetween.ne_nil (List.append_left_eq_self.mp heq)

include hempty

theorem get?_dotted {place : Place} {name : String}
    (hdot : '.' ∈ name.toList) (hnot : ∀ c ∈ cs, place ++ [name] ≠ stubPlace c.home) :
    site.tree.get? (pathNames base.home root ++ (place ++ [name])) = none := by
  cases hget : site.tree.get? (pathNames base.home root ++ (place ++ [name])) with
  | none => rfl
  | some entry =>
      rcases laid_inside hroot hempty hlaid (by simp) hget with ⟨c, hc, heq⟩ | ⟨c, hc, hinner, -⟩
      · exact absurd heq (hnot c hc)
      · exact absurd hdot
          (dot_not_mem_of_mem_names (hlaid.fits c hc).accepted (hinner.subset (by simp)))

theorem get?_marker (place : Place) :
    site.tree.get? (pathNames base.home root ++ (place ++ [markerFile])) = none := by
  refine get?_dotted hroot hempty hlaid (by decide) fun c _ heq => ?_
  exact absurd (List.append_inj_right' heq rfl) (by decide)

theorem markable_of_laid (hnames : Tree.NamesFit (pathNames base.home root))
    (hpath : checkPath (join root markerFile) = .ok ()) :
    Markable site.context site.tree := by
  have hmarker : Tree.NamesFit [markerFile] := by simp [Tree.NamesFit]; decide
  refine ⟨?_, fun directory hdirectory => ?_⟩
  · rw [hlaid.root]
    have hfree := get?_marker hroot hempty hlaid []
    refine ⟨?_, ?_, hpath, ?_, ?_, ?_⟩ <;> rw [hlaid.home]
    · exact hroot.reached
    · exact hroot.not_upwards
    · exact hnames.append hmarker
    · exact fun place hplace => laid_root hroot hempty hlaid hplace
    · rw [List.nil_append] at hfree
      simp [hfree]
  · obtain ⟨inner, hbetween, rfl⟩ := (mem_marked hlaid).mp hdirectory
    have hplain := hbetween.plain fun _ => hlaid.accepted
    obtain ⟨home, hhome, rest, hrest⟩ := hbetween.within
    rw [hlaid.touched, mem_touchedBy] at hhome
    obtain ⟨c, hc, rfl⟩ := hhome
    have hfits := hlaid.fits c hc
    have hnames := pathNames_foldl_join hplain hroot.reached
    have hne := foldl_join_ne_empty hroot.ne_empty hplain
    have hpath : checkPath (join (inner.foldl join root) markerFile) = .ok () := by
      have hplain' : ∀ name ∈ rest, IsPlainName name := fun name hname =>
        isPlainName_of_mem_names hfits.accepted (by rw [← hrest]; simp [hname])
      obtain ⟨more, hmore⟩ := foldl_join_eq_append hne hplain'
      rw [← List.foldl_append, hrest] at hmore
      exact checkPath_marker hne hmore hfits.path
    refine ⟨?_, ?_, hpath, ?_, ?_, ?_⟩ <;> rw [hlaid.home]
    · exact reached_foldl_join hplain hroot.reached
    · rw [hnames, List.mem_append, not_or]
      exact ⟨hroot.not_upwards, not_upwards_of_plain hplain⟩
    · have hfit := hfits.names
      rw [← hrest, ← List.append_assoc] at hfit
      rw [hnames]
      exact hfit.left.append hmarker
    · intro place hplace
      rw [hnames] at hplace
      by_cases hnil : place = []
      · rw [hnil, Tree.get?_nil]
      · refine hlaid.ways c hc place ((mem_way hroot hfits.accepted).mpr ⟨hnil, ?_⟩)
        rw [← hrest, ← List.append_assoc]
        exact hplace.trans (List.prefix_append _ _)
    · rw [hnames, List.append_assoc, get?_marker hroot hempty hlaid]
      simp

end Marking

section Finishing

variable {root : String} {tree base : Tree} (hroot : IsOrdinaryRoot base.home root)
  (hempty : Emptied root tree base) (hnames : Tree.NamesFit (pathNames base.home root))
include hroot hempty hnames

theorem finalize_succeeds {cs : List Contribution} {site : Site} (hlaid : Laid root base cs site)
    (hsome : site.context.touched ≠ []) :
    ∃ final again, Job.Ends finalize site () final ∧ Job.Ends finalize final () again ∧
      Tree.Same again.tree final.tree := by
  have hmarkable :=
    markable_of_laid hroot hempty hlaid hnames (checkPath_rootMarker hroot hlaid hsome)
  obtain ⟨once, hends, hmarked, hmarkable'⟩ := finalize_ends site hmarkable
  obtain ⟨again, hends', hmarked', -⟩ := finalize_ends { site with tree := once } hmarkable'
  exact ⟨_, _, hends, hends', hmarked.twice hmarked'⟩

omit hroot hempty hnames in
theorem checkPath_of_finalize {site site' : Site} {u : Unit}
    (hends : Job.Ends finalize site u site') :
    checkPath (join site.context.root markerFile) = .ok () := by
  simp only [finalize, Job.ends_bind, Job.ends_get, Site.ends_onFiles] at hends
  obtain ⟨_, _, ⟨rfl, rfl⟩, _, _, _, _, hwrite, -⟩ := hends
  obtain ⟨place, hplace, -⟩ := Action.write_eq_ok.mp hwrite
  obtain ⟨segments, hok⟩ := Tree.segmentsFrom_of_filePlace hplace
  exact (Tree.segmentsFrom_eq_ok.mp hok).1

/-- Over what was laid there are the readme and the marks, and nothing else. -/
structure Completed (root : String) (base : Tree) (site : Site) (after : Tree) : Prop where
  home : after.home = base.home
  get? : ∃ readme, ∀ place, after.get? place =
    if place = pathNames base.home root ++ [readmeFile] then some (.file readme)
    else (markAt base.home site.context place).or (site.tree.get? place)

theorem finish_completes {cs : List Contribution} {site site' : Site} {report : Report}
    (hlaid : Laid root base cs site) (hends : Job.Ends finish site report site') :
    Completed root base site site'.tree := by
  simp only [finish, Job.ends_bind, Job.ends_get, Job.ends_pure] at hends
  obtain ⟨_, between, hfinalize, _, _, ⟨rfl, rfl⟩, _, _, hreadme, -, rfl⟩ := hends
  have hpath := checkPath_of_finalize hfinalize
  rw [hlaid.root] at hpath
  obtain ⟨marked, hends, hmarked, -⟩ :=
    finalize_ends _ (markable_of_laid hroot hempty hlaid hnames hpath)
  obtain rfl := hfinalize.unique hends
  obtain ⟨_, hwrite, rfl⟩ := Site.ends_onFiles.mp hreadme
  obtain ⟨place, hplace, rfl⟩ := Action.write_eq_ok.mp hwrite
  rw [hlaid.root] at hplace
  have hhome : marked.home = base.home := hmarked.home.trans hlaid.home
  obtain ⟨rfl, -⟩ :=
    filePlace_below (hhome ▸ hroot) plain_of_nil isPlainName_readmeFile hplace
  rw [hhome, List.nil_append]
  refine ⟨hhome, bytes (readmeText (marked.canonical site.context.root)), fun place => ?_⟩
  rw [Tree.get?_put _ (by simp), hmarked.get?, hlaid.home]

end Finishing

section Structure

variable {root : String} {tree base : Tree} (hroot : IsOrdinaryRoot base.home root)
  (hempty : Emptied root tree base) {loads : List Load} {site : Site}
  (hlaid : Laid root base (loads.flatMap contributionsOf) site) {after : Tree}
  (hcompleted : Completed root base site after)
include hlaid

theorem mem_touched {home : String} : home ∈ site.context.touched ↔ Occurs loads home := by
  rw [hlaid.touched, mem_touchedBy, exists_contribution_iff]

include hroot hcompleted

/-- A place whose last name is neither the readme's nor a marker's is as it was laid. -/
theorem Completed.laidAt (place : Place) {name : String} (hreadme : name ≠ readmeFile)
    (hmarker : name ≠ markerFile) :
    after.get? (pathNames base.home root ++ (place ++ [name])) =
      site.tree.get? (pathNames base.home root ++ (place ++ [name])) := by
  obtain ⟨readme, hget⟩ := hcompleted.get?
  rw [hget, if_neg]
  · cases hmark : markAt base.home site.context (pathNames base.home root ++ (place ++ [name])) with
    | none => rfl
    | some entry =>
        obtain ⟨-, inner, heq, -⟩ := markAt_eq_some hroot hlaid hmark
        exact absurd (List.cons.inj (List.append_inj_right' heq rfl)).1 hmarker
  · intro heq
    have hlast : place ++ [name] = [] ++ [readmeFile] := List.append_cancel_left heq
    exact hreadme (List.cons.inj (List.append_inj_right' hlast rfl)).1

include hempty

theorem Completed.markerAt (place : Place) :
    after.get? (pathNames base.home root ++ (place ++ [markerFile])) =
      markAt base.home site.context (pathNames base.home root ++ (place ++ [markerFile])) := by
  obtain ⟨readme, hget⟩ := hcompleted.get?
  rw [hget, if_neg, get?_marker hroot hempty hlaid, Option.or_none]
  intro heq
  have hlast : place ++ [markerFile] = [] ++ [readmeFile] := List.append_cancel_left heq
  exact absurd (List.append_inj_right' hlast rfl) (by decide)

theorem Completed.directory_iff {place : Place} (hne : place ≠ []) :
    after.get? (pathNames base.home root ++ place) = some .directory ↔
      ∃ home, Occurs loads home ∧ place <+: names home := by
  constructor
  · intro hdirectory
    obtain ⟨readme, hget⟩ := hcompleted.get?
    rw [hget] at hdirectory
    split at hdirectory
    · simp at hdirectory
    · cases hmark : markAt base.home site.context (pathNames base.home root ++ place) with
      | some entry =>
          obtain ⟨⟨content, rfl⟩, -⟩ := markAt_eq_some hroot hlaid hmark
          simp [hmark] at hdirectory
      | none =>
          rw [hmark, Option.none_or] at hdirectory
          rcases laid_inside hroot hempty hlaid hne hdirectory with
            ⟨c, hc, rfl⟩ | ⟨c, hc, hinner, -⟩
          · have hstub := hlaid.stubs c hc
            rw [stubAt_eq hroot, hdirectory] at hstub
            simp at hstub
          · exact ⟨c.home, exists_contribution_iff.mp ⟨c, hc, rfl⟩, hinner⟩
  · rintro ⟨home, hoccurs, hinner⟩
    obtain ⟨front, name, rfl⟩ := (List.eq_nil_or_concat place).resolve_left hne
    rw [List.concat_eq_append] at hinner ⊢
    have hdot : '.' ∉ name.toList :=
      dot_not_mem_of_mem_names hoccurs.accepted (hinner.subset (by simp))
    obtain ⟨c, hc, rfl⟩ := exists_contribution_iff.mpr hoccurs
    rw [hcompleted.laidAt hroot hlaid front]
    · refine hlaid.ways c hc _ ((mem_way hroot hoccurs.accepted).mpr ⟨by simp, ?_⟩)
      exact (List.prefix_append_right_inj _).mpr hinner
    · rintro rfl
      exact hdot (by decide)
    · rintro rfl
      exact hdot (by decide)

/-- Only the directory of a namespace holds a stub file. -/
theorem Completed.stubAt_eq_none (place : Place)
    (hbare : ∀ home, Occurs loads home → names home ≠ place) :
    after.get? (pathNames base.home root ++ (place ++ [stubFile])) = none := by
  rw [hcompleted.laidAt hroot hlaid place (by decide) (by decide)]
  refine get?_dotted hroot hempty hlaid (by decide) fun c hc heq => ?_
  exact hbare c.home (exists_contribution_iff.mp ⟨c, hc, rfl⟩) (List.append_inj_left' heq rfl).symm

/-- The directory of a namespace holds its stub file and no marker. -/
theorem Completed.stubbed {home : String} (hoccurs : Occurs loads home) :
    (∃ content, after.get? (pathNames base.home root ++ (names home ++ [stubFile])) =
        some (.file content)) ∧
      after.get? (pathNames base.home root ++ (names home ++ [markerFile])) = none := by
  constructor
  · obtain ⟨c, hc, rfl⟩ := exists_contribution_iff.mpr hoccurs
    have hstub := hlaid.stubs c hc
    rw [stubAt_eq hroot] at hstub
    rw [hcompleted.laidAt hroot hlaid _ (by decide) (by decide)]
    exact ⟨_, hstub⟩
  · rw [hcompleted.markerAt hroot hempty hlaid]
    refine Option.eq_none_iff_forall_ne_some.mpr fun entry hmark => ?_
    obtain ⟨-, inner, heq, hinner⟩ := markAt_eq_some hroot hlaid hmark
    have hsame : names home = inner := List.append_inj_left' heq rfl
    cases hinner with
    | inl hnil => exact names_ne_nil hoccurs.accepted (hsame.trans hnil)
    | inr hbetween => exact hbetween.bare home ((mem_touched hlaid).mpr hoccurs) hsame

theorem Completed.isPackage : IsPackage root loads after := by
  have hdirectory {place : Place} (hne : place ≠ []) :=
    hcompleted.directory_iff hroot hempty hlaid hne
  refine ⟨?_, ?_, ?_, ?_⟩ <;> rw [hcompleted.home]
  · exact fun place => hdirectory
  · intro home hoccurs
    rw [List.append_assoc, List.append_assoc]
    exact hcompleted.stubbed hroot hempty hlaid hoccurs
  · intro place hne hthere hbare
    rw [List.append_assoc, List.append_assoc]
    refine ⟨?_, hcompleted.stubAt_eq_none hroot hempty hlaid place hbare⟩
    obtain ⟨home, hoccurs, hinner⟩ := (hdirectory hne).mp hthere
    rw [hcompleted.markerAt hroot hempty hlaid]
    exact markAt_between hroot hlaid ⟨hne, ⟨home, (mem_touched hlaid).mpr hoccurs, hinner⟩,
      fun other hother => hbare other ((mem_touched hlaid).mp hother)⟩
  · refine ⟨?_, topLevel site.context, pairwise_topLevel _, fun name => ?_, ?_⟩
    · exact hcompleted.stubAt_eq_none hroot hempty hlaid [] fun home hoccurs =>
        names_ne_nil hoccurs.accepted
    · rw [mem_topLevel, hdirectory (by simp)]
      exact exists_congr fun home => and_congr_left fun _ => mem_touched hlaid
    · have hmarker := hcompleted.markerAt hroot hempty hlaid []
      rw [List.nil_append] at hmarker
      rw [hmarker, markAt_root hlaid]
      rfl

end Structure

theorem run_isPackage {sources : List Source} {root : String} {tree after : Tree}
    (hroot : IsOrdinaryRoot tree.home root) (hground : tree.Grounded) {report : Report}
    (hends : Job.Ends (run sources root) tree report after) :
    IsPackage root (loadsOf sources root tree) after := by
  obtain ⟨base, site, site', hempty, hprocess, hfinish, rfl⟩ := run_ends.mp hends
  obtain ⟨hable, hemptied⟩ := emptyRoot_ok hroot hground hempty
  obtain ⟨hlaid, -⟩ :=
    processFrom_ends (leads_of_emptyRoot hempty) (.nil root base) hprocess
  rw [List.nil_append, ← loadsOf_of_emptied hempty] at hlaid
  have hroot' : IsOrdinaryRoot base.home root := hemptied.home ▸ hroot
  have hcompleted :=
    finish_completes hroot' hemptied (hemptied.home ▸ hable.names) hlaid hfinish
  exact hcompleted.isPackage hroot' hemptied hlaid

/-- A run that succeeds leaves a package, and after any contributions that have succeeded the
package can be finished; finishing it twice is as good as once. -/
theorem run_leaves_package {root : String} {tree : Tree} (hroot : IsOrdinaryRoot tree.home root)
    (hground : tree.Grounded) :
    (∀ sources report, (run sources root tree).result = .ok report →
        IsPackage root (loadsOf sources root tree) (run sources root tree).state) ∧
      ∀ base site, emptyRoot root tree = .ok () base → Appended root base site →
        site.context.touched ≠ [] →
          ∃ final again, Job.Ends finalize site () final ∧ Job.Ends finalize final () again ∧
            Tree.Same again.tree final.tree := by
  refine ⟨fun sources report hok => run_isPackage hroot hground ⟨hok, rfl⟩,
    fun base site hempty happended hsome => ?_⟩
  obtain ⟨hable, hemptied⟩ := emptyRoot_ok hroot hground hempty
  obtain ⟨cs, hlaid⟩ := happended.laid (leads_of_emptyRoot hempty)
  exact finalize_succeeds (hemptied.home ▸ hroot) hemptied (hemptied.home ▸ hable.names) hlaid
    hsome

/-- The type of a namespace within another. -/
def leafTypes : List Metadata.TypeInfo :=
  [{ name := "Leaf", kind := .reference, home := some "Shop.Stock.Bin" }]

/-- A namespace within another, which comes later, and a namespace with nothing to write. -/
def nestedSources : List Source :=
  [.fixed "a" leafTypes,
    .fixed "b"
      [{ name := "Shelf", kind := .reference, home := some "Shop" },
        { name := "Raw", kind := .unsupported, home := some "Attic" }]]

theorem run_leaves_package_of_nested :
    (run nestedSources "out" (.empty "/w")).result = .ok ⟨"/w/out", 2, 0, 3, 2⟩ ∧
      IsPackage "out" (loadsOf nestedSources "out" (.empty "/w"))
        (run nestedSources "out" (.empty "/w")).state ∧
      ∃ base site final again, emptyRoot "/w/out" (.empty "/w") = .ok () base ∧
        Job.Ends (append "Shop.Stock.Bin" "a" leafTypes) ⟨base, { root := "/w/out" }⟩ 1 site ∧
        Job.Ends finalize site () final ∧ Job.Ends finalize final () again ∧
        Tree.Same again.tree final.tree := by
  have hroot : IsOrdinaryRoot "/w" "out" := ⟨by decide, by decide⟩
  have habsolute : IsOrdinaryRoot "/w" "/w/out" := ⟨by decide, by decide⟩
  have hground : (Tree.empty "/w").Grounded := Tree.grounded_of_entries (by decide)
  have hok : (run nestedSources "out" (.empty "/w")).result = .ok ⟨"/w/out", 2, 0, 3, 2⟩ := by
    decide +kernel
  have hempty : emptyRoot "/w/out" (.empty "/w") = .ok () ⟨"/w", [(["out"], .directory)]⟩ := rfl
  have hends : Job.Ends (append "Shop.Stock.Bin" "a" leafTypes)
      ⟨⟨"/w", [(["out"], .directory)]⟩, { root := "/w/out" }⟩ 1 _ := ⟨by decide +kernel, rfl⟩
  obtain ⟨final, again, hfinal, hagain, hsame⟩ := (run_leaves_package habsolute hground).2 _ _
    hempty (.append .none (by decide +kernel) hends) (by decide +kernel)
  exact ⟨hok, (run_leaves_package hroot hground).1 nestedSources _ hok,
    _, _, final, again, hempty, hends, hfinal, hagain, hsame⟩

end StubTree.Package
