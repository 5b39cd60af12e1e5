import StubTree.Proofs.Runs

/-!
The last steps of a run. Finishing a package writes markers and the readme and
leaves everything else as it is; a run that succeeds has emptied the root,
processed all sources and finished the package.
-/

namespace StubTree.Package

open Files Namespace

theorem isPlainName_markerFile : IsPlainName markerFile := ⟨by decide, by decide, by decide⟩

theorem isPlainName_readmeFile : IsPlainName readmeFile := ⟨by decide, by decide, by decide⟩

/-- A file that belongs to a package without being a stub. -/
def IsExtra (outer place : Place) : Prop :=
  (∃ inner, place = outer ++ (inner ++ [markerFile])) ∨ place = outer ++ [readmeFile]

/-- Only extra files have been written. -/
structure Finished (outer : Place) (tree tree' : Tree) : Prop where
  home : tree'.home = tree.home
  kept : ∀ place, tree.get? place = some .directory → tree'.get? place = some .directory
  get? : ∀ place, tree'.get? place = tree.get? place ∨
    IsExtra outer place ∧ ∃ content, tree'.get? place = some (.file content)

theorem Finished.refl (outer : Place) (tree : Tree) : Finished outer tree tree :=
  ⟨rfl, fun _ => id, fun _ => .inl rfl⟩

theorem Finished.trans {outer : Place} {tree middle tree' : Tree}
    (h : Finished outer tree middle) (h' : Finished outer middle tree') :
    Finished outer tree tree' := by
  refine ⟨h'.home.trans h.home, fun place => h'.kept place ∘ h.kept place, fun place => ?_⟩
  rcases h'.get? place with hsame | hwritten
  · rw [hsame]
    exact h.get? place
  · exact .inr hwritten

/-- What is no extra file is as before. -/
theorem Finished.unchanged {outer : Place} {tree tree' : Tree} (h : Finished outer tree tree')
    {place : Place} (hplace : ¬ IsExtra outer place) : tree'.get? place = tree.get? place := by
  rcases h.get? place with hsame | ⟨hextra, -⟩
  · exact hsame
  · exact absurd hextra hplace

theorem not_upwards_of_plain {names : List String} (h : ∀ name ∈ names, IsPlainName name) :
    ".." ∉ names := fun hup => (h _ hup).not_upwards rfl

/-- In a directory below an ordinary root a file is where its names lead. -/
theorem filePlace_below {root name : String} {inner : List String} {tree : Tree} {place : Place}
    (hroot : IsOrdinaryRoot tree.home root) (hplain : ∀ n ∈ inner, IsPlainName n)
    (hname : IsPlainName name)
    (hplace : tree.filePlace (join (inner.foldl join root) name) = .ok place) :
    place = pathNames tree.home root ++ (inner ++ [name]) ∧
      tree.get? place ≠ some .directory := by
  obtain ⟨front, hfront⟩ := Option.isSome_iff_exists.mp hroot.reached
  have hnames := pathNames_foldl_join hplain hroot.reached
  have hup : ".." ∉ pathNames tree.home (inner.foldl join root) := by
    rw [hnames, List.mem_append, not_or]
    exact ⟨hroot.not_upwards, not_upwards_of_plain hplain⟩
  obtain ⟨rfl, hfree⟩ :=
    Tree.filePlace_join (fromHome_foldl_join hplain hfront) hname hup hplace
  exact ⟨by rw [hnames, List.append_assoc], hfree⟩

section Finish

variable {root : String} {site site' : Site}

theorem write_ends {inner : List String} {name : String}
    (hroot : IsOrdinaryRoot site.tree.home root) (hplain : ∀ n ∈ inner, IsPlainName n)
    (hname : IsPlainName name)
    (hextra : IsExtra (pathNames site.tree.home root)
      (pathNames site.tree.home root ++ (inner ++ [name])))
    {content : List UInt8} {u : Unit}
    (hends : Job.Ends (Site.onFiles (Action.write (join (inner.foldl join root) name) content))
      site u site') :
    Finished (pathNames site.tree.home root) site.tree site'.tree ∧
      site'.context = site.context := by
  obtain ⟨tree, hwrite, rfl⟩ := Site.ends_onFiles.mp hends
  obtain ⟨place, hplace, rfl⟩ := Action.write_eq_ok.mp hwrite
  obtain ⟨rfl, hfree⟩ := filePlace_below hroot hplain hname hplace
  have hne : pathNames site.tree.home root ++ (inner ++ [name]) ≠ [] := by simp
  refine ⟨⟨rfl, fun place hkept => ?_, fun place => ?_⟩, rfl⟩
  · rw [Tree.get?_put _ hne, if_neg, hkept]
    rintro rfl
    exact hfree hkept
  · rw [Tree.get?_put _ hne]
    split
    · rename_i heq
      exact .inr ⟨heq ▸ hextra, content, rfl⟩
    · exact .inl rfl

theorem mem_directoriesFrom {base directory : String} {names : List String} :
    directory ∈ directoriesFrom base names ↔
      ∃ inner, inner ≠ [] ∧ inner <+: names ∧ directory = inner.foldl join base := by
  induction names generalizing base with
  | nil =>
      simp only [directoriesFrom, List.not_mem_nil, List.prefix_nil, false_iff]
      rintro ⟨inner, hne, hnil, -⟩
      exact hne hnil
  | cons name rest ih =>
      simp only [directoriesFrom, List.mem_cons, ih]
      constructor
      · rintro (rfl | ⟨inner, -, hinner, rfl⟩)
        · exact ⟨[name], by simp, by simp, rfl⟩
        · exact ⟨name :: inner, by simp, List.cons_prefix_cons.mpr ⟨rfl, hinner⟩, rfl⟩
      · rintro ⟨inner, hne, hinner, rfl⟩
        cases inner with
        | nil => exact absurd rfl hne
        | cons first more =>
            obtain ⟨rfl, hmore⟩ := List.cons_prefix_cons.mp hinner
            by_cases hnil : more = []
            · exact .inl (by rw [hnil]; rfl)
            · exact .inr ⟨more, hnil, hmore, rfl⟩

/-- A marked directory is one below the root. -/
theorem mem_markedDirectories {context : Context}
    (haccepted : ∀ home ∈ context.touched, rejection? home = none) {directory : String}
    (h : directory ∈ markedDirectories context) :
    ∃ inner : List String, (∀ name ∈ inner, IsPlainName name) ∧
      directory = inner.foldl join context.root := by
  simp only [markedDirectories, List.mem_mergeSort, List.mem_filter, Text.mem_distinct,
    List.mem_flatMap] at h
  obtain ⟨⟨home, hhome, hmem⟩, -⟩ := h
  obtain ⟨inner, -, hinner, rfl⟩ := mem_directoriesFrom.mp hmem
  exact ⟨inner, fun name hname =>
    isPlainName_of_mem_names (haccepted home hhome) (hinner.subset hname), rfl⟩

theorem markers_ends (hroot : IsOrdinaryRoot site.tree.home root) {directories : List String}
    {u : Unit}
    (hmarked : ∀ directory ∈ directories, ∃ inner : List String,
      (∀ name ∈ inner, IsPlainName name) ∧ directory = inner.foldl join root)
    (hends : Job.Ends (directories.forM fun d =>
      Site.onFiles (Action.write (join d markerFile) [])) site u site') :
    Finished (pathNames site.tree.home root) site.tree site'.tree ∧
      site'.context = site.context := by
  induction directories generalizing site with
  | nil =>
      obtain ⟨-, rfl⟩ := Job.ends_pure.mp hends
      exact ⟨.refl _ _, rfl⟩
  | cons directory rest ih =>
      obtain ⟨_, middle, hfirst, hrest⟩ := Job.ends_bind.mp hends
      obtain ⟨inner, hplain, rfl⟩ := hmarked directory List.mem_cons_self
      obtain ⟨hfinished, hsame⟩ :=
        write_ends hroot hplain isPlainName_markerFile (.inl ⟨inner, rfl⟩) hfirst
      obtain ⟨hfinished', hsame'⟩ := ih (hfinished.home ▸ hroot)
        (fun d hd => hmarked d (List.mem_cons_of_mem _ hd)) hrest
      rw [hfinished.home] at hfinished'
      exact ⟨hfinished.trans hfinished', hsame'.trans hsame⟩

theorem finish_ends (hroot : IsOrdinaryRoot site.tree.home root)
    (haccepted : ∀ home ∈ site.context.touched, rejection? home = none)
    (hcontext : site.context.root = root) {report : Report}
    (hends : Job.Ends finish site report site') :
    Finished (pathNames site.tree.home root) site.tree site'.tree := by
  subst hcontext
  simp only [finish, finalize, Job.ends_bind, Job.ends_get, Job.ends_pure] at hends
  obtain ⟨_, marked, ⟨_, _, ⟨rfl, rfl⟩, _, between, hmarkers, hmarker⟩, _, _, ⟨rfl, rfl⟩, _, _,
    hreadme, -, rfl⟩ := hends
  obtain ⟨hfirst, hsame⟩ :=
    markers_ends hroot (fun d hd => mem_markedDirectories haccepted hd) hmarkers
  obtain ⟨hsecond, hsame'⟩ := write_ends (hfirst.home ▸ hroot) plain_of_nil isPlainName_markerFile
    (.inl ⟨[], rfl⟩) hmarker
  rw [hsame', hsame] at hreadme
  have hhome := hsecond.home.trans hfirst.home
  obtain ⟨hthird, -⟩ :=
    write_ends (hhome ▸ hroot) plain_of_nil isPlainName_readmeFile (.inr rfl) hreadme
  rw [hfirst.home] at hsecond
  rw [hhome] at hthird
  exact (hfirst.trans hsecond).trans hthird

end Finish

theorem run_ends {sources : List Source} {root : String} {tree after : Tree} {report : Report} :
    Job.Ends (run sources root) tree report after ↔
      ∃ base site site', emptyRoot root tree = .ok () base ∧
        Job.Ends (processAll sources) ⟨base, { root := root }⟩ () site ∧
        Job.Ends finish site report site' ∧ site'.tree = after := by
  simp only [run, Job.ends_concluding, Job.ends_bind, reset, Job.ends_act, withNewPackage,
    Job.ends_focus]
  constructor
  · intro h
    obtain ⟨_, base, hempty, site', ⟨_, site, hprocess, hfinish⟩, rfl⟩ := h
    exact ⟨base, site, site', hempty, hprocess, hfinish, rfl⟩
  · intro h
    obtain ⟨base, site, site', hempty, hprocess, hfinish, rfl⟩ := h
    exact ⟨(), base, hempty, site', ⟨(), site, hprocess, hfinish⟩, rfl⟩

end StubTree.Package
