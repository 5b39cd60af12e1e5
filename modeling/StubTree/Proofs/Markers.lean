import StubTree.Proofs.Finishing

/-!
The markers of a package. Which directories are marked is read off the
namespaces and not off the tree: they are the directories on the way to a
namespace that are no namespace themselves. As long as the files can be written
at all, marking puts exactly these files there, and doing so again changes
nothing.
-/

namespace StubTree.Package

open Files Namespace

/-- The names below the root of a directory on the way to a namespace, but of no namespace. -/
structure IsBetween (touched inner : List String) : Prop where
  ne_nil : inner ≠ []
  within : ∃ home ∈ touched, inner <+: names home
  bare : ∀ home ∈ touched, names home ≠ inner

section Between

variable {context : Context} (haccepted : ∀ home ∈ context.touched, rejection? home = none)
include haccepted

theorem IsBetween.plain {inner : List String} (h : IsBetween context.touched inner) :
    ∀ name ∈ inner, IsPlainName name := by
  obtain ⟨home, hhome, hinner⟩ := h.within
  exact fun name hname => isPlainName_of_mem_names (haccepted home hhome) (hinner.subset hname)

theorem mem_markedDirectories_iff {directory : String} :
    directory ∈ markedDirectories context ↔
      ∃ inner, IsBetween context.touched inner ∧ directory = inner.foldl join context.root := by
  have hstubbed (inner : List String)
      (hplain : ∀ name ∈ inner, IsPlainName name) :
      components (inner.foldl join context.root) ∈ context.touched.map (fun home =>
        components (Namespace.directory context.root home)) ↔
      ∃ home ∈ context.touched, names home = inner := by
    simp only [List.mem_map]
    refine exists_congr fun home => and_congr_right fun hhome => ?_
    have haccept := haccepted home hhome
    rw [Namespace.directory, components_foldl_join _ hplain,
      components_foldl_join _ fun _ => isPlainName_of_mem_names haccept,
      List.append_cancel_left_eq]
  simp only [markedDirectories, List.mem_mergeSort, List.mem_filter, Text.mem_distinct,
    List.mem_flatMap, mem_directoriesFrom, Bool.not_eq_true', Bool.eq_false_iff, ne_eq,
    List.contains_iff_mem]
  constructor
  · rintro ⟨⟨home, hhome, inner, hne, hinner, rfl⟩, hbare⟩
    have hplain := fun name (hname : name ∈ inner) =>
      isPlainName_of_mem_names (haccepted home hhome) (hinner.subset hname)
    rw [hstubbed inner hplain] at hbare
    exact ⟨inner, ⟨hne, ⟨home, hhome, hinner⟩, fun other hother heq => hbare ⟨other, hother, heq⟩⟩,
      rfl⟩
  · rintro ⟨inner, hbetween, rfl⟩
    obtain ⟨home, hhome, hinner⟩ := hbetween.within
    refine ⟨⟨home, hhome, inner, hbetween.ne_nil, hinner, rfl⟩, ?_⟩
    rw [hstubbed inner (hbetween.plain haccepted)]
    rintro ⟨other, hother, heq⟩
    exact hbetween.bare other hother heq

end Between

/-- A file of this name can be written in the directory. -/
structure IsOpen (tree : Tree) (directory name : String) : Prop where
  reached : (fromHome tree.home directory (trunk directory)).isSome
  not_upwards : ".." ∉ pathNames tree.home directory
  path : checkPath (join directory name) = .ok ()
  names : Tree.NamesFit (pathNames tree.home directory ++ [name])
  entered : ∀ place, place <+: pathNames tree.home directory → tree.get? place = some .directory
  free : tree.get? (pathNames tree.home directory ++ [name]) ≠ some .directory

section Writing

variable {tree : Tree} {directory name : String}

theorem IsOpen.filePlace (h : IsOpen tree directory name) (hname : IsPlainName name) :
    tree.filePlace (join directory name) = .ok (pathNames tree.home directory ++ [name]) := by
  obtain ⟨front, hfront⟩ := Option.isSome_iff_exists.mp h.reached
  have hup := h.not_upwards
  have hnames := h.names
  rw [pathNames_of_front hfront] at hup hnames
  rw [← Tree.walk_front hfront h.not_upwards]
  refine Tree.filePlace_eq ((Tree.segmentsFrom_join hfront hname).mpr h.path) hname
    (fun place hplace => ?_) hnames ?_
  · obtain ⟨inner, -, hinner, rfl⟩ := (mem_entered_of_not_upwards hup).mp hplace
    refine h.entered _ ?_
    rwa [pathNames_of_front hfront]
  · rw [Tree.walk_front hfront h.not_upwards]
    exact h.free

/-- Writing where there is no directory leaves every other place open. -/
theorem IsOpen.put (h : IsOpen tree directory name) {place : Place} (hne : place ≠ [])
    (hplace : tree.get? place ≠ some .directory) (content : List UInt8) :
    IsOpen (tree.put place (.file content)) directory name := by
  refine ⟨h.reached, h.not_upwards, h.path, h.names, fun outer houter => ?_, ?_⟩
  · have hentered := h.entered outer houter
    rw [Tree.get?_put tree hne, if_neg, hentered]
    rintro rfl
    exact hplace hentered
  · rw [Tree.get?_put tree hne]
    split
    · simp
    · exact h.free

theorem write_open (site : Site) (h : IsOpen site.tree directory name) (hname : IsPlainName name)
    (content : List UInt8) :
    Job.Ends (Site.onFiles (Action.write (join directory name) content)) site ()
      { site with
        tree := site.tree.put (pathNames site.tree.home directory ++ [name]) (.file content) } :=
  Site.ends_onFiles.mpr ⟨_, Action.write_eq_ok.mpr ⟨_, h.filePlace hname, rfl⟩, rfl⟩

end Writing

def markerPlace (home directory : String) : Place := pathNames home directory ++ [markerFile]

theorem markerPlace_ne_nil (home directory : String) : markerPlace home directory ≠ [] := by
  simp [markerPlace]

theorem markers_open {directories : List String} {site : Site}
    (hopen : ∀ d ∈ directories, IsOpen site.tree d markerFile) :
    ∃ tree, Job.Ends (directories.forM fun d => Site.onFiles (Action.write (join d markerFile) []))
        site () { site with tree := tree } ∧
      (∀ d, IsOpen site.tree d markerFile → IsOpen tree d markerFile) ∧
      tree.home = site.tree.home ∧
      ∀ place, tree.get? place =
        if place ∈ directories.map (markerPlace site.tree.home) then some (.file [])
        else site.tree.get? place := by
  induction directories generalizing site with
  | nil => exact ⟨site.tree, Job.ends_pure.mpr ⟨rfl, rfl⟩, fun _ => id, rfl, by simp⟩
  | cons directory rest ih =>
      have hhere := hopen directory List.mem_cons_self
      have hstays : ∀ d, IsOpen site.tree d markerFile →
          IsOpen (site.tree.put (markerPlace site.tree.home directory) (.file [])) d markerFile :=
        fun d hd => hd.put (markerPlace_ne_nil _ directory) hhere.free []
      obtain ⟨tree, hends, hopen', hhome, hget⟩ :=
        @ih { site with tree := site.tree.put (markerPlace site.tree.home directory) (.file []) }
          fun d hd => hstays d (hopen d (List.mem_cons_of_mem _ hd))
      have hwrite := write_open site hhere isPlainName_markerFile []
      refine ⟨tree, Job.ends_bind.mpr ⟨_, _, hwrite, hends⟩,
        fun d hd => hopen' d (hstays d hd), hhome, fun place => ?_⟩
      rw [hget, Tree.get?_put _ (markerPlace_ne_nil _ directory)]
      simp only [List.map_cons, List.mem_cons]
      by_cases hplace : place = markerPlace site.tree.home directory
      · simp [hplace]
      · simp [hplace]

/-- The file that marks a place, if it is marked. -/
def markAt (home : String) (context : Context) (place : Place) : Option Entry :=
  if place = markerPlace home context.root then some (.file (bytes (rootMarkerText context)))
  else if place ∈ (markedDirectories context).map (markerPlace home) then some (.file [])
  else none

/-- A tree is another with the marks of a package. -/
structure Marked (context : Context) (tree tree' : Tree) : Prop where
  home : tree'.home = tree.home
  get? : ∀ place, tree'.get? place = (markAt tree.home context place).or (tree.get? place)

/-- All the marks of a package can be written. -/
structure Markable (context : Context) (tree : Tree) : Prop where
  root : IsOpen tree context.root markerFile
  between : ∀ d ∈ markedDirectories context, IsOpen tree d markerFile

theorem finalize_ends (site : Site) (h : Markable site.context site.tree) :
    ∃ tree, Job.Ends finalize site () { site with tree := tree } ∧
      Marked site.context site.tree tree ∧ Markable site.context tree := by
  obtain ⟨tree, hends, hopen, hhome, hget⟩ := markers_open h.between
  have hroot := hopen _ h.root
  have hlast := write_open { site with tree := tree } hroot isPlainName_markerFile
    (bytes (rootMarkerText site.context))
  have hstays : ∀ d, IsOpen tree d markerFile → IsOpen
      (tree.put (markerPlace tree.home site.context.root)
        (.file (bytes (rootMarkerText site.context)))) d markerFile :=
    fun d hd => hd.put (markerPlace_ne_nil _ _) hroot.free _
  refine ⟨tree.put (markerPlace tree.home site.context.root)
      (.file (bytes (rootMarkerText site.context))),
    ?_, ⟨hhome, fun place => ?_⟩, hstays _ hroot,
    fun d hd => hstays d (hopen d (h.between d hd))⟩
  · simp only [finalize, Job.ends_bind, Job.ends_get]
    exact ⟨_, _, ⟨rfl, rfl⟩, (), _, hends, hlast⟩
  · rw [Tree.get?_put tree (markerPlace_ne_nil _ _), hhome, hget, markAt]
    split
    · rfl
    · split <;> rfl

/-- Marking again changes nothing. -/
theorem Marked.twice {context : Context} {tree once again : Tree} (h : Marked context tree once)
    (h' : Marked context once again) : Tree.Same again once := by
  refine ⟨h'.home, ?_⟩
  funext place
  rw [h'.get?, h.get?, h.home]
  cases markAt tree.home context place <;> rfl

theorem mem_topLevel {context : Context} {name : String} :
    name ∈ topLevel context ↔ ∃ home ∈ context.touched, [name] <+: names home := by
  have hfold (xs : List String) : name ∈ xs.foldr Text.insertSorted [] ↔ name ∈ xs := by
    induction xs with
    | nil => simp
    | cons x rest ih => rw [List.foldr_cons, Text.mem_insertSorted, ih, List.mem_cons]
  rw [topLevel, hfold, List.mem_filterMap]
  refine exists_congr fun home => and_congr_right fun _ => ?_
  cases names home with
  | nil => simp
  | cons first rest => simp [List.cons_prefix_cons, eq_comm]

theorem pairwise_topLevel (context : Context) : (topLevel context).Pairwise (· < ·) := by
  rw [topLevel]
  induction context.touched.filterMap fun home => (names home).head? with
  | nil => exact List.Pairwise.nil
  | cons name rest ih => exact Text.pairwise_insertSorted ih

end StubTree.Package
