import StubTree.Proofs.Markers

/-!
Where accepted namespaces are laid out, seen on paths alone. A directory is the
root followed by the segments of its namespace, so directories stand to one
another as the lists of segments do; and since no segment has a dot, none of
the files of a package ever stands where a namespace has a directory or above.
-/

namespace StubTree.Package

open Files Namespace

/-- The names of the files that a package is made of. -/
def fileNames : List String := [stubFile, markerFile, readmeFile]

/-- All files that are written for the namespaces of a package and for the package itself. -/
def filesOf (context : Context) : List String :=
  context.touched.map (stubPath context.root) ++
    (markedDirectories context).map (join · markerFile) ++
    [join context.root markerFile, join context.root readmeFile]

section Placement

variable {home home' : String}

theorem components_directory (h : rejection? home = none) (root : String) :
    components (directory root home) = components root ++ Text.segments '.' home := by
  rw [directory, components_foldl_join root fun _ => isPlainName_of_mem_names h,
    names_eq_segments h]

theorem isPlainName_of_mem_fileNames {name : String} (h : name ∈ fileNames) :
    IsPlainName name := by
  simp only [fileNames, List.mem_cons, List.not_mem_nil, or_false] at h
  rcases h with rfl | rfl | rfl
  · exact isPlainName_stubFile
  · exact isPlainName_markerFile
  · exact isPlainName_readmeFile

theorem dot_mem_of_mem_fileNames {name : String} (h : name ∈ fileNames) : '.' ∈ name.toList := by
  have hall : ∀ name ∈ fileNames, '.' ∈ name.toList := by decide
  exact hall name h

/-- Every file is a directory of the package, or its root, with a name of a file added. -/
theorem components_of_mem_filesOf {context : Context}
    (haccepted : ∀ home ∈ context.touched, rejection? home = none) {file : String}
    (hfile : file ∈ filesOf context) :
    ∃ inner, ∃ name ∈ fileNames, components file = components context.root ++ inner ++ [name] := by
  have hjoined {inner : List String} {name : String} (hinner : ∀ n ∈ inner, IsPlainName n)
      (hname : name ∈ fileNames) : ∃ inner', ∃ name' ∈ fileNames,
        components (join (inner.foldl join context.root) name) =
          components context.root ++ inner' ++ [name'] := by
    refine ⟨inner, name, hname, ?_⟩
    rw [components_join _ (isPlainName_of_mem_fileNames hname), components_foldl_join _ hinner]
  simp only [filesOf, List.mem_append, List.mem_map, List.mem_cons, List.not_mem_nil,
    or_false] at hfile
  rcases hfile with (⟨home, hhome, rfl⟩ | ⟨d, hd, rfl⟩) | rfl | rfl
  · exact hjoined (fun _ => isPlainName_of_mem_names (haccepted home hhome)) (by decide)
  · obtain ⟨inner, hbetween, rfl⟩ := (mem_markedDirectories_iff haccepted).mp hd
    exact hjoined (hbetween.plain haccepted) (by decide)
  · exact @hjoined [] _ (by simp) (by decide)
  · exact @hjoined [] _ (by simp) (by decide)

/-- Accepted namespaces are laid out below the root in the order of their segments, and out of the
way of every file of a package. -/
theorem namespaces_laid_out (root : String) (h : rejection? home = none)
    (h' : rejection? home' = none) (hne : home ≠ home') :
    components (directory root home) = components root ++ Text.segments '.' home ∧
    StrictlyAbove (components root) (components (directory root home)) ∧
    components (directory root home) ≠ components (directory root home') ∧
    (StrictlyAbove (components (directory root home)) (components (directory root home')) ↔
      StrictlyAbove (Text.segments '.' home) (Text.segments '.' home')) ∧
    (∀ segment ∈ Text.segments '.' home, segment ∉ fileNames) ∧
    ∀ context : Context, context.root = root →
      (∀ touched ∈ context.touched, rejection? touched = none) →
      ∀ file ∈ filesOf context, ∀ d ∈ directoriesFrom root (names home),
        ¬components file <+: components d := by
  have hdirectory := components_directory h root
  have hdirectory' := components_directory h' root
  have hdot {segment : String} (hsegment : segment ∈ Text.segments '.' home) :
      '.' ∉ segment.toList := Text.not_mem_of_mem_segments hsegment
  refine ⟨hdirectory, ?_, ?_, ?_, fun segment hsegment hname => ?_, ?_⟩
  · rw [hdirectory]
    exact strictlyAbove_append (Text.segments_ne_nil '.' home)
  · rw [hdirectory, hdirectory', ne_eq, List.append_cancel_left_eq]
    exact fun heq => hne (Text.segments_injective '.' heq)
  · rw [hdirectory, hdirectory', strictlyAbove_append_left]
  · exact hdot hsegment (dot_mem_of_mem_fileNames hname)
  · rintro context rfl haccepted file hfile d hd hwithin
    obtain ⟨inner, name, hname, hcomponents⟩ := components_of_mem_filesOf haccepted hfile
    obtain ⟨outer, -, houter, rfl⟩ := mem_directoriesFrom.mp hd
    rw [names_eq_segments h] at houter
    have hplain : ∀ n ∈ outer, IsPlainName n := fun n hn =>
      isPlainName_of_mem_names h (names_eq_segments h ▸ houter.subset hn)
    -- The name of the file would have to be a segment of the namespace.
    rw [hcomponents, components_foldl_join _ hplain, List.append_assoc,
      List.prefix_append_right_inj] at hwithin
    exact hdot (houter.subset (hwithin.subset (by simp))) (dot_mem_of_mem_fileNames hname)

theorem game_laid_out :
    components (directory "out/" "Game") = ["out", "Game"] ∧
    StrictlyAbove (components (directory "out/" "Game"))
      (components (directory "out/" "Game.UI")) ∧
    ¬components "out/__init__.py" <+: components "out/Game" := by
  obtain ⟨hdirectory, -, -, habove, -, hfiles⟩ :=
    @namespaces_laid_out "Game" "Game.UI" "out/" (by decide) (by decide) (by decide)
  refine ⟨hdirectory.trans (by decide), habove.mpr (by decide), ?_⟩
  exact hfiles { root := "out/", touched := ["Game.UI"] } rfl (by decide) _
    (List.mem_append_right _ (by decide)) _ (by decide)

end Placement

end StubTree.Package
