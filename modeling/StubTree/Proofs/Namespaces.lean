import StubTree.Namespace
import StubTree.Proofs.Access

/-!
Where accepted namespaces are laid out. The segments of an accepted namespace
are plain names without dots, so its directory is the root followed by exactly
these segments, and a stub file never stands where another namespace needs a
directory. Whether a namespace fits can be said of the tree before anything is
written, so it does not depend on what is written first.
-/

namespace StubTree.Namespace

open Files

theorem segmentRejection?_eq_none {segment : String} :
    segmentRejection? segment = none ↔
      Text.isBlank segment = false ∧ ∀ c ∈ segment.toList, isSeparator c = false := by
  simp only [segmentRejection?]
  cases hblank : Text.isBlank segment <;> simp

theorem rejection?_eq_none {home : String} :
    rejection? home = none ↔
      ∀ segment ∈ Text.segments '.' home, segmentRejection? segment = none :=
  List.findSome?_eq_none_iff

section Accepted

variable {home : String} (h : rejection? home = none)
include h

theorem names_eq_segments : names home = Text.segments '.' home := by
  apply List.filter_eq_self.mpr
  intro segment hsegment
  obtain ⟨hblank, -⟩ := segmentRejection?_eq_none.mp (rejection?_eq_none.mp h segment hsegment)
  cases hempty : segment.isEmpty with
  | false => rfl
  | true =>
      rw [String.isEmpty_iff.mp hempty] at hblank
      exact absurd hblank (by decide)

theorem names_ne_nil : names home ≠ [] := by
  rw [names_eq_segments h]
  exact Text.segments_ne_nil '.' home

theorem dot_not_mem_of_mem_names {name : String} (hname : name ∈ names home) :
    '.' ∉ name.toList := by
  rw [names_eq_segments h] at hname
  exact Text.not_mem_of_mem_segments hname

theorem isPlainName_of_mem_names {name : String} (hname : name ∈ names home) :
    IsPlainName name := by
  have hdot := dot_not_mem_of_mem_names h hname
  rw [names_eq_segments h] at hname
  obtain ⟨hblank, hseparator⟩ :=
    segmentRejection?_eq_none.mp (rejection?_eq_none.mp h name hname)
  refine ⟨?_, ?_, ?_⟩
  · simp only [isIdle, Bool.or_eq_false_iff, decide_eq_false_iff_not]
    constructor
    · rintro rfl
      exact absurd hblank (by decide)
    · rintro rfl
      exact hdot (by decide)
  · rintro rfl
    exact hdot (by decide)
  · intro hslash
    exact absurd (hseparator '/' hslash) (by decide)

theorem segments_directory (root : String) :
    Text.segments '/' (directory root home) = trunk root ++ names home :=
  segments_foldl_join root (fun _ => isPlainName_of_mem_names h) (names_ne_nil h)

theorem directory_ne_empty (root : String) : directory root home ≠ "" := by
  rcases List.eq_nil_or_concat (names home) with hnil | ⟨front, name, hconcat⟩
  · exact absurd hnil (names_ne_nil h)
  · have hname : name ∈ names home := by simp [hconcat]
    rw [directory, hconcat, List.concat_eq_append, List.foldl_append]
    exact join_ne_empty (isPlainName_of_mem_names h hname)

theorem isAbsolute_directory (root : String) :
    isAbsolute (directory root home) = isAbsolute root :=
  isAbsolute_foldl_join root fun _ => isPlainName_of_mem_names h

theorem namesIn_names : namesIn (names home) = names home :=
  namesIn_of_plain fun _ => isPlainName_of_mem_names h

theorem names_not_upwards : ".." ∉ names home := fun hmem =>
  (isPlainName_of_mem_names h hmem).not_upwards rfl

/-- The last name of a namespace is never a dot. -/
theorem endsInDot_names (front : List String) : Action.endsInDot (front ++ names home) = false := by
  obtain ⟨inner, name, hconcat⟩ :=
    (List.eq_nil_or_concat (names home)).resolve_left (names_ne_nil h)
  have hname := isPlainName_of_mem_names h (by simp [hconcat] : name ∈ names home)
  rw [hconcat, List.concat_eq_append, ← List.append_assoc]
  exact Action.endsInDot_concat hname

end Accepted

theorem names_injective {home home' : String} (h : rejection? home = none)
    (h' : rejection? home' = none) (heq : names home = names home') : home = home' := by
  rw [names_eq_segments h, names_eq_segments h'] at heq
  exact Text.segments_injective '.' heq

theorem isPlainName_stubFile : IsPlainName stubFile :=
  ⟨by decide, by decide, by decide⟩

/-- Where the stubs of a namespace are, seen from the root. -/
def stubPlace (home : String) : Place := names home ++ [stubFile]

theorem stubPlace_injective {home home' : String} (h : rejection? home = none)
    (h' : rejection? home' = none) (heq : stubPlace home = stubPlace home') : home = home' :=
  names_injective h h' (List.append_inj_left' heq rfl)

/-- A stub file has dots in its name, and a directory of a namespace has none. -/
theorem stubPlace_not_within {home home' : String} (h' : rejection? home' = none) :
    ¬ stubPlace home <+: names home' := by
  intro hwithin
  have hmem : stubFile ∈ names home' := hwithin.subset (by simp [stubPlace])
  exact dot_not_mem_of_mem_names h' hmem (by decide)

/-- An absolute root lies below the working directory. -/
def Leads (base root : String) : Prop :=
  isAbsolute root = true → Text.segments '/' base <+: Text.segments '/' root

theorem leads_of_reached {base root : String} (h : (fromHome base root (trunk root)).isSome) :
    Leads base root := by
  intro habs
  obtain ⟨segments, hsegments⟩ := exists_fromHome_segments h
  simp only [fromHome, habs, ↓reduceIte, List.isPrefixOf?_eq_some_iff_append_eq] at hsegments
  exact ⟨segments, hsegments⟩

/-- What is joined to a root that lies below the working directory stays behind it. -/
theorem fromHome_joined {base root path : String} {more segments : List String}
    (hleads : Leads base root) (habs : isAbsolute path = isAbsolute root) {first : String}
    {rest : List String} (hmore : more = first :: rest) (hfirst : first ≠ "") :
    fromHome base path (trunk root ++ more) = some segments ↔
      ∃ front, fromHome base root (trunk root) = some front ∧ segments = front ++ more := by
  simp only [fromHome, habs]
  cases hroot : isAbsolute root with
  | false => simp [eq_comm]
  | true =>
      simp only [↓reduceIte, List.isPrefixOf?_eq_some_iff_append_eq]
      constructor
      · intro heq
        have hwithin : Text.segments '/' base <+: trunk root := by
          cases segments_eq_trunk root with
          | inl htrunk => exact htrunk ▸ hleads hroot
          | inr htrunk =>
              have hlonger := htrunk ▸ hleads hroot
              cases List.prefix_concat_iff.mp hlonger with
              | inr hwithin => exact hwithin
              | inl hwhole =>
                  rw [hwhole, List.append_assoc, List.singleton_append, hmore] at heq
                  have hhead := List.append_cancel_left heq
                  exact absurd (List.cons.inj hhead).1.symm hfirst
        obtain ⟨front, hfront⟩ := hwithin
        refine ⟨front, hfront, ?_⟩
        rw [← hfront, List.append_assoc] at heq
        exact List.append_cancel_left heq
      · intro hfront
        obtain ⟨front, hfront, rfl⟩ := hfront
        rw [← List.append_assoc, hfront]

section Resolved

variable {tree : Tree} {root home : String} (hleads : Leads tree.home root)
  (haccepted : rejection? home = none) {segments : List String}
include hleads haccepted

theorem segmentsFrom_directory :
    tree.segmentsFrom (directory root home) = .ok segments ↔
      checkPath (directory root home) = .ok () ∧
        ∃ front, fromHome tree.home root (trunk root) = some front ∧
          segments = front ++ names home := by
  obtain ⟨first, rest, hnames⟩ := List.exists_cons_of_ne_nil (names_ne_nil haccepted)
  have hfirst : first ≠ "" :=
    (isPlainName_of_mem_names haccepted (by simp [hnames])).ne_empty
  rw [Tree.segmentsFrom_eq_ok, segments_directory haccepted,
    fromHome_joined hleads (isAbsolute_directory haccepted root) hnames hfirst]

theorem segmentsFrom_stubPath :
    tree.segmentsFrom (stubPath root home) = .ok segments ↔
      checkPath (stubPath root home) = .ok () ∧
        ∃ front, fromHome tree.home root (trunk root) = some front ∧
          segments = front ++ names home ++ [stubFile] := by
  obtain ⟨first, rest, hnames⟩ := List.exists_cons_of_ne_nil (names_ne_nil haccepted)
  have hfirst : first ≠ "" :=
    (isPlainName_of_mem_names haccepted (by simp [hnames])).ne_empty
  have habs : isAbsolute (stubPath root home) = isAbsolute root := by
    rw [stubPath, isAbsolute_join isPlainName_stubFile, isAbsolute_directory haccepted]
  have hmore : names home ++ [stubFile] = first :: (rest ++ [stubFile]) := by simp [hnames]
  rw [Tree.segmentsFrom_eq_ok, stubPath, segments_join _ isPlainName_stubFile, directory,
    trunk_foldl_join root fun _ => isPlainName_of_mem_names haccepted, List.append_assoc,
    ← directory, ← stubPath, fromHome_joined hleads habs hmore hfirst]
  simp only [List.append_assoc]

end Resolved

/-- Where the stubs of a namespace are below a root. -/
def stubAt (base : Tree) (root home : String) : Place :=
  walk [] (pathNames base.home root) ++ stubPlace home

/-- The places where a namespace needs directories. -/
def way (base : Tree) (root home : String) : List Place :=
  entered [] (pathNames base.home root ++ names home)

theorem stubAt_injective {base : Tree} {root home home' : String} (h : rejection? home = none)
    (h' : rejection? home' = none) (heq : stubAt base root home = stubAt base root home') :
    home = home' :=
  stubPlace_injective h h' (List.append_cancel_left heq)

theorem walk_way {base : Tree} {root home : String} (h : rejection? home = none) :
    walk [] (pathNames base.home root ++ names home) ++ [stubFile] = stubAt base root home := by
  rw [walk_append, walk_of_not_upwards _ (names_not_upwards h), stubAt, stubPlace,
    List.append_assoc]

/-- A stub file that is not in its own way is in the way of no namespace. -/
theorem stubAt_not_on_way {base : Tree} {root home home' : String}
    (hoff : stubAt base root home ∉ way base root home) (h' : rejection? home' = none) :
    stubAt base root home ∉ way base root home' := by
  intro hmem
  rw [way, entered_append] at hmem hoff
  cases List.mem_append.mp hmem with
  | inl hroot => exact hoff (List.mem_append_left _ hroot)
  | inr hbelow =>
      obtain ⟨inner, -, hinner, heq⟩ :=
        (mem_entered_of_not_upwards (names_not_upwards h')).mp hbelow
      rw [stubAt] at heq
      exact stubPlace_not_within h' (List.append_cancel_left heq ▸ hinner)

/-- Whatever a namespace needs for its stubs to be written below a root in a tree. -/
structure Fits (base : Tree) (root home : String) : Prop where
  accepted : rejection? home = none
  path : checkPath (stubPath root home) = .ok ()
  reached : (fromHome base.home root (trunk root)).isSome
  names : Tree.NamesFit (pathNames base.home root ++ names home)
  free : ∀ p ∈ way base root home, ∀ content, base.get? p ≠ some (.file content)
  apart : base.get? (stubAt base root home) ≠ some .directory
  off : stubAt base root home ∉ way base root home

theorem namesFit_stub {base : Tree} {root home : String} (h : Fits base root home) :
    Tree.NamesFit (pathNames base.home root ++ names home ++ [stubFile]) :=
  h.names.append (by simp [Tree.NamesFit]; decide)

theorem checkPath_directory {root home : String} (h : rejection? home = none)
    (hpath : checkPath (stubPath root home) = .ok ()) :
    checkPath (directory root home) = .ok () := by
  have hne := directory_ne_empty h root
  obtain ⟨slash, heq, -⟩ := join_eq_append hne isPlainName_stubFile
  rw [stubPath, heq] at hpath
  exact checkPath_of_append hne hpath

end StubTree.Namespace
