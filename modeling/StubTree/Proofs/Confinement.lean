import StubTree.Proofs.Filing
import StubTree.Proofs.Finishing
import StubTree.Proofs.Invariants

/-!
A run stays below its root. Whatever the types and namespaces of its sources
are called, and whether it succeeds or stops half-way, nothing outside the root
is changed and nothing is added there but the directories above the root.
-/

namespace StubTree.Package

open Files Namespace

/-- Outside the root a tree is as it was, apart from directories above the root that were
missing. -/
structure Confined (root : Place) (tree after : Tree) : Prop where
  home : after.home = tree.home
  kept : ∀ place entry, ¬ root <+: place → tree.get? place = some entry →
    after.get? place = some entry
  made : ∀ place entry, ¬ root <+: place → tree.get? place = none →
    after.get? place = some entry → place <+: root ∧ entry = .directory

theorem Confined.refl (root : Place) (tree : Tree) : Confined root tree tree := by
  refine ⟨rfl, fun _ _ _ hget => hget, fun place entry _ hnone hget => ?_⟩
  rw [hnone] at hget
  cases hget

theorem Confined.trans {root : Place} {tree middle after : Tree} (h : Confined root tree middle)
    (h' : Confined root middle after) : Confined root tree after := by
  refine ⟨h'.home.trans h.home,
    fun place entry hout hget => h'.kept place entry hout (h.kept place entry hout hget),
    fun place entry hout hnone hget => ?_⟩
  cases hmiddle : middle.get? place with
  | none => exact h'.made place entry hout hmiddle hget
  | some between =>
      -- What the first half has made stays until the end.
      have hstays := h'.kept place between hout hmiddle
      rw [hget] at hstays
      cases hstays
      exact h.made place entry hout hnone hmiddle

/-- What differs below the root at most is confined. -/
theorem confined_of_same {root : Place} {tree after : Tree} (hhome : after.home = tree.home)
    (h : ∀ place, ¬ root <+: place → after.get? place = tree.get? place) :
    Confined root tree after := by
  refine ⟨hhome, fun place entry hout hget => by rw [h place hout, hget],
    fun place entry hout hnone hget => ?_⟩
  rw [h place hout, hnone] at hget
  cases hget

theorem confined_put {root place : Place} (tree : Tree) (hne : place ≠ [])
    (hwithin : root <+: place) (entry : Entry) : Confined root tree (tree.put place entry) := by
  refine confined_of_same rfl fun other hout => ?_
  rw [Tree.get?_put tree hne, if_neg]
  rintro rfl
  exact hout hwithin

theorem confined_along {root : Place} {made : List Place} {tree after : Tree}
    (h : Tree.Along made tree after) (hmade : ∀ place ∈ made, place <+: root ∨ root <+: place) :
    Confined root tree after := by
  refine ⟨h.home, fun place entry _ hget => ?_, fun place entry hout hnone hget => ?_⟩
  · rw [h.get?]
    split
    · rename_i hplace
      cases entry with
      | directory => rfl
      | file content => exact absurd hget (h.free place hplace content)
    · exact hget
  · rw [h.get?] at hget
    split at hget
    · rename_i hplace
      exact ⟨(hmade place hplace).resolve_right hout, (Option.some.inj hget).symm⟩
    · rw [hnone] at hget
      cases hget

section Steps

variable {root : String} {tree : Tree} (hroot : IsOrdinaryRoot tree.home root)
include hroot

section Below

variable {inner : List String} (hplain : ∀ name ∈ inner, IsPlainName name)
include hplain

theorem createDirectories_confined :
    Confined (pathNames tree.home root) tree
      (Action.after (Action.createDirectories (inner.foldl join root)) tree) := by
  obtain ⟨made, halong, hmade⟩ := Action.createDirectories_after (inner.foldl join root) tree
  refine confined_along halong fun place hplace => ?_
  obtain ⟨segments, hok, hentered⟩ := hmade place hplace
  rw [Tree.namesIn_segmentsFrom hok, pathNames_foldl_join hplain hroot.reached] at hentered
  have hup : ".." ∉ pathNames tree.home root ++ inner := by
    rw [List.mem_append, not_or]
    exact ⟨hroot.not_upwards, not_upwards_of_plain hplain⟩
  obtain ⟨outer, -, houter, rfl⟩ := (mem_entered_of_not_upwards hup).mp hentered
  exact List.prefix_or_prefix_of_prefix houter (List.prefix_append _ _)

variable {name : String} (hname : IsPlainName name) (content : List UInt8)
include hname

theorem write_confined :
    Confined (pathNames tree.home root) tree
      (Action.after (Action.write (join (inner.foldl join root) name) content) tree) := by
  rcases Action.write_after (join (inner.foldl join root) name) content tree with
    hsame | ⟨place, hplace, hput⟩
  · rw [hsame]
    exact .refl _ tree
  · obtain ⟨rfl, -⟩ := filePlace_below hroot hplain hname hplace
    rw [hput]
    exact confined_put tree (by simp) (List.prefix_append _ _) _

theorem append_confined :
    Confined (pathNames tree.home root) tree
      (Action.after (Action.append (join (inner.foldl join root) name) content) tree) := by
  rcases Action.append_after (join (inner.foldl join root) name) content tree with
    hsame | ⟨place, hplace, hput⟩
  · rw [hsame]
    exact .refl _ tree
  · obtain ⟨rfl, -⟩ := filePlace_below hroot hplain hname hplace
    rw [hput]
    exact confined_put tree (by simp) (List.prefix_append _ _) _

end Below

theorem removeDirectory_confined :
    Confined (pathNames tree.home root) tree
      (Action.after (Action.removeDirectory root) tree) := by
  rcases Action.removeDirectory_after root tree with hsame | hgone
  · rw [hsame]
    exact .refl _ tree
  · rw [Tree.placeOf_of_not_upwards hroot.not_upwards] at hgone
    exact confined_of_same hgone.home hgone.outside

theorem emptyRoot_confined :
    Confined (pathNames tree.home root) tree (Action.after (emptyRoot root) tree) := by
  have hcreate {tree' : Tree} (hhome : tree'.home = tree.home) :
      Confined (pathNames tree.home root) tree'
        (Action.after (Action.createDirectories root) tree') := by
    rw [← hhome]
    exact createDirectories_confined (hhome ▸ hroot) plain_of_nil
  simp only [emptyRoot, Action.after_get_bind]
  split
  · have hremove := removeDirectory_confined hroot
    rcases Action.after_bind_cases (Action.removeDirectory root) _ tree with
      hstopped | ⟨u, -, hnext⟩
    · rwa [hstopped]
    · rw [hnext]
      exact hremove.trans (hcreate hremove.home)
  · exact hcreate rfl

end Steps

/-- What holds of a package in the making at any time during a run. -/
structure Staying (root : String) (base : Tree) (site : Site) : Prop where
  confined : Confined (pathNames base.home root) base site.tree
  root : site.context.root = root
  accepted : ∀ home ∈ site.context.touched, rejection? home = none

section Run

variable {root : String} {base : Tree}

theorem onContext_staying {f : Context → Context} (hsame : ∀ c, (f c).root = c.root)
    (htouched : ∀ c, ∀ home ∈ (f c).touched, home ∈ c.touched ∨ rejection? home = none) :
    Job.Keeps (Staying root base) (Site.onContext f) := by
  refine Job.Keeps.modify fun site h => ⟨h.confined, (hsame _).trans h.root, fun home hhome => ?_⟩
  cases htouched _ home hhome with
  | inl hbefore => exact h.accepted home hbefore
  | inr haccepted => exact haccepted

theorem onFiles_staying {α : Type} {action : Action α}
    (h : ∀ tree : Tree, tree.home = base.home →
      Confined (pathNames tree.home root) tree (action.after tree)) :
    Job.Keeps (Staying root base) (Site.onFiles action) := by
  refine Job.Keeps.focus (Confined (pathNames base.home root) base)
    (Job.Keeps.act fun tree htree => ?_) (fun _ hsite => hsite.confined) ?_
  · have hstep := h tree htree.home
    rw [htree.home] at hstep
    exact htree.trans hstep
  · exact fun _ _ hsite htree => ⟨htree, hsite.root, hsite.accepted⟩

variable (hroot : IsOrdinaryRoot base.home root)
include hroot

theorem append_staying {home : String} (haccepted : rejection? home = none) (source : String)
    (types : List Metadata.TypeInfo) :
    Job.Keeps (Staying root base) (append home source types) := by
  have hplain : ∀ name ∈ names home, IsPlainName name := fun _ =>
    isPlainName_of_mem_names haccepted
  refine Job.Keeps.get_bind fun site hsite => ?_
  dsimp only
  rw [hsite.root]
  refine Job.Keeps.bind (onContext_staying (fun _ => rfl) fun c other hother => ?_) fun _ => ?_
  · cases (Text.mem_insertSorted).mp hother with
    | inl heq => exact .inr (heq ▸ haccepted)
    | inr hbefore => exact .inl hbefore
  · refine Job.Keeps.bind (Job.Keeps.report _) fun _ => ?_
    refine Job.Keeps.bind (onFiles_staying fun tree hhome => ?_) fun _ => ?_
    · exact createDirectories_confined (hhome ▸ hroot) hplain
    refine Job.Keeps.bind (onFiles_staying fun tree hhome => ?_) fun _ => ?_
    · exact append_confined (hhome ▸ hroot) hplain isPlainName_stubFile _
    · exact Job.Keeps.bind (Job.Keeps.report _) fun _ => Job.Keeps.pure _

theorem appendAll_staying (source : String) {groups : List (String × List Metadata.TypeInfo)}
    (haccepted : ∀ group ∈ groups, rejection? group.1 = none) :
    Job.Keeps (Staying root base) (appendAll source groups) := by
  induction groups with
  | nil => exact Job.Keeps.pure _
  | cons group rest ih =>
      obtain ⟨home, types⟩ := group
      have hhere : rejection? home = none := haccepted _ List.mem_cons_self
      refine Job.Keeps.bind (append_staying hroot hhere source types) fun _ => ?_
      exact Job.Keeps.bind (ih fun g hg => haccepted g (List.mem_cons_of_mem _ hg)) fun _ =>
        Job.Keeps.pure _

theorem processSource_staying (source : Source) :
    Job.Keeps (Staying root base) (processSource source) := by
  refine Job.Keeps.get_bind fun site _ => ?_
  cases source.types site.tree with
  | error fault =>
      refine Job.Keeps.bind (Job.Keeps.report _) fun _ => ?_
      exact onContext_staying (fun _ => rfl) fun _ _ hhome => .inl hhome
  | ok types =>
      refine Job.Keeps.bind (Job.Keeps.report _) fun _ => ?_
      refine Job.Keeps.bind (appendAll_staying hroot _ fun _ => rejection?_of_mem_group) fun _ => ?_
      refine Job.Keeps.bind (Job.Keeps.report _) fun _ => ?_
      exact onContext_staying (fun _ => rfl) fun _ _ hhome => .inl hhome

theorem processFrom_staying (sources : List Source) (total done : Nat) :
    Job.Keeps (Staying root base) (processFrom total done sources) := by
  induction sources generalizing done with
  | nil => exact Job.Keeps.pure _
  | cons source rest ih =>
      refine Job.Keeps.bind (Job.Keeps.tell _) fun _ => ?_
      exact Job.Keeps.bind (processSource_staying hroot source) fun _ => ih (done + 1)

theorem finalize_staying : Job.Keeps (Staying root base) finalize := by
  refine Job.Keeps.get_bind fun site hsite => ?_
  refine Job.Keeps.bind (Job.Keeps.forM fun d hd => onFiles_staying fun tree hhome => ?_) fun _ =>
    onFiles_staying fun tree hhome => ?_
  · obtain ⟨inner, hplain, rfl⟩ := mem_markedDirectories hsite.accepted hd
    rw [hsite.root]
    exact write_confined (hhome ▸ hroot) hplain isPlainName_markerFile _
  · rw [hsite.root]
    exact write_confined (hhome ▸ hroot) plain_of_nil isPlainName_markerFile _

theorem finish_staying : Job.Keeps (Staying root base) finish := by
  refine Job.Keeps.bind (finalize_staying hroot) fun _ => Job.Keeps.get_bind fun site hsite => ?_
  refine Job.Keeps.bind (onFiles_staying fun tree hhome => ?_) fun _ => Job.Keeps.pure _
  rw [hsite.root]
  exact write_confined (hhome ▸ hroot) plain_of_nil isPlainName_readmeFile _

/-- A run leaves alone whatever is outside its root, whether it succeeds or not. -/
theorem run_stays_within_root (sources : List Source) :
    Confined (pathNames base.home root) base (run sources root base).state := by
  have hkeeps : Job.Keeps (Confined (pathNames base.home root) base) (run sources root) := by
    refine Job.Keeps.concluding (Job.Keeps.bind ?_ fun _ => ?_)
    · refine Job.Keeps.act fun between hbetween => ?_
      have hempty := emptyRoot_confined (hbetween.home ▸ hroot)
      rw [hbetween.home] at hempty
      exact hbetween.trans hempty
    · refine Job.Keeps.focus (Staying root base)
        (Job.Keeps.bind (processFrom_staying hroot sources _ 0) fun _ => finish_staying hroot) ?_ ?_
      · exact fun between hbetween => ⟨hbetween, rfl, by simp⟩
      · exact fun _ _ _ hsite => hsite.confined
  exact hkeeps base (.refl _ base)

end Run

/-- Namespaces that would lead elsewhere, and one that no directory can be named for. -/
def hostileSources : List Source :=
  [.fixed "a"
    [{ name := "Lamp", kind := .reference, home := some "game" },
      { name := "Root", kind := .reference, home := some "A./etc" },
      { name := "Up", kind := .reference, home := some ".." },
      { name := "Drive", kind := .value, home := some "C:.system" },
      { name := "Share", kind := .value, home := some "A.\\share" },
      { name := "Odd", kind := .value, home := some "odd\x00name" }]]

/-- A tree with something beside the root. -/
def guardedTree : Tree := ⟨"/w", [(["etc"], .directory), (["etc", "passwd"], .file [1])]⟩

/-- A run that fails after it has written a stub keeps what is beside its root, which may be called
from the working directory or from the top. -/
theorem run_stays_within_root_when_it_fails :
    IsOrdinaryRoot "/w" "out/py" ∧ IsOrdinaryRoot "/w" "/w/out/py" ∧
      (run hostileSources "out/py" guardedTree).result = .error (.access .nulInName) ∧
      (run hostileSources "out/py" guardedTree).state.get? ["etc", "passwd"] =
        some (.file [1]) ∧
      (run hostileSources "/w/out/py" guardedTree).state.get? ["etc", "passwd"] =
        some (.file [1]) := by
  have hroot : IsOrdinaryRoot guardedTree.home "out/py" := ⟨by decide, by decide⟩
  have habsolute : IsOrdinaryRoot guardedTree.home "/w/out/py" := ⟨by decide, by decide⟩
  have houtside : ¬ ["out", "py"] <+: ["etc", "passwd"] := by decide
  have hnames : pathNames guardedTree.home "out/py" = ["out", "py"] := by decide
  have hnames' : pathNames guardedTree.home "/w/out/py" = ["out", "py"] := by decide
  have hthere : guardedTree.get? ["etc", "passwd"] = some (.file [1]) := by decide
  have hkept := (run_stays_within_root hroot hostileSources).kept _ _ (hnames ▸ houtside) hthere
  have hkept' :=
    (run_stays_within_root habsolute hostileSources).kept _ _ (hnames' ▸ houtside) hthere
  exact ⟨hroot, habsolute, by decide +kernel, hkept, hkept'⟩

end StubTree.Package
