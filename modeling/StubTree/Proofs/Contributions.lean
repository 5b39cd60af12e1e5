import StubTree.Package.Context
import StubTree.Proofs.Jobs
import StubTree.Proofs.Namespaces
import StubTree.Proofs.Resets

/-!
What contributions leave in a tree. Each namespace has one file with what was
there before, the header and its contributions in order, in a directory of its
own, and nothing else is changed. A contribution succeeds exactly if its
namespace fits the tree that was there before all of them, and extends the list
by one.
-/

namespace StubTree.Package

open Files Namespace

/-- What one source adds to one namespace. -/
structure Contribution where
  home : String
  source : String
  texts : List String
deriving DecidableEq

def Contribution.text (c : Contribution) : String := contribution false c.source c.texts

/-- All of the stubs of a namespace. -/
def stubContent (cs : List Contribution) (home : String) : String :=
  header ++ String.join ((cs.filter (·.home = home)).map Contribution.text)

/-- The namespaces of contributions in ascending order. -/
def touchedBy (cs : List Contribution) : List String :=
  cs.foldl (fun touched c => Text.insertSorted c.home touched) []

/-- The contributions are all that has been added to a tree. -/
structure Laid (root : String) (base : Tree) (cs : List Contribution) (site : Site) : Prop where
  home : site.tree.home = base.home
  fits : ∀ c ∈ cs, Fits base root c.home
  stubs : ∀ c ∈ cs, site.tree.get? (stubAt base root c.home) =
    some (.file (base.contentAt (stubAt base root c.home) ++ bytes (stubContent cs c.home)))
  ways : ∀ c ∈ cs, ∀ place ∈ way base root c.home, site.tree.get? place = some .directory
  others : ∀ place,
    (∀ c ∈ cs, place ≠ stubAt base root c.home ∧ place ∉ way base root c.home) →
      site.tree.get? place = base.get? place
  root : site.context.root = root
  touched : site.context.touched = touchedBy cs

theorem Laid.nil (root : String) (base : Tree) : Laid root base [] ⟨base, { root := root }⟩ :=
  ⟨rfl, by simp, by simp, by simp, fun _ _ => rfl, rfl, rfl⟩

theorem touchedBy_append (cs : List Contribution) (c : Contribution) :
    touchedBy (cs ++ [c]) = Text.insertSorted c.home (touchedBy cs) := by
  simp [touchedBy]

theorem touchedBy_eq (cs : List Contribution) :
    touchedBy cs = Text.insertEach [] (cs.map Contribution.home) := by
  rw [touchedBy, Text.insertEach, List.foldl_map]

theorem mem_touchedBy {cs : List Contribution} {home : String} :
    home ∈ touchedBy cs ↔ ∃ c ∈ cs, c.home = home := by
  rw [touchedBy_eq, Text.mem_insertEach]
  simp

theorem pairwise_touchedBy (cs : List Contribution) : (touchedBy cs).Pairwise (· < ·) := by
  rw [touchedBy_eq]
  exact Text.pairwise_insertEach .nil _

/-- Only which namespaces there are counts, not the order of contributions. -/
theorem touchedBy_congr {cs cs' : List Contribution}
    (h : ∀ home, (∃ c ∈ cs, c.home = home) ↔ ∃ c ∈ cs', c.home = home) :
    touchedBy cs = touchedBy cs' := by
  refine Text.eq_of_ascending (pairwise_touchedBy cs) (pairwise_touchedBy cs') fun home => ?_
  rw [mem_touchedBy, mem_touchedBy, h]

theorem bytes_append (s t : String) : bytes (s ++ t) = bytes s ++ bytes t := by
  simp [bytes]

theorem contribution_eq (first : Bool) (c : Contribution) :
    contribution first c.source c.texts = (if first then header else "") ++ c.text := by
  simp only [Contribution.text, contribution, Bool.false_eq_true, ↓reduceIte, String.append_assoc,
    String.empty_append]

theorem stubContent_append_self (cs : List Contribution) (c : Contribution) :
    stubContent (cs ++ [c]) c.home = stubContent cs c.home ++ c.text := by
  simp [stubContent, String.append_assoc]

theorem stubContent_append_of_ne (cs : List Contribution) {c : Contribution} {home : String}
    (h : c.home ≠ home) : stubContent (cs ++ [c]) home = stubContent cs home := by
  simp [stubContent, h]

theorem stubContent_of_new {cs : List Contribution} {home : String}
    (h : ∀ c ∈ cs, c.home ≠ home) : stubContent cs home = header := by
  have hnone : cs.filter (·.home = home) = [] := List.filter_eq_nil_iff.mpr (by simpa using h)
  simp [stubContent, hnone]

namespace Site

theorem ends_onFiles {α : Type} {action : Action α} {site site' : Site} {a : α} :
    Job.Ends (Site.onFiles action) site a site' ↔
      ∃ tree, action site.tree = .ok a tree ∧ { site with tree := tree } = site' := by
  simp only [Site.onFiles, Job.ends_focus, Job.ends_act]

theorem ends_onContext {f : Context → Context} {site site' : Site} {u : Unit} :
    Job.Ends (Site.onContext f) site u site' ↔
      { site with context := f site.context } = site' := Job.ends_modify

end Site

section Append

variable {root : String} {base : Tree} {cs : List Contribution} {site : Site} {home : String}

theorem Laid.first (h : Laid root base cs site) (home : String) :
    (!site.context.touched.contains home) = true ↔ ∀ c ∈ cs, c.home ≠ home := by
  rw [h.touched, Bool.not_eq_true', Bool.eq_false_iff, ne_eq, List.contains_iff_mem,
    mem_touchedBy]
  simp

/-- Where no contribution has been made to, the stub file is as it was. -/
theorem Laid.untouched (h : Laid root base cs site) (haccepted : rejection? home = none)
    (hoff : stubAt base root home ∉ way base root home) (hnew : ∀ c ∈ cs, c.home ≠ home) :
    site.tree.get? (stubAt base root home) = base.get? (stubAt base root home) := by
  refine h.others _ fun c hc => ⟨fun heq => hnew c hc ?_, ?_⟩
  · exact (stubAt_injective haccepted (h.fits c hc).accepted heq).symm
  · exact stubAt_not_on_way hoff (h.fits c hc).accepted

/-- What a contribution is added to: the header comes with the first one. -/
theorem Laid.contentAt (h : Laid root base cs site) (haccepted : rejection? home = none)
    (hoff : stubAt base root home ∉ way base root home) :
    site.tree.contentAt (stubAt base root home) ++
        bytes (if !site.context.touched.contains home then header else "") =
      base.contentAt (stubAt base root home) ++ bytes (stubContent cs home) := by
  by_cases hfirst : ∀ c ∈ cs, c.home ≠ home
  · rw [if_pos ((h.first home).mpr hfirst), stubContent_of_new hfirst, Tree.contentAt,
      h.untouched haccepted hoff hfirst]
    rfl
  · rw [if_neg (mt (h.first home).mp hfirst)]
    simp only [not_forall, not_not] at hfirst
    obtain ⟨c, hc, rfl⟩ := hfirst
    simp only [Tree.contentAt, h.stubs c hc]
    exact List.append_nil _

theorem Laid.place_cases (h : Laid root base cs site) (place : Place) :
    (∃ c ∈ cs, place = stubAt base root c.home) ∨ (∃ c ∈ cs, place ∈ way base root c.home) ∨
      site.tree.get? place = base.get? place := by
  by_cases hstub : ∃ c ∈ cs, place = stubAt base root c.home
  · exact .inl hstub
  · by_cases hway : ∃ c ∈ cs, place ∈ way base root c.home
    · exact .inr (.inl hway)
    · refine .inr (.inr (h.others place fun c hc => ⟨?_, ?_⟩))
      · exact fun heq => hstub ⟨c, hc, heq⟩
      · exact fun hmem => hway ⟨c, hc, hmem⟩

/-- What is free now was free before all contributions. -/
theorem Laid.free_before (h : Laid root base cs site) {place : Place}
    (hfree : ∀ content, site.tree.get? place ≠ some (.file content)) (content : List UInt8) :
    base.get? place ≠ some (.file content) := by
  cases h.place_cases place with
  | inl hstub =>
      obtain ⟨c, hc, rfl⟩ := hstub
      exact absurd (h.stubs c hc) (hfree _)
  | inr hrest =>
      cases hrest with
      | inl hway =>
          obtain ⟨c, hc, hmem⟩ := hway
          exact (h.fits c hc).free place hmem content
      | inr hsame => rw [← hsame]; exact hfree content

/-- No contribution has put a file in the way of an accepted namespace. -/
theorem Laid.free_after (h : Laid root base cs site) (haccepted : rejection? home = none)
    {place : Place} (hplace : place ∈ way base root home)
    (hfree : ∀ content, base.get? place ≠ some (.file content)) (content : List UInt8) :
    site.tree.get? place ≠ some (.file content) := by
  cases h.place_cases place with
  | inl hstub =>
      obtain ⟨c, hc, rfl⟩ := hstub
      exact absurd hplace (stubAt_not_on_way (h.fits c hc).off haccepted)
  | inr hrest =>
      cases hrest with
      | inl hway =>
          obtain ⟨c, hc, hmem⟩ := hway
          simp [h.ways c hc place hmem]
      | inr hsame => rw [hsame]; exact hfree content

/-- Where a stub file belongs there is a directory only if there was one before. -/
theorem Laid.apart_iff (h : Laid root base cs site) (haccepted : rejection? home = none)
    (hoff : stubAt base root home ∉ way base root home) :
    site.tree.get? (stubAt base root home) = some .directory ↔
      base.get? (stubAt base root home) = some .directory := by
  by_cases hnew : ∀ c ∈ cs, c.home ≠ home
  · rw [h.untouched haccepted hoff hnew]
  · simp only [not_forall, not_not] at hnew
    obtain ⟨c, hc, rfl⟩ := hnew
    simp [h.stubs c hc, (h.fits c hc).apart]

/-- Making the directories of a namespace and then its file adds exactly one contribution. -/
theorem Laid.extend (h : Laid root base cs site) {c : Contribution}
    (hfits : Fits base root c.home) {made : Tree}
    (halong : Tree.Along (way base root c.home) site.tree made) :
    Laid root base (cs ++ [c])
      { tree := made.put (stubAt base root c.home)
          (.file (base.contentAt (stubAt base root c.home) ++
            bytes (stubContent cs c.home ++ c.text))),
        context :=
          { site.context with touched := Text.insertSorted c.home site.context.touched } } := by
  have hplace : stubAt base root c.home ≠ [] := by simp [stubAt, stubPlace]
  have hmem {c' : Contribution} (hc' : c' ∈ cs ++ [c]) : c' ∈ cs ∨ c' = c := by simpa using hc'
  have hall : ∀ c' ∈ cs ++ [c], Fits base root c'.home := by
    intro c' hc'
    cases hmem hc' with
    | inl hold => exact h.fits c' hold
    | inr hnew => rwa [hnew]
  refine ⟨halong.home.trans h.home, hall, ?_, ?_, ?_, h.root, ?_⟩
  · intro c' hc'
    rw [Tree.get?_put made hplace]
    by_cases heq : c'.home = c.home
    · rw [heq, if_pos rfl, stubContent_append_self]
    · have hold : c' ∈ cs := (hmem hc').resolve_right fun hnew => heq (by rw [hnew])
      have hapart : stubAt base root c'.home ≠ stubAt base root c.home := fun hsame =>
        heq (stubAt_injective (hall c' hc').accepted hfits.accepted hsame)
      have hnot := stubAt_not_on_way (hall c' hc').off hfits.accepted
      rw [if_neg hapart, halong.get?, if_neg hnot, h.stubs c' hold,
        stubContent_append_of_ne cs (Ne.symm heq)]
  · intro c' hc' place hway
    have hapart : place ≠ stubAt base root c.home := by
      rintro rfl
      exact stubAt_not_on_way hfits.off (hall c' hc').accepted hway
    rw [Tree.get?_put made hplace, if_neg hapart, halong.get?]
    cases hmem hc' with
    | inl hold => rw [h.ways c' hold place hway, ite_self]
    | inr hnew => rw [if_pos (hnew ▸ hway)]
  · intro place hother
    obtain ⟨hapart, hoff⟩ := hother c (by simp)
    rw [Tree.get?_put made hplace, if_neg hapart, halong.get?, if_neg hoff]
    exact h.others place fun c' hc' => hother c' (List.mem_append_left _ hc')
  · rw [touchedBy_append, h.touched]

theorem namesIn_front (haccepted : rejection? home = none) {front : List String}
    (hfront : fromHome base.home root (trunk root) = some front) :
    namesIn (front ++ names home) = pathNames base.home root ++ names home := by
  rw [namesIn_append, namesIn_names haccepted, pathNames_of_front hfront]

/-- Making the directory of a namespace makes the places on its way. -/
theorem way_ends {tree made : Tree} (hleads : Leads base.home root) (hhome : tree.home = base.home)
    (haccepted : rejection? home = none) {u : Unit}
    (hmade : Action.createDirectories (directory root home) tree = .ok u made) :
    ∃ front, fromHome base.home root (trunk root) = some front ∧
      Tree.Along (way base root home) tree made ∧
      Tree.NamesFit (pathNames base.home root ++ names home) := by
  rw [← hhome] at hleads
  obtain ⟨segments, hok, halong, hfit, -⟩ :=
    Action.createDirectories_ok (directory_ne_empty haccepted root) hmade
  obtain ⟨-, front, hfront, rfl⟩ := (segmentsFrom_directory hleads haccepted).mp hok
  rw [hhome] at hfront
  rw [namesIn_front haccepted hfront] at halong hfit
  exact ⟨front, hfront, halong, hfit⟩

/-- At the end of the way there is a place for the file. -/
theorem stubPlace_ends {made : Tree} (hleads : Leads base.home root) (hhome : made.home = base.home)
    (haccepted : rejection? home = none) {front : List String}
    (hfront : fromHome base.home root (trunk root) = some front) {place : Place}
    (hplace : made.filePlace (stubPath root home) = .ok place) :
    place = stubAt base root home ∧ checkPath (stubPath root home) = .ok () ∧
      made.get? (stubAt base root home) ≠ some .directory := by
  rw [← hhome] at hleads
  obtain ⟨_, hok⟩ := Tree.segmentsFrom_of_filePlace hplace
  obtain ⟨hcheck, front', hfront', rfl⟩ := (segmentsFrom_stubPath hleads haccepted).mp hok
  rw [hhome, hfront] at hfront'
  cases hfront'
  obtain ⟨rfl, -, hnot⟩ := Tree.filePlace_ok hok hplace
  rw [namesIn_front haccepted hfront, walk_way haccepted] at hnot ⊢
  exact ⟨rfl, hcheck, hnot⟩

theorem append_ends (hleads : Leads base.home root) (h : Laid root base cs site)
    {source : String} {types : List Metadata.TypeInfo} (haccepted : rejection? home = none)
    {written : Nat} {site' : Site}
    (hends : Job.Ends (append home source types) site written site') :
    written = (stubTexts types).length ∧
      Laid root base (cs ++ [⟨home, source, stubTexts types⟩]) site' ∧
      site'.context =
        { site.context with touched := Text.insertSorted home site.context.touched } := by
  simp only [append, Job.ends_bind, Job.ends_get, Site.ends_onContext, Job.ends_report,
    Site.ends_onFiles, Job.ends_pure] at hends
  obtain ⟨_, _, ⟨rfl, rfl⟩, _, _, rfl, _, _, rfl, _, _, ⟨made, hmade, rfl⟩, _, _,
    ⟨tree, htree, rfl⟩, _, _, rfl, rfl, rfl⟩ := hends
  rw [h.root] at hmade htree
  obtain ⟨front, hfront, halong, hfit⟩ := way_ends hleads h.home haccepted hmade
  obtain ⟨place, hplace, rfl⟩ := Action.append_eq_ok.mp htree
  obtain ⟨rfl, hcheck, hnot⟩ :=
    stubPlace_ends hleads (halong.home.trans h.home) haccepted hfront hplace
  -- The tree before all contributions is as free as the one that was found.
  have hoff : stubAt base root home ∉ way base root home := by
    intro hmem
    exact hnot (by rw [halong.get?, if_pos hmem])
  have hnot' : site.tree.get? (stubAt base root home) ≠ some .directory := by
    rwa [halong.get?, if_neg hoff] at hnot
  have hfits : Fits base root home := by
    refine ⟨haccepted, hcheck, by simp [hfront], hfit, ?_, ?_, hoff⟩
    · intro p hp
      exact h.free_before (halong.free p hp)
    · exact mt (h.apart_iff haccepted hoff).mpr hnot'
  refine ⟨rfl, ?_, rfl⟩
  have hcontent : made.contentAt (stubAt base root home) ++
      bytes (contribution (!site.context.touched.contains home) source (stubTexts types)) =
      base.contentAt (stubAt base root home) ++
        bytes (stubContent cs home ++ (Contribution.mk home source (stubTexts types)).text) := by
    have hsame : made.contentAt (stubAt base root home) =
        site.tree.contentAt (stubAt base root home) := by
      rw [Tree.contentAt, halong.get?, if_neg hoff, ← Tree.contentAt]
    have heq := contribution_eq (!site.context.touched.contains home)
      ⟨home, source, stubTexts types⟩
    simp only at heq
    rw [heq, bytes_append, bytes_append, ← List.append_assoc, hsame, h.contentAt haccepted hoff,
      List.append_assoc]
  have hlaid := h.extend (c := ⟨home, source, stubTexts types⟩) hfits halong
  simp only at hlaid ⊢
  rw [hcontent]
  exact hlaid

theorem append_succeeds (hleads : Leads base.home root) (h : Laid root base cs site)
    (source : String) (types : List Metadata.TypeInfo) (hfits : Fits base root home) :
    ∃ written site', Job.Ends (append home source types) site written site' := by
  have haccepted := hfits.accepted
  obtain ⟨front, hfront⟩ := Option.isSome_iff_exists.mp hfits.reached
  have hnames := namesIn_front haccepted hfront
  rw [← h.home] at hleads hfront
  have hok : site.tree.segmentsFrom (directory root home) = .ok (front ++ names home) :=
    (segmentsFrom_directory hleads haccepted).mpr
      ⟨checkPath_directory haccepted hfits.path, front, hfront, rfl⟩
  obtain ⟨made, hmade⟩ := Action.createDirectories_succeeds hok
    (fun hends => absurd hends (by simp [endsInDot_names haccepted front]))
    (hnames ▸ hfits.names)
    (by rw [hnames]; exact fun p hp => h.free_after haccepted hp (hfits.free p hp))
  obtain ⟨_, hok', halong, -⟩ :=
    Action.createDirectories_ok (directory_ne_empty haccepted root) hmade
  rw [hok] at hok'
  cases hok'
  rw [hnames] at halong
  change Tree.Along (way base root home) site.tree made at halong
  have hstub : made.segmentsFrom (stubPath root home) = .ok (front ++ names home ++ [stubFile]) :=
    (segmentsFrom_stubPath (halong.home ▸ hleads) haccepted).mpr
      ⟨hfits.path, front, by rw [halong.home, hfront], rfl⟩
  have hplace : made.filePlace (stubPath root home) = .ok (stubAt base root home) := by
    rw [← walk_way haccepted, ← hnames]
    refine Tree.filePlace_eq hstub isPlainName_stubFile ?_ ?_ ?_
    · intro p hp
      rw [hnames] at hp
      change p ∈ way base root home at hp
      rw [halong.get?, if_pos hp]
    · rw [hnames]
      exact namesFit_stub hfits
    · rw [hnames, walk_way haccepted, halong.get?, if_neg hfits.off]
      exact mt (h.apart_iff haccepted hfits.off).mp hfits.apart
  refine ⟨(stubTexts types).length, ?_⟩
  simp only [append, Job.ends_bind, Job.ends_get, Site.ends_onContext, Job.ends_report,
    Site.ends_onFiles, Job.ends_pure]
  rw [← h.root] at hmade hplace
  exact ⟨_, _, _, ⟨rfl, rfl⟩, (), _, rfl, (), _, rfl, (), _, ⟨made, hmade, rfl⟩, (), _,
    ⟨_, Action.append_eq_ok.mpr ⟨_, hplace, rfl⟩, rfl⟩, (), _, rfl, trivial, rfl⟩

end Append

end StubTree.Package
