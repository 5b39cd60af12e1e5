import StubTree.Proofs.Rearrangement
import StubTree.Proofs.StubFiles

/-!
The order of types and sources. What a run leaves behind is determined by what
each namespace is given, one contribution after the other. So types may be
listed in any order that keeps namesakes of one namespace apart as they were,
and sources in any order that keeps those apart that write to one namespace.
-/

namespace StubTree.Package

open Files Namespace Metadata

/-- Accepted types of one namespace and one name. -/
def Namesakes (t t' : TypeInfo) : Prop :=
  isAccepted t = true ∧ isAccepted t' = true ∧
    homeOf t.toTypeHeader = homeOf t'.toTypeHeader ∧ t.name = t'.name

/-- A source that has no types in any tree. -/
def NeverLoads (source : Source) : Prop :=
  ∀ tree, ∃ fault, source.types tree = .error fault

/-- Sources in memory, one with the types of the other in an order that keeps namesakes, or a
source that fails. -/
inductive Rearranged : Source → Source → Prop where
  | fixed {id types types'}
      (h : Permuted Namesakes (Source.stamp id types) (Source.stamp id types')) :
      Rearranged (.fixed id types) (.fixed id types')
  | failing {source} (h : NeverLoads source) : Rearranged source source

/-- What a source in memory loads. -/
def inMemory? : Source → Option Load
  | .fixed id types => some ⟨id, Source.stamp id types⟩
  | _ => none

/-- The accepted types of a source in one namespace. -/
def sharesIn (home : String) (source : Source) : List TypeInfo :=
  match inMemory? source with
  | some load => typesIn home load.types
  | none => []

theorem neverLoads_broken (id reason : String) : NeverLoads (.broken id reason) :=
  fun _ => ⟨_, rfl⟩

/-- A source whose types, if it has any, do not depend on the tree. -/
def IsSettled (source : Source) : Prop := (inMemory? source).isSome ∨ NeverLoads source

theorem sharesIn_of_some {source : Source} {load : Load} (h : inMemory? source = some load)
    (home : String) : sharesIn home source = typesIn home load.types := by
  simp only [sharesIn, h]

theorem sharesIn_of_none {source : Source} (h : inMemory? source = none) (home : String) :
    sharesIn home source = [] := by
  simp only [sharesIn, h]

theorem inMemory?_source {source : Source} {load : Load} (h : inMemory? source = some load) :
    load.source = source.id := by
  cases source with
  | document path id => simp [inMemory?] at h
  | fixed id types =>
      cases h
      rfl
  | broken id reason => simp [inMemory?] at h

/-- Two sources with accepted types in one namespace. -/
def ShareNamespace (source source' : Source) : Prop :=
  ∃ home, sharesIn home source ≠ [] ∧ sharesIn home source' ≠ []

section Contributions

/-- The same contributions to each namespace, in the same order. -/
def SamePerHome (cs cs' : List Contribution) : Prop :=
  ∀ home, cs.filter (·.home = home) = cs'.filter (·.home = home)

variable {cs cs' : List Contribution} (h : SamePerHome cs cs')
include h

theorem SamePerHome.exists_iff (home : String) :
    (∃ c ∈ cs, c.home = home) ↔ ∃ c ∈ cs', c.home = home := by
  have hmem (xs : List Contribution) :
      (∃ c ∈ xs, c.home = home) ↔ xs.filter (·.home = home) ≠ [] := by
    simp
  rw [hmem, hmem, h home]

theorem SamePerHome.stubContent (home : String) :
    Package.stubContent cs home = Package.stubContent cs' home := by
  rw [Package.stubContent, Package.stubContent, h home]

theorem SamePerHome.perm : cs.Perm cs' := by
  refine List.perm_iff_count.mpr fun c => ?_
  have hcount (xs : List Contribution) :
      xs.count c = (xs.filter (·.home = c.home)).count c := by
    rw [List.count_filter]
    simp
  rw [hcount cs, hcount cs', h c.home]

theorem SamePerHome.writtenBy : Package.writtenBy cs = Package.writtenBy cs' :=
  (h.perm.flatMap_right _).length_eq

theorem SamePerHome.touchedBy : Package.touchedBy cs = Package.touchedBy cs' :=
  touchedBy_congr h.exists_iff

/-- A tree is determined by what was laid for each namespace. -/
theorem Laid.same {root : String} {base : Tree} {site site' : Site}
    (hlaid : Laid root base cs site) (hlaid' : Laid root base cs' site') :
    Tree.Same site.tree site'.tree := by
  refine ⟨hlaid.home.trans hlaid'.home.symm, ?_⟩
  funext place
  by_cases hstub : ∃ c ∈ cs, place = stubAt base root c.home
  · obtain ⟨c, hc, rfl⟩ := hstub
    obtain ⟨c', hc', heq⟩ := (h.exists_iff c.home).mp ⟨c, hc, rfl⟩
    have hthere := hlaid'.stubs c' hc'
    rw [heq] at hthere
    rw [hlaid.stubs c hc, hthere, h.stubContent]
  · by_cases hway : ∃ c ∈ cs, place ∈ way base root c.home
    · obtain ⟨c, hc, hmem⟩ := hway
      obtain ⟨c', hc', heq⟩ := (h.exists_iff c.home).mp ⟨c, hc, rfl⟩
      rw [hlaid.ways c hc place hmem, hlaid'.ways c' hc' place (heq ▸ hmem)]
    · have hoff : ∀ c ∈ cs, place ≠ stubAt base root c.home ∧ place ∉ way base root c.home :=
        fun c hc => ⟨fun heq => hstub ⟨c, hc, heq⟩, fun hmem => hway ⟨c, hc, hmem⟩⟩
      have hoff' : ∀ c ∈ cs', place ≠ stubAt base root c.home ∧
          place ∉ way base root c.home := by
        intro c' hc'
        obtain ⟨c, hc, heq⟩ := (h.exists_iff c'.home).mpr ⟨c', hc', rfl⟩
        rw [← heq]
        exact hoff c hc
      rw [hlaid.others place hoff, hlaid'.others place hoff']

end Contributions

section Sources

/-- What the sources of a list contribute that are in memory. -/
def contributed (sources : List Source) : List Contribution :=
  (sources.filterMap inMemory?).flatMap contributionsOf

theorem IsSettled.types_eq {source : Source} (h : IsSettled source) (tree : Tree) :
    match inMemory? source with
    | some load => source.types tree = .ok load.types
    | none => ∃ fault, source.types tree = .error fault := by
  cases h with
  | inl hsome =>
      cases source with
      | document path id => simp [inMemory?] at hsome
      | fixed id types => rfl
      | broken id reason => simp [inMemory?] at hsome
  | inr hnever =>
      cases source with
      | document path id => exact hnever tree
      | broken id reason => exact hnever tree
      | fixed id types =>
          obtain ⟨fault, herror⟩ := hnever tree
          simp [Source.types] at herror

theorem loadsFrom_of_settled {sources : List Source} (h : ∀ source ∈ sources, IsSettled source)
    (site : Site) : loadsFrom sources site = sources.filterMap inMemory? := by
  induction sources generalizing site with
  | nil => rfl
  | cons source rest ih =>
      have hrest := fun site => ih (fun s hs => h s (List.mem_cons_of_mem _ hs)) site
      have htypes := (h source List.mem_cons_self).types_eq site.tree
      rw [List.filterMap_cons]
      cases hload : inMemory? source with
      | none =>
          simp only [hload] at htypes
          obtain ⟨fault, herror⟩ := htypes
          simp only [loadsFrom, herror, hrest]
      | some load =>
          simp only [hload] at htypes
          simp only [loadsFrom, htypes, hrest, ← inMemory?_source hload]

/-- To one namespace each of the sources that share in it contributes once. -/
theorem filter_contributed (sources : List Source) (home : String) :
    (contributed sources).filter (·.home = home) =
      (sources.filter fun source => !(sharesIn home source).isEmpty).map fun source =>
        ⟨home, source.id, stubTexts (sorted (sharesIn home source))⟩ := by
  induction sources with
  | nil => rfl
  | cons source rest ih =>
      rw [contributed] at ih ⊢
      rw [List.filterMap_cons, List.filter_cons]
      cases hload : inMemory? source with
      | none =>
          rw [sharesIn_of_none hload, if_neg (by simp)]
          exact ih
      | some load =>
          simp only [List.flatMap_cons, List.filter_append, ih, filter_contributionsOf,
            sharesIn_of_some hload home]
          cases hnone : (typesIn home load.types).isEmpty with
          | true => simp
          | false => simp [sharesIn_of_some hload, inMemory?_source hload]

theorem sorted_eq_nil {types : List TypeInfo} : sorted types = [] ↔ types = [] := by
  rw [← List.length_eq_zero_iff, ← List.length_eq_zero_iff, sorted,
    (Text.perm_sortBy _ types).length_eq]

/-- Keeping namesakes in order is enough for what is written of each namespace. -/
theorem sorted_typesIn_of_permuted {types types' : List TypeInfo}
    (h : Permuted Namesakes types types') (home : String) :
    sorted (typesIn home types) = sorted (typesIn home types') := by
  refine Text.sortBy_congr _ fun name => ?_
  have hkeep (ts : List TypeInfo) :
      ((typesIn home ts).filter fun t => t.name = name) =
        ts.filter fun t => decide (t.name = name) &&
          decide (homeOf t.toTypeHeader = home) && isAccepted t := by
    rw [typesIn, List.filter_filter, List.filter_filter]
  rw [hkeep, hkeep]
  refine (h.filter_eq ?_).symm
  intro t t' ht ht'
  simp only [Bool.and_eq_true, decide_eq_true_eq] at ht ht'
  exact ⟨ht.2, ht'.2, ht.1.2.trans ht'.1.2.symm, ht.1.1.trans ht'.1.1.symm⟩

theorem Rearranged.sorted_sharesIn {source source' : Source} (h : Rearranged source source')
    (home : String) : sorted (sharesIn home source) = sorted (sharesIn home source') := by
  cases h with
  | fixed h => exact sorted_typesIn_of_permuted h home
  | failing => rfl

theorem Rearranged.isEmpty_sharesIn {source source' : Source} (h : Rearranged source source')
    (home : String) : (sharesIn home source).isEmpty = (sharesIn home source').isEmpty := by
  rw [Bool.eq_iff_iff, List.isEmpty_iff, List.isEmpty_iff, ← sorted_eq_nil, h.sorted_sharesIn,
    sorted_eq_nil]

theorem Rearranged.id_eq {source source' : Source} (h : Rearranged source source') :
    source.id = source'.id := by
  cases h <;> rfl

theorem Rearranged.isSome_inMemory? {source source' : Source} (h : Rearranged source source') :
    (inMemory? source).isSome = (inMemory? source').isSome := by
  cases h <;> rfl

variable {sources arranged sources' : List Source}

theorem samePerHome_of_rearranged (h : List.Forall₂ Rearranged sources arranged) :
    SamePerHome (contributed sources) (contributed arranged) := by
  intro home
  rw [filter_contributed, filter_contributed]
  induction h with
  | nil => rfl
  | cons hsource _ ih =>
      simp only [List.filter_cons, hsource.isEmpty_sharesIn home]
      split
      · rw [List.map_cons, List.map_cons, ih, hsource.id_eq, hsource.sorted_sharesIn]
      · exact ih

theorem samePerHome_of_permuted (h : Permuted ShareNamespace arranged sources') :
    SamePerHome (contributed arranged) (contributed sources') := by
  intro home
  rw [filter_contributed, filter_contributed, h.filter_eq]
  intro source source' hshare hshare'
  exact ⟨home, by simpa using hshare, by simpa using hshare'⟩

theorem length_inMemory_of_rearranged (h : List.Forall₂ Rearranged sources arranged) :
    (sources.filterMap inMemory?).length = (arranged.filterMap inMemory?).length := by
  induction h with
  | nil => rfl
  | @cons source source' _ _ hsource _ ih =>
      have hsome := hsource.isSome_inMemory?
      rw [List.filterMap_cons, List.filterMap_cons]
      cases hload : inMemory? source with
      | none =>
          rw [hload, eq_comm, Option.isSome_none, Option.isSome_eq_false_iff,
            Option.isNone_iff_eq_none] at hsome
          simpa [hsome] using ih
      | some load =>
          rw [hload] at hsome
          obtain ⟨load', hload'⟩ := Option.isSome_iff_exists.mp hsome.symm
          simpa [hload'] using ih

theorem settled_of_rearranged (h : List.Forall₂ Rearranged sources arranged) :
    (∀ source ∈ sources, IsSettled source) ∧ ∀ source ∈ arranged, IsSettled source := by
  induction h with
  | nil => simp
  | cons hsource _ ih =>
      rw [List.forall_mem_cons, List.forall_mem_cons]
      cases hsource with
      | fixed => exact ⟨⟨.inl rfl, ih.1⟩, ⟨.inl rfl, ih.2⟩⟩
      | failing hnever => exact ⟨⟨.inr hnever, ih.1⟩, ⟨.inr hnever, ih.2⟩⟩

end Sources

/-- A run that succeeds does so in every admissible order of types and sources, with the same
report and the same tree. -/
theorem run_ignores_order {sources arranged sources' : List Source}
    (htypes : List.Forall₂ Rearranged sources arranged)
    (hsources : Permuted ShareNamespace arranged sources') {root : String} {tree : Tree}
    {report : Report} (hok : (run sources root tree).result = .ok report) :
    (run sources' root tree).result = .ok report ∧
      Tree.Same (run sources root tree).state (run sources' root tree).state := by
  obtain ⟨base, site, _, hempty, hprocess, hfinish, hafter⟩ := run_ends.mp ⟨hok, rfl⟩
  have hleads := leads_of_emptyRoot hempty
  obtain ⟨hsettled, harranged⟩ := settled_of_rearranged htypes
  have hsettled' : ∀ source ∈ sources', IsSettled source := fun source hsource =>
    harranged source (hsources.perm.mem_iff.mp hsource)
  have hhome : SamePerHome (contributed sources) (contributed sources') := fun home =>
    (samePerHome_of_rearranged htypes home).trans (samePerHome_of_permuted hsources home)
  -- The first run has laid its contributions, so their namespaces fit.
  obtain ⟨hlaid, touched, hcontext⟩ := processFrom_ends hleads (.nil root base) hprocess
  rw [loadsFrom_of_settled hsettled, List.nil_append, ← contributed] at hlaid
  have hfits : ∀ c ∈ (loadsFrom sources' ⟨base, { root := root }⟩).flatMap contributionsOf,
      Fits base root c.home := by
    intro c' hc'
    rw [loadsFrom_of_settled hsettled', ← contributed] at hc'
    obtain ⟨c, hc, heq⟩ := (hhome.exists_iff c'.home).mpr ⟨c', hc', rfl⟩
    rw [← heq]
    exact hlaid.fits c hc
  obtain ⟨site', hprocess'⟩ :
      ∃ site', Job.Ends (processAll sources') ⟨base, { root := root }⟩ () site' :=
    processFrom_succeeds hleads (.nil root base) hfits
  obtain ⟨hlaid', touched', hcontext'⟩ := processFrom_ends hleads (.nil root base) hprocess'
  rw [loadsFrom_of_settled hsettled', List.nil_append, ← contributed] at hlaid'
  -- So both are finished from sites that match, with the same counts.
  have hlength := htypes.length_eq.trans hsources.perm.length_eq.symm
  have hloads := (length_inMemory_of_rearranged htypes).trans
    (hsources.perm.filterMap inMemory?).length_eq.symm
  rw [loadsFrom_of_settled hsettled, ← contributed] at hcontext
  rw [loadsFrom_of_settled hsettled', ← contributed] at hcontext'
  have hmatch : Matching Eq site site' := by
    refine ⟨hlaid.same hhome hlaid', hlaid.root.trans hlaid'.root.symm, ?_, ?_, ?_, ?_⟩
    · rw [hlaid.touched, hlaid'.touched, hhome.touchedBy]
    · rw [hcontext, hcontext', hloads]
    · rw [hcontext, hcontext', hhome.writtenBy]
    · rw [hcontext, hcontext', hloads, hlength]
  obtain ⟨_, after', hfinish', hreports, hmatch'⟩ :=
    (finish_alike additive_eq).ends hmatch hfinish
  obtain rfl := hreports.eq
  have hends' := run_ends.mpr ⟨base, site', after', hempty, hprocess', hfinish', rfl⟩
  refine ⟨hends'.1, ?_⟩
  rw [← hafter, hends'.2]
  exact hmatch'.tree

def reorderedPoint : TypeInfo := { name := "Point", kind := .value, home := some "geo" }

def reorderedClock : TypeInfo := { name := "Clock", kind := .reference, home := some "time" }

/-- Types of two namespaces change places, and so do a source that is broken and the first. -/
theorem run_ignores_order_of_two_namespaces :
    (run [.broken "b" "gone", .fixed "a" [reorderedClock, reorderedPoint]] "out"
        (Tree.empty "/w")).result = .ok ⟨"/w/out", 1, 1, 2, 2⟩ := by
  have htypes : List.Forall₂ Rearranged
      [.fixed "a" [reorderedPoint, reorderedClock], .broken "b" "gone"]
      [.fixed "a" [reorderedClock, reorderedPoint], .broken "b" "gone"] := by
    refine .cons (.fixed (Permuted.swap ?_ []))
      (.cons (.failing (neverLoads_broken _ _)) .nil)
    rintro ⟨-, -, hhome, -⟩
    exact absurd hhome (by decide)
  have hsources : Permuted ShareNamespace
      [.fixed "a" [reorderedClock, reorderedPoint], .broken "b" "gone"]
      [.broken "b" "gone", .fixed "a" [reorderedClock, reorderedPoint]] := by
    refine Permuted.swap ?_ []
    rintro ⟨home, hshare, -⟩
    exact hshare rfl
  have hok : (run [.fixed "a" [reorderedPoint, reorderedClock], .broken "b" "gone"] "out"
      (Tree.empty "/w")).result = .ok ⟨"/w/out", 1, 1, 2, 2⟩ := by
    decide +kernel
  exact (run_ignores_order htypes hsources hok).1

end StubTree.Package
