import StubTree.Package.Run
import StubTree.Proofs.Contributions
import StubTree.Proofs.Grouping

/-!
Which types of a source are written where. A source makes one contribution to
each namespace of its accepted types, with these types sorted by name; what a
namespace holds in the end is read off the loads of all sources.
-/

namespace StubTree.Package

open Metadata

/-- A type that is written below the root. -/
def isAccepted (t : TypeInfo) : Bool :=
  (Stub.typeRejection? t.toTypeHeader).isNone &&
    (Namespace.rejection? (Namespace.homeOf t.toTypeHeader)).isNone

/-- The accepted types of one namespace. -/
def typesIn (home : String) (types : List TypeInfo) : List TypeInfo :=
  (types.filter isAccepted).filter fun t => Namespace.homeOf t.toTypeHeader = home

/-- Types in the order of their names. Types of one name keep their order. -/
def sorted (types : List TypeInfo) : List TypeInfo := Text.sortBy (fun t => t.name) types

/-- The types that a source was found to have. -/
structure Load where
  source : String
  types : List TypeInfo

/-- A namespace with an accepted type. -/
def Occurs (loads : List Load) (home : String) : Prop :=
  ∃ load ∈ loads, typesIn home load.types ≠ []

/-- What a load adds to the stubs of a namespace. -/
def loadText (home : String) (load : Load) : String :=
  if (typesIn home load.types).isEmpty then ""
  else
    "# From source: " ++ load.source ++ "\n\n" ++
      String.join ((stubTexts (sorted (typesIn home load.types))).map (· ++ "\n"))

/-- All of the stubs of a namespace: the header and what each load adds. -/
def stubText (loads : List Load) (home : String) : String :=
  header ++ String.join (loads.map (loadText home))

def contributionTo (source : String) (group : String × List TypeInfo) : Contribution :=
  ⟨group.1, source, stubTexts group.2⟩

def contributionsOf (load : Load) : List Contribution :=
  (Namespace.group (filed load.types)).map (contributionTo load.source)

def writtenBy (cs : List Contribution) : Nat := (cs.flatMap (·.texts)).length

theorem filing_eq_ok {t : TypeInfo} {pair : String × TypeInfo} :
    filing t = .ok pair ↔ isAccepted t = true ∧ pair = (Namespace.homeOf t.toTypeHeader, t) := by
  simp only [filing, isAccepted]
  cases Stub.typeRejection? t.toTypeHeader with
  | some r => simp
  | none =>
      cases Namespace.rejection? (Namespace.homeOf t.toTypeHeader) with
      | some r => simp
      | none => simp [eq_comm]

theorem filed_eq (types : List TypeInfo) :
    filed types =
      (types.filter isAccepted).map fun t => (Namespace.homeOf t.toTypeHeader, t) := by
  induction types with
  | nil => rfl
  | cons t rest ih =>
      simp only [filed] at ih ⊢
      rw [List.filterMap_cons, ih]
      cases hfiling : filing t with
      | ok pair =>
          obtain ⟨haccepted, rfl⟩ := filing_eq_ok.mp hfiling
          simp [haccepted]
      | error event =>
          have hnot : isAccepted t = false := by
            rw [Bool.eq_false_iff]
            intro haccepted
            rw [filing_eq_ok.mpr ⟨haccepted, rfl⟩] at hfiling
            simp at hfiling
          simp [hnot]

theorem filter_filed (types : List TypeInfo) (home : String) :
    ((filed types).filter fun pair => pair.1 = home).map Prod.snd = typesIn home types := by
  rw [filed_eq, List.filter_map, List.map_map, typesIn]
  exact List.map_id _

theorem isEmpty_filter_filed (types : List TypeInfo) (home : String) :
    ((filed types).filter fun pair => pair.1 = home).isEmpty = (typesIn home types).isEmpty := by
  rw [← filter_filed, List.isEmpty_map]

theorem mem_keys_filed {types : List TypeInfo} {home : String} :
    home ∈ (filed types).map Prod.fst ↔ typesIn home types ≠ [] := by
  rw [← filter_filed]
  simp

/-- There is one group for each namespace, with its accepted types sorted by name. -/
theorem mem_group_filed {types : List TypeInfo} {group : String × List TypeInfo} :
    group ∈ Namespace.group (filed types) ↔
      typesIn group.1 types ≠ [] ∧ group.2 = sorted (typesIn group.1 types) := by
  rw [Namespace.group, List.mem_map]
  constructor
  · rintro ⟨⟨home, members⟩, hmem, rfl⟩
    obtain ⟨hkey, hmembers⟩ := (Text.mem_groupBy Prod.fst).mp hmem
    refine ⟨mem_keys_filed.mp hkey, ?_⟩
    rw [← filter_filed, ← hmembers]
    rfl
  · rintro ⟨hsome, hgroup⟩
    refine ⟨(group.1, (filed types).filter fun pair => pair.1 = group.1), ?_, ?_⟩
    · exact (Text.mem_groupBy Prod.fst).mpr ⟨mem_keys_filed.mpr hsome, rfl⟩
    · rw [← filter_filed] at hgroup
      exact Prod.ext rfl hgroup.symm

theorem rejection?_of_typesIn {home : String} {types : List TypeInfo}
    (h : typesIn home types ≠ []) : Namespace.rejection? home = none := by
  obtain ⟨t, ht⟩ := List.exists_mem_of_ne_nil _ h
  simp only [typesIn, List.mem_filter, isAccepted, Bool.and_eq_true, Option.isNone_iff_eq_none,
    decide_eq_true_eq] at ht
  rw [← ht.2]
  exact ht.1.2.2

theorem Occurs.accepted {loads : List Load} {home : String} (h : Occurs loads home) :
    Namespace.rejection? home = none := by
  obtain ⟨load, -, hsome⟩ := h
  exact rejection?_of_typesIn hsome

theorem rejection?_of_mem_group {types : List TypeInfo} {group : String × List TypeInfo}
    (h : group ∈ Namespace.group (filed types)) : Namespace.rejection? group.1 = none :=
  rejection?_of_typesIn (mem_group_filed.mp h).1

/-- A load makes at most one contribution to a namespace. -/
theorem filter_contributionsOf (load : Load) (home : String) :
    (contributionsOf load).filter (·.home = home) =
      if (typesIn home load.types).isEmpty then []
      else [⟨home, load.source, stubTexts (sorted (typesIn home load.types))⟩] := by
  have hfilter : (contributionsOf load).filter (·.home = home) =
      ((Text.groupBy Prod.fst (filed load.types)).filter (·.1 = home)).map fun group =>
        ⟨group.1, load.source, stubTexts (sorted (group.2.map Prod.snd))⟩ := by
    rw [contributionsOf, Namespace.group, List.map_map, List.filter_map]
    rfl
  rw [hfilter, Text.filter_groupBy, isEmpty_filter_filed]
  split
  · rfl
  · rw [List.map_singleton, filter_filed]

theorem exists_contribution_iff {loads : List Load} {home : String} :
    (∃ c ∈ loads.flatMap contributionsOf, c.home = home) ↔ Occurs loads home := by
  simp only [List.mem_flatMap, contributionsOf, List.mem_map, Occurs]
  constructor
  · rintro ⟨_, ⟨load, hload, group, hgroup, rfl⟩, rfl⟩
    exact ⟨load, hload, (mem_group_filed.mp hgroup).1⟩
  · rintro ⟨load, hload, hsome⟩
    have hgroup : (home, sorted (typesIn home load.types)) ∈ Namespace.group (filed load.types) :=
      mem_group_filed.mpr ⟨hsome, rfl⟩
    exact ⟨_, ⟨load, hload, _, hgroup, rfl⟩, rfl⟩

theorem writtenBy_append (cs cs' : List Contribution) :
    writtenBy (cs ++ cs') = writtenBy cs + writtenBy cs' := by
  simp [writtenBy]

theorem stubContent_contributions (loads : List Load) (home : String) :
    stubContent (loads.flatMap contributionsOf) home = stubText loads home := by
  have hjoin : String.join
      (((loads.flatMap contributionsOf).filter (·.home = home)).map Contribution.text) =
      String.join (loads.map (loadText home)) := by
    induction loads with
    | nil => rfl
    | cons load rest ih =>
        rw [List.flatMap_cons, List.filter_append, List.map_append, List.map_cons,
          String.join_append, ih, filter_contributionsOf, String.join_cons]
        congr 1
        rw [loadText]
        split
        · rfl
        · simp [Contribution.text, contribution]
  rw [stubContent, stubText, hjoin]

end StubTree.Package
