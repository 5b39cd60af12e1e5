import Mathlib.Data.List.Induction
import Mathlib.Data.List.Perm.Basic
import StubTree.Namespace
import StubTree.Proofs.ByteOrder
import StubTree.Proofs.Grouping

/-!
Groups of types. The types of each namespace are collected one after the other
as they are listed, and sorted by name in the end. What comes out is
determined: it is the only division of the types by namespace in which each
group is in order and keeps namesakes as they were listed.
-/

namespace StubTree.Namespace

open Files (bytes)
open Metadata
open Text (codePoints)

section Collecting

variable {α : Type} (items : List (String × α)) (item : String × α)

/-- Adds an item to the group of its key, which is opened if need be. -/
def collect (groups : List (String × List α)) (item : String × α) : List (String × List α) :=
  if item.1 ∈ groups.map Prod.fst then
    groups.map fun g => if g.1 = item.1 then (g.1, g.2 ++ [item.2]) else g
  else groups ++ [(item.1, [item.2])]

/-- What is listed under a key. -/
def listed (k : String) : List α := (items.filter (·.1 = k)).map Prod.snd

def gathered : List (String × List α) :=
  (Text.distinct (items.map Prod.fst)).map fun k => (k, listed items k)

@[simp] theorem homes_gathered :
    (gathered items).map Prod.fst = Text.distinct (items.map Prod.fst) := by
  rw [gathered, List.map_map]
  exact List.map_id _

theorem listed_append_singleton (k : String) :
    listed (items ++ [item]) k =
      if k = item.1 then listed items k ++ [item.2] else listed items k := by
  by_cases h : item.1 = k
  · simp [listed, h]
  · simp [listed, h, Ne.symm h]

theorem listed_eq_nil {k : String} (h : k ∉ items.map Prod.fst) : listed items k = [] := by
  rw [listed, List.map_eq_nil_iff, List.filter_eq_nil_iff]
  intro pair hpair heq
  exact h (List.mem_map.mpr ⟨pair, hpair, of_decide_eq_true heq⟩)

theorem distinct_append (xs ys : List String) :
    Text.distinct (xs ++ ys) = Text.distinct xs ++ (Text.distinct ys).filter (· ∉ xs) := by
  induction xs with
  | nil => simp [Text.distinct]
  | cons x rest ih =>
      rw [List.cons_append, Text.distinct, ih, Text.distinct, List.filter_append,
        List.filter_filter, List.cons_append]
      congr 2
      refine List.filter_congr fun y _ => ?_
      simp

/-- One more item changes the groups by one step of collecting. -/
theorem gathered_append_singleton :
    gathered (items ++ [item]) = collect (gathered items) item := by
  have hopened : item.1 ∈ (gathered items).map Prod.fst ↔ item.1 ∈ items.map Prod.fst := by
    rw [homes_gathered, Text.mem_distinct]
  have hhomes : Text.distinct ((items ++ [item]).map Prod.fst) =
      Text.distinct (items.map Prod.fst) ++ [item.1].filter (· ∉ items.map Prod.fst) := by
    rw [List.map_append, distinct_append]
    rfl
  rw [gathered, hhomes]
  simp only [listed_append_singleton]
  by_cases hnew : item.1 ∈ items.map Prod.fst
  · have hnone : [item.1].filter (· ∉ items.map Prod.fst) = [] := by
      simp [hnew]
    rw [hnone, List.append_nil, collect, if_pos (hopened.mpr hnew), gathered, List.map_map]
    refine List.map_congr_left fun k _ => ?_
    by_cases hk : k = item.1 <;> simp [hk]
  · have hsome : [item.1].filter (· ∉ items.map Prod.fst) = [item.1] := by
      simp [hnew]
    rw [hsome, collect, if_neg (hopened.not.mpr hnew), List.map_append, List.map_singleton,
      if_pos rfl, listed_eq_nil items hnew, List.nil_append, gathered]
    congr 1
    refine List.map_congr_left fun k hk => ?_
    rw [if_neg]
    rintro rfl
    exact hnew (Text.mem_distinct.mp hk)

theorem gathered_eq_foldl : gathered items = items.foldl collect [] := by
  induction items using List.reverseRecOn with
  | nil => rfl
  | append_singleton items item ih => rw [gathered_append_singleton, ih, List.foldl_concat]

/-- The items of all groups, each with its key. -/
def flattened (groups : List (String × List α)) : List (String × α) :=
  groups.flatMap fun g => g.2.map fun a => (g.1, a)

theorem listed_append (items' : List (String × α)) (k : String) :
    listed (items ++ items') k = listed items k ++ listed items' k := by
  simp [listed]

theorem listed_keyed (k k' : String) (members : List α) :
    listed (members.map fun a => (k, a)) k' = if k = k' then members else [] := by
  by_cases h : k = k' <;> simp [listed, List.filter_map, Function.comp_def, h]

theorem distinct_keyed (k : String) {members : List α} (h : members ≠ []) :
    Text.distinct ((members.map fun a => (k, a)).map Prod.fst) = [k] := by
  cases members with
  | nil => exact absurd rfl h
  | cons a rest =>
      rw [List.map_cons, List.map_cons, Text.distinct, List.filter_eq_nil_iff.mpr]
      intro k' hk'
      simp only [Text.mem_distinct, List.map_map, List.mem_map, Function.comp_apply] at hk'
      obtain ⟨_, -, rfl⟩ := hk'
      simp

theorem homes_flattened {groups : List (String × List α)} {k : String}
    (h : k ∈ (flattened groups).map Prod.fst) : k ∈ groups.map Prod.fst := by
  simp only [flattened, List.map_flatMap, List.map_map, List.mem_flatMap, List.mem_map,
    Function.comp_apply] at h
  obtain ⟨g, hg, _, -, rfl⟩ := h
  exact List.mem_map_of_mem hg

/-- Groups with keys of their own are what is gathered of their items. -/
theorem gathered_flattened {groups : List (String × List α)}
    (hkeys : (groups.map Prod.fst).Nodup) (hfull : ∀ g ∈ groups, g.2 ≠ []) :
    gathered (flattened groups) = groups := by
  induction groups with
  | nil => rfl
  | cons g rest ih =>
      obtain ⟨hnew, hrest⟩ := List.nodup_cons.mp hkeys
      have hlater := ih hrest fun g' hg' => hfull g' (List.mem_cons_of_mem _ hg')
      have hapart : g.1 ∉ (flattened rest).map Prod.fst := fun hmem => hnew (homes_flattened hmem)
      have hne (k : String) (hk : k ∈ Text.distinct ((flattened rest).map Prod.fst)) :
          g.1 ≠ k := by
        rintro rfl
        exact hapart (Text.mem_distinct.mp hk)
      have hhomes : Text.distinct ((flattened (g :: rest)).map Prod.fst) =
          g.1 :: Text.distinct ((flattened rest).map Prod.fst) := by
        rw [flattened, List.flatMap_cons, List.map_append, distinct_append,
          distinct_keyed g.1 (hfull g List.mem_cons_self), List.singleton_append, ← flattened]
        congr 1
        refine List.filter_eq_self.mpr fun k hk => decide_eq_true fun hmem => hne k hk ?_
        obtain ⟨_, -, rfl⟩ := List.mem_map.mp (List.map_map ▸ hmem)
        rfl
      have hlisted (k : String) : listed (flattened (g :: rest)) k =
          (if g.1 = k then g.2 else []) ++ listed (flattened rest) k := by
        rw [flattened, List.flatMap_cons, listed_append, listed_keyed, ← flattened]
      rw [gathered, hhomes, List.map_cons, hlisted, if_pos rfl, listed_eq_nil _ hapart,
        List.append_nil]
      refine congrArg (g :: ·) (Eq.trans (List.map_congr_left fun k hk => ?_) hlater)
      rw [hlisted, if_neg (hne k hk), List.nil_append]

end Collecting

section Order

def byName : List TypeInfo → List TypeInfo := Text.sortBy fun t => t.name

/-- Types in the order of the code points of their names. -/
def Ascending (types : List TypeInfo) : Prop :=
  types.Pairwise fun t t' => (codePoints t.name).le (codePoints t'.name)

/-- Lists in which the types of each name stand alike. -/
def SameNamesakes (types types' : List TypeInfo) : Prop :=
  ∀ name, (types.filter fun t => t.name = name) = types'.filter fun t => t.name = name

theorem ascending_byName (types : List TypeInfo) : Ascending (byName types) :=
  (Text.pairwise_sortBy (fun t : TypeInfo => t.name) types).imp Text.codePoints_le_iff.mpr

theorem sameNamesakes_byName (types : List TypeInfo) : SameNamesakes (byName types) types :=
  Text.filter_sortBy _ types

/-- There is only one order in which types ascend and namesakes stand as before. -/
theorem eq_byName {types types' : List TypeInfo} (h : Ascending types)
    (heq : SameNamesakes types types') : types = byName types' := by
  refine Text.eq_of_ordered (fun t => t.name) (h.imp Text.codePoints_le_iff.mp)
    (Text.pairwise_sortBy _ types') fun name => ?_
  rw [heq name]
  exact (Text.filter_sortBy _ types' name).symm

end Order

variable (types : List (String × TypeInfo))

theorem group_eq_gathered :
    group types = (gathered types).map fun g => (g.1, byName g.2) := by
  rw [group, Text.groupBy, gathered, List.map_map, List.map_map]
  rfl

/-- The groups are collected type by type and sorted in the end. -/
theorem group_eq_foldl :
    group types = (types.foldl collect []).map fun g => (g.1, byName g.2) := by
  rw [group_eq_gathered, gathered_eq_foldl]

/-- A division of types by namespace, in the order in which the namespaces appear. Each group
is in order and keeps namesakes as they are listed. -/
structure IsDivision (groups : List (String × List TypeInfo)) : Prop where
  nodup_homes : (groups.map Prod.fst).Nodup
  mem_homes : ∀ home, home ∈ groups.map Prod.fst ↔ home ∈ types.map Prod.fst
  homes_in_order : (groups.map Prod.fst).Pairwise fun home home' =>
    (types.map Prod.fst).idxOf home < (types.map Prod.fst).idxOf home'
  perm : ∀ g ∈ groups, g.2.Perm (listed types g.1)
  ascending : ∀ g ∈ groups, Ascending g.2
  stable : ∀ g ∈ groups, SameNamesakes g.2 (listed types g.1)

variable {types} in
theorem mem_group {g : String × List TypeInfo} :
    g ∈ group types ↔ g.1 ∈ types.map Prod.fst ∧ g.2 = byName (listed types g.1) := by
  simp only [group_eq_gathered, gathered, List.map_map, List.mem_map, Text.mem_distinct]
  constructor
  · rintro ⟨home, hhome, rfl⟩
    exact ⟨hhome, rfl⟩
  · rintro ⟨hhome, hg⟩
    exact ⟨g.1, hhome, by rw [Function.comp_apply, ← hg]⟩

theorem homes_group : (group types).map Prod.fst = Text.distinct (types.map Prod.fst) := by
  rw [group_eq_gathered, List.map_map]
  exact homes_gathered types

theorem isDivision_group : IsDivision types (group types) where
  nodup_homes := by
    rw [homes_group]
    exact Text.nodup_distinct _
  mem_homes home := by rw [homes_group, Text.mem_distinct]
  homes_in_order := by
    rw [homes_group]
    exact Text.pairwise_distinct _
  perm g hg := by
    rw [(mem_group.mp hg).2]
    exact Text.perm_sortBy _ _
  ascending g hg := by
    rw [(mem_group.mp hg).2]
    exact ascending_byName _
  stable g hg := by
    rw [(mem_group.mp hg).2]
    exact sameNamesakes_byName _

variable {types} in
theorem IsDivision.eq_group {groups : List (String × List TypeInfo)}
    (h : IsDivision types groups) : groups = group types := by
  have hhomes : groups.map Prod.fst = Text.distinct (types.map Prod.fst) := by
    refine List.Perm.eq_of_pairwise (fun _ _ _ _ hlt hgt => absurd hlt (Nat.lt_asymm hgt))
      h.homes_in_order (Text.pairwise_distinct _) ?_
    refine (List.perm_ext_iff_of_nodup h.nodup_homes (Text.nodup_distinct _)).mpr fun home => ?_
    rw [h.mem_homes, Text.mem_distinct]
  have hgroups : groups = groups.map fun g => (g.1, byName (listed types g.1)) := by
    refine (List.map_id groups).symm.trans (List.map_congr_left fun g hg => ?_)
    exact Prod.ext rfl (eq_byName (h.ascending g hg) (h.stable g hg))
  rw [hgroups, group_eq_gathered, gathered, ← hhomes, List.map_map, List.map_map]
  rfl

theorem perm_flattened_group : (flattened (group types)).Perm types := by
  have hflat : flattened (group types) = (Text.distinct (types.map Prod.fst)).flatMap fun home =>
      (byName (listed types home)).map fun t => (home, t) := by
    rw [group_eq_gathered, gathered, List.map_map, flattened, List.flatMap_map]
    rfl
  have hkept (home : String) : (listed types home).map (fun t => (home, t)) =
      types.filter fun pair => pair.1 = home := by
    rw [listed, List.map_map]
    refine (List.map_congr_left fun pair hpair => ?_).trans (List.map_id _)
    exact Prod.ext (of_decide_eq_true (List.mem_filter.mp hpair).2).symm rfl
  rw [hflat]
  refine (List.Perm.flatMap_left _ fun home _ => ?_).trans
    (Text.perm_flatMap_filter Prod.fst (Text.nodup_distinct _) fun pair hpair =>
      Text.mem_distinct.mpr (List.mem_map_of_mem hpair))
  rw [← hkept home]
  exact (Text.perm_sortBy _ _).map _

theorem group_flattened_group : group (flattened (group types)) = group types := by
  have h := isDivision_group types
  have hfull : ∀ g ∈ group types, g.2 ≠ [] := by
    intro g hg hnil
    obtain ⟨pair, hpair, heq⟩ := List.mem_map.mp (mem_group.mp hg).1
    have hmem : pair.2 ∈ listed types g.1 :=
      List.mem_map_of_mem (List.mem_filter.mpr ⟨hpair, decide_eq_true heq⟩)
    rw [← (h.perm g hg).mem_iff, hnil] at hmem
    exact List.not_mem_nil hmem
  rw [group_eq_gathered, gathered_flattened h.nodup_homes hfull]
  refine (List.map_congr_left fun g hg => ?_).trans (List.map_id _)
  exact Prod.ext rfl (eq_byName (h.ascending g hg) fun _ => rfl).symm

/-- The groups are the only division of the types by namespace. Nothing is lost in them, they are
grouped already, and their order is the one of the bytes of the names too. -/
theorem groups_are_stable_division :
    (∀ groups, IsDivision types groups ↔ groups = group types) ∧
      (flattened (group types)).Perm types ∧
      group (flattened (group types)) = group types ∧
      ∀ s s' : String, (bytes s).le (bytes s') ↔ (codePoints s).le (codePoints s') := by
  refine ⟨fun groups => ⟨IsDivision.eq_group, ?_⟩, perm_flattened_group types,
    group_flattened_group types, fun s s' => ?_⟩
  · rintro rfl
    exact isDivision_group types
  · rw [Text.bytes_le_iff, Text.codePoints_le_iff]

end StubTree.Namespace
