import Mathlib.Data.List.Basic
import StubTree.Text.Grouping
import StubTree.Proofs.Segments

/-!
Groups and stable order. There is one group for each key, and it holds exactly
the items with that key in the order of the list. Sorting by a key keeps the
order of items with the same key, and a sorted list is determined by what it
has for each key; so sorting does not see how items of different keys stood to
one another.
-/

namespace StubTree.Text

theorem mem_distinct {x : String} {xs : List String} : x ∈ distinct xs ↔ x ∈ xs := by
  induction xs with
  | nil => simp [distinct]
  | cons y rest ih =>
      simp only [distinct, List.mem_cons, List.mem_filter, ih, decide_eq_true_eq]
      by_cases h : x = y <;> simp [h]

theorem nodup_distinct (xs : List String) : (distinct xs).Nodup := by
  induction xs with
  | nil => simp [distinct]
  | cons y rest ih =>
      refine List.nodup_cons.mpr ⟨?_, ih.filter _⟩
      simp

/-- Distinct texts stand in the order in which they first appear. -/
theorem pairwise_distinct (xs : List String) :
    (distinct xs).Pairwise fun x y => xs.idxOf x < xs.idxOf y := by
  induction xs with
  | nil => exact .nil
  | cons z rest ih =>
      have hlater : ((distinct rest).filter (· ≠ z)).Pairwise fun x y =>
          (z :: rest).idxOf x < (z :: rest).idxOf y := by
        refine List.Pairwise.imp_of_mem (fun {x y} hx hy hlt => ?_) (ih.filter _)
        have hxz : z ≠ x := Ne.symm (by simpa using (List.mem_filter.mp hx).2)
        have hyz : z ≠ y := Ne.symm (by simpa using (List.mem_filter.mp hy).2)
        rw [List.idxOf_cons_ne rest hxz, List.idxOf_cons_ne rest hyz]
        exact Nat.succ_lt_succ hlt
      refine List.pairwise_cons.mpr ⟨fun y hy => ?_, hlater⟩
      have hyz : z ≠ y := Ne.symm (by simpa using (List.mem_filter.mp hy).2)
      rw [List.idxOf_cons_self, List.idxOf_cons_ne rest hyz]
      exact Nat.succ_pos _

/-- As many texts are added to an empty list as there are distinct ones. -/
theorem length_insertEach_nil (xs : List String) :
    (insertEach [] xs).length = (distinct xs).length := by
  have hnodup := nodup_of_ascending (pairwise_insertEach .nil xs)
  refine ((List.perm_ext_iff_of_nodup hnodup (nodup_distinct xs)).mpr fun s => ?_).length_eq
  rw [mem_insertEach, mem_distinct]
  simp

theorem filter_eq_of_nodup {x : String} {xs : List String} (h : xs.Nodup) :
    xs.filter (· = x) = if x ∈ xs then [x] else [] := by
  induction xs with
  | nil => simp
  | cons y rest ih =>
      have hy := List.nodup_cons.mp h
      rw [List.filter_cons, ih hy.2]
      by_cases heq : y = x
      · subst heq
        simp [hy.1]
      · simp [heq, Ne.symm heq]

section Groups

variable {α β : Type} (key : α → String)

theorem mem_groupBy {items : List α} {group : String × List α} :
    group ∈ groupBy key items ↔
      group.1 ∈ items.map key ∧ group.2 = items.filter fun a => key a = group.1 := by
  simp only [groupBy, List.mem_map, mem_distinct]
  constructor
  · rintro ⟨k, hk, rfl⟩
    exact ⟨hk, rfl⟩
  · rintro ⟨hk, hgroup⟩
    exact ⟨group.1, hk, by rw [← hgroup]⟩

/-- The group of a key, as the only one with this key. -/
theorem filter_groupBy (items : List α) (k : String) :
    (groupBy key items).filter (·.1 = k) =
      if (items.filter fun a => key a = k).isEmpty then []
      else [(k, items.filter fun a => key a = k)] := by
  have hkeys : (groupBy key items).filter (·.1 = k) =
      ((distinct (items.map key)).filter (· = k)).map
        fun k => (k, items.filter fun a => key a = k) := by
    rw [groupBy, List.filter_map]
    rfl
  rw [hkeys, filter_eq_of_nodup (nodup_distinct _)]
  simp only [mem_distinct]
  by_cases hk : k ∈ items.map key
  · obtain ⟨a, ha, hka⟩ := List.mem_map.mp hk
    have hmem : a ∈ items.filter fun a => key a = k := by simp [ha, hka]
    rw [if_pos hk, if_neg]
    · rfl
    · rw [List.isEmpty_iff]
      exact List.ne_nil_of_mem hmem
  · have hnone : (items.filter fun a => key a = k) = [] := by
      refine List.filter_eq_nil_iff.mpr fun a ha hka => hk ?_
      exact List.mem_map.mpr ⟨a, ha, by simpa using hka⟩
    simp [hk, hnone]

/-- Each item is in the part of its own key. -/
theorem perm_flatMap_filter {keys : List String} {items : List α} (hkeys : keys.Nodup)
    (hcovered : ∀ a ∈ items, key a ∈ keys) :
    (keys.flatMap fun k => items.filter fun a => key a = k).Perm items := by
  induction keys generalizing items with
  | nil =>
      cases items with
      | nil => exact .refl []
      | cons a rest => exact absurd (hcovered a List.mem_cons_self) List.not_mem_nil
  | cons k rest ih =>
      obtain ⟨hnew, hrest⟩ := List.nodup_cons.mp hkeys
      have hothers : (rest.flatMap fun k' => items.filter fun a => key a = k') =
          rest.flatMap fun k' =>
            (items.filter fun a => !decide (key a = k)).filter fun a => key a = k' := by
        refine List.flatMap_congr fun k' hk' => ?_
        rw [List.filter_filter]
        refine List.filter_congr fun a _ => ?_
        by_cases heq : key a = k' <;> simp [heq]
        rintro rfl
        exact hnew hk'
      have hremain : ∀ a ∈ items.filter fun a => !decide (key a = k), key a ∈ rest := by
        intro a ha
        obtain ⟨hmem, hne⟩ := List.mem_filter.mp ha
        exact (List.mem_cons.mp (hcovered a hmem)).resolve_left (by simpa using hne)
      rw [List.flatMap_cons, hothers]
      exact ((ih hrest hremain).append_left _).trans (List.filter_append_perm _ items)

theorem perm_flatMap_groupBy (items : List α) :
    ((groupBy key items).flatMap Prod.snd).Perm items := by
  rw [groupBy, List.flatMap_map]
  exact perm_flatMap_filter key (nodup_distinct _) fun a ha =>
    mem_distinct.mpr (List.mem_map_of_mem ha)

/-- What keeps the keys carries over to the groups. -/
theorem groupBy_map {key' : β → String} {f : α → β} (h : ∀ a, key' (f a) = key a)
    (items : List α) :
    groupBy key' (items.map f) =
      (groupBy key items).map fun group => (group.1, group.2.map f) := by
  simp [groupBy, List.map_map, Function.comp_def, h, List.filter_map]

end Groups

section Sorting

variable {α : Type} (key : α → String)

/-- Sorting by a key, with items of the same key kept in order. -/
def sortBy (items : List α) : List α := items.mergeSort fun a b => key a ≤ key b

private theorem leBy_trans (a b c : α) (hab : decide (key a ≤ key b) = true)
    (hbc : decide (key b ≤ key c) = true) : decide (key a ≤ key c) = true := by
  rw [decide_eq_true_eq] at *
  exact String.le_trans hab hbc

private theorem leBy_total (a b : α) :
    (decide (key a ≤ key b) || decide (key b ≤ key a)) = true := by
  rw [Bool.or_eq_true, decide_eq_true_eq, decide_eq_true_eq]
  exact String.le_total (key a) (key b)

theorem pairwise_sortBy (items : List α) :
    (sortBy key items).Pairwise fun a b => key a ≤ key b :=
  (List.pairwise_mergeSort (leBy_trans key) (leBy_total key) items).imp of_decide_eq_true

theorem perm_sortBy (items : List α) : (sortBy key items).Perm items :=
  List.mergeSort_perm items _

theorem filter_sortBy (items : List α) (k : String) :
    (sortBy key items).filter (fun a => key a = k) = items.filter fun a => key a = k := by
  -- The items of one key are in order as they stand, so they survive as a sublist.
  have hordered : (items.filter fun a => key a = k).Pairwise fun a b =>
      decide (key a ≤ key b) = true := by
    refine List.pairwise_of_forall_mem_list fun a ha b hb => ?_
    simp only [List.mem_filter, decide_eq_true_eq] at ha hb
    simp [ha.2, hb.2]
  have hsublist : (items.filter fun a => key a = k).Sublist (sortBy key items) :=
    List.sublist_mergeSort (leBy_trans key) (leBy_total key) hordered List.filter_sublist
  have hfilter := hsublist.filter fun a => decide (key a = k)
  rw [List.filter_filter] at hfilter
  simp only [Bool.and_self] at hfilter
  refine (hfilter.eq_of_length ?_).symm
  exact ((perm_sortBy key items).filter _).length_eq.symm

theorem eq_of_ordered {items items' : List α} (h : items.Pairwise fun a b => key a ≤ key b)
    (h' : items'.Pairwise fun a b => key a ≤ key b)
    (heq : ∀ k, (items.filter fun a => key a = k) = items'.filter fun a => key a = k) :
    items = items' := by
  induction items generalizing items' with
  | nil =>
      cases items' with
      | nil => rfl
      | cons b rest' => simpa using heq (key b)
  | cons a rest ih =>
      cases items' with
      | nil => simpa using heq (key a)
      | cons b rest' =>
          have ha := List.pairwise_cons.mp h
          have hb := List.pairwise_cons.mp h'
          have hba : key b ≤ key a := by
            have hmem : a ∈ (b :: rest').filter fun c => key c = key a := by
              rw [← heq (key a)]
              simp
            rcases List.mem_cons.mp (List.mem_filter.mp hmem).1 with rfl | hmem
            · exact String.le_refl _
            · exact hb.1 a hmem
          have hab : key a ≤ key b := by
            have hmem : b ∈ (a :: rest).filter fun c => key c = key b := by
              rw [heq (key b)]
              simp
            rcases List.mem_cons.mp (List.mem_filter.mp hmem).1 with rfl | hmem
            · exact String.le_refl _
            · exact ha.1 b hmem
          have hkey : key a = key b := String.le_antisymm hab hba
          have hhead := heq (key a)
          simp only [List.filter_cons, decide_true, if_true, hkey, List.cons.injEq] at hhead
          rw [hhead.1]
          congr 1
          refine ih ha.2 hb.2 fun k => ?_
          have hk := heq k
          simp only [List.filter_cons, hkey] at hk
          split at hk
          · exact (List.cons.inj hk).2
          · exact hk

theorem sortBy_congr {items items' : List α}
    (h : ∀ k, (items.filter fun a => key a = k) = items'.filter fun a => key a = k) :
    sortBy key items = sortBy key items' := by
  refine eq_of_ordered key (pairwise_sortBy key items) (pairwise_sortBy key items') fun k => ?_
  rw [filter_sortBy, filter_sortBy, h]

/-- Sorting sees nothing of an item but its key. -/
theorem sortBy_map {β : Type} {key' : β → String} {f : α → β} (h : ∀ a, key' (f a) = key a)
    (items : List α) : sortBy key' (items.map f) = (sortBy key items).map f := by
  rw [sortBy, sortBy]
  refine (List.map_mergeSort fun a _ b _ => ?_).symm
  rw [h, h]

end Sorting

end StubTree.Text
