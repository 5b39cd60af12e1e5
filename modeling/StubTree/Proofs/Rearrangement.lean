/-!
Permutations that respect an order between some elements. Elements that are
tied keep their relative order; all others may move freely. Whatever picks only
elements that are tied to one another sees no difference.
-/

namespace StubTree

variable {α : Type}

/-- Every element carries the position it had, and tied elements stand in the
order of these positions. -/
def Permuted (tied : α → α → Prop) (xs ys : List α) : Prop :=
  ∃ tagged : List (α × Nat), tagged.Perm xs.zipIdx ∧ tagged.map Prod.fst = ys ∧
    tagged.Pairwise fun a b => tied a.1 b.1 → a.2 < b.2

theorem Permuted.perm {tied : α → α → Prop} {xs ys : List α} (h : Permuted tied xs ys) :
    ys.Perm xs := by
  obtain ⟨tagged, hperm, rfl, -⟩ := h
  simpa using hperm.map Prod.fst

private theorem pairwise_zipIdx (xs : List α) (start : Nat) :
    (xs.zipIdx start).Pairwise fun a b => a.2 < b.2 := by
  induction xs generalizing start with
  | nil => simp
  | cons x rest ih =>
      rw [List.zipIdx_cons]
      refine List.pairwise_cons.mpr ⟨fun b hb => ?_, ih (start + 1)⟩
      have hle := (List.mem_zipIdx hb).1
      exact Nat.lt_of_succ_le hle

private theorem pairwise_zipIdx_of_tied (tied : α → α → Prop) (xs : List α) (start : Nat) :
    (xs.zipIdx start).Pairwise fun a b => tied a.1 b.1 → a.2 < b.2 := by
  refine (pairwise_zipIdx xs start).imp ?_
  intro a b hlt _
  exact hlt

/-- Two elements that are not tied may change places. -/
theorem Permuted.swap {tied : α → α → Prop} {x y : α} (h : ¬ tied y x) (rest : List α) :
    Permuted tied (x :: y :: rest) (y :: x :: rest) := by
  refine ⟨(y, 1) :: (x, 0) :: rest.zipIdx 2, List.Perm.swap _ _ _, by simp, ?_⟩
  have hafter (n : Nat) (hn : n < 2) : ∀ b ∈ rest.zipIdx 2, n < b.2 := by
    intro b hb
    exact Nat.lt_of_lt_of_le hn (List.mem_zipIdx hb).1
  refine List.pairwise_cons.mpr ⟨?_, List.pairwise_cons.mpr ⟨?_, ?_⟩⟩
  · intro b hb htied
    cases hb with
    | head => exact absurd htied h
    | tail _ hb => exact hafter 1 (by decide) b hb
  · intro b hb _
    exact hafter 0 (by decide) b hb
  · exact pairwise_zipIdx_of_tied tied rest 2

theorem Permuted.filter_eq {tied : α → α → Prop} {xs ys : List α} (h : Permuted tied xs ys)
    {keep : α → Bool} (htied : ∀ a b, keep a → keep b → tied a b) :
    ys.filter keep = xs.filter keep := by
  obtain ⟨tagged, hperm, rfl, hordered⟩ := h
  have hkept : (tagged.filter fun a => keep a.1).Pairwise fun a b => a.2 < b.2 := by
    refine (List.pairwise_filter.mpr ?_)
    exact hordered.imp fun hlt ha hb => hlt (htied _ _ ha hb)
  have hold : (xs.zipIdx.filter fun a => keep a.1).Pairwise fun a b => a.2 < b.2 :=
    (pairwise_zipIdx xs 0).filter _
  have heq : (tagged.filter fun a => keep a.1) = xs.zipIdx.filter fun a => keep a.1 :=
    (hperm.filter _).eq_of_pairwise
      (fun a b _ _ hab hba => absurd hab (Nat.lt_asymm hba)) hkept hold
  have hmap := congrArg (List.map Prod.fst) heq
  have hfilter (zs : List (α × Nat)) :
      (zs.filter fun a => keep a.1).map Prod.fst = (zs.map Prod.fst).filter keep := by
    rw [List.filter_map]
    rfl
  rwa [hfilter, hfilter, List.zipIdx_map_fst] at hmap

end StubTree
