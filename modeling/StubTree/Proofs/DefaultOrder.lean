import StubTree.Stub.Signature

/-!
The order of default values. A function can be declared only if no parameter
that has to be given comes after one that may be left out. A parameter through
which a result is handed out may always be left out, so a list that was legal
where it comes from stays legal exactly if nothing that has to be given comes
after such a parameter.
-/

namespace StubTree.Stub

open Metadata

/-- A parameter list as the source of the metadata admits it. -/
structure IsLegal (ps : List Parameter) : Prop where
  defaults : ps.Pairwise fun p q => p.defaultValue.isSome → q.defaultValue.isSome
  variadic : ∀ p ∈ ps.dropLast, p.variadic = false

/-- Whatever comes after a parameter with a default value has one as well, or is starred. -/
def DefaultsLast (ps : List Python.Parameter) : Prop :=
  ps.Pairwise fun p q => p.defaultText.isSome → q.starred = true ∨ q.defaultText.isSome

/-- A parameter that takes all further arguments in the stub, too. -/
def isStarred (p : Parameter) : Bool := p.variadic && (element? p.type).isSome

/-- A parameter that has to be given wherever the function is called. -/
def isDue (p : Parameter) : Bool :=
  !isStarred p && p.direction ≠ .outReference && p.defaultValue.isNone

instance (ps : List Python.Parameter) : Decidable (DefaultsLast ps) := by
  unfold DefaultsLast
  infer_instance

theorem isSome_typedDefault (type : Python.TypeExpr) (d : Option DefaultValue) :
    (typedDefault type d).2.isSome = d.isSome := by
  cases d with
  | none => rfl
  | some value => cases value <;> rfl

theorem parameter_of_starred {p : Parameter} (h : isStarred p = true) :
    (parameter p).starred = true := by
  simp only [isStarred, Bool.and_eq_true, Option.isSome_iff_exists] at h
  obtain ⟨hvariadic, element, helement⟩ := h
  simp only [parameter, hvariadic, helement, ↓reduceIte]

/-- Without a star, a parameter has a default value if it hands out a result or declares one. -/
theorem parameter_of_not_starred {p : Parameter} (h : isStarred p = false) :
    (parameter p).starred = false ∧
      ((parameter p).defaultText.isSome ↔
        p.direction = .outReference ∨ p.defaultValue.isSome) := by
  have hsingle : (if p.variadic then element? p.type else none) = none := by
    simp only [isStarred, Bool.and_eq_false_iff, Option.isSome_eq_false_iff,
      Option.isNone_iff_eq_none] at h
    split
    · rename_i hvariadic
      exact h.resolve_left (by simp [hvariadic])
    · rfl
  simp only [parameter, hsingle]
  split
  · rename_i hout
    simp [hout]
  · rename_i hin
    simp [hin, isSome_typedDefault]

/-- A parameter stands without a star and without a default value exactly if it is due. -/
theorem isDue_eq_false_iff (p : Parameter) :
    isDue p = false ↔ (parameter p).starred = true ∨ (parameter p).defaultText.isSome := by
  cases hstarred : isStarred p with
  | true => simp [isDue, hstarred, parameter_of_starred hstarred]
  | false =>
      obtain ⟨hplain, hdefault⟩ := parameter_of_not_starred hstarred
      rw [hdefault, hplain]
      by_cases hout : p.direction = .outReference
      · simp [isDue, hout]
      · cases hvalue : p.defaultValue <;> simp [isDue, hstarred, hout, hvalue]

theorem IsLegal.tail {p : Parameter} {rest : List Parameter} (h : IsLegal (p :: rest)) :
    IsLegal rest := by
  refine ⟨(List.pairwise_cons.mp h.defaults).2, fun q hq => h.variadic q ?_⟩
  cases rest with
  | nil => simp at hq
  | cons r more => exact List.mem_cons_of_mem _ hq

/-- Only the last parameter of a legal list can be starred. -/
theorem IsLegal.head {p q : Parameter} {rest : List Parameter} (h : IsLegal (p :: rest))
    (hq : q ∈ rest) : isStarred p = false := by
  have hvariadic : p.variadic = false := by
    apply h.variadic
    cases rest with
    | nil => simp at hq
    | cons r more => exact List.mem_cons_self
  simp [isStarred, hvariadic]

theorem defaultsLast_parameters {ps : List Parameter} (h : IsLegal ps) :
    DefaultsLast (parameters ps) ↔
      ps.Pairwise fun p q => p.direction = .outReference → isDue q = false := by
  rw [DefaultsLast, parameters, List.pairwise_map]
  induction ps with
  | nil => simp
  | cons p rest ih =>
      rw [List.pairwise_cons, List.pairwise_cons]
      refine and_congr (forall₂_congr fun q hq => ?_) (ih h.tail)
      rw [(parameter_of_not_starred (h.head hq)).2, ← isDue_eq_false_iff]
      constructor
      · intro hdue hout
        exact hdue (.inl hout)
      · -- A default value that was declared is followed by declared ones only.
        intro hdue hsome
        cases hsome with
        | inl hout => exact hdue hout
        | inr hdefault =>
            have hlater := (List.pairwise_cons.mp h.defaults).1 q hq hdefault
            simp [isDue, Option.isNone_eq_false_iff.mpr hlater]

/-- A legal list is printed in a legal order exactly if no parameter that is due comes after one
that hands out a result; the receiver makes no difference. -/
theorem legal_order_iff_nothing_due_after_out {ps : List Parameter} (h : IsLegal ps) :
    (DefaultsLast (parameters ps) ↔
        ps.Pairwise fun p q => p.direction = .outReference → isDue q = false) ∧
      (DefaultsLast (withReceiver ps) ↔ DefaultsLast (parameters ps)) := by
  refine ⟨defaultsLast_parameters h, ?_⟩
  rw [DefaultsLast, withReceiver, List.pairwise_cons]
  simp [Python.Parameter.receiver, DefaultsLast]

/-- A number, a result, a flag that may be left out, and all that is left. -/
def castParameters : List Parameter :=
  [{ name := "layer", type := .primitive .int32 },
    { name := "hit", type := .named "Hit" [], direction := .outReference },
    { name := "sorted", type := .primitive .bool, defaultValue := some (.boolean true) },
    { name := "names", type := .array (.primitive .string), variadic := true,
      defaultValue := some .null }]

theorem isLegal_castParameters : IsLegal castParameters := ⟨by decide, by decide⟩

theorem legal_order_of_cast :
    IsLegal castParameters ∧ DefaultsLast (parameters castParameters) := by
  refine ⟨isLegal_castParameters, ?_⟩
  exact (legal_order_iff_nothing_due_after_out isLegal_castParameters).1.mpr (by decide)

/-- A result that is handed out before a number. -/
def hitThenLayer : List Parameter :=
  [{ name := "hit", type := .named "Hit" [], direction := .outReference },
    { name := "layer", type := .primitive .int32 }]

/-- Legal where it comes from, this list is printed with a parameter that has to be given after one
that may be left out. -/
theorem illegal_order_of_out_before_due :
    IsLegal hitThenLayer ∧
      Python.parametersText (parameters hitThenLayer) = "hit: Any = None, layer: int" ∧
      ¬ DefaultsLast (parameters hitThenLayer) ∧ ¬ DefaultsLast (withReceiver hitThenLayer) :=
  ⟨⟨by decide, by decide⟩, by decide +kernel, by decide, by decide⟩

end StubTree.Stub
