import StubTree.Proofs.MethodOrder
import StubTree.Proofs.Overloads

/-!
Marks that stand alone. Functions of one name are marked as overloads because
there are several constructors, because there are several methods of the name,
or because a conversion is always marked; so a mark without a second one comes
from a single conversion beside at most one constructor and at most one method
that is named like it.
-/

namespace StubTree.Stub

open Metadata Python

def acceptedConstructors (t : TypeInfo) : List Constructor := constructorsOf (accepted t.members)

/-- A function of a name that is marked as an overload. -/
def isMarkedAs (name : String) (f : Function) : Bool :=
  f.decorators.contains overloadMark && f.name = name

def markedCount (name : String) (body : List Statement) : Nat :=
  (functionsIn body).countP (isMarkedAs name)

/-- How many of a number of items are marked when they are only marked together. -/
def severalOf (n : Nat) : Nat := if 1 < n then n else 0

/-- A class whose one conversion stands beside no other initializer that is marked. -/
structure HasLoneConversion (t : TypeInfo) : Prop where
  conversions : (acceptedMethods t).countP isConversion = 1
  constructors : (acceptedConstructors t).length ≤ 1
  initializers : plainCount (acceptedMethods t) initializer ≤ 1

section Counting

theorem severalOf_cases (n : Nat) : n ≤ 1 ∧ severalOf n = 0 ∨ 1 < n ∧ severalOf n = n := by
  rw [severalOf]
  split <;> omega

variable {α : Type} {name : String}

theorem markedCount_append (body body' : List Statement) :
    markedCount name (body ++ body') = markedCount name body + markedCount name body' := by
  rw [markedCount, functionsIn_append, List.countP_append]
  rfl

/-- Where an item leaves a mark for each of two conditions, as many are left as meet them. -/
theorem markedCount_flatMap {items : List α} {f : α → List Statement} {q r : α → Bool}
    (h : ∀ a ∈ items, markedCount name (f a) = (q a).toNat + (r a).toNat) :
    markedCount name (items.flatMap f) = items.countP q + items.countP r := by
  induction items with
  | nil => rfl
  | cons a rest ih =>
      rw [List.forall_mem_cons] at h
      rw [List.flatMap_cons, markedCount_append, h.1, ih h.2, List.countP_cons, List.countP_cons]
      cases q a <;> cases r a <;> simp <;> omega

theorem isMarkedAs_overloadIf {marked : Bool} {more : List String} (hmore : overloadMark ∉ more)
    (declared : String) (ps : List Python.Parameter) (result : TypeExpr) :
    isMarkedAs name ⟨overloadIf marked ++ more, declared, ps, result⟩ =
      (marked && declared = name) := by
  rw [isMarkedAs]
  cases marked <;> simp [overloadIf, hmore]

theorem markedCount_function (f : Function) :
    markedCount name [.function f] = (isMarkedAs name f).toNat := by
  rw [markedCount]
  cases h : isMarkedAs name f <;> simp [functionsIn, h]

theorem markedCount_constructorStubs (cs : List Constructor) :
    markedCount name (constructorStubs cs) =
      if name = initializer then severalOf cs.length else 0 := by
  have hone (c : Constructor) : markedCount name [constructorStub (isSeveral cs) c] =
      (isSeveral cs && initializer = name).toNat + false.toNat := by
    rw [constructorStub, markedCount_function, ← isMarkedAs_overloadIf List.not_mem_nil,
      List.append_nil]
    rfl
  rw [constructorStubs, List.map_eq_flatMap, markedCount_flatMap fun c _ => hone c, severalOf]
  by_cases hname : name = initializer
  · by_cases hseveral : 1 < cs.length <;> simp [isSeveral, hname, hseveral]
  · simp [hname, Ne.symm hname]

theorem markedCount_propertyStubs (ps : List Property) :
    markedCount name (ps.flatMap propertyStubs) = 0 := by
  rw [markedCount, functionsIn_propertyStubs, List.countP_map]
  refine List.countP_eq_zero.mpr fun d hd => ?_
  have hmarked : d.function.decorators.contains overloadMark = false := (isMarked_property hd).2
  rw [Function.comp_apply, isMarkedAs, hmarked, Bool.false_and]
  exact Bool.false_ne_true

theorem markedCount_operatorStubs (m : Method) (symbol : String) :
    markedCount name (operatorStubs m symbol) =
      (operatorSlot? symbol = some initializer && initializer = name : Bool).toNat := by
  rw [operatorStubs]
  cases operatorSlot? symbol with
  | none => rfl
  | some slot =>
      by_cases hslot : slot = initializer
      · simp [hslot, markedCount_function, isMarkedAs]
      · simp [hslot, markedCount_function, isMarkedAs]

/-- A method is marked as a conversion, or because there are others of its name. -/
theorem markedCount_methodStatements (ms : List Method) (m : Method) :
    markedCount name (methodStatements ms m) =
      (isConversion m && initializer = name).toNat +
        (m.operator.isNone && m.name = name && isOverloaded ms m).toNat := by
  rw [methodStatements, isConversion]
  cases m.operator with
  | some symbol => simp [markedCount_operatorStubs]
  | none =>
      have hstatic : overloadMark ∉ if m.isStatic then ["staticmethod"] else [] := by
        split <;> decide
      simp [methodStub, markedCount_function, isMarkedAs_overloadIf hstatic, Bool.and_comm]

theorem markedCount_methodStubs (ms : List Method) :
    markedCount name (methodStubs ms) =
      (if name = initializer then ms.countP isConversion else 0) +
        severalOf (plainCount ms name) := by
  have hconversions : ms.countP (fun m => isConversion m && initializer = name) =
      if name = initializer then ms.countP isConversion else 0 := by
    by_cases hname : name = initializer
    · simp [hname]
    · simp [hname, Ne.symm hname]
  have hplain : ms.countP (fun m => m.operator.isNone && m.name = name && isOverloaded ms m) =
      severalOf (plainCount ms name) := by
    by_cases hseveral : 1 < plainCount ms name
    · rw [severalOf, if_pos hseveral, plainCount]
      refine List.countP_congr fun m _ => ?_
      simp only [Bool.and_eq_true, decide_eq_true_eq, isOverloaded]
      exact ⟨fun h => h.1, fun h => ⟨h, h.2 ▸ hseveral⟩⟩
    · rw [severalOf, if_neg hseveral]
      refine List.countP_eq_zero.mpr fun m _ => ?_
      simp only [Bool.and_eq_true, decide_eq_true_eq, isOverloaded]
      exact fun h => hseveral (h.1.2 ▸ h.2)
  rw [methodStubs_eq, markedCount_flatMap fun i _ => markedCount_methodStatements ms ms[i],
    countP_writingOrder ms fun m => isConversion m && initializer = name,
    countP_writingOrder ms fun m => m.operator.isNone && m.name = name && isOverloaded ms m,
    hconversions, hplain]

end Counting

section Classes

/-- Constructors and methods of a name are marked together, conversions each for itself. -/
theorem markedCount_class (t : TypeInfo) (name : String) :
    markedCount name (classBody t.members (nestedStubs t.members)) =
      (if name = initializer then
        severalOf (acceptedConstructors t).length + (acceptedMethods t).countP isConversion
      else 0) + severalOf (plainCount (acceptedMethods t) name) := by
  have hsections : markedCount name (classBody t.members (nestedStubs t.members)) =
      markedCount name (constructorStubs (acceptedConstructors t)) +
        markedCount name (methodStubs (acceptedMethods t)) := by
    rw [markedCount, functionsIn_classBody, definitionsOf, List.map_append, List.map_append,
      ← functionsIn_constructorStubs, ← functionsIn_propertyStubs, ← functionsIn_methodStubs,
      List.countP_append, List.countP_append]
    exact congrArg (_ + · + _) (markedCount_propertyStubs _)
  rw [hsections, markedCount_constructorStubs, markedCount_methodStubs, ← Nat.add_assoc]
  split <;> rfl

/-- A function is the only one of its name to be marked exactly if it is the one conversion beside
at most one constructor and at most one method that is named like it. -/
theorem lone_mark_iff_lone_conversion (t : TypeInfo) (hkind : t.kind ≠ .unsupported)
    (hclass : t.kind ≠ .enumeration) :
    ∃ body, stub? t = some (.classDef t.name (classHeading t.base) body) ∧
      ∀ name,
        (markedCount name body = 1 ↔ name = initializer ∧ HasLoneConversion t) ∧
        (¬ (name = initializer ∧ HasLoneConversion t) →
          markedCount name body = 0 ∨ 2 ≤ markedCount name body) := by
  refine ⟨_, stub?_of_class hkind hclass, fun name => ?_⟩
  have hiff : markedCount name (classBody t.members (nestedStubs t.members)) = 1 ↔
      name = initializer ∧ HasLoneConversion t := by
    have hconstructors := severalOf_cases (acceptedConstructors t).length
    have hplain := severalOf_cases (plainCount (acceptedMethods t) name)
    rw [markedCount_class]
    by_cases hname : name = initializer
    · subst hname
      rw [if_pos rfl]
      constructor
      · exact fun hone => ⟨rfl, by omega, by omega, by omega⟩
      · intro ⟨_, hlone⟩
        have hconversions := hlone.conversions
        have hfew := hlone.constructors
        have hinitializers := hlone.initializers
        omega
    · rw [if_neg hname]
      exact ⟨fun hone => by omega, fun h => absurd h.1 hname⟩
  refine ⟨hiff, fun hnot => ?_⟩
  have hne := mt hiff.mp hnot
  omega

/-- A class with a constructor and a conversion, two methods of one name, and a class within it that
has a conversion of its own. -/
def temperature : TypeInfo where
  name := "Temperature"
  kind := .value
  members :=
    [.constructor { parameters := [{ name := "degrees", type := .primitive .double }] },
      .method { name := "Convert", returnType := .named "Temperature" [],
                operator := some "op_Implicit",
                parameters := [{ name := "degrees", type := .primitive .single }] },
      .method { name := "Convert", returnType := .primitive .void },
      .method { name := "Convert", returnType := .primitive .void,
                parameters := [{ name := "scale", type := .primitive .int32 }] },
      .nested { name := "Scale", kind := .reference,
                members := [.method (.ofOperator "op_Explicit" [] (.named "Scale" []))] }]

theorem lone_mark_of_temperature :
    temperature.kind ≠ .unsupported ∧ temperature.kind ≠ .enumeration ∧
      ∃ body, stub? temperature = some (.classDef "Temperature" .plain body) ∧
        markedCount initializer body = 1 ∧ markedCount "Convert" body ≠ 1 := by
  have hkind : temperature.kind ≠ .unsupported := by decide
  have hclass : temperature.kind ≠ .enumeration := by decide
  obtain ⟨body, hstub, hcount⟩ := lone_mark_iff_lone_conversion temperature hkind hclass
  have hlone : HasLoneConversion temperature := ⟨by decide +kernel, by decide, by decide +kernel⟩
  exact ⟨hkind, hclass, body, hstub, (hcount initializer).1.mpr ⟨rfl, hlone⟩,
    fun hone => absurd ((hcount "Convert").1.mp hone).1 (by decide)⟩

end Classes

end StubTree.Stub
