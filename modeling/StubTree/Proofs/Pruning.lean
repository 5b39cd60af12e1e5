import StubTree.Stub.Body

/-!
Members that leave nothing in a stub. Rejected members and nested types without
a stub of their own can be deleted at every depth, and the text stays the same.
An operator without a slot cannot be deleted like this: it leaves nothing
either, but it decides where the other methods of its name stand.
-/

namespace StubTree.Stub

open Metadata

mutual

/-- A type without the members that are rejected and without nested types of no supported kind. -/
def prune : TypeInfo → TypeInfo
  | ⟨header, members⟩ => ⟨header, pruneMembers members⟩

def pruneMembers : List Member → List Member
  | [] => []
  | .nested t :: rest =>
    if (memberRejection? (.nested t)).isSome || t.kind = .unsupported then pruneMembers rest
    else .nested (prune t) :: pruneMembers rest
  | m :: rest =>
    if (memberRejection? m).isSome then pruneMembers rest else m :: pruneMembers rest

end

@[simp] theorem toTypeHeader_prune (t : TypeInfo) : (prune t).toTypeHeader = t.toTypeHeader := by
  cases t
  rfl

theorem isSome_memberRejection?_nested (t : TypeInfo) :
    (memberRejection? (.nested t)).isSome = (typeRejection? t.toTypeHeader).isSome := by
  simp only [memberRejection?, MemberRejection.all, MemberRejection.applies, List.find?_cons]
  cases (typeRejection? t.toTypeHeader).isSome <;> rfl

theorem pruneMembers_cons {m : Member} (h : ∀ t, m ≠ .nested t) (rest : List Member) :
    pruneMembers (m :: rest) =
      if (memberRejection? m).isSome then pruneMembers rest else m :: pruneMembers rest := by
  cases m with
  | nested t => exact absurd rfl (h t)
  | constructor c => rfl
  | property p => rfl
  | field f => rfl
  | method m => rfl

theorem accepted_cons (m : Member) (rest : List Member) :
    accepted (m :: rest) =
      if (memberRejection? m).isSome then accepted rest else m :: accepted rest := by
  simp only [accepted, List.filter_cons]
  cases memberRejection? m <;> rfl

/-- Whatever is taken from the members apart from nested types is taken from the pruned ones. -/
theorem filterMap_accepted_pruneMembers {α : Type} {f : Member → Option α}
    (hnested : ∀ t, f (.nested t) = none) (members : List Member) :
    (accepted (pruneMembers members)).filterMap f = (accepted members).filterMap f := by
  induction members with
  | nil => rfl
  | cons m rest ih =>
      by_cases hm : ∃ t, m = .nested t
      · obtain ⟨t, rfl⟩ := hm
        have hold : (accepted (.nested t :: rest)).filterMap f = (accepted rest).filterMap f := by
          rw [accepted_cons]
          split
          · rfl
          · rw [List.filterMap_cons_none (hnested t)]
        rw [hold, pruneMembers]
        split
        · exact ih
        · rw [accepted_cons]
          split
          · exact ih
          · rw [List.filterMap_cons_none (hnested _), ih]
      · rw [pruneMembers_cons (fun t heq => hm ⟨t, heq⟩), accepted_cons]
        split
        · exact ih
        · rename_i hkept
          rw [accepted_cons, if_neg hkept, List.filterMap_cons, List.filterMap_cons, ih]

theorem classBody_pruneMembers {members : List Member} {nested nested' : List Python.Statement}
    (h : nested' = nested) : classBody (pruneMembers members) nested' =
      classBody members nested := by
  have hconstructors : constructorsOf (accepted (pruneMembers members)) =
      constructorsOf (accepted members) := filterMap_accepted_pruneMembers (fun _ => rfl) members
  have hproperties : propertiesOf (accepted (pruneMembers members)) =
      propertiesOf (accepted members) := filterMap_accepted_pruneMembers (fun _ => rfl) members
  have hfields : fieldsOf (accepted (pruneMembers members)) =
      fieldsOf (accepted members) := filterMap_accepted_pruneMembers (fun _ => rfl) members
  have hmethods : methodsOf (accepted (pruneMembers members)) =
      methodsOf (accepted members) := filterMap_accepted_pruneMembers (fun _ => rfl) members
  simp only [classBody, hconstructors, hproperties, hfields, hmethods, h]

theorem stub?_of_unsupported {t : TypeInfo} (h : t.kind = .unsupported) : stub? t = none := by
  obtain ⟨header, members⟩ := t
  simp only at h
  simp only [stub?, h]

mutual

theorem stub?_prune (t : TypeInfo) : stub? (prune t) = stub? t := by
  obtain ⟨header, members⟩ := t
  have hnested := nestedStubs_pruneMembers members
  simp only [prune, stub?, classBody_pruneMembers hnested]

/-- Deleted nested types had no stub, and those that stay have the same. -/
theorem nestedStubs_pruneMembers (members : List Member) :
    nestedStubs (pruneMembers members) = nestedStubs members := by
  match members with
  | [] => rfl
  | .nested t :: rest =>
    have hstub := stub?_prune t
    have hrest := nestedStubs_pruneMembers rest
    simp only [pruneMembers, nestedStubs, isSome_memberRejection?_nested]
    by_cases hrejected : (typeRejection? t.toTypeHeader).isSome = true
    · simp only [hrejected, Bool.true_or, ↓reduceIte, List.nil_append, hrest]
    · by_cases hkind : t.kind = .unsupported
      · simp only [hrejected, hkind, decide_true, Bool.or_true, ↓reduceIte, hrest,
          stub?_of_unsupported hkind, Bool.false_eq_true, List.nil_append]
      · simp only [hrejected, hkind, decide_false, Bool.or_false, Bool.false_eq_true, ↓reduceIte,
          nestedStubs, toTypeHeader_prune, hstub, hrest]
  | .constructor c :: rest | .property c :: rest | .field c :: rest | .method c :: rest =>
    have hrest := nestedStubs_pruneMembers rest
    simp only [pruneMembers, nestedStubs]
    split
    · exact hrest
    · simp only [nestedStubs, hrest]

end

theorem text?_prune (depth : Nat) (t : TypeInfo) : text? depth (prune t) = text? depth t := by
  rw [text?, text?, stub?_prune]

end StubTree.Stub
