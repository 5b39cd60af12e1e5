import StubTree.Proofs.Paths
import StubTree.Proofs.Trees

/-!
Where names lead when they are taken one by one. A name leads into a directory
and two dots lead out of it; the places that are entered on the way are those
where directories have to be. Names without two dots lead straight down.
-/

namespace StubTree.Files

/-- The place behind names, two dots leading back. -/
def walk : Place → List String → Place
  | place, [] => place
  | place, name :: rest => walk (if name = ".." then place.dropLast else place ++ [name]) rest

/-- The places that names enter on their way. -/
def entered : Place → List String → List Place
  | _, [] => []
  | place, name :: rest =>
    if name = ".." then entered place.dropLast rest
    else (place ++ [name]) :: entered (place ++ [name]) rest

section Segments

variable {place : Place} {segment : String} {rest : List String}

theorem entered_idle (h : isIdle segment = true) :
    entered place (namesIn (segment :: rest)) = entered place (namesIn rest) := by
  simp [namesIn, h]

theorem entered_upwards :
    entered place (namesIn (".." :: rest)) = entered place.dropLast (namesIn rest) := by
  have hidle : isIdle ".." = false := by decide
  simp [namesIn, hidle, entered]

theorem entered_named (hidle : isIdle segment = false) (hup : segment ≠ "..") :
    entered place (namesIn (segment :: rest)) =
      (place ++ [segment]) :: entered (place ++ [segment]) (namesIn rest) := by
  simp [namesIn, hidle, hup, entered]

end Segments

theorem walk_append (place : Place) (front back : List String) :
    walk place (front ++ back) = walk (walk place front) back := by
  induction front generalizing place with
  | nil => rfl
  | cons name rest ih => simp only [List.cons_append, walk, ih]

theorem entered_append (place : Place) (front back : List String) :
    entered place (front ++ back) = entered place front ++ entered (walk place front) back := by
  induction front generalizing place with
  | nil => rfl
  | cons name rest ih =>
      simp only [List.cons_append, entered, walk]
      split
      · rw [ih]
      · rw [ih, List.cons_append]

theorem mem_entered_of_dropLast {place p : Place} {names : List String}
    (h : p ∈ entered place names.dropLast) : p ∈ entered place names := by
  obtain ⟨more, hmore⟩ := List.dropLast_prefix names
  rw [← hmore, entered_append]
  exact List.mem_append_left _ h

/-- A single name enters at most the place where it leads. -/
theorem eq_of_mem_entered_single {place p : Place} {name : String} (h : p ∈ entered place [name]) :
    p = walk place [name] := by
  simp only [entered] at h
  split at h
  · cases h
  · rename_i hup
    rw [walk, if_neg hup]
    exact List.mem_singleton.mp h

theorem walk_of_not_upwards (place : Place) {names : List String} (hup : ".." ∉ names) :
    walk place names = place ++ names := by
  induction names generalizing place with
  | nil => simp [walk]
  | cons name rest ih =>
      simp only [List.mem_cons, not_or] at hup
      rw [walk, if_neg (Ne.symm hup.1), ih _ hup.2]
      simp

theorem mem_entered_of_not_upwards {place p : Place} {names : List String}
    (hup : ".." ∉ names) :
    p ∈ entered place names ↔ ∃ inner, inner ≠ [] ∧ inner <+: names ∧ p = place ++ inner := by
  induction names generalizing place with
  | nil =>
      simp only [entered, List.not_mem_nil, List.prefix_nil, false_iff]
      intro h
      obtain ⟨inner, hne, hnil, -⟩ := h
      exact hne hnil
  | cons name rest ih =>
      simp only [List.mem_cons, not_or] at hup
      simp only [entered, if_neg (Ne.symm hup.1), List.mem_cons, ih hup.2]
      constructor
      · intro h
        cases h with
        | inl heq => exact ⟨[name], by simp, by simp, heq⟩
        | inr h =>
            obtain ⟨inner, -, hinner, rfl⟩ := h
            exact ⟨name :: inner, by simp, List.cons_prefix_cons.mpr ⟨rfl, hinner⟩, by simp⟩
      · intro h
        obtain ⟨inner, hne, hinner, rfl⟩ := h
        cases inner with
        | nil => exact absurd rfl hne
        | cons first more =>
            obtain ⟨rfl, hmore⟩ := List.cons_prefix_cons.mp hinner
            by_cases hnil : more = []
            · exact .inl (by rw [hnil])
            · exact .inr ⟨more, hnil, hmore, by simp⟩

/-- Straight down, the end is entered last. -/
theorem not_mem_entered_dropLast {names : List String} (hup : ".." ∉ names) (hne : names ≠ []) :
    names ∉ entered [] names.dropLast := by
  intro hmem
  have hup' : ".." ∉ names.dropLast := fun h => hup ((List.dropLast_sublist _).mem h)
  obtain ⟨inner, -, hinner, heq⟩ := (mem_entered_of_not_upwards hup').mp hmem
  have hlength := hinner.length_le
  rw [← List.nil_append inner, ← heq, List.length_dropLast] at hlength
  have hpos := List.length_pos_iff.mpr hne
  omega

/-- Whatever is above the end of a walk was above its start or has been entered. -/
theorem outer_walk {place p : Place} {names : List String} (h : p <+: walk place names) :
    p <+: place ∨ p ∈ entered place names := by
  induction names generalizing place with
  | nil => exact .inl h
  | cons name rest ih =>
      simp only [walk, entered] at h ⊢
      by_cases hup : name = ".."
      · rw [if_pos hup] at h ⊢
        cases ih h with
        | inl habove => exact .inl (habove.trans (List.dropLast_prefix place))
        | inr hentered => exact .inr hentered
      · rw [if_neg hup] at h ⊢
        cases ih h with
        | inl habove =>
            cases List.prefix_concat_iff.mp habove with
            | inl heq => exact .inr (by rw [heq]; exact List.mem_cons_self)
            | inr habove => exact .inl habove
        | inr hentered => exact .inr (List.mem_cons_of_mem _ hentered)

/-- What is above a place on the way was above the start or is on the way too. -/
theorem outer_entered {place p outer : Place} {names : List String} (hp : p ∈ entered place names)
    (houter : outer <+: p) : outer <+: place ∨ outer ∈ entered place names := by
  induction names generalizing place with
  | nil => cases hp
  | cons name rest ih =>
      simp only [entered] at hp ⊢
      by_cases hup : name = ".."
      · rw [if_pos hup] at hp ⊢
        exact (ih hp).imp_left fun habove => habove.trans (List.dropLast_prefix place)
      · rw [if_neg hup] at hp ⊢
        have hhere (habove : outer <+: place ++ [name]) :
            outer <+: place ∨ outer ∈ (place ++ [name]) :: entered (place ++ [name]) rest :=
          (List.prefix_concat_iff.mp habove).symm.imp_right fun heq => by simp [heq]
        cases hp with
        | head => exact hhere houter
        | tail _ hp =>
            rcases ih hp with habove | hmem
            · exact hhere habove
            · exact .inr (List.mem_cons_of_mem _ hmem)

end StubTree.Files
