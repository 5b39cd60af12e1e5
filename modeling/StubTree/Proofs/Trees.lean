import StubTree.Files.Access

/-!
What is at a place after a tree has been changed. A tree is grounded when
whatever it holds stands in a directory; a real tree always is, and every
change that an action makes keeps it so.
-/

namespace StubTree.Files

/-- The first list goes on to become the second. -/
def StrictlyAbove (above below : List String) : Prop := above <+: below ∧ above ≠ below

instance (above below : List String) : Decidable (StrictlyAbove above below) :=
  inferInstanceAs (Decidable (_ ∧ _))

theorem strictlyAbove_append {above more : List String} (hmore : more ≠ []) :
    StrictlyAbove above (above ++ more) :=
  ⟨List.prefix_append above more, by simpa using hmore⟩

theorem strictlyAbove_append_left {front above below : List String} :
    StrictlyAbove (front ++ above) (front ++ below) ↔ StrictlyAbove above below := by
  simp only [StrictlyAbove, List.prefix_append_right_inj, ne_eq, List.append_cancel_left_eq]

theorem not_strictlyAbove_of_isPrefix {above below : List String} (h : below <+: above) :
    ¬StrictlyAbove above below :=
  fun habove => habove.2 (habove.1.eq_of_length_le h.length_le)

theorem StrictlyAbove.trans_prefix {above middle below : List String}
    (h : StrictlyAbove above middle) (h' : middle <+: below) : StrictlyAbove above below :=
  ⟨h.1.trans h', fun heq => h.2 (h.1.eq_of_length_le (heq ▸ h'.length_le))⟩

namespace Tree

theorem get?_nil (tree : Tree) : tree.get? [] = some .directory := rfl

theorem get?_of_ne_nil (tree : Tree) {place : Place} (h : place ≠ []) :
    tree.get? place = tree.entries.lookup place := by
  simp [get?, h]

private theorem lookup_head (place other : Place) (entry : Entry)
    (rest : List (Place × Entry)) :
    ((place, entry) :: rest).lookup other =
      if other = place then some entry else rest.lookup other := by
  by_cases h : other = place
  · subst h
    simp [List.lookup_cons_self]
  · simp [List.lookup_cons, beq_eq_false_iff_ne.mpr h, h]

private theorem lookup_putEntry (place other : Place) (entry : Entry)
    (entries : List (Place × Entry)) :
    (putEntry place entry entries).lookup other =
      if other = place then some entry else entries.lookup other := by
  induction entries with
  | nil => exact lookup_head place other entry []
  | cons head rest ih =>
      obtain ⟨first, old⟩ := head
      simp only [putEntry]
      split
      case isTrue hfirst =>
        rw [lookup_head, lookup_head, hfirst]
        split <;> rfl
      case isFalse hfirst =>
        rw [lookup_head, lookup_head, ih]
        by_cases h : other = first
        · rw [if_pos h, if_pos h, if_neg (h ▸ hfirst)]
        · rw [if_neg h, if_neg h]

theorem get?_put (tree : Tree) {place : Place} (hplace : place ≠ []) (entry : Entry)
    (other : Place) :
    (tree.put place entry).get? other = if other = place then some entry else tree.get? other := by
  by_cases h : other = []
  · subst h
    simp [get?_nil, hplace.symm]
  · rw [get?_of_ne_nil _ h, get?_of_ne_nil _ h]
    exact lookup_putEntry place other entry tree.entries

@[simp]
theorem home_put (tree : Tree) (place : Place) (entry : Entry) :
    (tree.put place entry).home = tree.home := rfl

private theorem lookup_filter_keys (keep : Place → Bool) (entries : List (Place × Entry))
    (place : Place) :
    (entries.filter fun entry => keep entry.1).lookup place =
      if keep place then entries.lookup place else none := by
  induction entries with
  | nil => simp
  | cons head rest ih =>
      obtain ⟨first, entry⟩ := head
      rw [List.filter_cons, lookup_head]
      by_cases hplace : place = first
      · subst hplace
        cases hkeep : keep place with
        | true => simp
        | false => simpa [hkeep] using ih
      · rw [if_neg hplace]
        split
        · rw [lookup_head, if_neg hplace, ih]
        · exact ih

theorem get?_remove (tree : Tree) (place other : Place) :
    (tree.remove place).get? other =
      if place <+: other ∧ other ≠ [] then none else tree.get? other := by
  by_cases h : other = []
  · subst h
    simp [get?_nil]
  · rw [get?_of_ne_nil _ h, get?_of_ne_nil _ h]
    have hlookup := lookup_filter_keys (fun p => !isWithin place p) tree.entries other
    simp only [isWithin] at hlookup
    simp only [remove, isWithin, hlookup]
    by_cases hwithin : place <+: other
    · simp [hwithin, h, List.isPrefixOf_iff_prefix.mpr hwithin]
    · have hfalse : place.isPrefixOf other = false := by
        rw [Bool.eq_false_iff, ne_eq, List.isPrefixOf_iff_prefix]
        exact hwithin
      simp [hwithin, hfalse]

theorem get?_clear (tree : Tree) (place other : Place) :
    (tree.clear place).get? other =
      if StrictlyAbove place other then none else tree.get? other := by
  by_cases h : other = []
  · subst h
    rw [if_neg (not_strictlyAbove_of_isPrefix List.nil_prefix)]
    rfl
  · rw [get?_of_ne_nil _ h, get?_of_ne_nil _ h]
    have hlookup := lookup_filter_keys (fun p => !isWithin place p || p = place) tree.entries other
    simp only [clear, StrictlyAbove]
    rw [hlookup]
    by_cases heq : other = place
    · simp [heq]
    · by_cases hwithin : place <+: other
      · simp [heq, Ne.symm heq, hwithin, isWithin, List.isPrefixOf_iff_prefix.mpr hwithin]
      · have hfalse : place.isPrefixOf other = false := by
          rw [Bool.eq_false_iff, ne_eq, List.isPrefixOf_iff_prefix]
          exact hwithin
        simp [hwithin, isWithin, hfalse]

/-- What was in a place is gone, and with it perhaps the place itself; all else is as it was. -/
structure Gone (place : Place) (tree tree' : Tree) : Prop where
  home : tree'.home = tree.home
  inside : ∀ p, StrictlyAbove place p → tree'.get? p = none
  itself : tree'.get? place = none ∨ tree'.get? place = tree.get? place
  outside : ∀ p, ¬place <+: p → tree'.get? p = tree.get? p

theorem gone_clear (tree : Tree) (place : Place) : Gone place tree (tree.clear place) := by
  refine ⟨rfl, fun p habove => ?_, .inr ?_, fun p hout => ?_⟩
  · rw [get?_clear, if_pos habove]
  · rw [get?_clear, if_neg (not_strictlyAbove_of_isPrefix List.prefix_rfl)]
  · rw [get?_clear, if_neg fun habove => hout habove.1]

theorem Gone.remove {tree tree' : Tree} {place : Place} (h : Gone place tree tree') :
    Gone place tree (tree'.remove place) := by
  refine ⟨h.home, fun p habove => ?_, ?_, fun p hout => ?_⟩
  · rw [get?_remove, h.inside p habove, ite_self]
  · rw [get?_remove]
    split
    · exact .inl rfl
    · exact h.itself
  · rw [get?_remove, if_neg fun hwithin => hout hwithin.1, h.outside p hout]

/-- Where something goes, no file appears. -/
theorem Gone.free {tree tree' : Tree} {place p : Place} (h : Gone place tree tree')
    {content : List UInt8} (hfree : tree.get? p ≠ some (.file content)) :
    tree'.get? p ≠ some (.file content) := by
  by_cases hwithin : place <+: p
  · by_cases heq : place = p
    · subst heq
      rcases h.itself with hnone | hsame
      · simp [hnone]
      · rwa [hsame]
    · simp [h.inside p ⟨hwithin, heq⟩]
  · rwa [h.outside p hwithin]

structure Grounded (tree : Tree) : Prop where
  parent : ∀ place name, (tree.get? (place ++ [name])).isSome → tree.get? place = some .directory

/-- A tree is grounded if each of its entries is in a directory. -/
theorem grounded_of_entries {tree : Tree}
    (h : ∀ entry ∈ tree.entries, tree.get? entry.1.dropLast = some .directory) :
    tree.Grounded := by
  refine ⟨fun place name hsome => ?_⟩
  rw [get?_of_ne_nil tree (by simp)] at hsome
  obtain ⟨entry, hentry⟩ := Option.isSome_iff_exists.mp hsome
  obtain ⟨front, back, hentries, -⟩ := List.lookup_eq_some_iff.mp hentry
  have hparent := h (place ++ [name], entry) (by simp [hentries])
  rwa [List.dropLast_concat] at hparent

theorem Grounded.above {tree : Tree} (h : tree.Grounded) {place more : Place}
    (hmore : more ≠ []) (hsome : (tree.get? (place ++ more)).isSome) :
    tree.get? place = some .directory := by
  induction more generalizing place with
  | nil => exact absurd rfl hmore
  | cons name rest ih =>
      by_cases hrest : rest = []
      · subst hrest
        exact h.parent place name hsome
      · have hnext : tree.get? (place ++ [name]) = some .directory :=
          ih hrest (by simpa using hsome)
        exact h.parent place name (by simp [hnext])

theorem Grounded.outer {tree : Tree} (h : tree.Grounded) {place outer : Place}
    (hplace : tree.get? place = some .directory) (houter : outer <+: place) :
    tree.get? outer = some .directory := by
  obtain ⟨more, rfl⟩ := houter
  by_cases hmore : more = []
  · simpa [hmore] using hplace
  · exact h.above hmore (by simp [hplace])

/-- One tree is another with directories made at places where no files were. -/
structure Along (places : List Place) (tree tree' : Tree) : Prop where
  home : tree'.home = tree.home
  get? : ∀ p, tree'.get? p = if p ∈ places then some .directory else tree.get? p
  free : ∀ p ∈ places, ∀ content, tree.get? p ≠ some (.file content)

theorem Along.refl (tree : Tree) : Along [] tree tree :=
  ⟨rfl, fun _ => by simp, by simp⟩

theorem Along.cons_of_directory {places : List Place} {tree tree' : Tree} {place : Place}
    (h : Along places tree tree') (hplace : tree.get? place = some .directory) :
    Along (place :: places) tree tree' := by
  refine ⟨h.home, fun p => ?_, fun p hp content => ?_⟩
  · rw [h.get?]
    by_cases heq : p = place
    · simp [heq, hplace]
    · simp [heq]
  · cases hp with
    | head => simp [hplace]
    | tail _ hp => exact h.free p hp content

theorem Along.cons_of_put {places : List Place} {tree tree' : Tree} {place : Place}
    (hne : place ≠ []) (hplace : tree.get? place = none)
    (h : Along places (tree.put place .directory) tree') : Along (place :: places) tree tree' := by
  refine ⟨h.home, fun p => ?_, fun p hp content => ?_⟩
  · rw [h.get?, get?_put tree hne]
    by_cases heq : p = place
    · simp [heq]
    · simp [heq]
  · cases hp with
    | head => simp [hplace]
    | tail _ hp =>
        have hfree := h.free p hp content
        rw [get?_put tree hne] at hfree
        by_cases heq : p = place
        · simp [heq, hplace]
        · rwa [if_neg heq] at hfree

/-- A directory that is there in the end may be counted among those that were made. -/
theorem Along.concat {places : List Place} {tree tree' : Tree} {place : Place}
    (h : Along places tree tree') (hplace : tree'.get? place = some .directory) :
    Along (places ++ [place]) tree tree' := by
  refine ⟨h.home, fun p => ?_, fun p hp content => ?_⟩
  · by_cases heq : p = place
    · simp [heq, hplace]
    · simp [h.get?, heq]
  · cases List.mem_append.mp hp with
    | inl hp => exact h.free p hp content
    | inr hp =>
        rw [List.mem_singleton.mp hp]
        intro hfile
        by_cases hmem : place ∈ places
        · exact h.free place hmem content hfile
        · rw [h.get?, if_neg hmem, hfile] at hplace
          simp at hplace

/-- Two trees that cannot be told apart. -/
structure Same (tree tree' : Tree) : Prop where
  home : tree.home = tree'.home
  get? : tree.get? = tree'.get?

theorem Same.refl (tree : Tree) : Same tree tree := ⟨rfl, rfl⟩

theorem Same.put {tree tree' : Tree} (h : Same tree tree') (place : Place) (entry : Entry) :
    Same (tree.put place entry) (tree'.put place entry) := by
  refine ⟨h.home, ?_⟩
  funext p
  by_cases hp : p = []
  · rw [hp, get?_nil, get?_nil]
  · have hsame := congrFun h.get? p
    simp only [get?_of_ne_nil _ hp] at hsame
    simp only [get?_of_ne_nil _ hp, Tree.put, lookup_putEntry, hsame]

end Tree

end StubTree.Files
