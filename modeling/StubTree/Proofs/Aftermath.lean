import StubTree.Proofs.Removal

/-!
What an action leaves behind, however it ends. An action that fails keeps what
it has done so far: directories that were made on the way stay. A file is
written at the very end or not at all.
-/

namespace StubTree.Files.Action

open Files.Tree

variable {α β : Type}

/-- The tree after an action, whether it has succeeded or not. -/
def after (action : Action α) (tree : Tree) : Tree :=
  match action tree with
  | .ok _ tree' => tree'
  | .error _ tree' => tree'

theorem after_get_bind (next : Tree → Action α) (tree : Tree) :
    after (get >>= next) tree = after (next tree) tree := rfl

theorem after_modify_bind (f : Tree → Tree) (next : PUnit → Action α) (tree : Tree) :
    after (modify f >>= next) tree = after (next ()) (f tree) := rfl

/-- Either the first action is the last that did anything, or the next one goes on from it. -/
theorem after_bind_cases (action : Action α) (next : α → Action β) (tree : Tree) :
    after (action >>= next) tree = after action tree ∨
      ∃ a, action tree = .ok a (after action tree) ∧
        after (action >>= next) tree = after (next a) (after action tree) := by
  simp only [after, Bind.bind, EStateM.bind]
  cases action tree with
  | error fault middle => exact .inl rfl
  | ok a middle => exact .inr ⟨a, rfl, rfl⟩

theorem after_ofExcept_bind_cases (e : Except Fault α) (next : α → Action β) (tree : Tree) :
    after (ofExcept e >>= next) tree = tree ∨
      ∃ a, e = .ok a ∧ after (ofExcept e >>= next) tree = after (next a) tree := by
  cases e with
  | error fault => exact .inl rfl
  | ok a => exact .inr ⟨a, rfl, rfl⟩

/-- What only looks at the tree in the end leaves it as it is. -/
theorem after_look_bind (action : Action α) {next : α → Action β} {tree : Tree}
    (h : ∀ a tree, after (next a) tree = tree) :
    after (action >>= next) tree = after action tree := by
  rcases after_bind_cases action next tree with hsame | ⟨a, -, hnext⟩
  · exact hsame
  · rw [hnext, h]

/-- Directories are made up to the place where the names can be followed no further. -/
theorem createFrom_after (place : Place) (names : List String) (tree : Tree) :
    ∃ made, made <+: entered place names ∧
      Along made tree (after (createFrom place names) tree) := by
  induction names generalizing place tree with
  | nil => exact ⟨[], List.nil_prefix, .refl tree⟩
  | cons name rest ih =>
      simp only [createFrom, entered]
      by_cases hup : name = ".."
      · rw [if_pos hup, if_pos hup]
        exact ih place.dropLast tree
      · rw [if_neg hup, if_neg hup]
        by_cases hlong : longestName < name.utf8ByteSize
        · rw [if_pos hlong]
          exact ⟨[], List.nil_prefix, .refl tree⟩
        · rw [if_neg hlong, after_get_bind]
          cases hnext : tree.get? (place ++ [name]) with
          | none =>
              rw [after_modify_bind]
              obtain ⟨made, hmade, halong⟩ :=
                ih (place ++ [name]) (tree.put (place ++ [name]) .directory)
              exact ⟨_ :: made, List.cons_prefix_cons.mpr ⟨rfl, hmade⟩,
                halong.cons_of_put (by simp) hnext⟩
          | some entry =>
              cases entry with
              | directory =>
                  obtain ⟨made, hmade, halong⟩ := ih (place ++ [name]) tree
                  exact ⟨_ :: made, List.cons_prefix_cons.mpr ⟨rfl, hmade⟩,
                    halong.cons_of_directory hnext⟩
              | file content => exact ⟨[], List.nil_prefix, .refl tree⟩

/-- However far directories are made, it is along the names of the path. -/
theorem createDirectories_after (path : String) (tree : Tree) :
    ∃ made, Along made tree (after (createDirectories path) tree) ∧
      ∀ place ∈ made, ∃ segments, tree.segmentsFrom path = .ok segments ∧
        place ∈ entered [] (namesIn segments) := by
  simp only [createDirectories]
  by_cases hempty : path.isEmpty = true
  · rw [if_pos hempty]
    exact ⟨[], .refl tree, by simp⟩
  · rw [if_neg hempty, after_get_bind]
    rcases after_ofExcept_bind_cases (tree.segmentsFrom path) _ tree with
      hsame | ⟨segments, hok, hnext⟩
    · rw [hsame]
      exact ⟨[], .refl tree, by simp⟩
    · rw [hnext]
      change ∃ made, Along made tree (after (if endsInDot segments = true then _ else
        createFrom [] (namesIn segments)) tree) ∧ _
      by_cases hdot : endsInDot segments = true
      · rw [if_pos hdot]
        obtain ⟨made, hmade, halong⟩ := createFrom_after [] (namesIn segments).dropLast tree
        refine ⟨made, ?_, fun place hplace => ⟨segments, hok, ?_⟩⟩
        · rw [after_look_bind]
          · exact halong
          · intro _ made
            rw [after_get_bind]
            rcases after_ofExcept_bind_cases (made.follow [] segments) _ made with
              hsame | ⟨last, -, hlast⟩
            · exact hsame
            · rw [hlast, after_get_bind]
              split <;> rfl
        · exact mem_entered_of_dropLast (hmade.subset hplace)
      · rw [if_neg hdot]
        obtain ⟨made, hmade, halong⟩ := createFrom_after [] (namesIn segments) tree
        exact ⟨made, halong, fun place hplace => ⟨segments, hok, hmade.subset hplace⟩⟩

theorem write_after (path : String) (content : List UInt8) (tree : Tree) :
    after (write path content) tree = tree ∨
      ∃ place, tree.filePlace path = .ok place ∧
        after (write path content) tree = tree.put place (.file content) := by
  simp only [write, after_get_bind]
  exact after_ofExcept_bind_cases _ _ tree

theorem append_after (path : String) (content : List UInt8) (tree : Tree) :
    after (append path content) tree = tree ∨
      ∃ place, tree.filePlace path = .ok place ∧
        after (append path content) tree =
          tree.put place (.file (tree.contentAt place ++ content)) := by
  simp only [append, after_get_bind]
  exact after_ofExcept_bind_cases _ _ tree

/-- A directory that cannot be removed has still been emptied. -/
theorem removeDirectory_after (path : String) (tree : Tree) :
    after (removeDirectory path) tree = tree ∨
      Gone (placeOf tree path) tree (after (removeDirectory path) tree) := by
  cases hthere : tree.isDirectoryAt path with
  | false =>
      obtain ⟨fault, herror⟩ := removeDirectory_of_other hthere
      simp only [after, herror, true_or]
  | true =>
      refine .inr ?_
      have hcleared := gone_clear tree (placeOf tree path)
      simp only [after, removeDirectory_of_directory hthere]
      by_cases hthrough : Reenters tree path
      · rw [if_pos hthrough]
        exact hcleared
      · rw [if_neg hthrough]
        cases unlinkFault? path with
        | some fault => exact hcleared
        | none => exact hcleared.remove

end StubTree.Files.Action
