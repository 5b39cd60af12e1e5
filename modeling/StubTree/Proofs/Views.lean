import StubTree.Proofs.Access
import StubTree.Source

/-!
What can be seen of a tree. Actions and sources look at a tree only through
what is at its places, so they cannot tell the same trees apart: they end alike
and leave the same trees behind. In which order the entries are stored is
never seen.
-/

namespace StubTree.Files

namespace Tree

variable {tree tree' : Tree} (h : Same tree tree')
include h

theorem Same.follow : tree.follow = tree'.follow := by
  funext place segments
  induction segments generalizing place with
  | nil => simp [Tree.follow]
  | cons segment rest ih =>
      simp only [Tree.follow, h.get?]
      split
      · rfl
      · rfl
      · rw [ih, ih, ih]

theorem Same.segmentsFrom (path : String) : tree.segmentsFrom path = tree'.segmentsFrom path :=
  Tree.segmentsFrom_congr h.home path

theorem Same.locate (path : String) : tree.locate path = tree'.locate path := by
  simp only [Tree.locate, h.follow, h.segmentsFrom]

theorem Same.read (path : String) : tree.read path = tree'.read path := by
  simp only [Tree.read, h.locate, h.get?]

theorem Same.filePlace (path : String) : tree.filePlace path = tree'.filePlace path := by
  simp only [Tree.filePlace, h.segmentsFrom, h.follow, h.get?]

theorem Same.contentAt (place : Place) : tree.contentAt place = tree'.contentAt place := by
  simp only [Tree.contentAt, h.get?]

theorem Same.canonical (path : String) : tree.canonical path = tree'.canonical path := by
  simp only [Tree.canonical, h.locate, Tree.absolutePath, h.home]

theorem Same.types (source : Source) : source.types tree = source.types tree' := by
  cases source with
  | document path id => simp only [Source.types, Source.decodeFile, h.read]
  | fixed id types => rfl
  | broken id reason => rfl

end Tree

namespace Action

variable {α β : Type}

/-- Two ends with the same result that leave the same trees. -/
inductive EndsAlike : EStateM.Result Fault Tree α → EStateM.Result Fault Tree α → Prop where
  | ok {a tree tree'} (same : Tree.Same tree tree') : EndsAlike (.ok a tree) (.ok a tree')
  | error {fault tree tree'} (same : Tree.Same tree tree') :
      EndsAlike (.error fault tree) (.error fault tree')

/-- An action that cannot tell the same trees apart. -/
def Uniform (action : Action α) : Prop :=
  ∀ tree tree', Tree.Same tree tree' → EndsAlike (action tree) (action tree')

theorem uniform_pure (a : α) : Uniform (pure a) := fun _ _ hsame => .ok hsame

theorem uniform_throw (fault : Fault) : Uniform (throw fault : Action α) :=
  fun _ _ hsame => .error hsame

theorem uniform_ofExcept (e : Except Fault α) : Uniform (ofExcept e) := by
  cases e with
  | ok a => exact uniform_pure a
  | error fault => exact uniform_throw fault

theorem uniform_modify {f : Tree → Tree}
    (h : ∀ tree tree', Tree.Same tree tree' → Tree.Same (f tree) (f tree')) :
    Uniform (modify f) := fun tree tree' hsame => .ok (h tree tree' hsame)

theorem Uniform.bind {action : Action α} {next : α → Action β} (h : Uniform action)
    (hnext : ∀ a, Uniform (next a)) : Uniform (action >>= next) := by
  intro tree tree' hsame
  have hends := h tree tree' hsame
  simp only [Bind.bind, EStateM.bind]
  generalize action tree = first at hends
  generalize action tree' = first' at hends
  cases hends with
  | error hsame' => exact .error hsame'
  | ok hsame' => exact hnext _ _ _ hsame'

/-- What an action does with the tree it gets may depend on what is seen of it. -/
theorem uniform_get_bind {next : Tree → Action α}
    (heq : ∀ tree tree', Tree.Same tree tree' → next tree = next tree')
    (h : ∀ tree, Uniform (next tree)) : Uniform (get >>= next) := by
  intro tree tree' hsame
  change EndsAlike (next tree tree) (next tree' tree')
  rw [heq tree tree' hsame]
  exact h tree' tree tree' hsame

theorem uniform_createFrom (place : Place) (names : List String) :
    Uniform (createFrom place names) := by
  induction names generalizing place with
  | nil => exact uniform_pure ()
  | cons name rest ih =>
      simp only [createFrom]
      split
      · exact ih _
      · split
        · exact uniform_throw _
        · refine uniform_get_bind (fun tree tree' hsame => by rw [hsame.get?]) fun tree => ?_
          split
          · exact ih _
          · exact uniform_throw _
          · refine Uniform.bind (uniform_modify fun _ _ hsame => ?_) fun _ => ih _
            exact hsame.put _ _

theorem uniform_createDirectories (path : String) : Uniform (createDirectories path) := by
  simp only [createDirectories]
  split
  · exact uniform_pure ()
  · refine uniform_get_bind (fun tree tree' hsame => by rw [hsame.segmentsFrom]) fun tree => ?_
    refine Uniform.bind (uniform_ofExcept _) fun segments => ?_
    split
    · refine Uniform.bind (uniform_createFrom _ _) fun _ => ?_
      refine uniform_get_bind (fun tree tree' hsame => by rw [hsame.follow]) fun tree => ?_
      refine Uniform.bind (uniform_ofExcept _) fun place => ?_
      refine uniform_get_bind (fun tree tree' hsame => by rw [hsame.get?]) fun tree => ?_
      split
      · exact uniform_pure ()
      · exact uniform_throw _
    · exact uniform_createFrom _ _

theorem uniform_write (path : String) (content : List UInt8) : Uniform (write path content) := by
  refine uniform_get_bind (fun tree tree' hsame => by rw [hsame.filePlace]) fun tree => ?_
  refine Uniform.bind (uniform_ofExcept _) fun place => ?_
  exact uniform_modify fun _ _ hsame => hsame.put _ _

theorem uniform_append (path : String) (content : List UInt8) :
    Uniform (append path content) := by
  refine uniform_get_bind (fun tree tree' hsame => by rw [hsame.filePlace]) fun tree => ?_
  refine Uniform.bind (uniform_ofExcept _) fun place => ?_
  refine uniform_modify fun tree tree' hsame => ?_
  rw [hsame.contentAt]
  exact hsame.put _ _

end Action

end StubTree.Files
