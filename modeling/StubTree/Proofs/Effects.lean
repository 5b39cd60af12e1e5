/-!
Effects that succeed. What reads and writes a state may fail at any step; if the
whole succeeds, then so did each step, from the state that the one before it
left.
-/

namespace StubTree.Effect

variable {ε σ α β : Type}

theorem bind_eq_ok {effect : EStateM ε σ α} {next : α → EStateM ε σ β} {s s' : σ} {b : β} :
    (effect >>= next) s = .ok b s' ↔
      ∃ a middle, effect s = .ok a middle ∧ next a middle = .ok b s' := by
  simp only [bind, EStateM.bind]
  cases effect s with
  | error fault middle => simp
  | ok a middle =>
      simp only [EStateM.Result.ok.injEq]
      constructor
      · intro h
        exact ⟨a, middle, ⟨rfl, rfl⟩, h⟩
      · rintro ⟨_, _, ⟨rfl, rfl⟩, h⟩
        exact h

theorem bind_of_ok {effect : EStateM ε σ α} {next : α → EStateM ε σ β} {s s' : σ} {a : α}
    (h : effect s = .ok a s') : (effect >>= next) s = next a s' := by
  simp only [bind, EStateM.bind, h]

theorem get_bind (next : σ → EStateM ε σ β) (s : σ) :
    ((get : EStateM ε σ σ) >>= next) s = next s s := rfl

theorem bind_of_same {effect effect' : EStateM ε σ α} {s s' : σ} (h : effect s = effect' s')
    (next : α → EStateM ε σ β) : (effect >>= next) s = (effect' >>= next) s' := by
  simp only [bind, EStateM.bind, h]

theorem map_of_ok {effect : EStateM ε σ α} {s s' : σ} {a : α} (h : effect s = .ok a s')
    (f : α → β) : (f <$> effect) s = .ok (f a) s' := by
  simp only [Functor.map, EStateM.map, h]

theorem map_eq_ok {effect : EStateM ε σ α} {f : α → β} {s s' : σ} {b : β} :
    (f <$> effect) s = .ok b s' ↔ ∃ a, effect s = .ok a s' ∧ f a = b := by
  simp only [Functor.map, EStateM.map]
  cases effect s with
  | error fault middle => simp
  | ok a middle =>
      simp only [EStateM.Result.ok.injEq]
      constructor
      · rintro ⟨rfl, rfl⟩
        exact ⟨a, ⟨rfl, rfl⟩, rfl⟩
      · rintro ⟨_, ⟨rfl, rfl⟩, rfl⟩
        exact ⟨rfl, rfl⟩

theorem pure_eq_ok {a b : α} {s s' : σ} :
    (pure a : EStateM ε σ α) s = .ok b s' ↔ a = b ∧ s = s' := by
  simp [pure, EStateM.pure]

theorem get_eq_ok {seen s s' : σ} :
    (get : EStateM ε σ σ) s = .ok seen s' ↔ s = seen ∧ s = s' := by
  change EStateM.Result.ok s s = .ok seen s' ↔ _
  simp

theorem modify_eq_ok {f : σ → σ} {s s' : σ} {u : PUnit} :
    (modify f : EStateM ε σ PUnit) s = .ok u s' ↔ f s = s' := by
  change EStateM.Result.ok () (f s) = .ok u s' ↔ _
  simp

theorem set_eq_ok {new s s' : σ} {u : PUnit} :
    (set new : EStateM ε σ PUnit) s = .ok u s' ↔ new = s' := by
  change EStateM.Result.ok () new = .ok u s' ↔ _
  simp

theorem throw_ne_ok {fault : ε} {s s' : σ} {a : α} :
    (throw fault : EStateM ε σ α) s ≠ .ok a s' := by
  change EStateM.Result.error fault s ≠ .ok a s'
  simp

end StubTree.Effect
