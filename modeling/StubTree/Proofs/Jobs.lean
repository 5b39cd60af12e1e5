import Mathlib.Data.List.Forall2
import StubTree.Job

/-!
How jobs end. A job that succeeds has succeeded in every step, so its ending
can be taken apart step by step. Two jobs can also be run side by side: as long
as every step keeps their states related, they end alike.
-/

namespace StubTree

namespace Job

variable {σ τ α β : Type}

theorem bind_apply (job : Job σ α) (next : α → Job σ β) (s : σ) :
    (job >>= next) s =
      match (job s).result with
      | .error failure => ⟨.error failure, (job s).state, (job s).notices⟩
      | .ok a =>
        ⟨(next a (job s).state).result, (next a (job s).state).state,
          (job s).notices ++ (next a (job s).state).notices⟩ := rfl

theorem get_bind (next : σ → Job σ α) (s : σ) : (Job.get >>= next) s = next s s := by
  simp only [bind_apply, Job.get, List.nil_append]

/-- The job succeeds with a result and leaves a state behind. -/
def Ends (job : Job σ α) (s : σ) (a : α) (s' : σ) : Prop :=
  (job s).result = .ok a ∧ (job s).state = s'

theorem Ends.unique {job : Job σ α} {s t t' : σ} {a b : α} (h : Ends job s a t)
    (h' : Ends job s b t') : t = t' := h.2.symm.trans h'.2

theorem ends_bind {job : Job σ α} {next : α → Job σ β} {s s' : σ} {b : β} :
    Ends (job >>= next) s b s' ↔
      ∃ a middle, Ends job s a middle ∧ Ends (next a) middle b s' := by
  simp only [Ends, bind_apply]
  cases hresult : (job s).result with
  | error failure => simp
  | ok a =>
      constructor
      · intro h
        exact ⟨a, _, ⟨rfl, rfl⟩, h⟩
      · rintro ⟨_, _, ⟨ha, rfl⟩, h⟩
        cases ha
        exact h

theorem ends_pure {a b : α} {s s' : σ} :
    Ends (Pure.pure a : Job σ α) s b s' ↔ a = b ∧ s = s' := by
  simp [Ends, Pure.pure, Job.pure]

theorem ends_get {s seen s' : σ} : Ends Job.get s seen s' ↔ s = seen ∧ s = s' := by
  simp [Ends, Job.get]

theorem ends_modify {f : σ → σ} {s s' : σ} {u : Unit} :
    Ends (Job.modify f) s u s' ↔ f s = s' := by
  simp [Ends, Job.modify]

theorem ends_tell {notices : List Notice} {s s' : σ} {u : Unit} :
    Ends (Job.tell notices) s u s' ↔ s = s' := by
  simp [Ends, Job.tell]

theorem ends_report {events : List Log.Event} {s s' : σ} {u : Unit} :
    Ends (Job.report events) s u s' ↔ s = s' := ends_tell

theorem ends_act {failure : Files.Fault → Failure} {action : Files.Action α}
    {tree tree' : Files.Tree} {a : α} :
    Ends (Job.act failure action) tree a tree' ↔ action tree = .ok a tree' := by
  simp only [Ends, Job.act]
  cases action tree <;> simp

theorem ends_focus {part : τ → σ} {replace : σ → τ → τ} {job : Job σ α} {s s' : τ} {a : α} :
    Ends (Job.focus part replace job) s a s' ↔
      ∃ inner, Ends job (part s) a inner ∧ replace inner s = s' := by
  simp [Ends, Job.focus, and_assoc]

theorem ends_concluding {words : Except Failure α → List Notice} {job : Job σ α} {s s' : σ}
    {a : α} : Ends (Job.concluding words job) s a s' ↔ Ends job s a s' := Iff.rfl

/-- The job succeeds, leaves a state behind, and has told this much in all. -/
def Tells (job : Job σ α) (s : σ) (a : α) (s' : σ) (told : List Notice) : Prop :=
  job s = ⟨.ok a, s', told⟩

theorem Tells.ends {job : Job σ α} {s s' : σ} {a : α} {told : List Notice}
    (h : Tells job s a s' told) : Ends job s a s' := by
  simp only [Tells] at h
  simp [Ends, h]

theorem tells_of_ok {job : Job σ α} {s : σ} {a : α} (h : (job s).result = .ok a) :
    Tells job s a (job s).state (job s).notices := by
  simp only [Tells, ← h]

theorem tells_bind {job : Job σ α} {next : α → Job σ β} {s s' : σ} {b : β}
    {told : List Notice} :
    Tells (job >>= next) s b s' told ↔
      ∃ a middle before after, Tells job s a middle before ∧ Tells (next a) middle b s' after ∧
        before ++ after = told := by
  simp only [Tells, bind_apply]
  cases hresult : (job s).result with
  | error failure =>
      simp only [Outcome.mk.injEq, reduceCtorEq, false_and, false_iff]
      rintro ⟨a, middle, before, after, hjob, -⟩
      simp [hjob] at hresult
  | ok a =>
      constructor
      · intro h
        simp only [Outcome.mk.injEq] at h
        refine ⟨a, (job s).state, _, _, ?_, ?_, h.2.2⟩
        · rw [← hresult]
        · rw [← h.1, ← h.2.1]
      · rintro ⟨a', middle, before, after, hjob, hnext, rfl⟩
        obtain rfl : a' = a := by simpa [hjob] using hresult
        simp [hjob, hnext]

theorem tells_pure {a b : α} {s s' : σ} {told : List Notice} :
    Tells (Pure.pure a : Job σ α) s b s' told ↔ a = b ∧ s = s' ∧ told = [] := by
  simp [Tells, Pure.pure, Job.pure, eq_comm]

theorem tells_get {s seen s' : σ} {told : List Notice} :
    Tells Job.get s seen s' told ↔ s = seen ∧ s = s' ∧ told = [] := by
  simp [Tells, Job.get, eq_comm]

theorem tells_modify {f : σ → σ} {s s' : σ} {u : Unit} {told : List Notice} :
    Tells (Job.modify f) s u s' told ↔ f s = s' ∧ told = [] := by
  simp [Tells, Job.modify, eq_comm]

theorem tells_tell {notices : List Notice} {s s' : σ} {u : Unit} {told : List Notice} :
    Tells (Job.tell notices) s u s' told ↔ s = s' ∧ told = notices := by
  simp [Tells, Job.tell, eq_comm]

theorem tells_report {events : List Log.Event} {s s' : σ} {u : Unit} {told : List Notice} :
    Tells (Job.report events) s u s' told ↔ s = s' ∧ told = events.map .event := tells_tell

theorem tells_act {failure : Files.Fault → Failure} {action : Files.Action α}
    {tree tree' : Files.Tree} {a : α} {told : List Notice} :
    Tells (Job.act failure action) tree a tree' told ↔ action tree = .ok a tree' ∧ told = [] := by
  simp only [Tells, Job.act]
  cases action tree <;> simp [eq_comm, and_assoc]

theorem tells_focus {part : τ → σ} {replace : σ → τ → τ} {job : Job σ α} {s s' : τ} {a : α}
    {told : List Notice} :
    Tells (Job.focus part replace job) s a s' told ↔
      ∃ inner, Tells job (part s) a inner told ∧ replace inner s = s' := by
  simp only [Tells, Job.focus, Outcome.mk.injEq]
  constructor
  · rintro ⟨hresult, hstate, htold⟩
    refine ⟨(job (part s)).state, ?_, hstate⟩
    rw [← hresult, ← htold]
  · rintro ⟨inner, hjob, hreplace⟩
    simp [hjob, hreplace]

theorem tells_concluding {words : Except Failure α → List Notice} {job : Job σ α} {s s' : σ}
    {a : α} {told : List Notice} :
    Tells (Job.concluding words job) s a s' told ↔
      ∃ before, Tells job s a s' before ∧ before ++ words (.ok a) = told := by
  simp only [Tells, Job.concluding, Outcome.mk.injEq]
  constructor
  · rintro ⟨hresult, hstate, htold⟩
    refine ⟨(job s).notices, ?_, by rw [← htold, hresult]⟩
    rw [← hresult, ← hstate]
  · rintro ⟨before, hjob, htold⟩
    simp [hjob, htold]

end Job

/-- Two ways to end that differ in states, values and notices only as far as is allowed. -/
inductive Outcome.Alike {σ τ α β : Type} (states : σ → τ → Prop)
    (notices : List Notice → List Notice → Prop) (values : α → β → Prop) :
    Outcome σ α → Outcome τ β → Prop where
  | ok {a b s t ns ms} (value : values a b) (state : states s t) (notice : notices ns ms) :
      Outcome.Alike states notices values ⟨.ok a, s, ns⟩ ⟨.ok b, t, ms⟩
  | error {failure s t ns ms} (state : states s t) (notice : notices ns ms) :
      Outcome.Alike states notices values ⟨.error failure, s, ns⟩ ⟨.error failure, t, ms⟩

namespace Job

variable {σ τ α β γ δ : Type}

/-- From related states, two jobs end alike. -/
def Alike (states : σ → τ → Prop) (notices : List Notice → List Notice → Prop)
    (values : α → β → Prop) (job : Job σ α) (job' : Job τ β) : Prop :=
  ∀ s t, states s t → Outcome.Alike states notices values (job s) (job' t)

/-- What runs beside a job that succeeds succeeds as well. -/
theorem Alike.ends {states : σ → τ → Prop} {notices : List Notice → List Notice → Prop}
    {values : α → β → Prop} {job : Job σ α} {job' : Job τ β}
    (h : Alike states notices values job job') {s s' : σ} {t : τ} {a : α} (hst : states s t)
    (hends : Ends job s a s') : ∃ b t', Ends job' t b t' ∧ values a b ∧ states s' t' := by
  have hjob := h s t hst
  obtain ⟨hresult, rfl⟩ := hends
  simp only [Ends]
  generalize job s = first at hjob hresult
  generalize job' t = first' at hjob
  cases hjob with
  | error => simp at hresult
  | ok hvalue hstate =>
      cases hresult
      exact ⟨_, _, ⟨rfl, rfl⟩, hvalue, hstate⟩

/-- A relation between notices that steps may be checked against one by one. -/
structure Additive (notices : List Notice → List Notice → Prop) : Prop where
  refl : ∀ ns, notices ns ns
  append : ∀ {ns ms ns' ms'}, notices ns ms → notices ns' ms' → notices (ns ++ ns') (ms ++ ms')

section Steps

variable {states : σ → τ → Prop} {notices : List Notice → List Notice → Prop}
  (hadd : Additive notices)
include hadd

/-- The next steps need to be alike only where the first ones end. -/
theorem alike_bind_at {values : α → β → Prop} {values' : γ → δ → Prop} {job : Job σ α}
    {job' : Job τ β} {next : α → Job σ γ} {next' : β → Job τ δ} {s : σ} {t : τ}
    (h : Outcome.Alike states notices values (job s) (job' t))
    (hnext : ∀ a b s' t', Ends job s a s' → values a b → states s' t' →
      Outcome.Alike states notices values' (next a s') (next' b t')) :
    Outcome.Alike states notices values' ((job >>= next) s) ((job' >>= next') t) := by
  rw [bind_apply, bind_apply]
  simp only [Ends] at hnext
  generalize job s = first at h hnext
  generalize job' t = first' at h
  cases h with
  | error hstate hnotice => exact .error hstate hnotice
  | @ok a b s' t' ns ms hvalue hstate hnotice =>
      have hrest := hnext a b s' t' ⟨rfl, rfl⟩ hvalue hstate
      simp only
      generalize next a s' = second at hrest
      generalize next' b t' = second' at hrest
      cases hrest with
      | error hstate' hnotice' => exact .error hstate' (hadd.append hnotice hnotice')
      | ok hvalue' hstate' hnotice' => exact .ok hvalue' hstate' (hadd.append hnotice hnotice')

omit hadd in
/-- A first step that succeeds with nothing beside it only adds notices. -/
theorem alike_after {values : α → β → Prop} {job : Job σ γ} {next : γ → Job σ α} {s middle : σ}
    {a : γ} (hends : Ends job s a middle) {outcome : Outcome τ β}
    (h : Outcome.Alike states (fun _ _ => True) values (next a middle) outcome) :
    Outcome.Alike states (fun _ _ => True) values ((job >>= next) s) outcome := by
  obtain ⟨hresult, rfl⟩ := hends
  simp only [bind_apply, hresult]
  generalize next a (job s).state = second at h
  cases h with
  | ok hvalue hstate => exact .ok hvalue hstate trivial
  | error hstate => exact .error hstate trivial

theorem Alike.bind {values : α → β → Prop} {values' : γ → δ → Prop} {job : Job σ α}
    {job' : Job τ β} {next : α → Job σ γ} {next' : β → Job τ δ}
    (h : Alike states notices values job job')
    (hnext : ∀ a b, values a b → Alike states notices values' (next a) (next' b)) :
    Alike states notices values' (job >>= next) (job' >>= next') := by
  intro s t hst
  exact alike_bind_at hadd (h s t hst) fun a b s' t' _ hvalue hstate =>
    hnext a b hvalue s' t' hstate

theorem Alike.pure {values : α → β → Prop} {a : α} {b : β} (h : values a b) :
    Alike states notices values (Pure.pure a) (Pure.pure b) :=
  fun _ _ hst => .ok h hst (hadd.refl [])

theorem Alike.get : Alike states notices states Job.get Job.get :=
  fun _ _ hst => .ok hst hst (hadd.refl [])

theorem Alike.modify {f : σ → σ} {g : τ → τ} (h : ∀ s t, states s t → states (f s) (g t)) :
    Alike states notices Eq (Job.modify f) (Job.modify g) :=
  fun s t hst => .ok rfl (h s t hst) (hadd.refl [])

omit hadd in
theorem Alike.tell {ns ms : List Notice} (h : notices ns ms) :
    Alike states notices Eq (Job.tell ns) (Job.tell ms) :=
  fun _ _ hst => .ok rfl hst h

omit hadd in
theorem Alike.report {events events' : List Log.Event}
    (h : notices (events.map .event) (events'.map .event)) :
    Alike states notices Eq (Job.report events) (Job.report events') := Alike.tell h

omit hadd in
theorem Alike.focus {σ' τ' : Type} {inner : σ' → τ' → Prop} {part : σ → σ'} {part' : τ → τ'}
    {replace : σ' → σ → σ} {replace' : τ' → τ → τ} {values : α → β → Prop} {job : Job σ' α}
    {job' : Job τ' β} (h : Alike inner notices values job job')
    (hpart : ∀ s t, states s t → inner (part s) (part' t))
    (hreplace : ∀ s t s' t', states s t → inner s' t' → states (replace s' s) (replace' t' t)) :
    Alike states notices values (Job.focus part replace job) (Job.focus part' replace' job') := by
  intro s t hst
  have hinner := h (part s) (part' t) (hpart s t hst)
  simp only [Job.focus]
  generalize job (part s) = first at hinner
  generalize job' (part' t) = first' at hinner
  cases hinner with
  | ok hvalue hstate hnotice => exact .ok hvalue (hreplace _ _ _ _ hst hstate) hnotice
  | error hstate hnotice => exact .error (hreplace _ _ _ _ hst hstate) hnotice

theorem Alike.forM {ι κ : Type} {related : ι → κ → Prop} {xs : List ι} {ys : List κ}
    {f : ι → Job σ PUnit} {g : κ → Job τ PUnit} (hrelated : List.Forall₂ related xs ys)
    (h : ∀ x y, related x y → Alike states notices Eq (f x) (g y)) :
    Alike states notices Eq (xs.forM f) (ys.forM g) := by
  induction hrelated with
  | nil => exact Alike.pure hadd rfl
  | cons hxy _ ih => exact Alike.bind hadd (h _ _ hxy) fun _ _ _ => ih

end Steps

end Job

end StubTree
