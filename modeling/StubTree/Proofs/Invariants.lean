import StubTree.Package.Context
import StubTree.Proofs.Aftermath
import StubTree.Proofs.Jobs

/-!
Invariants of jobs. What every step keeps is kept by the whole job, whether it
succeeds or fails on the way.
-/

namespace StubTree.Job

variable {σ τ α β : Type} {holds : σ → Prop}

/-- From states of which something holds, a job leads to such states only. -/
def Keeps (holds : σ → Prop) (job : Job σ α) : Prop := ∀ s, holds s → holds (job s).state

theorem Keeps.bind {job : Job σ α} {next : α → Job σ β} (h : Keeps holds job)
    (hnext : ∀ a, Keeps holds (next a)) : Keeps holds (job >>= next) := by
  intro s hs
  rw [bind_apply]
  have hfirst := h s hs
  cases (job s).result with
  | error failure => exact hfirst
  | ok a => exact hnext a _ hfirst

/-- The next steps may rely on what holds of the state that was seen. -/
theorem Keeps.get_bind {next : σ → Job σ α} (h : ∀ s, holds s → Keeps holds (next s)) :
    Keeps holds (Job.get >>= next) := by
  intro s hs
  rw [Job.get_bind]
  exact h s hs s hs

theorem Keeps.pure (a : α) : Keeps holds (Pure.pure a : Job σ α) := fun _ hs => hs

theorem Keeps.modify {f : σ → σ} (h : ∀ s, holds s → holds (f s)) :
    Keeps holds (Job.modify f) := h

theorem Keeps.tell (notices : List Notice) : Keeps holds (Job.tell notices) := fun _ hs => hs

theorem Keeps.report (events : List Log.Event) : Keeps holds (Job.report events) :=
  Keeps.tell _

theorem Keeps.forM {ι : Type} {xs : List ι} {f : ι → Job σ PUnit}
    (h : ∀ x ∈ xs, Keeps holds (f x)) : Keeps holds (xs.forM f) := by
  induction xs with
  | nil => exact Keeps.pure _
  | cons x rest ih =>
      exact Keeps.bind (h x List.mem_cons_self) fun _ =>
        ih fun y hy => h y (List.mem_cons_of_mem _ hy)

theorem Keeps.focus (inner : τ → Prop) {part : σ → τ} {replace : τ → σ → σ} {job : Job τ α}
    (h : Keeps inner job) (hpart : ∀ s, holds s → inner (part s))
    (hreplace : ∀ s t, holds s → inner t → holds (replace t s)) :
    Keeps holds (Job.focus part replace job) :=
  fun s hs => hreplace s _ hs (h (part s) (hpart s hs))

theorem Keeps.concluding {words : Except Failure α → List Notice} {job : Job σ α}
    (h : Keeps holds job) : Keeps holds (Job.concluding words job) := h

theorem state_act (failure : Files.Fault → Failure) (action : Files.Action α)
    (tree : Files.Tree) : (Job.act failure action tree).state = action.after tree := by
  simp only [Job.act, Files.Action.after]
  cases action tree <;> rfl

theorem Keeps.act {holds : Files.Tree → Prop} {failure : Files.Fault → Failure}
    {action : Files.Action α} (h : ∀ tree, holds tree → holds (action.after tree)) :
    Keeps holds (Job.act failure action) := by
  intro tree htree
  rw [state_act]
  exact h tree htree

end StubTree.Job
