import StubTree.Command.Terminal
import StubTree.Proofs.Jobs

/-!
What a command line does before and after its inputs are resolved. All of them
stand for paths unless one is bad, wherever in the line that stands; then, as
with every other line that starts no run, the files are left as they are. A run
that is started decides the exit status alone.
-/

namespace StubTree.Command

open Files

section Traversal

variable {ε α β : Type} {f : α → Except ε β} {xs : List α}

theorem mapM_eq_ok {g : α → β} (h : ∀ x ∈ xs, f x = .ok (g x)) : xs.mapM f = .ok (xs.map g) := by
  induction xs with
  | nil => rfl
  | cons x rest ih =>
      rw [List.mapM_cons, h x List.mem_cons_self, ih fun y hy => h y (List.mem_cons_of_mem _ hy)]
      rfl

/-- One failure is enough, whatever comes before or after it. -/
theorem mapM_eq_error (h : ∃ x ∈ xs, ∃ e, f x = .error e) : ∃ e, xs.mapM f = .error e := by
  induction xs with
  | nil => simp at h
  | cons x rest ih =>
      rw [List.mapM_cons]
      cases hx : f x with
      | error e => exact ⟨e, rfl⟩
      | ok y =>
          have hrest : ∃ x' ∈ rest, ∃ e, f x' = .error e := by simpa [hx] using h
          obtain ⟨e, he⟩ := ih hrest
          exact ⟨e, by rw [he]; rfl⟩

end Traversal

section Resolving

variable {search : Search} {input : String} {inputs : List String}

def found (search : Search) (pattern : Pattern) : List String :=
  (search pattern).filterMap Except.toOption

/-- What an input stands for: itself, or all that is found for it. -/
def standsFor (search : Search) (input : String) : List String :=
  if input.toList.any isWild then
    match Pattern.parse input with
    | .error _ => []
    | .ok pattern => found search pattern
  else [input]

/-- A pattern that is malformed, that nothing is found for, or whose search reports a fault. -/
def IsBadInput (search : Search) (input : String) : Prop :=
  input.toList.any isWild = true ∧
    match Pattern.parse input with
    | .error _ => True
    | .ok pattern => search pattern = [] ∨ ∃ fault, .error fault ∈ search pattern

/-- A search without faults is the list of what it finds. -/
theorem search_eq {pattern : Pattern} (h : ∀ fault, .error fault ∉ search pattern) :
    search pattern = (found search pattern).map .ok := by
  rw [found]
  generalize search pattern = entries at h
  induction entries with
  | nil => rfl
  | cons entry rest ih =>
      cases entry with
      | error fault => exact absurd List.mem_cons_self (h fault)
      | ok path =>
          exact congrArg _ (ih fun fault hfault => h fault (List.mem_cons_of_mem _ hfault))

theorem mapM_search {pattern : Pattern} (h : ∀ fault, .error fault ∉ search pattern) :
    (search pattern).mapM id = .ok (found search pattern) := by
  have hmap : (search pattern).mapM id = (found search pattern).mapM .ok := by
    rw [search_eq h, List.mapM_map]
    rfl
  exact hmap.trans ((mapM_eq_ok (g := id) fun _ _ => rfl).trans (congrArg _ (List.map_id _)))

theorem resolve_eq_error (h : IsBadInput search input) :
    ∃ fault, resolve search input = .error fault := by
  obtain ⟨hwild, hbad⟩ := h
  rw [resolve, if_pos hwild]
  cases hparse : Pattern.parse input with
  | error fault => exact ⟨.badPattern input fault, rfl⟩
  | ok pattern =>
      rw [hparse] at hbad
      cases hbad with
      | inl hnone => exact ⟨.noMatch input, by simp only [hnone]; rfl⟩
      | inr hfault =>
          obtain ⟨fault, hfault⟩ := hfault
          obtain ⟨first, hfirst⟩ := mapM_eq_error (f := id) ⟨_, hfault, fault, rfl⟩
          exact ⟨.unreadable first, by simp only [hfirst]⟩

theorem resolve_eq_ok (h : ¬IsBadInput search input) :
    resolve search input = .ok (standsFor search input) := by
  rw [resolve, standsFor]
  split
  · rename_i hwild
    simp only [IsBadInput, hwild, true_and] at h
    cases hparse : Pattern.parse input with
    | error fault => simp [hparse] at h
    | ok pattern =>
        simp only [hparse, not_or, not_exists] at h
        have hsome : (found search pattern).isEmpty = false := by
          rw [search_eq h.2, List.map_eq_nil_iff] at h
          simpa using h.1
        simp only [mapM_search h.2, hsome, Bool.false_eq_true, if_false]
  · rfl

theorem resolveAll_eq_ok (h : ∀ input ∈ inputs, ¬IsBadInput search input) :
    resolveAll search inputs = .ok (inputs.flatMap (standsFor search)) := by
  rw [resolveAll, mapM_eq_ok fun input hinput => resolve_eq_ok (h input hinput),
    List.flatMap_def]
  rfl

theorem resolveAll_eq_error (h : ∃ input ∈ inputs, IsBadInput search input) :
    ∃ fault, resolveAll search inputs = .error fault := by
  obtain ⟨input, hinput, hbad⟩ := h
  obtain ⟨fault, hfault⟩ := mapM_eq_error ⟨input, hinput, resolve_eq_error hbad⟩
  exact ⟨fault, by rw [resolveAll, hfault]; rfl⟩

end Resolving

section Answers

variable {search : Search} {desktop : Desktop} {env : Environment} {time : String}
  {args : List String} {tree : Tree}

/-- Command lines on which no run is started. -/
def StartsNoRun (search : Search) (args : List String) : Prop :=
  match parse args with
  | .error _ => True
  | .ok (.showOutput _) => True
  | .ok (.generate inputs _ dryRun) => dryRun = true ∨ ∃ input ∈ inputs, IsBadInput search input

/-- Showing a directory only looks at the files. -/
theorem browseOn_state (desktop : Desktop) (root : String) (tree : Tree) :
    (browseOn desktop root tree).state = tree := by
  rw [browseOn, Job.get_bind]
  split
  · cases launchers.findSome? desktop.find with
    | none => rfl
    | some launcher =>
        dsimp only
        cases desktop.start launcher root <;> rfl
  · rfl

theorem showOutput_tree (desktop : Desktop) (out : String) (tree : Tree) :
    (showOutput desktop out tree).tree = tree := by
  rw [showOutput]
  split
  · exact browseOn_state desktop out tree
  · exact browseOn_state desktop out tree

theorem stop_tree (stop : Stop) (tree : Tree) : (stop.ending tree).tree = tree := by
  rw [Stop.ending]
  split <;> rfl

theorem executeBy_of_bad {inputs : List String} {out : String}
    (h : ∃ input ∈ inputs, IsBadInput search input) :
    ∃ fault,
      executeBy search desktop (.generate inputs out false) tree =
        ⟨some (.input fault), tree, []⟩ := by
  obtain ⟨fault, hfault⟩ := resolveAll_eq_error h
  exact ⟨fault, by simp [executeBy, hfault]⟩

theorem executeBy_of_good {inputs : List String} {out : String}
    (h : ∀ input ∈ inputs, ¬IsBadInput search input) :
    executeBy search desktop (.generate inputs out false) tree =
      generate (inputs.flatMap (standsFor search)) out tree := by
  simp [executeBy, resolveAll_eq_ok h]

theorem answer_tree_of_startsNoRun (h : StartsNoRun search args) :
    (answer search desktop env time args tree).tree = tree := by
  simp only [StartsNoRun] at h
  rw [answer]
  cases hparse : parse args with
  | error stop => exact stop_tree stop tree
  | ok command =>
      rw [hparse] at h
      cases command with
      | showOutput out => exact showOutput_tree desktop out tree
      | generate inputs out dryRun =>
          cases dryRun with
          | true => rfl
          | false =>
              obtain ⟨fault, hfault⟩ :=
                @executeBy_of_bad search desktop tree inputs out (h.resolve_left (by simp))
              simp only [hfault]
              rfl

/-- The exit status of a run says whether it failed. -/
theorem conclude_status (out : String) (sources : Nat) (outcome : Outcome Tree Package.Report) :
    (conclude out sources outcome).status = 1 ↔ ∃ failure, outcome.result = .error failure := by
  rw [conclude]
  cases outcome.result <;> simp [Execution.status]

theorem conclude_tree (out : String) (sources : Nat) (outcome : Outcome Tree Package.Report) :
    (conclude out sources outcome).tree = outcome.state := by
  rw [conclude]
  split <;> rfl

/-- Nothing is touched before it is sure what to generate, and then the exit status says whether
the run has failed. -/
theorem answer_untouched_or_run (search : Search) (desktop : Desktop) (env : Environment)
    (time : String) (args : List String) (tree : Tree) :
    (StartsNoRun search args → (answer search desktop env time args tree).tree = tree) ∧
    (¬StartsNoRun search args → ∃ inputs out paths,
      parse args = .ok (.generate inputs out false) ∧ resolveAll search inputs = .ok paths ∧
      (answer search desktop env time args tree).tree =
        (Package.run (paths.map (Source.openedOrNot tree)) out tree).state ∧
      ((answer search desktop env time args tree).status = 1 ↔ ∃ failure,
        (Package.run (paths.map (Source.openedOrNot tree)) out tree).result = .error failure)) := by
  refine ⟨answer_tree_of_startsNoRun, fun h => ?_⟩
  simp only [StartsNoRun] at h
  cases hparse : parse args with
  | error stop => simp [hparse] at h
  | ok command =>
      cases command with
      | showOutput out => simp [hparse] at h
      | generate inputs out dryRun =>
          simp only [hparse, not_or, Bool.not_eq_true, not_exists, not_and] at h
          obtain ⟨rfl, hgood⟩ := h
          refine ⟨inputs, out, _, rfl, resolveAll_eq_ok hgood, ?_⟩
          simp only [answer, hparse, executeBy_of_good hgood]
          exact ⟨conclude_tree _ _ _, conclude_status _ _ _⟩

/-- A root with the stubs of an earlier run in it. -/
def stocked : Tree := ⟨"/work", [(["stubs"], .directory), (["stubs", "old.pyi"], .file [])]⟩

theorem stocked_untouched_or_run :
    (answer (searchIn stocked) .bare {} "" ["generate", "-i", "core.json", "["] stocked).tree =
      stocked ∧
    ∃ inputs out paths,
      parse ["generate", "-i", "core.json"] = .ok (.generate inputs out false) ∧
      resolveAll (searchIn stocked) inputs = .ok paths ∧
      (answer (searchIn stocked) .bare {} "" ["generate", "-i", "core.json"] stocked).tree =
        (Package.run (paths.map (Source.openedOrNot stocked)) out stocked).state ∧
      ((answer (searchIn stocked) .bare {} "" ["generate", "-i", "core.json"] stocked).status = 1 ↔
        ∃ failure, (Package.run (paths.map (Source.openedOrNot stocked)) out stocked).result =
          .error failure) := by
  have hbad : parse ["generate", "-i", "core.json", "["] =
      .ok (.generate ["core.json", "["] "stubs" false) := by decide +kernel
  have hgood : parse ["generate", "-i", "core.json"] =
      .ok (.generate ["core.json"] "stubs" false) := by decide +kernel
  have hflaw : Pattern.parse "[" = .error ⟨0, .badRange⟩ := by rfl
  refine ⟨(answer_untouched_or_run _ _ _ _ _ _).1 ?_, (answer_untouched_or_run _ _ _ _ _ _).2 ?_⟩
  · simp only [StartsNoRun, hbad]
    exact .inr ⟨"[", by simp, by decide, by rw [hflaw]; trivial⟩
  · simp only [StartsNoRun, hgood]
    rintro (hdry | ⟨input, hinput, hwild, -⟩)
    · cases hdry
    · rw [List.mem_singleton.mp hinput] at hwild
      exact absurd hwild (by decide)

end Answers

end StubTree.Command
