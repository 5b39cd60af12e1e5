import StubTree.Proofs.Pruning
import StubTree.Proofs.StubFiles

/-!
Runs on what is left after filtering. Sources that fail, types that are not
accepted and members that leave nothing may be taken out beforehand: the run
ends the same way, leaves the same tree, and counts the same, except for the
sources that failed.
-/

namespace StubTree.Package

open Files Metadata

/-- The accepted types without what leaves nothing in their stubs. -/
def prunedTypes (types : List TypeInfo) : List TypeInfo :=
  (types.filter isAccepted).map Stub.prune

/-- Sources in memory for what has been loaded, pruned. -/
def prunedSources (loads : List Load) : List Source :=
  loads.map fun load => .fixed load.source (prunedTypes load.types)

section Types

@[simp] theorem isAccepted_prune (t : TypeInfo) : isAccepted (Stub.prune t) = isAccepted t := by
  rw [isAccepted, Stub.toTypeHeader_prune, isAccepted]

theorem stubTexts_prune (types : List TypeInfo) :
    stubTexts (types.map Stub.prune) = stubTexts types := by
  rw [stubTexts, List.filterMap_map, stubTexts]
  congr 1
  funext t
  exact Stub.text?_prune 0 t

theorem filed_prunedTypes (types : List TypeInfo) :
    filed (prunedTypes types) =
      (filed types).map fun pair => (pair.1, Stub.prune pair.2) := by
  have hfilter : (prunedTypes types).filter isAccepted = prunedTypes types := by
    refine List.filter_eq_self.mpr fun t ht => ?_
    obtain ⟨t', ht', rfl⟩ := List.mem_map.mp ht
    rw [isAccepted_prune]
    exact (List.mem_filter.mp ht').2
  rw [filed_eq, filed_eq, hfilter, prunedTypes, List.map_map, List.map_map]
  congr 1
  funext t
  simp

theorem group_prunedTypes (types : List TypeInfo) :
    Namespace.group (filed (prunedTypes types)) =
      (Namespace.group (filed types)).map fun group =>
        (group.1, group.2.map Stub.prune) := by
  have hsort (ts : List TypeInfo) : sorted (ts.map Stub.prune) = (sorted ts).map Stub.prune :=
    Text.sortBy_map _ (fun t => by rw [Stub.toTypeHeader_prune]) ts
  let f (pair : String × TypeInfo) : String × TypeInfo := (pair.1, Stub.prune pair.2)
  have hgroups : Text.groupBy Prod.fst ((filed types).map f) =
      (Text.groupBy Prod.fst (filed types)).map fun group => (group.1, group.2.map f) :=
    Text.groupBy_map Prod.fst (f := f) (fun _ => rfl) (filed types)
  rw [filed_prunedTypes, Namespace.group, hgroups, Namespace.group, List.map_map, List.map_map]
  refine List.map_congr_left fun group _ => ?_
  have hgroup := hsort (group.2.map Prod.snd)
  rw [List.map_map] at hgroup
  simp only [Function.comp_apply, List.map_map]
  exact Prod.ext rfl hgroup

theorem stamp_idem (id : String) (types : List TypeInfo) :
    Source.stamp id (Source.stamp id types) = Source.stamp id types := by
  rw [Source.stamp, Source.stamp, List.map_map]
  refine List.map_congr_left fun t _ => ?_
  simp only [Function.comp_apply]
  by_cases horigin : t.origin.isEmpty = true
  · simp [horigin]
  · simp [horigin]

theorem stamp_types {source : Source} {tree : Tree} {types : List TypeInfo}
    (h : source.types tree = .ok types) : Source.stamp source.id types = types := by
  cases source with
  | broken id reason => simp [Source.types] at h
  | fixed id given =>
      cases h
      exact stamp_idem id given
  | document path id =>
      simp only [Source.types] at h
      cases hdecoded : Source.decodeFile documentTypes tree path with
      | error fault => simp [hdecoded, bind, Except.bind] at h
      | ok decoded =>
          simp only [hdecoded, bind, Except.bind, pure, Except.pure, Except.ok.injEq] at h
          rw [← h]
          exact stamp_idem id decoded

/-- Filling in where types come from neither accepts nor rejects anything. -/
theorem stamp_prunedTypes (id : String) (types : List TypeInfo) :
    Source.stamp id (prunedTypes types) = prunedTypes (Source.stamp id types) := by
  rw [prunedTypes, prunedTypes, Source.stamp, Source.stamp, List.filter_map, List.map_map,
    List.map_map]
  have hkeep (t : TypeInfo) :
      isAccepted (if t.origin.isEmpty then { t with origin := id } else t) = isAccepted t := by
    split <;> rfl
  have hfilter : types.filter (isAccepted ∘ fun t =>
      if t.origin.isEmpty then { t with origin := id } else t) = types.filter isAccepted := by
    congr 1
    funext t
    exact hkeep t
  rw [hfilter]
  refine List.map_congr_left fun t _ => ?_
  simp only [Function.comp_apply, Stub.toTypeHeader_prune]
  obtain ⟨header, members⟩ := t
  by_cases horigin : header.origin.isEmpty = true
  · simp [horigin, Stub.prune]
  · simp [horigin, Stub.prune]

end Types

section Runs

theorem additive_any : Job.Additive fun _ _ => True := ⟨fun _ => trivial, fun _ _ => trivial⟩

/-- A load is written alike whether it has been pruned or not. -/
theorem processTypes_pruned (source : String) (types : List TypeInfo) :
    Job.Alike (Matching fun _ _ => True) (fun _ _ => True) Eq (processTypes source types)
      (processTypes source (prunedTypes types)) := by
  refine processTypes_alike additive_any source ?_ trivial fun _ _ => trivial
  rw [group_prunedTypes, List.forall₂_map_right_iff, List.forall₂_same]
  intro group _
  exact ⟨rfl, (stubTexts_prune group.2).symm, trivial⟩

theorem processSource_of_ok {source : Source} {site : Site} {types : List TypeInfo}
    (h : source.types site.tree = .ok types) :
    processSource source site = processTypes source.id types site := by
  rw [processSource, Job.get_bind, h]

theorem processSource_of_error {source : Source} {site : Site} {fault : LoadFault}
    (h : source.types site.tree = .error fault) :
    Job.Ends (processSource source) site ()
      { site with context := { site.context with failed := site.context.failed + 1 } } := by
  rw [processSource, Job.Ends, Job.get_bind, h]
  exact ⟨rfl, rfl⟩

/-- The pruned sources run beside the others and leave out those that fail. -/
theorem processFrom_pruned (sources : List Source) (total total' done done' : Nat)
    {site site' : Site} (hmatch : Matching (fun _ _ => True) site site') :
    Outcome.Alike (Matching fun _ _ => True) (fun _ _ => True) Eq
      (processFrom total done sources site)
      (processFrom total' done' (prunedSources (loadsFrom sources site)) site') := by
  induction sources generalizing done done' site site' with
  | nil => exact .ok rfl hmatch trivial
  | cons source rest ih =>
      have htell : Job.Ends (Job.tell [.advance source.id done total]) site () site := ⟨rfl, rfl⟩
      cases htypes : source.types site.tree with
      | error fault =>
          have hends := processSource_of_error htypes
          rw [loadsFrom_cons hends]
          simp only [htypes]
          refine Job.alike_after htell (Job.alike_after hends (ih (done + 1) done' ?_))
          exact ⟨hmatch.tree, hmatch.root, hmatch.touched, hmatch.processed, hmatch.written,
            trivial⟩
      | ok types =>
          have hpruned (tree : Tree) :
              (Source.fixed source.id (prunedTypes types)).types tree =
                .ok (prunedTypes types) := by
            simp only [Source.types, stamp_prunedTypes, stamp_types htypes]
          simp only [loadsFrom, htypes, prunedSources, List.map_cons, processFrom]
          refine Job.alike_bind_at additive_any (Job.Alike.tell trivial site site' hmatch) ?_
          intro _ _ s s' hends _ hmatch
          obtain rfl := Job.ends_tell.mp hends
          have halike : Outcome.Alike (Matching fun _ _ => True) (fun _ _ => True) Eq
              (processSource source site)
              (processSource (.fixed source.id (prunedTypes types)) s') := by
            rw [processSource_of_ok htypes, processSource_of_ok (hpruned s'.tree)]
            exact processTypes_pruned source.id types site s' hmatch
          refine Job.alike_bind_at additive_any halike ?_
          intro _ _ s s' hends _ hmatch
          rw [hends.2]
          exact ih (done + 1) (done' + 1) hmatch

/-- What is filtered out leaves no trace in the texts of types nor in what a run does. -/
theorem pruning_leaves_no_trace :
    (∀ (t : TypeInfo) (depth : Nat), Stub.text? depth (Stub.prune t) = Stub.text? depth t) ∧
      ∀ (sources : List Source) (root : String) (tree : Tree),
        Outcome.Alike Tree.Same (fun _ _ => True) (ReportsMatch fun _ _ => True)
          (run sources root tree) (run (prunedSources (loadsOf sources root tree)) root tree) := by
  refine ⟨fun t depth => Stub.text?_prune depth t, fun sources root tree => ?_⟩
  cases hempty : emptyRoot root tree with
  | error fault base =>
      rw [run_of_unusable sources hempty, run_of_unusable _ hempty]
      exact .error (.refl base) trivial
  | ok _ base =>
      rw [loadsOf_of_emptied hempty]
      refine run_alike additive_any hempty hempty ?_ fun _ _ _ => trivial
      exact processFrom_pruned sources _ _ 0 0 ⟨.refl base, rfl, rfl, rfl, rfl, trivial⟩

end Runs

end StubTree.Package
