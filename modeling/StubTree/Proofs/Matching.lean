import StubTree.Proofs.Finishing
import StubTree.Proofs.Views

/-!
Runs side by side. Two sites match if nothing that is written can depend on the
difference between them: the trees are the same, and the contexts differ at
most in how many sources have failed. From matching sites the steps of a run
end alike as long as they are given the same texts for the same namespaces.
-/

namespace StubTree.Package

open Files Metadata

/-- Whatever is allowed between the numbers of failed sources. -/
structure Matching (failures : Nat → Nat → Prop) (site site' : Site) : Prop where
  tree : Tree.Same site.tree site'.tree
  root : site.context.root = site'.context.root
  touched : site.context.touched = site'.context.touched
  processed : site.context.processed = site'.context.processed
  written : site.context.written = site'.context.written
  failed : failures site.context.failed site'.context.failed

structure ReportsMatch (failures : Nat → Nat → Prop) (report report' : Report) : Prop where
  outputRoot : report.outputRoot = report'.outputRoot
  processed : report.processed = report'.processed
  namespaces : report.namespaces = report'.namespaces
  typesWritten : report.typesWritten = report'.typesWritten
  failed : failures report.failed report'.failed

theorem act_alike {notices : List Notice → List Notice → Prop} (hadd : Job.Additive notices)
    {α : Type} {action : Action α} (huniform : Action.Uniform action)
    (failure : Fault → Failure) :
    Job.Alike Tree.Same notices Eq (Job.act failure action) (Job.act failure action) := by
  intro tree tree' hsame
  have hends := huniform tree tree' hsame
  simp only [Job.act]
  generalize action tree = first at hends
  generalize action tree' = first' at hends
  cases hends with
  | ok hsame' => exact .ok rfl hsame' (hadd.refl [])
  | error hsame' => exact .error hsame' (hadd.refl [])

section Steps

variable {failures : Nat → Nat → Prop} {notices : List Notice → List Notice → Prop}
  (hadd : Job.Additive notices)
include hadd

theorem onFiles_alike {α : Type} {action : Action α} (huniform : Action.Uniform action) :
    Job.Alike (Matching failures) notices Eq (Site.onFiles action) (Site.onFiles action) := by
  refine Job.Alike.focus (act_alike hadd huniform _) (fun _ _ hmatch => hmatch.tree) ?_
  intro site site' tree tree' hmatch hsame
  exact ⟨hsame, hmatch.root, hmatch.touched, hmatch.processed, hmatch.written, hmatch.failed⟩

/-- Types with the same texts are written alike, whatever else they are. -/
theorem append_alike (home source : String) {types types' : List TypeInfo}
    (htexts : stubTexts types = stubTexts types')
    (hevents : notices ((types.flatMap Stub.events).map .event)
      ((types'.flatMap Stub.events).map .event)) :
    Job.Alike (Matching failures) notices Eq (append home source types)
      (append home source types') := by
  refine Job.Alike.bind hadd (Job.Alike.get hadd) fun site site' hmatch => ?_
  simp only [hmatch.root, hmatch.touched, htexts]
  refine Job.Alike.bind hadd (Job.Alike.modify hadd ?_) fun _ _ _ => ?_
  · intro s s' h
    exact ⟨h.tree, h.root, by simp only [h.touched], h.processed, h.written, h.failed⟩
  refine Job.Alike.bind hadd (Job.Alike.report hevents) fun _ _ _ => ?_
  refine Job.Alike.bind hadd (onFiles_alike hadd (Action.uniform_createDirectories _))
    fun _ _ _ => ?_
  refine Job.Alike.bind hadd (onFiles_alike hadd (Action.uniform_append _ _)) fun _ _ _ => ?_
  refine Job.Alike.bind hadd (Job.Alike.report (hadd.refl _)) fun _ _ _ => ?_
  exact Job.Alike.pure hadd rfl

/-- Groups of one namespace whose types have the same texts. -/
def GroupsMatch (notices : List Notice → List Notice → Prop)
    (group group' : String × List TypeInfo) : Prop :=
  group.1 = group'.1 ∧ stubTexts group.2 = stubTexts group'.2 ∧
    notices ((group.2.flatMap Stub.events).map .event)
      ((group'.2.flatMap Stub.events).map .event)

theorem appendAll_alike (source : String) {groups groups' : List (String × List TypeInfo)}
    (hgroups : List.Forall₂ (GroupsMatch notices) groups groups') :
    Job.Alike (Matching failures) notices Eq (appendAll source groups)
      (appendAll source groups') := by
  induction hgroups with
  | nil => exact Job.Alike.pure hadd rfl
  | @cons group group' rest rest' hgroup _ ih =>
      obtain ⟨home, types⟩ := group
      obtain ⟨home', types'⟩ := group'
      obtain ⟨rfl, htexts, hevents⟩ := hgroup
      refine Job.Alike.bind hadd (append_alike hadd home source htexts hevents) fun n _ hn => ?_
      subst hn
      refine Job.Alike.bind hadd ih fun m _ hm => ?_
      subst hm
      exact Job.Alike.pure hadd rfl

theorem processTypes_alike (source : String) {types types' : List TypeInfo}
    (hgroups : List.Forall₂ (GroupsMatch notices) (Namespace.group (filed types))
      (Namespace.group (filed types')))
    (hunfiled : notices ((unfiled types).map .event) ((unfiled types').map .event))
    (hprocessed : ∀ written groups, notices
      [.event (.sourceProcessed source types.length written groups)]
      [.event (.sourceProcessed source types'.length written groups)]) :
    Job.Alike (Matching failures) notices Eq (processTypes source types)
      (processTypes source types') := by
  refine Job.Alike.bind hadd (Job.Alike.report hunfiled) fun _ _ _ => ?_
  refine Job.Alike.bind hadd (appendAll_alike hadd source hgroups) fun written _ hwritten => ?_
  subst hwritten
  rw [hgroups.length_eq]
  refine Job.Alike.bind hadd (Job.Alike.report (hprocessed written _)) fun _ _ _ => ?_
  refine Job.Alike.modify hadd fun s s' h => ?_
  exact ⟨h.tree, h.root, h.touched, by simp only [h.processed], by simp only [h.written],
    h.failed⟩

theorem finalize_alike : Job.Alike (Matching failures) notices Eq finalize finalize := by
  refine Job.Alike.bind hadd (Job.Alike.get hadd) fun site site' hmatch => ?_
  have hmarked : markedDirectories site.context = markedDirectories site'.context := by
    simp only [markedDirectories, hmatch.root, hmatch.touched]
  have htext : rootMarkerText site.context = rootMarkerText site'.context := by
    simp only [rootMarkerText, topLevel, hmatch.touched]
  have hself : List.Forall₂ Eq (markedDirectories site'.context)
      (markedDirectories site'.context) := List.forall₂_refl _
  simp only [hmarked, htext, hmatch.root]
  refine Job.Alike.bind hadd (Job.Alike.forM hadd hself ?_) fun _ _ _ => ?_
  · intro directory _ hsame
    subst hsame
    exact onFiles_alike hadd (Action.uniform_write _ _)
  · exact onFiles_alike hadd (Action.uniform_write _ _)

theorem finish_alike :
    Job.Alike (Matching failures) notices (ReportsMatch failures) finish finish := by
  refine Job.Alike.bind hadd (finalize_alike hadd) fun _ _ _ => ?_
  refine Job.Alike.bind hadd (Job.Alike.get hadd) fun site site' hmatch => ?_
  have hcanonical : site.tree.canonical site.context.root =
      site'.tree.canonical site'.context.root := by
    rw [hmatch.root, hmatch.tree.canonical]
  simp only [hcanonical]
  simp only [hmatch.root]
  refine Job.Alike.bind hadd (onFiles_alike hadd (Action.uniform_write _ _)) fun _ _ _ => ?_
  refine Job.Alike.pure hadd ⟨rfl, hmatch.processed, ?_, hmatch.written, hmatch.failed⟩
  simp only [hmatch.touched]

end Steps

end StubTree.Package
