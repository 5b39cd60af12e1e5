import Mathlib
import StubTree.Proofs.PrunedRuns

/-!
What the log of a run accounts for. A source that is processed reports on every
one of its types: those that are refused come first, then each namespace with
the warnings for its types and what has been written to it, and the count of
the whole source last. The counts of a run are those that its log adds up to.
-/

namespace StubTree

def Notice.event? : Notice → Option Log.Event
  | .event e => some e
  | _ => none

/-- The events among notices. -/
def eventsOf (notices : List Notice) : List Log.Event := notices.filterMap Notice.event?

@[simp] theorem eventsOf_nil : eventsOf [] = [] := rfl

@[simp] theorem eventsOf_append (ns ms : List Notice) :
    eventsOf (ns ++ ms) = eventsOf ns ++ eventsOf ms := List.filterMap_append

@[simp] theorem eventsOf_map_event (events : List Log.Event) :
    eventsOf (events.map .event) = events := by
  rw [eventsOf, List.filterMap_map]
  exact List.filterMap_some

/-- An announcement is no event. -/
theorem eventsOf_advance (label : String) (done total : Nat) (ns : List Notice) :
    eventsOf ([.advance label done total] ++ ns) = eventsOf ns := rfl

namespace Log.Event

/-- A namespace that has been written to, for which source, and the number of types. -/
def contribution? : Event → Option (String × String × Nat)
  | contributed home source types => some (home, source, types)
  | _ => none

/-- The number of types written for a source that has been processed. -/
def written? : Event → Option Nat
  | sourceProcessed _ _ written _ => some written
  | _ => none

def isFailure : Event → Bool
  | sourceFailed .. => true
  | _ => false

def isSkip : Event → Bool
  | typeSkipped .. => true
  | _ => false

def isMisplaced : Event → Bool
  | namespaceRejected .. => true
  | _ => false

/-- Made while the stub of a type is written. -/
def isRemark : Event → Bool
  | memberSkipped .. => true
  | kindUnsupported .. => true
  | operatorUnsupported .. => true
  | _ => false

end Log.Event

namespace Stub

open Metadata
open Log (Event)

mutual

theorem isRemark_of_mem_events (t : TypeInfo) : ∀ e ∈ events t, e.isRemark = true := by
  obtain ⟨header, members⟩ := t
  have hskipped : ∀ e ∈ skippedMembers header.name members, e.isRemark = true := by
    intro e he
    obtain ⟨m, -, he⟩ := List.mem_filterMap.mp he
    obtain ⟨r, -, rfl⟩ := Option.map_eq_some_iff.mp he
    rfl
  have hoperators (ms : List Method) :
      ∀ e ∈ operatorEvents header.name ms, e.isRemark = true := by
    intro e he
    obtain ⟨group, -, he⟩ := List.mem_flatMap.mp he
    obtain ⟨m, -, he⟩ := List.mem_filterMap.mp he
    split at he
    · simp at he
    · split at he
      · cases he
        rfl
      · simp at he
  have hnested := isRemark_of_mem_nestedEvents members
  rw [events]
  split
  · simp [Event.isRemark]
  · simp
  · simp only [List.mem_append]
    rintro e ((he | he) | he)
    · exact hskipped e he
    · exact hoperators _ e he
    · exact hnested e he

theorem isRemark_of_mem_nestedEvents (members : List Member) :
    ∀ e ∈ nestedEvents members, e.isRemark = true := by
  match members with
  | [] => simp [nestedEvents]
  | .nested t :: rest =>
    have htype := isRemark_of_mem_events t
    have hrest := isRemark_of_mem_nestedEvents rest
    rw [nestedEvents]
    split
    · simpa using hrest
    · simp only [List.mem_append]
      rintro e (he | he)
      · exact htype e he
      · exact hrest e he
  | .constructor _ :: rest | .property _ :: rest | .field _ :: rest | .method _ :: rest =>
    exact isRemark_of_mem_nestedEvents rest

end

def isUnsupported (t : TypeInfo) : Bool := t.kind = .unsupported

def kindWarning (t : TypeInfo) : Event := .kindUnsupported t.qualifiedName t.origin

theorem events_of_unsupported {t : TypeInfo} (h : isUnsupported t = true) :
    events t = [kindWarning t] := by
  obtain ⟨header, members⟩ := t
  simp only [isUnsupported, decide_eq_true_eq] at h
  simp only [events, h, kindWarning]

theorem isSome_text? (depth : Nat) (t : TypeInfo) :
    (text? depth t).isSome = !isUnsupported t := by
  obtain ⟨header, members⟩ := t
  rw [text?, Option.isSome_map, stub?, isUnsupported]
  cases header.kind <;> rfl

end Stub

namespace Package

open Metadata Files
open Log (Event)

/-- The namespaces that a log says have been written to, with repetitions. -/
def homesIn (log : List Event) : List String :=
  (log.filterMap Event.contribution?).map Prod.fst

/-- Why a type is not written below the root: the filter comes before the namespace. -/
def refusal? (t : TypeInfo) : Option Event :=
  let home := Namespace.homeOf t.toTypeHeader
  match Stub.typeRejection? t.toTypeHeader, Namespace.rejection? home with
  | some r, _ => some (.typeSkipped t.name r.reason)
  | none, some r => some (.namespaceRejected home t.name r.reason t.origin)
  | none, none => none

/-- The namespaces of the accepted types in the order of their first appearance. -/
def homesOf (types : List TypeInfo) : List String :=
  Text.distinct ((types.filter isAccepted).map fun t => Namespace.homeOf t.toTypeHeader)

/-- Accepted types without a stub. -/
def leftOut (types : List TypeInfo) : List TypeInfo :=
  (types.filter isAccepted).filter Stub.isUnsupported

/-- Where the types of a source have gone, as far as the log of it tells. -/
structure Accounts (source : String) (types : List TypeInfo) (written : Nat)
    (log : List Event) : Prop where
  balance : types.length =
    log.countP Event.isSkip + log.countP Event.isMisplaced + (leftOut types).length + written
  warned : ((leftOut types).map Stub.kindWarning).Subperm log
  /-- Refusals come before everything else, in the order of the types. -/
  refused : ∃ rest, log = types.filterMap refusal? ++ rest ∧
    ∀ e ∈ rest, e.isSkip = false ∧ e.isMisplaced = false
  contributed : log.filterMap Event.contribution? = (homesOf types).map fun home =>
    (home, source, (typesIn home types).countP fun t => !Stub.isUnsupported t)
  total : ((log.filterMap Event.contribution?).map fun c => c.2.2).sum = written
  last : log.getLast? =
    some (.sourceProcessed source types.length written (homesOf types).length)

/-- The counts that a log adds to those of a context. -/
structure Counted (log : List Event) (before after : Context) : Prop where
  processed : after.processed = before.processed + (log.filterMap Event.written?).length
  failed : after.failed = before.failed + log.countP Event.isFailure
  written : after.written = before.written + (log.filterMap Event.written?).sum
  touched : after.touched = Text.insertEach before.touched (homesIn log)

/-- The counts of a run are those of its log, and each source is counted once. -/
structure Tallies (sources : List Source) (report : Report) (log : List Event) : Prop where
  sources : report.processed + report.failed = sources.length
  written : report.typesWritten = (log.filterMap Event.written?).sum
  namespaces : report.namespaces = (Text.distinct (homesIn log)).length

section Logs

theorem unfiled_eq (types : List TypeInfo) : unfiled types = types.filterMap refusal? := by
  rw [unfiled]
  congr 1
  funext t
  simp only [filing, refusal?]
  cases Stub.typeRejection? t.toTypeHeader <;>
    cases Namespace.rejection? (Namespace.homeOf t.toTypeHeader) <;> rfl

theorem isAccepted_eq (t : TypeInfo) : isAccepted t = (refusal? t).isNone := by
  simp only [isAccepted, refusal?]
  cases Stub.typeRejection? t.toTypeHeader <;>
    cases Namespace.rejection? (Namespace.homeOf t.toTypeHeader) <;> rfl

theorem refusal?_eq_some {t : TypeInfo} {e : Event} (h : refusal? t = some e) :
    e.isSkip = !e.isMisplaced ∧ e.contribution? = none ∧ e.written? = none ∧
      e.isFailure = false := by
  simp only [refusal?] at h
  split at h <;> cases h <;> exact ⟨rfl, rfl, rfl, rfl⟩

/-- A type is skipped, or it is misplaced, or it is accepted. -/
theorem length_eq_refused_add_accepted (types : List TypeInfo) :
    types.length = (types.filterMap refusal?).countP Event.isSkip +
      (types.filterMap refusal?).countP Event.isMisplaced + (types.filter isAccepted).length := by
  induction types with
  | nil => rfl
  | cons t rest ih =>
      rw [List.filterMap_cons, List.filter_cons, isAccepted_eq]
      cases hrefusal : refusal? t with
      | none =>
          simp only [Option.isNone_none, ↓reduceIte, List.length_cons]
          omega
      | some e =>
          have hkind := (refusal?_eq_some hrefusal).1
          simp only [Option.isNone_some, Bool.false_eq_true, ↓reduceIte, List.length_cons,
            List.countP_cons, hkind]
          cases e.isMisplaced <;> simp only [Bool.not_true, Bool.not_false, Bool.false_eq_true,
            ↓reduceIte] <;> omega

theorem length_stubTexts (types : List TypeInfo) :
    (stubTexts types).length = types.countP fun t => !Stub.isUnsupported t := by
  rw [stubTexts, List.length_filterMap_eq_countP]
  simp only [Stub.isSome_text?]

theorem homes_group (types : List TypeInfo) :
    (Namespace.group (filed types)).map Prod.fst = homesOf types := by
  rw [Namespace.group, Text.groupBy, List.map_map, List.map_map, filed_eq, List.map_map]
  exact List.map_id _

/-- The groups share out the accepted types. -/
theorem perm_flatMap_group (types : List TypeInfo) :
    ((Namespace.group (filed types)).flatMap Prod.snd).Perm (types.filter isAccepted) := by
  have hgroups := (Text.perm_flatMap_groupBy Prod.fst (filed types)).map Prod.snd
  rw [List.map_flatMap] at hgroups
  have haccepted : (filed types).map Prod.snd = types.filter isAccepted := by
    rw [filed_eq, List.map_map]
    exact List.map_id _
  rw [haccepted] at hgroups
  refine .trans ?_ hgroups
  rw [Namespace.group, List.flatMap_map]
  exact List.Perm.flatMap_left _ fun group _ => List.mergeSort_perm _ _

theorem writtenBy_contributionsOf (load : Load) :
    writtenBy (contributionsOf load) =
      (load.types.filter isAccepted).countP fun t => !Stub.isUnsupported t := by
  rw [writtenBy, contributionsOf, List.flatMap_map,
    ← (perm_flatMap_group load.types).countP_eq, ← length_stubTexts, stubTexts,
    List.filterMap_flatMap]
  rfl

/-- What is told of a namespace: the remarks on its types, and how many were written. -/
def groupEvents (source : String) (group : String × List TypeInfo) : List Event :=
  group.2.flatMap Stub.events ++ [.contributed group.1 source (stubTexts group.2).length]

/-- What is told of a source that has types. -/
def loadEvents (load : Load) : List Event :=
  unfiled load.types ++
    ((Namespace.group (filed load.types)).flatMap (groupEvents load.source) ++
      [.sourceProcessed load.source load.types.length (writtenBy (contributionsOf load))
        (Namespace.group (filed load.types)).length])

theorem filterMap_remarks {α : Type} {f : Event → Option α}
    (hf : ∀ e : Event, e.isRemark = true → f e = none) (types : List TypeInfo) :
    (types.flatMap Stub.events).filterMap f = [] := by
  rw [List.filterMap_eq_nil_iff]
  intro e he
  obtain ⟨t, -, he⟩ := List.mem_flatMap.mp he
  exact hf e (Stub.isRemark_of_mem_events t e he)

/-- Apart from remarks on types, a source tells of each namespace once. -/
theorem filterMap_groupEvents {α : Type} {f : Event → Option α}
    (hf : ∀ e : Event, e.isRemark = true → f e = none) (source : String)
    (groups : List (String × List TypeInfo)) :
    (groups.flatMap (groupEvents source)).filterMap f =
      groups.filterMap fun group => f (.contributed group.1 source (stubTexts group.2).length) := by
  induction groups with
  | nil => rfl
  | cons group rest ih =>
      rw [List.flatMap_cons, List.filterMap_append, ih, groupEvents, List.filterMap_append,
        filterMap_remarks hf, List.nil_append, List.filterMap_cons, List.filterMap_cons]
      split <;> rfl

theorem filterMap_unfiled {α : Type} {f : Event → Option α} (types : List TypeInfo)
    (hf : ∀ t e, refusal? t = some e → f e = none) : (unfiled types).filterMap f = [] := by
  rw [unfiled_eq, List.filterMap_eq_nil_iff]
  intro e he
  obtain ⟨t, -, he⟩ := List.mem_filterMap.mp he
  exact hf t e he

/-- The warning of a type that is left out is among the remarks on its namespace. -/
theorem warned_groupEvents (source : String) (groups : List (String × List TypeInfo)) :
    (((groups.flatMap Prod.snd).filter Stub.isUnsupported).map Stub.kindWarning).Sublist
      (groups.flatMap (groupEvents source)) := by
  have htypes (types : List TypeInfo) :
      ((types.filter Stub.isUnsupported).map Stub.kindWarning).Sublist
        (types.flatMap Stub.events) := by
    induction types with
    | nil => exact .slnil
    | cons t rest ih =>
        rw [List.filter_cons, List.flatMap_cons]
        split
        next h =>
          rw [Stub.events_of_unsupported h]
          exact ih.cons_cons _
        next => exact ih.trans (List.sublist_append_right _ _)
  induction groups with
  | nil => exact .slnil
  | cons group rest ih =>
      rw [List.flatMap_cons, List.filter_append, List.map_append, List.flatMap_cons, groupEvents]
      exact ((htypes group.2).trans (List.sublist_append_left _ _)).append ih

theorem contribution?_loadEvents (load : Load) :
    (loadEvents load).filterMap Event.contribution? =
      (Namespace.group (filed load.types)).map fun group =>
        (group.1, load.source, (stubTexts group.2).length) := by
  have hremark (e : Event) (h : e.isRemark = true) : e.contribution? = none := by
    cases e <;> first | rfl | cases h
  rw [loadEvents, List.filterMap_append, List.filterMap_append,
    filterMap_unfiled _ fun t e h => (refusal?_eq_some h).2.1, filterMap_groupEvents hremark]
  simp [Event.contribution?]

theorem written?_loadEvents (load : Load) :
    (loadEvents load).filterMap Event.written? = [writtenBy (contributionsOf load)] := by
  have hremark (e : Event) (h : e.isRemark = true) : e.written? = none := by
    cases e <;> first | rfl | cases h
  rw [loadEvents, List.filterMap_append, List.filterMap_append,
    filterMap_unfiled _ fun t e h => (refusal?_eq_some h).2.2.1, filterMap_groupEvents hremark]
  simp [Event.written?]

/-- After the refusals there are none among the events of a source. -/
theorem not_refusal_of_mem {load : Load} {e : Event}
    (h : e ∈ (Namespace.group (filed load.types)).flatMap (groupEvents load.source) ++
      [.sourceProcessed load.source load.types.length (writtenBy (contributionsOf load))
        (Namespace.group (filed load.types)).length]) :
    e.isSkip = false ∧ e.isMisplaced = false ∧ e.isFailure = false := by
  rcases List.mem_append.mp h with h | h
  · obtain ⟨group, -, h⟩ := List.mem_flatMap.mp h
    rcases List.mem_append.mp h with h | h
    · obtain ⟨t, -, h⟩ := List.mem_flatMap.mp h
      have hremark := Stub.isRemark_of_mem_events t e h
      cases e <;> first | exact ⟨rfl, rfl, rfl⟩ | cases hremark
    · cases List.mem_singleton.mp h
      exact ⟨rfl, rfl, rfl⟩
  · cases List.mem_singleton.mp h
    exact ⟨rfl, rfl, rfl⟩

theorem countP_isFailure_loadEvents (load : Load) :
    (loadEvents load).countP Event.isFailure = 0 := by
  rw [List.countP_eq_zero, loadEvents, unfiled_eq]
  intro e he
  rcases List.mem_append.mp he with he | he
  · obtain ⟨t, -, he⟩ := List.mem_filterMap.mp he
    simp [(refusal?_eq_some he).2.2.2]
  · simp [(not_refusal_of_mem he).2.2]

theorem loadEvents_accounts (load : Load) :
    Accounts load.source load.types (writtenBy (contributionsOf load)) (loadEvents load) where
  balance := by
    have hrefused := length_eq_refused_add_accepted load.types
    have haccepted := (load.types.filter isAccepted).length_eq_countP_add_countP
      Stub.isUnsupported
    have hskips : (loadEvents load).countP Event.isSkip =
        (load.types.filterMap refusal?).countP Event.isSkip := by
      rw [loadEvents, List.countP_append, unfiled_eq, Nat.add_eq_left, List.countP_eq_zero]
      exact fun e he => Bool.eq_false_iff.mp (not_refusal_of_mem he).1
    have hmisplaced : (loadEvents load).countP Event.isMisplaced =
        (load.types.filterMap refusal?).countP Event.isMisplaced := by
      rw [loadEvents, List.countP_append, unfiled_eq, Nat.add_eq_left, List.countP_eq_zero]
      exact fun e he => Bool.eq_false_iff.mp (not_refusal_of_mem he).2.1
    rw [hskips, hmisplaced, leftOut, ← List.countP_eq_length_filter, writtenBy_contributionsOf]
    simp only [Bool.not_eq_true, Bool.decide_eq_false] at haccepted
    omega
  warned := by
    have hperm := ((perm_flatMap_group load.types).filter Stub.isUnsupported).map Stub.kindWarning
    refine ⟨_, hperm, (warned_groupEvents load.source _).trans ?_⟩
    rw [loadEvents]
    exact (List.sublist_append_left _ _).trans (List.sublist_append_right _ _)
  refused := by
    refine ⟨_, by rw [loadEvents, unfiled_eq], fun e he => ?_⟩
    exact ⟨(not_refusal_of_mem he).1, (not_refusal_of_mem he).2.1⟩
  contributed := by
    rw [contribution?_loadEvents, ← homes_group, List.map_map]
    refine List.map_congr_left fun group hgroup => ?_
    have hmembers := (mem_group_filed.mp hgroup).2
    have hperm := Text.perm_sortBy (fun t : TypeInfo => t.name) (typesIn group.1 load.types)
    simp only [Function.comp_apply, length_stubTexts, hmembers, sorted, hperm.countP_eq]
  total := by
    rw [contribution?_loadEvents, List.map_map, writtenBy, contributionsOf, List.flatMap_map,
      List.length_flatMap]
    rfl
  last := by
    have hlength : (Namespace.group (filed load.types)).length = (homesOf load.types).length := by
      rw [← homes_group, List.length_map]
    rw [loadEvents, ← List.append_assoc, List.getLast?_concat, hlength]

end Logs

section Telling

variable {site site' : Site} {told : List Notice}

namespace Site

theorem tells_onFiles {α : Type} {action : Action α} {a : α} :
    Job.Tells (Site.onFiles action) site a site' told ↔
      ∃ tree, action site.tree = .ok a tree ∧ { site with tree := tree } = site' ∧ told = [] := by
  simp only [Site.onFiles, Job.tells_focus, Job.tells_act]
  constructor
  · rintro ⟨tree, ⟨haction, htold⟩, hsite⟩
    exact ⟨tree, haction, hsite, htold⟩
  · rintro ⟨tree, haction, hsite, htold⟩
    exact ⟨tree, ⟨haction, htold⟩, hsite⟩

theorem tells_onContext {f : Context → Context} {u : Unit} :
    Job.Tells (Site.onContext f) site u site' told ↔
      { site with context := f site.context } = site' ∧ told = [] := Job.tells_modify

end Site

theorem Counted.refl (context : Context) : Counted [] context context := ⟨rfl, rfl, rfl, rfl⟩

theorem Counted.trans {log log' : List Event} {first second third : Context}
    (h : Counted log first second) (h' : Counted log' second third) :
    Counted (log ++ log') first third where
  processed := by
    rw [h'.processed, h.processed, List.filterMap_append, List.length_append, Nat.add_assoc]
  failed := by rw [h'.failed, h.failed, List.countP_append, Nat.add_assoc]
  written := by
    rw [h'.written, h.written, List.filterMap_append, List.sum_append_nat, Nat.add_assoc]
  touched := by
    rw [h'.touched, h.touched, homesIn, homesIn, homesIn, List.filterMap_append, List.map_append,
      Text.insertEach_append]

theorem append_tells {home source : String} {types : List TypeInfo} {n : Nat}
    (h : Job.Tells (append home source types) site n site' told) :
    n = (stubTexts types).length ∧ eventsOf told = groupEvents source (home, types) ∧
      site'.context =
        { site.context with touched := Text.insertSorted home site.context.touched } := by
  simp only [append, Job.tells_bind, Job.tells_get, Site.tells_onContext, Job.tells_report,
    Site.tells_onFiles, Job.tells_pure, and_assoc, ↓existsAndEq, true_and, List.nil_append,
    List.append_nil] at h
  obtain ⟨_, _, _, _, _, tree, made, -, -, rfl, rfl, rfl⟩ := h
  refine ⟨rfl, ?_, rfl⟩
  rw [eventsOf_append, eventsOf_map_event, eventsOf_map_event, groupEvents]

theorem appendAll_tells {source : String} {groups : List (String × List TypeInfo)} {n : Nat}
    (h : Job.Tells (appendAll source groups) site n site' told) :
    n = (groups.map fun group => (stubTexts group.2).length).sum ∧
      eventsOf told = groups.flatMap (groupEvents source) ∧
      site'.context =
        { site.context with
          touched := Text.insertEach site.context.touched (groups.map Prod.fst) } := by
  induction groups generalizing site n told with
  | nil =>
      obtain ⟨rfl, rfl, rfl⟩ := Job.tells_pure.mp h
      exact ⟨rfl, rfl, rfl⟩
  | cons group rest ih =>
      simp only [appendAll, Job.tells_bind, Job.tells_pure, and_assoc, ↓existsAndEq, true_and,
        List.append_nil] at h
      obtain ⟨first, middle, before, after, hfirst, ⟨more, hrest, rfl, -⟩, rfl⟩ := h
      obtain ⟨rfl, htold, hcontext⟩ := append_tells hfirst
      obtain ⟨rfl, htold', hcontext'⟩ := ih hrest
      refine ⟨rfl, ?_, ?_⟩
      · rw [eventsOf_append, htold, htold', List.flatMap_cons]
      · rw [hcontext', hcontext]
        rfl

theorem processTypes_tells {source : String} {types : List TypeInfo} {u : Unit}
    (h : Job.Tells (processTypes source types) site u site' told) :
    eventsOf told = loadEvents ⟨source, types⟩ ∧
      site'.context =
        { site.context with
          touched := Text.insertEach site.context.touched (homesOf types)
          written := site.context.written + writtenBy (contributionsOf ⟨source, types⟩)
          processed := site.context.processed + 1 } := by
  simp only [processTypes, Job.tells_bind, Job.tells_report, Site.tells_onContext, and_assoc,
    ↓existsAndEq, true_and, List.append_nil] at h
  obtain ⟨_, n, middle, between, _, happend, rfl, rfl⟩ := h
  obtain ⟨hn, hevents, hcontext⟩ := appendAll_tells happend
  have hwritten : n = writtenBy (contributionsOf ⟨source, types⟩) := by
    rw [hn, writtenBy, contributionsOf, List.flatMap_map, List.length_flatMap]
    rfl
  subst hwritten
  refine ⟨?_, ?_⟩
  · simp only [eventsOf_append, eventsOf_map_event, hevents, loadEvents]
  · simp only [hcontext, homes_group]

theorem counted_loadEvents {load : Load} {context : Context} :
    Counted (loadEvents load) context
      { context with
        touched := Text.insertEach context.touched (homesOf load.types)
        written := context.written + writtenBy (contributionsOf load)
        processed := context.processed + 1 } where
  processed := by rw [written?_loadEvents]; rfl
  failed := by rw [countP_isFailure_loadEvents]; rfl
  written := by rw [written?_loadEvents]; rfl
  touched := by
    rw [homesIn, contribution?_loadEvents, List.map_map, ← homes_group]
    rfl

/-- A source is either processed or failed, and what it tells says so. -/
theorem processSource_tells {source : Source} {u : Unit}
    (h : Job.Tells (processSource source) site u site' told) :
    Counted (eventsOf told) site.context site'.context ∧
      ((eventsOf told).filterMap Event.written?).length +
        (eventsOf told).countP Event.isFailure = 1 := by
  cases htypes : source.types site.tree with
  | ok types =>
      rw [Job.Tells, processSource_of_ok htypes, ← Job.Tells] at h
      obtain ⟨hevents, hcontext⟩ := processTypes_tells h
      rw [hevents, hcontext, written?_loadEvents, countP_isFailure_loadEvents]
      exact ⟨counted_loadEvents, rfl⟩
  | error fault =>
      rw [Job.Tells, processSource, Job.get_bind, htypes, ← Job.Tells] at h
      simp only [Job.tells_bind, Job.tells_report, Site.tells_onContext, and_assoc, ↓existsAndEq,
        true_and, List.append_nil] at h
      obtain ⟨_, rfl, rfl⟩ := h
      exact ⟨⟨rfl, rfl, rfl, rfl⟩, rfl⟩

/-- The counts after all sources, by induction on what each of them adds. -/
theorem processFrom_tells {sources : List Source} {total done : Nat} {u : Unit}
    (h : Job.Tells (processFrom total done sources) site u site' told) :
    Counted (eventsOf told) site.context site'.context ∧
      ((eventsOf told).filterMap Event.written?).length +
        (eventsOf told).countP Event.isFailure = sources.length := by
  induction sources generalizing done site told with
  | nil =>
      obtain ⟨-, rfl, rfl⟩ := Job.tells_pure.mp h
      exact ⟨.refl _, rfl⟩
  | cons source rest ih =>
      simp only [processFrom, Job.tells_bind, Job.tells_tell, and_assoc, ↓existsAndEq,
        true_and] at h
      obtain ⟨_, _, middle, before, after, hsource, hrest, rfl⟩ := h
      obtain ⟨hcounted, hone⟩ := processSource_tells hsource
      obtain ⟨hcounted', hothers⟩ := ih hrest
      rw [eventsOf_advance, eventsOf_append]
      refine ⟨hcounted.trans hcounted', ?_⟩
      rw [List.filterMap_append, List.length_append, List.countP_append, List.length_cons]
      omega

theorem markers_tell {directories : List String} {u : Unit}
    (h : Job.Tells (directories.forM fun d => Site.onFiles (Action.write (join d markerFile) []))
      site u site' told) : site'.context = site.context ∧ told = [] := by
  induction directories generalizing site told with
  | nil =>
      obtain ⟨-, rfl, rfl⟩ := Job.tells_pure.mp h
      exact ⟨rfl, rfl⟩
  | cons directory rest ih =>
      obtain ⟨_, middle, before, after, hfirst, hrest, rfl⟩ := Job.tells_bind.mp h
      obtain ⟨tree, -, rfl, rfl⟩ := Site.tells_onFiles.mp hfirst
      obtain ⟨hcontext, htold⟩ := ih hrest
      exact ⟨hcontext, htold⟩

/-- Finishing tells nothing, and the report has the counts of the context. -/
theorem finish_tells {report : Report} (h : Job.Tells finish site report site' told) :
    told = [] ∧ report.processed = site.context.processed ∧
      report.failed = site.context.failed ∧ report.typesWritten = site.context.written ∧
      report.namespaces = site.context.touched.length := by
  simp only [finish, finalize, Job.tells_bind, Job.tells_get, Site.tells_onFiles, Job.tells_pure,
    and_assoc, ↓existsAndEq, true_and, List.nil_append, List.append_nil] at h
  obtain ⟨_, _, tree, _, marked, made, hmarkers, -, -, rfl, -⟩ := h
  obtain ⟨hcontext, htold⟩ := markers_tell hmarkers
  simp only [hcontext, and_true]
  exact htold

/-- A run tells what its sources tell and that it is complete. The report has their counts. -/
theorem run_told {sources : List Source} {root : String} {tree after : Tree} {report : Report}
    (h : Job.Tells (run sources root) tree report after told) :
    ∃ base middle before, emptyRoot root tree = .ok () base ∧
      Job.Tells (processAll sources) ⟨base, { root := root }⟩ () middle before ∧
      eventsOf told = eventsOf before ++
        [.completed report.outputRoot report.typesWritten report.failed] ∧
      report.processed = middle.context.processed ∧ report.failed = middle.context.failed ∧
      report.typesWritten = middle.context.written ∧
      report.namespaces = middle.context.touched.length := by
  simp only [run, Job.tells_concluding, Job.tells_bind, reset, Job.tells_act, withNewPackage,
    Job.tells_focus, and_assoc, ↓existsAndEq, true_and, List.nil_append] at h
  obtain ⟨_, base, _, _, middle, before, last, hempty, hprocess, hfinish, -, rfl⟩ := h
  obtain ⟨rfl, hcounts⟩ := finish_tells hfinish
  refine ⟨base, middle, before, hempty, hprocess, ?_, hcounts⟩
  rw [List.append_nil, eventsOf_append]
  rfl

theorem run_tells {sources : List Source} {root : String} {tree after : Tree} {report : Report}
    (h : Job.Tells (run sources root) tree report after told) :
    Tallies sources report (eventsOf told) := by
  obtain ⟨base, middle, before, -, hprocess, hevents, hprocessed, hfailed, hwritten,
    hnamespaces⟩ := run_told h
  obtain ⟨hcounted, hlength⟩ := processFrom_tells hprocess
  have hhomes (e : Event) (h : e.contribution? = none) :
      homesIn (eventsOf before ++ [e]) = homesIn (eventsOf before) := by
    simp [homesIn, h]
  rw [hevents]
  refine ⟨?_, ?_, ?_⟩
  · rw [hprocessed, hfailed, hcounted.processed, hcounted.failed, ← hlength]
    simp only [Nat.zero_add]
  · rw [hwritten, hcounted.written, List.filterMap_append, List.sum_append_nat]
    exact Nat.zero_add _
  · rw [hnamespaces, hcounted.touched, hhomes _ rfl, Text.length_insertEach_nil]

end Telling

/-- A source accounts for its types, and a run for its sources. -/
theorem log_accounts_for_types :
    (∀ (source : Source) (site : Site) (types : List TypeInfo),
      source.types site.tree = .ok types → (processSource source site).result = .ok () →
        ∃ written,
          Accounts source.id types written (eventsOf (processSource source site).notices) ∧
            (processSource source site).state.context.written =
              site.context.written + written) ∧
      ∀ (sources : List Source) (root : String) (tree : Tree) (report : Report),
        (run sources root tree).result = .ok report →
          Tallies sources report (eventsOf (run sources root tree).notices) := by
  refine ⟨fun source site types htypes hok => ?_, fun sources root tree report hok => ?_⟩
  · have htells := Job.tells_of_ok hok
    rw [Job.Tells, processSource_of_ok htypes, ← Job.Tells] at htells
    obtain ⟨hevents, hcontext⟩ := processTypes_tells htells
    refine ⟨writtenBy (contributionsOf ⟨source.id, types⟩), ?_, ?_⟩
    · rw [processSource_of_ok htypes, hevents]
      exact loadEvents_accounts ⟨source.id, types⟩
    · rw [processSource_of_ok htypes, hcontext]
  · exact run_tells (Job.tells_of_ok hok)

/-- One type for each way that a type can go, and another one to be written. -/
def mixedTypes : List TypeInfo :=
  [{ name := "Shelf", kind := .reference, home := some "Shop" },
    { name := "Hidden", kind := .reference, specialName := true },
    { name := "Lost", kind := .reference, home := some "Shop..Stock" },
    { name := "Raw", kind := .unsupported, home := some "Attic", origin := "archive" },
    { name := "Bin", kind := .enumeration, home := some "Store" }]

/-- The first and the last source share a namespace, and the one between them fails. -/
def mixedSources : List Source :=
  [.fixed "a" mixedTypes, .broken "b" "gone",
    .fixed "c" [{ name := "Rack", kind := .reference, home := some "Shop" }]]

theorem log_accounts_for_mixed_types :
    (∃ written,
      Accounts "a" (Source.stamp "a" mixedTypes) written
          (eventsOf (processSource (.fixed "a" mixedTypes)
            ⟨.empty "/w", { root := "out", written := 7 }⟩).notices) ∧
        (processSource (.fixed "a" mixedTypes)
          ⟨.empty "/w", { root := "out", written := 7 }⟩).state.context.written = 7 + written) ∧
      (run mixedSources "out" (.empty "/w")).result = .ok ⟨"/w/out", 2, 1, 3, 3⟩ ∧
        Tallies mixedSources ⟨"/w/out", 2, 1, 3, 3⟩
          (eventsOf (run mixedSources "out" (.empty "/w")).notices) := by
  have hsource : (processSource (.fixed "a" mixedTypes)
      ⟨.empty "/w", { root := "out", written := 7 }⟩).result = .ok () := by decide +kernel
  have hrun : (run mixedSources "out" (.empty "/w")).result = .ok ⟨"/w/out", 2, 1, 3, 3⟩ := by
    decide +kernel
  refine ⟨?_, hrun, log_accounts_for_types.2 mixedSources "out" _ _ hrun⟩
  exact log_accounts_for_types.1 (.fixed "a" mixedTypes) _ _ rfl hsource

end Package

end StubTree
