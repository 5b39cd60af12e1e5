import StubTree.Proofs.Loading
import StubTree.Proofs.Protocol

/-!
Where types are said to come from. A source stamps the types that it exports, so
a warning about one of these has the type's own origin, or else that of its
source. A type that another one holds is not stamped: the warning about it has
the origin that the document gives, even if that is none. These are all the
warnings that state an origin, and a run that is complete gives every one.
-/

namespace StubTree

open Metadata Files Relation
open Log (Event)

/-- Where the type that an event is about is said to come from. -/
def Log.Event.origin? : Event → Option String
  | kindUnsupported _ origin => some origin
  | namespaceRejected _ _ _ origin => some origin
  | _ => none

namespace Stub

/-- A class holds another type, of which a stub is asked for as well. -/
def Holds (t u : TypeInfo) : Prop :=
  (t.kind ≠ .unsupported ∧ t.kind ≠ .enumeration) ∧ .nested u ∈ t.members ∧
    typeRejection? u.toTypeHeader = none

theorem mem_nestedEvents {members : List Member} {e : Event} :
    e ∈ nestedEvents members ↔
      ∃ u, .nested u ∈ members ∧ typeRejection? u.toTypeHeader = none ∧ e ∈ events u := by
  induction members with
  | nil => simp [nestedEvents]
  | cons m rest ih =>
      cases m with
      | nested t =>
          rw [nestedEvents, List.mem_append, ih]
          cases hrejection : typeRejection? t.toTypeHeader <;> simp [hrejection, or_and_right,
            exists_or]
      | constructor _ | property _ | field _ | method _ => simp [nestedEvents, ih]

/-- What is reported on a type is about the type itself or about one that it holds. -/
theorem mem_events_of_origin {t : TypeInfo} {e : Event} (h : e.origin? ≠ none) :
    e ∈ events t ↔
      (t.kind = .unsupported ∧ e = kindWarning t) ∨ ∃ u, Holds t u ∧ e ∈ events u := by
  have hskipped : e ∉ skippedMembers t.name t.members := by
    intro he
    obtain ⟨m, -, he⟩ := List.mem_filterMap.mp he
    obtain ⟨r, -, rfl⟩ := Option.map_eq_some_iff.mp he
    exact h rfl
  have hoperators : e ∉ operatorEvents t.name (methodsOf (accepted t.members)) := by
    intro he
    obtain ⟨group, -, he⟩ := List.mem_flatMap.mp he
    obtain ⟨m, -, he⟩ := List.mem_filterMap.mp he
    split at he
    · cases he
    · split at he
      · cases he
        exact h rfl
      · cases he
  obtain ⟨header, members⟩ := t
  rw [events]
  cases hkind : header.kind with
  | unsupported => simp [kindWarning, hkind, Holds]
  | enumeration => simp [hkind, Holds]
  | reference | value | interface =>
      simp only [List.mem_append, hskipped, hoperators, mem_nestedEvents, false_or]
      simp [hkind, Holds, and_assoc]

/-- By recursion into the types that a type holds, which are smaller. -/
theorem holds_of_mem_events {t : TypeInfo} {e : Event} (h : e.origin? ≠ none)
    (he : e ∈ events t) :
    ∃ u, ReflTransGen Holds t u ∧ u.kind = .unsupported ∧ e = kindWarning u := by
  rcases (mem_events_of_origin h).mp he with ⟨hkind, rfl⟩ | ⟨v, hholds, hv⟩
  · exact ⟨t, .refl, hkind, rfl⟩
  · obtain ⟨u, hu, hwarning⟩ := holds_of_mem_events h hv
    exact ⟨u, .head hholds hu, hwarning⟩
termination_by sizeOf t
decreasing_by
  obtain ⟨header, members⟩ := t
  have hmember := List.sizeOf_lt_of_mem hholds.2.1
  simp only [Member.nested.sizeOf_spec, TypeInfo.mk.sizeOf_spec] at hmember ⊢
  omega

/-- Each unsupported type at or below a type is warned about, and nothing else states an origin. -/
theorem mem_events_iff {t : TypeInfo} {e : Event} (h : e.origin? ≠ none) :
    e ∈ events t ↔
      ∃ u, ReflTransGen Holds t u ∧ u.kind = .unsupported ∧ e = kindWarning u := by
  constructor
  · exact holds_of_mem_events h
  · rintro ⟨u, hu, hkind, rfl⟩
    induction hu using ReflTransGen.head_induction_on with
    | refl => exact (mem_events_of_origin h).mpr (.inl ⟨hkind, rfl⟩)
    | head hholds _ ih => exact (mem_events_of_origin h).mpr (.inr ⟨_, hholds, ih⟩)

end Stub

namespace Source

/-- The types of a source as it finds them. -/
def given (tree : Tree) : Source → Except LoadFault (List TypeInfo)
  | document path _ => decodeFile documentTypes tree path
  | fixed _ types => .ok types
  | broken _ reason => .error (.other reason)

/-- The origin of an exported type: its own, or else that of the source. -/
def originIn (id : String) (t : TypeInfo) : String := if t.origin.isEmpty then id else t.origin

theorem originIn_ne_empty {id : String} (h : id ≠ "") (t : TypeInfo) : originIn id t ≠ "" := by
  rw [originIn]
  split
  next => exact h
  next horigin => simpa using horigin

def stamped (id : String) (t : TypeInfo) : TypeInfo := { t with origin := originIn id t }

@[simp] theorem typeRejection?_stamped (id : String) (t : TypeInfo) :
    Stub.typeRejection? (stamped id t).toTypeHeader = Stub.typeRejection? t.toTypeHeader := rfl

@[simp] theorem homeOf_stamped (id : String) (t : TypeInfo) :
    Namespace.homeOf (stamped id t).toTypeHeader = Namespace.homeOf t.toTypeHeader := rfl

theorem stamp_eq (id : String) (types : List TypeInfo) :
    stamp id types = types.map (stamped id) := by
  refine List.map_congr_left fun t _ => ?_
  rw [stamped, originIn]
  split
  next => rfl
  next => cases t; rfl

theorem types_eq (source : Source) (tree : Tree) :
    source.types tree = (source.given tree).map fun given => given.map (stamped source.id) := by
  cases source with
  | document path id =>
      simp only [Source.types, given, stamp_eq]
      cases decodeFile documentTypes tree path <;> rfl
  | fixed id types => simp only [Source.types, given, stamp_eq, Source.id, Except.map]
  | broken id reason => rfl

end Source

namespace Package

variable {sources : List Source} {root : String} {tree : Tree}

/-- The warnings about a type that a source exports, with the origins that they state. -/
inductive Warns (id : String) (t : TypeInfo) : Event → Prop where
  | misplaced {rejection : Namespace.Rejection} :
      Stub.typeRejection? t.toTypeHeader = none →
        Namespace.rejection? (Namespace.homeOf t.toTypeHeader) = some rejection →
          Warns id t (.namespaceRejected (Namespace.homeOf t.toTypeHeader) t.name rejection.reason
            (Source.originIn id t))
  | unsupported :
      isAccepted t = true → t.kind = .unsupported →
        Warns id t (.kindUnsupported t.qualifiedName (Source.originIn id t))
  | nested {u : TypeInfo} :
      isAccepted t = true → TransGen Stub.Holds t u → u.kind = .unsupported →
        Warns id t (.kindUnsupported u.qualifiedName u.origin)

/-- A source of a run exports a type, told as the source finds it when its turn comes. -/
def Exports (sources : List Source) (root : String) (tree : Tree) (id : String) (t : TypeInfo) :
    Prop :=
  ∃ source met given, (source, met) ∈ sources.zip (treesMet sources root tree) ∧
    source.id = id ∧ source.given met = .ok given ∧ t ∈ given

/-- Something to report on one of some types, be it refused or written. -/
def ToldOf (types : List TypeInfo) (e : Event) : Prop :=
  ∃ t ∈ types, refusal? t = some e ∨ isAccepted t = true ∧ e ∈ Stub.events t

/-- An event among the notices that states an origin is about one of some types. -/
def TellsOf (types : List TypeInfo) (notice : Notice) : Prop :=
  ∀ e, notice = .event e → e.origin? ≠ none → ToldOf types e

theorem mem_eventsOf {notices : List Notice} {e : Event} :
    e ∈ eventsOf notices ↔ .event e ∈ notices := by
  rw [eventsOf, List.mem_filterMap]
  constructor
  · rintro ⟨n, hn, he⟩
    cases n <;> cases he
    exact hn
  · intro h
    exact ⟨_, h, rfl⟩

/-- With the origin of a source in place of none, a type is told of as the warnings say. -/
theorem warns_iff {id : String} {t : TypeInfo} {e : Event} (h : e.origin? ≠ none) :
    (refusal? (Source.stamped id t) = some e ∨
      isAccepted (Source.stamped id t) = true ∧ e ∈ Stub.events (Source.stamped id t)) ↔
        Warns id t e := by
  rw [Stub.mem_events_iff h]
  constructor
  · rintro (hrefusal | ⟨haccepted, u, hu, hkind, rfl⟩)
    · rw [refusal?] at hrefusal
      split at hrefusal
      next => cases hrefusal; exact absurd rfl h
      next hrejection hhome =>
        cases hrefusal
        exact .misplaced hrejection hhome
      next => cases hrefusal
    · rcases ReflTransGen.cases_head hu with rfl | ⟨v, hv, hu⟩
      · exact .unsupported haccepted hkind
      · exact .nested haccepted (.head' hv hu) hkind
  · intro hwarns
    cases hwarns with
    | @misplaced rejection hrejection hhome =>
        simp only [refusal?, Source.typeRejection?_stamped, Source.homeOf_stamped, hrejection,
          hhome]
        exact .inl rfl
    | unsupported haccepted hkind => exact .inr ⟨haccepted, _, .refl, hkind, rfl⟩
    | @nested u haccepted hu hkind =>
        obtain ⟨v, hv, hu⟩ := TransGen.head'_iff.mp hu
        exact .inr ⟨haccepted, u, .head hv hu, hkind, rfl⟩

section Telling

variable {types : List TypeInfo} {site : Site}

theorem report_tellsOf {events : List Event}
    (h : ∀ e ∈ events, e.origin? ≠ none → ToldOf types e) :
    Job.Within Failure.IsAccess (TellsOf types) (Job.report events : Job Site Unit) := by
  refine Job.Within.tell fun n hn => ?_
  obtain ⟨e, he, rfl⟩ := List.mem_map.mp hn
  rintro _ ⟨⟩
  exact h e he

theorem append_tellsOf (home source : String) {group : List TypeInfo}
    (h : ∀ t ∈ group, t ∈ types ∧ isAccepted t = true) :
    Job.Within Failure.IsAccess (TellsOf types) (append home source group) := by
  have hremarks : ∀ e ∈ group.flatMap Stub.events, e.origin? ≠ none → ToldOf types e := by
    intro e he _
    obtain ⟨t, ht, he⟩ := List.mem_flatMap.mp he
    exact ⟨t, (h t ht).1, .inr ⟨(h t ht).2, he⟩⟩
  refine Job.Within.bind Job.Within.get fun site => ?_
  refine Job.Within.bind (Job.Within.modify _) fun _ => ?_
  refine Job.Within.bind (report_tellsOf hremarks) fun _ => ?_
  refine Job.Within.bind (onFiles_within _) fun _ => ?_
  refine Job.Within.bind (onFiles_within _) fun _ => ?_
  exact Job.Within.bind (report_tellsOf (by simp [Event.origin?])) fun _ => Job.Within.pure _

theorem appendAll_tellsOf (source : String) {groups : List (String × List TypeInfo)}
    (h : ∀ group ∈ groups, ∀ t ∈ group.2, t ∈ types ∧ isAccepted t = true) :
    Job.Within Failure.IsAccess (TellsOf types) (appendAll source groups) := by
  induction groups with
  | nil => exact Job.Within.pure _
  | cons group rest ih =>
      have hrest : ∀ other ∈ rest, ∀ t ∈ other.2, t ∈ types ∧ isAccepted t = true :=
        fun other hother => h other (List.mem_cons_of_mem _ hother)
      refine Job.Within.bind (append_tellsOf _ _ (h group List.mem_cons_self)) fun _ => ?_
      exact Job.Within.bind (ih hrest) fun _ => Job.Within.pure _

/-- Also where the writing fails, only the types of a source are told of. -/
theorem processTypes_tellsOf (source : String) (types : List TypeInfo) :
    Job.Within Failure.IsAccess (TellsOf types) (processTypes source types) := by
  have hunfiled : ∀ e ∈ unfiled types, e.origin? ≠ none → ToldOf types e := by
    intro e he _
    rw [unfiled_eq] at he
    obtain ⟨t, ht, he⟩ := List.mem_filterMap.mp he
    exact ⟨t, ht, .inl he⟩
  have hgroups : ∀ group ∈ Namespace.group (filed types), ∀ t ∈ group.2,
      t ∈ types ∧ isAccepted t = true := by
    intro group hgroup t ht
    have hmem := List.mem_flatMap_of_mem hgroup ht
    exact List.mem_filter.mp ((perm_flatMap_group types).mem_iff.mp hmem)
  refine Job.Within.bind (report_tellsOf hunfiled) fun _ => ?_
  refine Job.Within.bind (appendAll_tellsOf source hgroups) fun _ => ?_
  exact Job.Within.bind (report_tellsOf (by simp [Event.origin?])) fun _ => Job.Within.modify _

theorem mem_processSource {source : Source} {e : Event}
    (he : e ∈ eventsOf (processSource source site).notices) (h : e.origin? ≠ none) :
    ∃ given, source.given site.tree = .ok given ∧ ∃ t ∈ given, Warns source.id t e := by
  have htypes := source.types_eq site.tree
  cases hgiven : source.given site.tree with
  | error fault =>
      rw [hgiven] at htypes
      rw [processSource_of_loadFault htypes, mem_eventsOf] at he
      cases List.mem_singleton.mp he
      exact absurd rfl h
  | ok given =>
      rw [hgiven] at htypes
      rw [processSource_of_ok htypes, mem_eventsOf] at he
      obtain ⟨t', ht', htold⟩ := (processTypes_tellsOf _ _).notice site _ he e rfl h
      obtain ⟨t, ht, rfl⟩ := List.mem_map.mp ht'
      exact ⟨given, rfl, t, ht, (warns_iff h).mp htold⟩

/-- By induction on the sources, up to the one that stops the work. -/
theorem mem_processFrom {total done : Nat} {e : Event}
    (he : e ∈ eventsOf (processFrom total done sources site).notices) (h : e.origin? ≠ none) :
    ∃ source met given, (source, met) ∈ sources.zip (treesFrom sources site) ∧
      source.given met = .ok given ∧ ∃ t ∈ given, Warns source.id t e := by
  induction sources generalizing done site with
  | nil => cases he
  | cons source rest ih =>
      rw [treesFrom, List.zip_cons_cons]
      have hfirst (hsource : e ∈ eventsOf (processSource source site).notices) :
          ∃ first met given, (first, met) ∈ (source, site.tree) ::
              rest.zip (treesFrom rest (processSource source site).state) ∧
            first.given met = .ok given ∧ ∃ t ∈ given, Warns first.id t e := by
        obtain ⟨given, hgiven, hwarns⟩ := mem_processSource hsource h
        exact ⟨source, site.tree, given, List.mem_cons_self, hgiven, hwarns⟩
      cases hresult : (processSource source site).result with
      | error failure =>
          rw [processFrom_cons_of_error hresult] at he
          exact hfirst he
      | ok u =>
          rw [processFrom_cons_of_ends ⟨hresult, rfl⟩] at he
          rcases List.mem_append.mp (eventsOf_append _ _ ▸ he) with hsource | hrest
          · exact hfirst hsource
          · obtain ⟨other, met, given, hmet, hgiven, hwarns⟩ := ih hrest
            exact ⟨other, met, given, List.mem_cons_of_mem _ hmet, hgiven, hwarns⟩

theorem mem_loadEvents {load : Load} {t : TypeInfo} {e : Event} (ht : t ∈ load.types)
    (h : refusal? t = some e ∨ isAccepted t = true ∧ e ∈ Stub.events t) : e ∈ loadEvents load := by
  rw [loadEvents, unfiled_eq]
  rcases h with hrefusal | ⟨haccepted, he⟩
  · exact List.mem_append_left _ (List.mem_filterMap.mpr ⟨t, ht, hrefusal⟩)
  · have hmem := (perm_flatMap_group load.types).mem_iff.mpr (List.mem_filter.mpr ⟨ht, haccepted⟩)
    obtain ⟨group, hgroup, ht⟩ := List.mem_flatMap.mp hmem
    have hgroupEvents : e ∈ groupEvents load.source group :=
      List.mem_append_left _ (List.mem_flatMap_of_mem ht he)
    exact List.mem_append_right _
      (List.mem_append_left _ (List.mem_flatMap_of_mem hgroup hgroupEvents))

/-- A source that is through with its types has given all warnings about them. -/
theorem mem_of_warns {source : Source} {given : List TypeInfo} {t : TypeInfo} {e : Event}
    {site' : Site} {told : List Notice}
    (h : Job.Tells (processSource source) site () site' told)
    (hgiven : source.given site.tree = .ok given) (ht : t ∈ given) (hwarns : Warns source.id t e) :
    e ∈ eventsOf told := by
  have htypes := source.types_eq site.tree
  rw [hgiven] at htypes
  rw [Job.Tells, processSource_of_ok htypes, ← Job.Tells] at h
  rw [(processTypes_tells h).1]
  have horigin : e.origin? ≠ none := by cases hwarns <;> simp [Event.origin?]
  exact mem_loadEvents (List.mem_map_of_mem ht) ((warns_iff horigin).mpr hwarns)

theorem mem_of_warns_among {source : Source} {met : Tree} {given : List TypeInfo} {t : TypeInfo}
    {e : Event} {total done : Nat} {site' : Site} {told : List Notice}
    (h : Job.Tells (processFrom total done sources) site () site' told)
    (hmet : (source, met) ∈ sources.zip (treesFrom sources site))
    (hgiven : source.given met = .ok given) (ht : t ∈ given) (hwarns : Warns source.id t e) :
    e ∈ eventsOf told := by
  induction sources generalizing done site told with
  | nil => cases hmet
  | cons first rest ih =>
      simp only [processFrom, Job.tells_bind, Job.tells_tell, and_assoc, ↓existsAndEq,
        true_and] at h
      obtain ⟨_, _, middle, before, after, hfirst, hrest, rfl⟩ := h
      rw [eventsOf_advance, eventsOf_append, List.mem_append]
      rw [treesFrom, List.zip_cons_cons, hfirst.ends.2] at hmet
      cases hmet with
      | head => exact .inl (mem_of_warns hfirst hgiven ht hwarns)
      | tail _ hmet => exact .inr (ih hrest hmet)

end Telling

section Run

theorem eventsOf_work (site : Site) :
    eventsOf ((processAll sources >>= fun _ => finish) site).notices =
      eventsOf (processAll sources site).notices := by
  cases hresult : (processAll sources site).result with
  | error failure => rw [Job.bind_of_error hresult]
  | ok u =>
      have hfinish : Job.Within Failure.IsAccess (fun _ => False) finish := finish_within
      have hsilent (site : Site) : (finish site).notices = [] :=
        List.eq_nil_iff_forall_not_mem.mpr (hfinish.notice site)
      rw [Job.bind_of_ends ⟨hresult, rfl⟩, hsilent, List.append_nil]

/-- However a run ends, what states an origin is a warning about an exported type. -/
theorem exports_of_mem_run {e : Event} (he : e ∈ eventsOf (run sources root tree).notices)
    (h : e.origin? ≠ none) : ∃ id t, Exports sources root tree id t ∧ Warns id t e := by
  have hlast (result : Except Failure Report) : e ∉ eventsOf (lastWords result) := by
    intro he
    rw [eventsOf_lastWords, List.mem_singleton] at he
    cases result <;> exact h (he ▸ rfl)
  cases hempty : emptyRoot root tree with
  | error fault left =>
      rw [run_of_unusable sources hempty] at he
      exact absurd he (hlast (.error (.rootUnusable root fault)))
  | ok u base =>
      rw [run_of_emptied sources hempty, eventsOf_append, List.mem_append] at he
      have hwork := he.resolve_right (hlast _)
      rw [eventsOf_work] at hwork
      obtain ⟨source, met, given, hmet, hgiven, t, ht, hwarns⟩ := mem_processFrom hwork h
      refine ⟨source.id, t, ⟨source, met, given, ?_, rfl, hgiven, ht⟩, hwarns⟩
      rwa [treesMet, reset, Job.act, hempty]

theorem mem_run_of_warns {report : Report} {id : String} {t : TypeInfo} {e : Event}
    (hrun : (run sources root tree).result = .ok report) (h : Exports sources root tree id t)
    (hwarns : Warns id t e) : e ∈ eventsOf (run sources root tree).notices := by
  obtain ⟨source, met, given, hmet, rfl, hgiven, ht⟩ := h
  obtain ⟨base, middle, before, hempty, hprocess, hevents, -⟩ := run_told (Job.tells_of_ok hrun)
  rw [treesMet, reset, Job.act, hempty] at hmet
  rw [hevents, List.mem_append]
  exact .inl (mem_of_warns_among hprocess hmet hgiven ht hwarns)

/-- Among the warnings, only one about a type that another holds can do without an origin. -/
theorem Warns.origin?_eq_empty {id : String} {t : TypeInfo} {e : Event} (h : Warns id t e)
    (hid : id ≠ "") :
    e.origin? = some "" ↔
      ∃ u, TransGen Stub.Holds t u ∧ u.kind = .unsupported ∧ u.origin = "" ∧
        e = Stub.kindWarning u := by
  constructor
  · intro horigin
    cases h with
    | misplaced | unsupported =>
        exact absurd (Option.some.inj horigin) (Source.originIn_ne_empty hid t)
    | nested _ hu hkind => exact ⟨_, hu, hkind, Option.some.inj horigin, rfl⟩
  · rintro ⟨u, -, -, horigin, rfl⟩
    exact congrArg some horigin

/-- Over sources with names, a run warns about each type as its source exports it, with the origin
of the type or else the name of the source. A type that another holds has its own origin alone, and
a warning without an origin is always about such a type. -/
theorem run_states_origins (hids : ∀ source ∈ sources, source.id ≠ "") :
    (∀ e ∈ eventsOf (run sources root tree).notices, ∀ origin, e.origin? = some origin →
      ∃ id t, Exports sources root tree id t ∧ Warns id t e ∧
        (origin = "" ↔ ∃ u, TransGen Stub.Holds t u ∧ u.kind = .unsupported ∧ u.origin = "" ∧
          e = Stub.kindWarning u)) ∧
      ∀ report, (run sources root tree).result = .ok report →
        ∀ id t e, Exports sources root tree id t → Warns id t e →
          e ∈ eventsOf (run sources root tree).notices := by
  refine ⟨fun e he origin horigin => ?_, fun report hrun id t e => mem_run_of_warns hrun⟩
  obtain ⟨id, t, hexports, hwarns⟩ := exports_of_mem_run he (by rw [horigin]; exact nofun)
  have hid : id ≠ "" := by
    obtain ⟨source, met, given, hmet, rfl, -⟩ := hexports
    exact hids source (List.of_mem_zip hmet).1
  refine ⟨id, t, hexports, hwarns, ?_⟩
  rw [← hwarns.origin?_eq_empty hid, horigin, Option.some.injEq]

/-- A type without a stub and without an origin of its own. -/
def slotType : TypeInfo := { name := "Slot", kind := .unsupported }

def inkType : TypeInfo := { name := "Ink", kind := .unsupported, origin := "press" }

def tagType : TypeInfo := { name := "Tag", kind := .value, members := [.nested inkType] }

/-- A class that holds two types without a stub, one of them further in. -/
def shelfType : TypeInfo :=
  { name := "Shelf", kind := .reference, home := some "Shop",
    members := [.nested slotType, .nested tagType] }

def lostType : TypeInfo := { name := "Lost", kind := .reference, home := some "Shop..Stock" }

/-- A source without types stands before one that has some. -/
def heldSources : List Source := [.broken "gone" "missing", .fixed "core" [shelfType, lostType]]

theorem exports_heldSources {t : TypeInfo} (h : t ∈ [shelfType, lostType]) :
    Exports heldSources "out" (.empty "/w") "core" t :=
  ⟨_, _, _, List.mem_cons_of_mem _ List.mem_cons_self, rfl, rfl, h⟩

theorem heldSources_run_states_origins :
    (∀ source ∈ heldSources, source.id ≠ "") ∧
      (run heldSources "out" (.empty "/w")).result = .ok ⟨"/w/out", 1, 1, 1, 1⟩ ∧
      (∀ e ∈ eventsOf (run heldSources "out" (.empty "/w")).notices, ∀ origin,
        e.origin? = some origin →
          ∃ id t, Exports heldSources "out" (.empty "/w") id t ∧ Warns id t e ∧
            (origin = "" ↔ ∃ u, TransGen Stub.Holds t u ∧ u.kind = .unsupported ∧ u.origin = "" ∧
              e = Stub.kindWarning u)) ∧
      .namespaceRejected "Shop..Stock" "Lost" "empty segment" "core" ∈
        eventsOf (run heldSources "out" (.empty "/w")).notices ∧
      .kindUnsupported "Ink" "press" ∈
        eventsOf (run heldSources "out" (.empty "/w")).notices := by
  have hids : ∀ source ∈ heldSources, source.id ≠ "" := by decide +kernel
  have hrun : (run heldSources "out" (.empty "/w")).result = .ok ⟨"/w/out", 1, 1, 1, 1⟩ := by
    decide +kernel
  have hgiven := (run_states_origins hids).2 _ hrun
  have hlost : Warns "core" lostType
      (.namespaceRejected "Shop..Stock" "Lost" "empty segment" "core") :=
    @Warns.misplaced "core" lostType .emptySegment (by decide) (by decide +kernel)
  have hink : TransGen Stub.Holds shelfType inkType :=
    .tail (b := tagType) (.single ⟨by decide, List.mem_cons_of_mem _ List.mem_cons_self, by decide⟩)
      ⟨by decide, List.mem_cons_self, by decide⟩
  refine ⟨hids, hrun, (run_states_origins hids).1, ?_, ?_⟩
  · exact hgiven _ _ _ (exports_heldSources (List.mem_cons_of_mem _ List.mem_cons_self)) hlost
  · exact hgiven _ _ _ (exports_heldSources List.mem_cons_self) (.nested (by decide) hink rfl)

/-- The warning about a held type states neither an origin of the type nor the source. -/
theorem held_type_warned_without_origin :
    (∀ source ∈ heldSources, source.id ≠ "") ∧
      Stub.Holds shelfType slotType ∧ Exports heldSources "out" (.empty "/w") "core" shelfType ∧
      .kindUnsupported "Slot" "" ∈ eventsOf (run heldSources "out" (.empty "/w")).notices := by
  have hrun : (run heldSources "out" (.empty "/w")).result = .ok ⟨"/w/out", 1, 1, 1, 1⟩ := by
    decide +kernel
  have hexports := exports_heldSources List.mem_cons_self
  have hholds : Stub.Holds shelfType slotType := ⟨by decide, List.mem_cons_self, by decide⟩
  refine ⟨by decide +kernel, hholds, hexports, ?_⟩
  exact mem_run_of_warns hrun hexports (.nested (by decide) (.single hholds) rfl)

end Run

end Package

end StubTree
