import StubTree.Proofs.Accounting

/-!
What a run shows to those who watch it, however it ends. Its sources are
announced one by one up to the one that stops it, and then its end is announced
once. A run fails because its root cannot be emptied or because of a file, and
for no other reason: a source without types is counted, and that is all.
-/

namespace StubTree

/-- What an observer of the progress is told. -/
inductive Call where
  | advance (label : String) (done total : Nat)
  | clear
deriving DecidableEq, Repr

def Notice.call? : Notice → Option Call
  | .advance label done total => some (.advance label done total)
  | .cleared => some .clear
  | _ => none

/-- The calls to the observer among notices. -/
def callsOf (notices : List Notice) : List Call := notices.filterMap Notice.call?

@[simp] theorem callsOf_append (ns ms : List Notice) :
    callsOf (ns ++ ms) = callsOf ns ++ callsOf ms := List.filterMap_append

@[simp] theorem callsOf_advance (label : String) (done total : Nat) (ns : List Notice) :
    callsOf (.advance label done total :: ns) = .advance label done total :: callsOf ns := rfl

def Notice.IsEvent (notice : Notice) : Prop := ∃ e, notice = .event e

/-- Events are not for the observer. -/
theorem callsOf_events {notices : List Notice} (h : ∀ n ∈ notices, n.IsEvent) :
    callsOf notices = [] := by
  refine List.filterMap_eq_nil_iff.mpr fun n hn => ?_
  obtain ⟨e, rfl⟩ := h n hn
  rfl

/-- A file or directory could not be read or changed. -/
def Failure.IsAccess (failure : Failure) : Prop := ∃ fault, failure = .access fault

namespace Job

variable {σ τ α β : Type} {failures : Failure → Prop} {notices : Notice → Prop}

/-- Wherever a job starts, it fails and tells only as it may. -/
structure Within (failures : Failure → Prop) (notices : Notice → Prop) (job : Job σ α) :
    Prop where
  failure : ∀ s failure, (job s).result = .error failure → failures failure
  notice : ∀ s, ∀ n ∈ (job s).notices, notices n

theorem bind_of_ends {job : Job σ α} {s middle : σ} {a : α} (h : Ends job s a middle)
    (next : α → Job σ β) :
    (job >>= next) s = ⟨(next a middle).result, (next a middle).state,
      (job s).notices ++ (next a middle).notices⟩ := by
  obtain ⟨hresult, rfl⟩ := h
  rw [bind_apply, hresult]

theorem bind_of_error {job : Job σ α} {s : σ} {failure : Failure}
    (h : (job s).result = .error failure) (next : α → Job σ β) :
    (job >>= next) s = ⟨.error failure, (job s).state, (job s).notices⟩ := by
  rw [bind_apply, h]

theorem Within.mono {notices' : Notice → Prop} {job : Job σ α} (h : Within failures notices job)
    (hnotices : ∀ n, notices n → notices' n) : Within failures notices' job :=
  ⟨h.failure, fun s n hn => hnotices n (h.notice s n hn)⟩

theorem Within.bind {job : Job σ α} {next : α → Job σ β} (h : Within failures notices job)
    (hnext : ∀ a, Within failures notices (next a)) : Within failures notices (job >>= next) := by
  refine ⟨fun s failure hfailure => ?_, fun s n hn => ?_⟩
  · cases hresult : (job s).result with
    | error reason =>
        rw [bind_of_error hresult] at hfailure
        cases hfailure
        exact h.failure s failure hresult
    | ok a =>
        rw [bind_of_ends ⟨hresult, rfl⟩] at hfailure
        exact (hnext a).failure _ failure hfailure
  · cases hresult : (job s).result with
    | error reason =>
        rw [bind_of_error hresult] at hn
        exact h.notice s n hn
    | ok a =>
        rw [bind_of_ends ⟨hresult, rfl⟩] at hn
        exact (List.mem_append.mp hn).elim (h.notice s n) ((hnext a).notice _ n)

theorem Within.pure (a : α) : Within failures notices (Pure.pure a : Job σ α) :=
  ⟨fun _ _ h => (nomatch h), fun _ _ hn => (nomatch hn)⟩

theorem Within.get : Within failures notices (Job.get : Job σ σ) :=
  ⟨fun _ _ h => (nomatch h), fun _ _ hn => (nomatch hn)⟩

theorem Within.modify (f : σ → σ) : Within failures notices (Job.modify f) :=
  ⟨fun _ _ h => (nomatch h), fun _ _ hn => (nomatch hn)⟩

theorem Within.tell {told : List Notice} (h : ∀ n ∈ told, notices n) :
    Within failures notices (Job.tell told : Job σ Unit) :=
  ⟨fun _ _ h => (nomatch h), fun _ => h⟩

theorem Within.focus {part : τ → σ} {replace : σ → τ → τ} {job : Job σ α}
    (h : Within failures notices job) : Within failures notices (Job.focus part replace job) :=
  ⟨fun s => h.failure (part s), fun s => h.notice (part s)⟩

theorem Within.act {failure : Files.Fault → Failure} (h : ∀ fault, failures (failure fault))
    (action : Files.Action α) : Within failures notices (Job.act failure action) := by
  refine ⟨fun tree reason hreason => ?_, fun tree n hn => ?_⟩
  · simp only [Job.act] at hreason
    cases hends : action tree with
    | ok a after => simp [hends] at hreason
    | error fault after =>
        simp only [hends, Except.error.injEq] at hreason
        exact hreason ▸ h fault
  · simp only [Job.act] at hn
    cases hends : action tree <;> simp [hends] at hn

theorem Within.forM {ι : Type} {xs : List ι} {f : ι → Job σ PUnit}
    (h : ∀ x, Within failures notices (f x)) : Within failures notices (xs.forM f) := by
  induction xs with
  | nil => exact Within.pure _
  | cons x rest ih => exact Within.bind (h x) fun _ => ih

end Job

namespace Package

open Files
open Log (Event)

section Steps

variable {notices : Notice → Prop}

theorem onFiles_within {α : Type} (action : Action α) :
    Job.Within Failure.IsAccess notices (Site.onFiles action) :=
  Job.Within.focus (Job.Within.act (fun fault => ⟨fault, rfl⟩) action)

theorem report_within (events : List Event) :
    Job.Within Failure.IsAccess Notice.IsEvent (Job.report events : Job Site Unit) := by
  refine Job.Within.tell fun n hn => ?_
  obtain ⟨e, -, rfl⟩ := List.mem_map.mp hn
  exact ⟨e, rfl⟩

theorem append_within (home source : String) (types : List Metadata.TypeInfo) :
    Job.Within Failure.IsAccess Notice.IsEvent (append home source types) := by
  refine Job.Within.bind Job.Within.get fun site => ?_
  refine Job.Within.bind (Job.Within.modify _) fun _ => ?_
  refine Job.Within.bind (report_within _) fun _ => ?_
  refine Job.Within.bind (onFiles_within _) fun _ => ?_
  refine Job.Within.bind (onFiles_within _) fun _ => ?_
  exact Job.Within.bind (report_within _) fun _ => Job.Within.pure _

theorem appendAll_within (source : String) (groups : List (String × List Metadata.TypeInfo)) :
    Job.Within Failure.IsAccess Notice.IsEvent (appendAll source groups) := by
  induction groups with
  | nil => exact Job.Within.pure _
  | cons group rest ih =>
      refine Job.Within.bind (append_within group.1 source group.2) fun _ => ?_
      exact Job.Within.bind ih fun _ => Job.Within.pure _

/-- Whatever a source is like, only a file can stop the work on it. -/
theorem processSource_within (source : Source) :
    Job.Within Failure.IsAccess Notice.IsEvent (processSource source) := by
  refine Job.Within.bind Job.Within.get fun site => ?_
  cases source.types site.tree with
  | error fault => exact Job.Within.bind (report_within _) fun _ => Job.Within.modify _
  | ok types =>
      refine Job.Within.bind (report_within _) fun _ => ?_
      refine Job.Within.bind (appendAll_within source.id _) fun _ => ?_
      exact Job.Within.bind (report_within _) fun _ => Job.Within.modify _

/-- Finishing tells nothing. -/
theorem finish_within : Job.Within Failure.IsAccess notices finish := by
  have hfinalize : Job.Within Failure.IsAccess notices finalize := by
    refine Job.Within.bind Job.Within.get fun site => ?_
    exact Job.Within.bind (Job.Within.forM fun _ => onFiles_within _) fun _ => onFiles_within _
  refine Job.Within.bind hfinalize fun _ => Job.Within.bind Job.Within.get fun site => ?_
  exact Job.Within.bind (onFiles_within _) fun _ => Job.Within.pure _

/-- On the way through the sources there are announcements besides the events. -/
theorem processFrom_within (sources : List Source) (total done : Nat) :
    Job.Within Failure.IsAccess (fun _ => True) (processFrom total done sources) := by
  induction sources generalizing done with
  | nil => exact Job.Within.pure _
  | cons source rest ih =>
      refine Job.Within.bind (Job.Within.tell fun _ _ => trivial) fun _ => ?_
      exact Job.Within.bind ((processSource_within source).mono fun _ _ => trivial) fun _ =>
        ih (done + 1)

end Steps

/-- Sources that are processed one after the other, none of which stops the work. -/
inductive Processes : List Source → Site → Site → Prop where
  | none (site : Site) : Processes [] site site
  | next {source : Source} {rest : List Source} {site middle site' : Site} :
      Job.Ends (processSource source) site () middle → Processes rest middle site' →
        Processes (source :: rest) site site'

/-- The number of sources that a run begins to work on. -/
inductive Begins (sources : List Source) (root : String) (tree : Tree) : Nat → Prop where
  | unusable {failure : Failure} :
      (reset root tree).result = .error failure → Begins sources root tree 0
  | stopped {base : Tree} {site : Site} {before after : List Source} {source : Source}
      {failure : Failure} :
      Job.Ends (reset root) tree () base → sources = before ++ source :: after →
        Processes before ⟨base, { root := root }⟩ site →
          (processSource source site).result = .error failure →
            Begins sources root tree (before.length + 1)
  | through {base : Tree} {site : Site} :
      Job.Ends (reset root) tree () base → Processes sources ⟨base, { root := root }⟩ site →
        Begins sources root tree sources.length

/-- The calls for sources of which `done` are behind and `total` there are in all. -/
def announced (total done : Nat) (sources : List Source) : List Call :=
  (sources.zipIdx done).map fun (source, i) => .advance source.id i total

/-- How a run shows itself, and what it may come to. -/
structure Protocol (sources : List Source) (root : String) (tree : Tree)
    (outcome : Outcome Tree Report) : Prop where
  begins : ∃ k, Begins sources root tree k
  calls : ∀ k, Begins sources root tree k →
    callsOf outcome.notices = announced sources.length 0 (sources.take k) ++ [.clear]
  unusable : (∃ fault, outcome.result = .error (.rootUnusable root fault)) ↔
    ∃ failure, (reset root tree).result = .error failure
  failure : ∀ failure, outcome.result = .error failure →
    (∃ fault, failure = .rootUnusable root fault) ∨ ∃ fault, failure = .access fault
  last : (eventsOf outcome.notices).getLast? = some
    (match outcome.result with
      | .ok report => .completed report.outputRoot report.typesWritten report.failed
      | .error failure => .aborted failure)

section Sources

variable {site site' : Site}

/-- A source is announced before it is processed. -/
theorem processFrom_cons_of_ends {source : Source} {middle : Site}
    (h : Job.Ends (processSource source) site () middle) (total done : Nat) (rest : List Source) :
    processFrom total done (source :: rest) site =
      ⟨(processFrom total (done + 1) rest middle).result,
        (processFrom total (done + 1) rest middle).state,
        .advance source.id done total ::
          ((processSource source site).notices ++
            (processFrom total (done + 1) rest middle).notices)⟩ := by
  have htell : Job.Ends (Job.tell [.advance source.id done total]) site () site := ⟨rfl, rfl⟩
  rw [processFrom, Job.bind_of_ends htell, Job.bind_of_ends h]
  rfl

theorem processFrom_cons_of_error {source : Source} {failure : Failure}
    (h : (processSource source site).result = .error failure) (total done : Nat)
    (rest : List Source) :
    processFrom total done (source :: rest) site =
      ⟨.error failure, (processSource source site).state,
        .advance source.id done total :: (processSource source site).notices⟩ := by
  have htell : Job.Ends (Job.tell [.advance source.id done total]) site () site := ⟨rfl, rfl⟩
  rw [processFrom, Job.bind_of_ends htell, Job.bind_of_error h]
  rfl

theorem callsOf_processSource (source : Source) (site : Site) :
    callsOf (processSource source site).notices = [] :=
  callsOf_events ((processSource_within source).notice site)

theorem processFrom_through {sources : List Source} (h : Processes sources site site')
    (total done : Nat) :
    Job.Ends (processFrom total done sources) site () site' ∧
      callsOf (processFrom total done sources site).notices = announced total done sources := by
  induction h generalizing done with
  | none site => exact ⟨⟨rfl, rfl⟩, rfl⟩
  | @next source rest site middle site' hsource _ ih =>
      obtain ⟨⟨hresult, hstate⟩, hcalls⟩ := ih (done + 1)
      rw [Job.Ends, processFrom_cons_of_ends hsource]
      refine ⟨⟨hresult, hstate⟩, ?_⟩
      rw [callsOf_advance, callsOf_append, callsOf_processSource, hcalls]
      rfl

/-- What comes behind the source that stops the work is never announced. -/
theorem processFrom_stopped {before : List Source} {source : Source} {failure : Failure}
    (h : Processes before site site')
    (hfailure : (processSource source site').result = .error failure) (after : List Source)
    (total done : Nat) :
    (processFrom total done (before ++ source :: after) site).result = .error failure ∧
      callsOf (processFrom total done (before ++ source :: after) site).notices =
        announced total done (before ++ [source]) := by
  induction h generalizing done with
  | none site =>
      rw [List.nil_append, processFrom_cons_of_error hfailure]
      refine ⟨rfl, ?_⟩
      rw [callsOf_advance, callsOf_processSource]
      rfl
  | @next first rest site middle site' hfirst _ ih =>
      obtain ⟨hresult, hcalls⟩ := ih hfailure (done + 1)
      rw [List.cons_append, processFrom_cons_of_ends hfirst]
      refine ⟨hresult, ?_⟩
      rw [callsOf_advance, callsOf_append, callsOf_processSource, hcalls]
      rfl

/-- Either all sources are processed, or there is a first one that stops the work. -/
theorem processes_or_stops (sources : List Source) (site : Site) :
    (∃ site', Processes sources site site') ∨
      ∃ before source after site' failure, sources = before ++ source :: after ∧
        Processes before site site' ∧ (processSource source site').result = .error failure := by
  induction sources generalizing site with
  | nil => exact .inl ⟨site, .none site⟩
  | cons source rest ih =>
      cases hresult : (processSource source site).result with
      | error failure => exact .inr ⟨[], source, rest, site, failure, rfl, .none site, hresult⟩
      | ok u =>
          have hends : Job.Ends (processSource source) site () (processSource source site).state :=
            ⟨hresult, rfl⟩
          rcases ih (processSource source site).state with
            ⟨site', hrest⟩ | ⟨before, other, after, site', failure, rfl, hbefore, hfailure⟩
          · exact .inl ⟨site', .next hends hrest⟩
          · exact .inr ⟨source :: before, other, after, site', failure, rfl, .next hends hbefore,
              hfailure⟩

end Sources

section Run

variable (sources : List Source) (root : String) (tree : Tree)

theorem exists_begins : ∃ k, Begins sources root tree k := by
  cases hresult : (reset root tree).result with
  | error failure => exact ⟨0, .unusable hresult⟩
  | ok u =>
      have hreset : Job.Ends (reset root) tree () (reset root tree).state := ⟨hresult, rfl⟩
      rcases processes_or_stops sources ⟨(reset root tree).state, { root := root }⟩ with
        ⟨site, hall⟩ | ⟨before, source, after, site, failure, heq, hbefore, hfailure⟩
      · exact ⟨_, .through hreset hall⟩
      · exact ⟨_, .stopped hreset heq hbefore hfailure⟩

theorem reset_eq_error {failure : Failure} :
    (reset root tree).result = .error failure ↔
      ∃ fault left, emptyRoot root tree = .error fault left ∧
        failure = .rootUnusable root fault := by
  simp only [reset, Job.act]
  cases emptyRoot root tree <;> simp [eq_comm]

theorem callsOf_lastWords (result : Except Failure Report) :
    callsOf (lastWords result) = [.clear] := by
  cases result <;> rfl

theorem eventsOf_lastWords (result : Except Failure Report) :
    eventsOf (lastWords result) =
      [match result with
        | .ok report => .completed report.outputRoot report.typesWritten report.failed
        | .error failure => .aborted failure] := by
  cases result <;> rfl

theorem run_calls {k : Nat} (h : Begins sources root tree k) :
    callsOf (run sources root tree).notices =
      announced sources.length 0 (sources.take k) ++ [.clear] := by
  cases h with
  | unusable hfailure =>
      obtain ⟨fault, left, hempty, -⟩ := (reset_eq_error root tree).mp hfailure
      rw [run_of_unusable sources hempty]
      rfl
  | @stopped base site before after source failure hreset heq hbefore hfailure =>
      obtain ⟨hresult, hcalls⟩ := processFrom_stopped hbefore hfailure after sources.length 0
      rw [← heq] at hresult hcalls
      rw [run_of_emptied sources (Job.ends_act.mp hreset), processAll, Job.bind_of_error hresult]
      have htake : sources.take (before.length + 1) = before ++ [source] := by
        rw [heq, List.take_length_add_append]
        rfl
      rw [callsOf_append, callsOf_lastWords, hcalls, htake]
  | through hreset hall =>
      obtain ⟨hends, hcalls⟩ := processFrom_through hall sources.length 0
      rw [run_of_emptied sources (Job.ends_act.mp hreset), processAll, Job.bind_of_ends hends,
        List.take_length]
      simp only [callsOf_append, callsOf_lastWords, hcalls, callsOf_events (finish_within.notice _),
        List.append_nil]

/-- Behind an emptied root, only a file can stop a run. -/
theorem work_failure {site : Site} {failure : Failure}
    (h : ((processAll sources >>= fun _ => finish) site).result = .error failure) :
    failure.IsAccess := by
  have hwork : Job.Within Failure.IsAccess (fun _ => True)
      (processAll sources >>= fun _ => finish) :=
    Job.Within.bind (processFrom_within sources _ 0) fun _ => finish_within
  exact hwork.failure site failure h

theorem run_failure {failure : Failure} (h : (run sources root tree).result = .error failure) :
    (∃ fault left, emptyRoot root tree = .error fault left ∧ failure = .rootUnusable root fault) ∨
      (∃ base, emptyRoot root tree = .ok () base) ∧ failure.IsAccess := by
  cases hempty : emptyRoot root tree with
  | error fault left =>
      rw [run_of_unusable sources hempty] at h
      cases h
      exact .inl ⟨fault, left, rfl, rfl⟩
  | ok u base =>
      rw [run_of_emptied sources hempty] at h
      exact .inr ⟨⟨base, rfl⟩, work_failure sources h⟩

theorem run_protocol : Protocol sources root tree (run sources root tree) where
  begins := exists_begins sources root tree
  calls _ := run_calls sources root tree
  unusable := by
    constructor
    · rintro ⟨fault, h⟩
      rcases run_failure sources root tree h with hempty | ⟨-, _, haccess⟩
      · exact ⟨_, (reset_eq_error root tree).mpr hempty⟩
      · cases haccess
    · rintro ⟨failure, h⟩
      obtain ⟨fault, left, hempty, -⟩ := (reset_eq_error root tree).mp h
      rw [run_of_unusable sources hempty]
      exact ⟨fault, rfl⟩
  failure failure h := by
    rcases run_failure sources root tree h with ⟨fault, -, -, hfault⟩ | ⟨-, haccess⟩
    · exact .inl ⟨fault, hfault⟩
    · exact .inr haccess
  last := by
    cases hempty : emptyRoot root tree with
    | error fault left =>
        rw [run_of_unusable sources hempty, eventsOf_lastWords, List.getLast?_singleton]
    | ok u base =>
        rw [run_of_emptied sources hempty]
        simp only [eventsOf_append, eventsOf_lastWords, List.getLast?_concat]

end Run

/-- A source without types only adds to the count of failures. -/
theorem processSource_of_loadFault {source : Source} {site : Site} {fault : LoadFault}
    (h : source.types site.tree = .error fault) :
    processSource source site =
      ⟨.ok (), { site with context := { site.context with failed := site.context.failed + 1 } },
        [.event (.sourceFailed source.id fault)]⟩ := by
  rw [processSource, Job.get_bind, h]
  rfl

/-- Every run shows itself as it should, and no source can stop it that has no types. -/
theorem run_keeps_protocol :
    (∀ (sources : List Source) (root : String) (tree : Tree),
      Protocol sources root tree (run sources root tree)) ∧
      ∀ (source : Source) (site : Site) (fault : LoadFault),
        source.types site.tree = .error fault →
          processSource source site =
            ⟨.ok (),
              { site with context := { site.context with failed := site.context.failed + 1 } },
              [.event (.sourceFailed source.id fault)]⟩ :=
  ⟨run_protocol, fun _ _ _ => processSource_of_loadFault⟩

/-- A source that fails, one that is written, one that stops the run, and one behind it. -/
def stoppedSources : List Source :=
  [.broken "a" "gone",
    .fixed "b" [{ name := "Lamp", kind := .reference, home := some "game" }],
    .fixed "c" [{ name := "Odd", kind := .value, home := some "odd\x00name" }],
    .fixed "d" [{ name := "Door", kind := .reference, home := some "game" }]]

theorem run_keeps_protocol_when_stopped :
    (Source.broken "a" "gone").types (.empty "/w") = .error (.other "gone") ∧
      processSource (.broken "a" "gone") ⟨.empty "/w", { root := "out", failed := 2 }⟩ =
        ⟨.ok (), ⟨.empty "/w", { root := "out", failed := 3 }⟩,
          [.event (.sourceFailed "a" (.other "gone"))]⟩ ∧
      Begins stoppedSources "out" (.empty "/w") 3 ∧
      callsOf (run stoppedSources "out" (.empty "/w")).notices =
        [.advance "a" 0 4, .advance "b" 1 4, .advance "c" 2 4, .clear] ∧
      (run stoppedSources "out" (.empty "/w")).result = .error (.access .nulInName) ∧
      (eventsOf (run stoppedSources "out" (.empty "/w")).notices).getLast? =
        some (.aborted (.access .nulInName)) := by
  have hprotocol := run_keeps_protocol.1 stoppedSources "out" (.empty "/w")
  have hreset : Job.Ends (reset "out") (.empty "/w") () (reset "out" (.empty "/w")).state :=
    ⟨by decide +kernel, rfl⟩
  have hbefore : Processes (stoppedSources.take 2)
      ⟨(reset "out" (.empty "/w")).state, { root := "out" }⟩ _ :=
    .next ⟨by decide +kernel, rfl⟩ (.next ⟨by decide +kernel, rfl⟩ (.none _))
  have hbegins : Begins stoppedSources "out" (.empty "/w") 3 :=
    .stopped hreset rfl hbefore
      (by decide +kernel : (_ : Except Failure Unit) = .error (.access .nulInName))
  have hresult : (run stoppedSources "out" (.empty "/w")).result = .error (.access .nulInName) := by
    decide +kernel
  have hlast := hprotocol.last
  rw [hresult] at hlast
  exact ⟨rfl, run_keeps_protocol.2 _ _ _ rfl, hbegins, hprotocol.calls 3 hbegins, hresult, hlast⟩

end Package

end StubTree
