import StubTree.Proofs.Aftermath
import StubTree.Proofs.Protocol

/-!
The header over many attempts to write, some of which fail while others change
the files in between. A namespace counts as touched from the first attempt on,
and the header is left to this attempt: if it fails, then no later one makes up
for the header.
-/

namespace StubTree.Files.Tree

section Put

variable {tree : Tree} {place : Place} (hne : place ≠ []) (hfree : tree.get? place ≠ some .directory)
  (content : List UInt8)
include hne hfree

theorem get?_put_of_directory {other : Place} (h : tree.get? other = some .directory) :
    (tree.put place (.file content)).get? other = some .directory := by
  rw [get?_put tree hne, if_neg, h]
  rintro rfl
  exact hfree h

/-- A file where no directory was is on nobody's way. -/
theorem follow_put {start last : Place} {segments : List String}
    (h : tree.follow start segments = .ok last) :
    (tree.put place (.file content)).follow start segments = .ok last := by
  induction segments generalizing start with
  | nil => exact h
  | cons segment rest ih =>
      obtain ⟨hget, hsteps⟩ := follow_cons_eq_ok.mp h
      refine follow_cons_eq_ok.mpr ⟨get?_put_of_directory hne hfree content hget, ?_⟩
      rcases hsteps with
        ⟨hidle, hrest⟩ | ⟨hidle, hup, hrest⟩ | ⟨hidle, hup, hshort, hthere, hrest⟩
      · exact .inl ⟨hidle, ih hrest⟩
      · exact .inr (.inl ⟨hidle, hup, ih hrest⟩)
      · refine .inr (.inr ⟨hidle, hup, hshort, ?_, ih hrest⟩)
        rw [get?_put tree hne]
        split
        · simp
        · exact hthere

/-- What has just been written is found by the same path. -/
theorem filePlace_put {path : String} (h : tree.filePlace path = .ok place) :
    (tree.put place (.file content)).filePlace path = .ok place := by
  obtain ⟨segments, parent, name, hok, hfollow, hget, hlast, hidle, hup, hlong, -, rfl⟩ :=
    filePlace_eq_ok.mp h
  refine filePlace_eq_ok.mpr ⟨segments, parent, name, ?_, follow_put hne hfree content hfollow,
    get?_put_of_directory hne hfree content hget, hlast, hidle, hup, hlong, ?_, rfl⟩
  · exact hok
  · simp [get?_put tree hne]

end Put

end StubTree.Files.Tree

namespace StubTree.Job

variable {σ α β : Type}

/-- A job is as far as it was when its result is only looked at. -/
theorem state_bind_pure (job : Job σ α) (f : α → β) (s : σ) :
    ((job >>= fun a => Pure.pure (f a)) s).state = (job s).state := by
  rw [bind_apply]
  cases (job s).result <;> rfl

end StubTree.Job

namespace StubTree.Package

open Files Metadata

/-- An attempt to write types to a namespace, and where it is made. -/
structure Attempt where
  site : Site
  home : String
  source : String
  types : List TypeInfo

namespace Attempt

def outcome (a : Attempt) : Outcome Site Nat := append a.home a.source a.types a.site

def Succeeds (a : Attempt) : Prop := ∃ n, a.outcome.result = .ok n

/-- What is written in any case. -/
def body (a : Attempt) : String := contribution false a.source (stubTexts a.types)

/-- The text stands at the end of the stubs afterwards, behind all that was there before. -/
def Adds (a : Attempt) (text : String) : Prop :=
  ∃ place, a.outcome.state.tree.filePlace (Namespace.stubPath a.site.context.root a.home) =
      .ok place ∧
    a.outcome.state.tree.get? place = some (.file (a.site.tree.contentAt place ++ bytes text))

/-- The types, as they are grouped by namespaces. -/
def group (a : Attempt) : String × List TypeInfo := (a.home, a.types)

end Attempt

/-- Attempts that are made one after the other. In between, others may change whatever they like,
except for the root and the record of what has been touched. -/
inductive History (start : Site) : List Attempt → Site → Prop where
  | start : History start [] start
  | elsewhere {attempts : List Attempt} {site site' : Site} :
      History start attempts site → site'.context.root = site.context.root →
        site'.context.touched = site.context.touched → History start attempts site'
  | attempt {attempts : List Attempt} {site : Site} (home source : String)
      (types : List TypeInfo) :
      History start attempts site →
        History start (attempts ++ [⟨site, home, source, types⟩])
          (append home source types site).state

/-- The types of a source by namespace; none if it cannot be read. -/
def groupsOf (source : Source) (tree : Tree) : List (String × List TypeInfo) :=
  match source.types tree with
  | .ok types => Namespace.group (filed types)
  | .error _ => []

section Append

variable {home source : String} {types : List TypeInfo} {site : Site}

/-- What an attempt does: two of its steps can fail, and the rest happens in any case. -/
theorem append_apply :
    append home source types site =
      let context :=
        { site.context with touched := Text.insertSorted home site.context.touched }
      let told := (types.flatMap Stub.events).map Notice.event
      match Action.createDirectories (Namespace.directory site.context.root home) site.tree with
      | .error fault left => ⟨.error (.access fault), ⟨left, context⟩, told⟩
      | .ok _ made =>
        match Action.append (Namespace.stubPath site.context.root home)
            (bytes (contribution (!site.context.touched.contains home) source (stubTexts types)))
            made with
        | .error fault left => ⟨.error (.access fault), ⟨left, context⟩, told⟩
        | .ok _ after =>
          ⟨.ok (stubTexts types).length, ⟨after, context⟩,
            told ++ [.event (.contributed home source (stubTexts types).length)]⟩ := by
  have hmark : Job.Ends (Site.onContext fun c =>
      { c with touched := Text.insertSorted home c.touched }) site () _ :=
    Site.ends_onContext.mpr rfl
  rw [append, Job.get_bind, Job.bind_of_ends hmark]
  simp only [Job.bind_apply, Job.report, Job.tell, Site.onFiles, Site.onContext, Job.modify,
    Job.focus, Job.act]
  cases Action.createDirectories (Namespace.directory site.context.root home) site.tree with
  | error fault left => simp only [List.nil_append, List.append_nil]
  | ok u made =>
      simp only
      cases Action.append (Namespace.stubPath site.context.root home) _ made with
      | error fault left => simp only [List.nil_append, List.append_nil]
      | ok u after => rfl

/-- However an attempt ends, its namespace counts as touched. -/
theorem context_append :
    (append home source types site).state.context =
      { site.context with touched := Text.insertSorted home site.context.touched } := by
  rw [append_apply]
  dsimp only
  split
  · rfl
  · split <;> rfl

/-- An attempt that succeeds adds to the end of the stubs. -/
theorem append_adds {n : Nat} {site' : Site}
    (h : Job.Ends (append home source types) site n site') :
    ∃ place, site'.tree.filePlace (Namespace.stubPath site.context.root home) = .ok place ∧
      site'.tree.get? place = some (.file (site.tree.contentAt place ++
        bytes (contribution (!site.context.touched.contains home) source (stubTexts types)))) := by
  simp only [append, Job.ends_bind, Job.ends_get, Site.ends_onContext, Job.ends_report,
    Site.ends_onFiles, Job.ends_pure] at h
  obtain ⟨_, _, ⟨rfl, rfl⟩, _, _, rfl, _, _, rfl, _, _, ⟨made, hmade, rfl⟩, _, _,
    ⟨tree, htree, rfl⟩, _, _, rfl, rfl, rfl⟩ := h
  obtain ⟨place, hplace, rfl⟩ := Action.append_eq_ok.mp htree
  obtain ⟨_, parent, name, -, -, -, -, -, -, -, hfree, rfl⟩ := Tree.filePlace_eq_ok.mp hplace
  have hne : parent ++ [name] ≠ [] := by simp
  refine ⟨_, Tree.filePlace_put hne hfree _ hplace, ?_⟩
  -- The directories that have been made are elsewhere.
  obtain ⟨places, halong, -⟩ := Action.createDirectories_after
    (Namespace.directory site.context.root home) site.tree
  simp only [Action.after, hmade] at halong
  have hsame : made.get? (parent ++ [name]) = site.tree.get? (parent ++ [name]) := by
    rw [halong.get?] at hfree ⊢
    split
    · rename_i hmem
      exact absurd (if_pos hmem) hfree
    · rfl
  rw [Tree.get?_put made hne, if_pos rfl]
  simp only [Tree.contentAt, hsame]

end Append

namespace History

variable {start site : Site} {attempts : List Attempt}

theorem touched (h : History start attempts site) :
    site.context.touched =
      Text.insertEach start.context.touched (attempts.map Attempt.home) := by
  induction h with
  | start => rfl
  | elsewhere _ _ htouched ih => rw [htouched, ih]
  | attempt home source types _ ih =>
      rw [context_append, List.map_append, Text.insertEach_append, ih]
      rfl

/-- Each attempt has found what the ones before it have left. -/
theorem before (h : History start attempts site) {front back : List Attempt} {a : Attempt}
    (hattempts : attempts = front ++ a :: back) : History start front a.site := by
  induction h generalizing front back with
  | start => simp at hattempts
  | elsewhere _ _ _ ih => exact ih hattempts
  | @attempt attempts site home source types hbefore ih =>
      rcases List.eq_nil_or_concat back with rfl | ⟨inner, last, rfl⟩
      · obtain ⟨rfl, heq⟩ := List.append_inj' hattempts rfl
        cases heq
        exact hbefore
      · rw [List.concat_eq_append, ← List.cons_append, ← List.append_assoc] at hattempts
        exact ih (List.append_inj' hattempts rfl).1

/-- The header comes with the first of all attempts, or not at all. -/
theorem adds (h : History start attempts site) {front back : List Attempt} {a : Attempt}
    (hattempts : attempts = front ++ a :: back) (hsucceeds : a.Succeeds) :
    a.Adds ((if a.home ∈ start.context.touched ∨ ∃ b ∈ front, b.home = a.home then ""
      else header) ++ a.body) := by
  obtain ⟨n, hresult⟩ := hsucceeds
  obtain ⟨place, hplace, hget⟩ := append_adds ⟨hresult, rfl⟩
  refine ⟨place, hplace, ?_⟩
  have hfirst : (!a.site.context.touched.contains a.home) = true ↔
      ¬ (a.home ∈ start.context.touched ∨ ∃ b ∈ front, b.home = a.home) := by
    simp [(h.before hattempts).touched, Text.mem_insertEach]
  rw [Attempt.outcome, hget, contribution_eq _ ⟨a.home, a.source, stubTexts a.types⟩]
  simp only [hfirst, ite_not]
  rfl

/-- Writing the groups of a source is a row of attempts up to the first that fails. -/
theorem appendAll (h : History start attempts site) (source : String)
    (groups : List (String × List TypeInfo)) :
    ∃ more, (∀ a ∈ more, a.source = source) ∧ more.map Attempt.group <+: groups ∧
      ((∃ n, (Package.appendAll source groups site).result = .ok n) →
        more.map Attempt.group = groups) ∧
      History start (attempts ++ more) (Package.appendAll source groups site).state := by
  induction groups generalizing attempts site with
  | nil => exact ⟨[], by simp, List.nil_prefix, fun _ => rfl, by rwa [List.append_nil]⟩
  | cons group rest ih =>
      have hattempt := h.attempt group.1 source group.2
      rw [Package.appendAll]
      cases hfirst : (append group.1 source group.2 site).result with
      | error failure =>
          rw [Job.bind_of_error hfirst]
          dsimp only
          refine ⟨[⟨site, group.1, source, group.2⟩], by simp, by simp [Attempt.group], ?_, hattempt⟩
          rintro ⟨n, hresult⟩
          cases hresult
      | ok n =>
          rw [Job.bind_of_ends ⟨hfirst, rfl⟩]
          obtain ⟨more, hsource, hgroups, hall, hrest⟩ := ih hattempt
          refine ⟨⟨site, group.1, source, group.2⟩ :: more, ?_, ?_, ?_, ?_⟩
          · simpa using hsource
          · exact List.cons_prefix_cons.mpr ⟨rfl, hgroups⟩
          · rintro ⟨m, hresult⟩
            obtain ⟨k, _, hk, -⟩ := Job.ends_bind.mp ⟨hresult, rfl⟩
            exact congrArg (group :: ·) (hall ⟨k, hk.1⟩)
          · rw [List.append_assoc] at hrest
            rw [Job.state_bind_pure (Package.appendAll source rest) (n + ·)]
            exact hrest

/-- Processing a source does nothing but attempt to write its groups. -/
theorem processSource (h : History start attempts site) (source : Source) :
    ∃ more, (∀ a ∈ more, a.source = source.id) ∧
      more.map Attempt.group <+: groupsOf source site.tree ∧
      ((Package.processSource source site).result = .ok () →
        more.map Attempt.group = groupsOf source site.tree) ∧
      History start (attempts ++ more) (Package.processSource source site).state := by
  cases htypes : source.types site.tree with
  | error fault =>
      simp only [groupsOf, htypes]
      rw [processSource_of_loadFault htypes]
      refine ⟨[], by simp, List.nil_prefix, fun _ => rfl, ?_⟩
      rw [List.append_nil]
      exact h.elsewhere rfl rfl
  | ok types =>
      simp only [groupsOf, htypes]
      obtain ⟨more, hsource, hgroups, hall, hmore⟩ :=
        h.appendAll source.id (Namespace.group (filed types))
      refine ⟨more, hsource, hgroups, fun hresult => hall ?_, ?_⟩
      · rw [processSource_of_ok htypes] at hresult
        obtain ⟨_, _, hreport, hends⟩ := Job.ends_bind.mp ⟨hresult, rfl⟩
        obtain rfl := Job.ends_report.mp hreport
        obtain ⟨n, _, happend, -⟩ := Job.ends_bind.mp hends
        exact ⟨n, happend.1⟩
      · have hreport : Job.Ends (Job.report (unfiled types)) site () site :=
          Job.ends_report.mpr rfl
        rw [processSource_of_ok htypes, processTypes, Job.bind_of_ends hreport]
        cases happend : (Package.appendAll source.id (Namespace.group (filed types)) site).result with
        | error failure => rwa [Job.bind_of_error happend]
        | ok n =>
            rw [Job.bind_of_ends ⟨happend, rfl⟩]
            exact hmore.elsewhere rfl rfl

end History

/-- All attempts count as touching a namespace, and of those that succeed only the first of all
attempts writes the header. Processing a source is a row of attempts. -/
theorem header_left_to_first_attempt {start site : Site} {attempts : List Attempt}
    (h : History start attempts site) :
    site.context.touched =
        Text.insertEach start.context.touched (attempts.map Attempt.home) ∧
      (∀ front a back, attempts = front ++ a :: back → a.Succeeds →
        a.Adds ((if a.home ∈ start.context.touched ∨ ∃ b ∈ front, b.home = a.home then ""
          else header) ++ a.body)) ∧
      ∀ source, ∃ more, (∀ a ∈ more, a.source = source.id) ∧
        more.map Attempt.group <+: groupsOf source site.tree ∧
        ((processSource source site).result = .ok () →
          more.map Attempt.group = groupsOf source site.tree) ∧
        History start (attempts ++ more) (processSource source site).state :=
  ⟨h.touched, fun _ _ _ => h.adds, h.processSource⟩

def playerTypes : List TypeInfo := [{ name := "Player", kind := .reference, home := some "Game" }]

/-- A file stands where a namespace needs a directory. -/
def blockedSite : Site :=
  ⟨⟨"/w", [(["out"], .directory), (["out", "Game"], .file [])]⟩, { root := "out" }⟩

/-- The file has been taken away after an attempt. -/
def clearedSite : Site :=
  { (append "Game" "core" playerTypes blockedSite).state with
    tree := ⟨"/w", [(["out"], .directory)]⟩ }

def clearedAttempt : Attempt := ⟨clearedSite, "Game", "core", playerTypes⟩

theorem header_left_to_blocked_attempt :
    (append "Game" "core" playerTypes blockedSite).result = .error (.access .alreadyExists) ∧
      (append "Game" "core" playerTypes clearedSite).state.context.touched = ["Game"] ∧
      clearedAttempt.Succeeds ∧
      clearedAttempt.Adds clearedAttempt.body := by
  have hfirst : History blockedSite [⟨blockedSite, "Game", "core", playerTypes⟩]
      (append "Game" "core" playerTypes blockedSite).state :=
    .attempt "Game" "core" playerTypes .start
  have hcleared : History blockedSite [⟨blockedSite, "Game", "core", playerTypes⟩] clearedSite :=
    .elsewhere hfirst rfl rfl
  obtain ⟨htouched, hadds, -⟩ :=
    header_left_to_first_attempt (hcleared.attempt "Game" "core" playerTypes)
  have hresult : clearedAttempt.outcome.result = .ok 1 := by decide +kernel
  have hsucceeds : clearedAttempt.Succeeds := ⟨1, hresult⟩
  have hadded := hadds [_] clearedAttempt [] rfl hsucceeds
  rw [if_pos (.inr ⟨_, List.mem_singleton_self _, rfl⟩), String.empty_append] at hadded
  exact ⟨by decide +kernel, htouched.trans (by decide +kernel), hsucceeds, hadded⟩

/-- A namespace counts as written though nothing was, and its stubs never get the header. -/
theorem header_lost_to_failed_attempt :
    Namespace.rejection? "Game" = none ∧ blockedSite.context.touched = [] ∧
      (append "Game" "core" playerTypes blockedSite).result = .error (.access .alreadyExists) ∧
      (append "Game" "core" playerTypes blockedSite).state.context.touched = ["Game"] ∧
      (append "Game" "core" playerTypes clearedSite).result = .ok 1 ∧
      (append "Game" "core" playerTypes clearedSite).state.tree.get?
          ["out", "Game", "__init__.pyi"] =
        some (.file (bytes "# From source: core\n\nclass Player:\n    pass\n\n")) := by
  decide +kernel

end StubTree.Package
