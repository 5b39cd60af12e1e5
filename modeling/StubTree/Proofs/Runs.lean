import StubTree.Proofs.Filing

/-!
What a run that succeeds has done, step by step. Each source that loads adds
its contributions to those that were laid before, and a source that fails adds
nothing but a count. The files that finish the package come last; none of them
is a stub. Conversely, sources whose namespaces fit are processed to the end.
-/

namespace StubTree.Package

open Files Namespace Metadata

/-- What sources load when each is processed in its turn. -/
def loadsFrom : List Source → Site → List Load
  | [], _ => []
  | source :: rest, site =>
    match source.types site.tree with
    | .error _ => loadsFrom rest (processSource source site).state
    | .ok types => ⟨source.id, types⟩ :: loadsFrom rest (processSource source site).state

def loadsOf (sources : List Source) (root : String) (tree : Tree) : List Load :=
  loadsFrom sources ⟨(reset root tree).state, { root := root }⟩

theorem loadsOf_of_emptied {sources : List Source} {root : String} {tree base : Tree}
    (hempty : emptyRoot root tree = .ok () base) :
    loadsOf sources root tree = loadsFrom sources ⟨base, { root := root }⟩ := by
  simp only [loadsOf, reset, Job.act, hempty]

theorem length_loadsFrom_le (sources : List Source) (site : Site) :
    (loadsFrom sources site).length ≤ sources.length := by
  induction sources generalizing site with
  | nil => exact Nat.le_refl _
  | cons source rest ih =>
      have hrest := ih (processSource source site).state
      simp only [loadsFrom]
      split <;> simp only [List.length_cons] <;> omega

theorem loadsFrom_cons {source : Source} {rest : List Source} {site site' : Site} {u : Unit}
    (hends : Job.Ends (processSource source) site u site') :
    loadsFrom (source :: rest) site =
      match source.types site.tree with
      | .error _ => loadsFrom rest site'
      | .ok types => ⟨source.id, types⟩ :: loadsFrom rest site' := by
  rw [loadsFrom, hends.2]

section Processing

variable {root : String} {base : Tree} (hleads : Leads base.home root)

/-- Only the root and the touched namespaces of a context matter to what is laid. -/
theorem Laid.onContext {cs : List Contribution} {site : Site} (h : Laid root base cs site)
    (context : Context) (hcontext : context.root = site.context.root)
    (htouched : context.touched = site.context.touched) :
    Laid root base cs { site with context := context } :=
  ⟨h.home, h.fits, h.stubs, h.ways, h.others, hcontext.trans h.root, htouched.trans h.touched⟩

include hleads

theorem appendAll_ends (source : String) {groups : List (String × List TypeInfo)}
    {cs : List Contribution} {site site' : Site} {n : Nat} (h : Laid root base cs site)
    (haccepted : ∀ group ∈ groups, rejection? group.1 = none)
    (hends : Job.Ends (appendAll source groups) site n site') :
    Laid root base (cs ++ groups.map (contributionTo source)) site' ∧
      n = writtenBy (groups.map (contributionTo source)) ∧
      ∃ touched, site'.context = { site.context with touched := touched } := by
  induction groups generalizing cs site n with
  | nil =>
      obtain ⟨rfl, rfl⟩ := Job.ends_pure.mp hends
      rw [List.map_nil, List.append_nil]
      exact ⟨h, rfl, _, rfl⟩
  | cons group rest ih =>
      obtain ⟨home, types⟩ := group
      simp only [appendAll, Job.ends_bind, Job.ends_pure] at hends
      obtain ⟨_, middle, hfirst, _, _, hrest, rfl, rfl⟩ := hends
      obtain ⟨rfl, hlaid, hcontext⟩ :=
        append_ends hleads h (haccepted _ List.mem_cons_self) hfirst
      obtain ⟨hlaid', rfl, touched, hcontext'⟩ :=
        ih hlaid (fun g hg => haccepted g (List.mem_cons_of_mem _ hg)) hrest
      rw [List.append_assoc] at hlaid'
      refine ⟨hlaid', by simp [writtenBy, contributionTo], touched, ?_⟩
      rw [hcontext', hcontext]

theorem appendAll_succeeds (source : String) {groups : List (String × List TypeInfo)}
    {cs : List Contribution} {site : Site} (h : Laid root base cs site)
    (hfits : ∀ c ∈ groups.map (contributionTo source), Fits base root c.home) :
    ∃ n site', Job.Ends (appendAll source groups) site n site' := by
  induction groups generalizing cs site with
  | nil => exact ⟨0, site, Job.ends_pure.mpr ⟨rfl, rfl⟩⟩
  | cons group rest ih =>
      obtain ⟨home, types⟩ := group
      have hhere : Fits base root home := hfits _ List.mem_cons_self
      obtain ⟨n, middle, hfirst⟩ := append_succeeds hleads h source types hhere
      obtain ⟨-, hlaid, -⟩ := append_ends hleads h hhere.accepted hfirst
      obtain ⟨m, site', hrest⟩ := ih hlaid fun c hc => hfits c (List.mem_cons_of_mem _ hc)
      refine ⟨n + m, site', ?_⟩
      simp only [appendAll, Job.ends_bind, Job.ends_pure]
      exact ⟨n, middle, hfirst, m, site', hrest, rfl, rfl⟩

theorem processTypes_ends {source : String} {types : List TypeInfo} {cs : List Contribution}
    {site site' : Site} {u : Unit} (h : Laid root base cs site)
    (hends : Job.Ends (processTypes source types) site u site') :
    Laid root base (cs ++ contributionsOf ⟨source, types⟩) site' ∧
      ∃ touched, site'.context =
        { site.context with
          touched := touched
          processed := site.context.processed + 1
          written := site.context.written + writtenBy (contributionsOf ⟨source, types⟩) } := by
  simp only [processTypes, Job.ends_bind, Job.ends_report, Site.ends_onContext] at hends
  obtain ⟨_, _, rfl, n, middle, happend, _, _, rfl, rfl⟩ := hends
  obtain ⟨hlaid, rfl, touched, hcontext⟩ := appendAll_ends hleads source h
    (fun group hgroup => rejection?_of_mem_group hgroup) happend
  refine ⟨hlaid.onContext _ rfl rfl, touched, ?_⟩
  rw [hcontext]
  rfl

theorem processTypes_succeeds (source : String) (types : List TypeInfo)
    {cs : List Contribution} {site : Site} (h : Laid root base cs site)
    (hfits : ∀ c ∈ contributionsOf ⟨source, types⟩, Fits base root c.home) :
    ∃ site', Job.Ends (processTypes source types) site () site' := by
  obtain ⟨n, middle, happend⟩ := appendAll_succeeds hleads source h hfits
  simp only [processTypes, Job.ends_bind, Job.ends_report, Site.ends_onContext]
  exact ⟨_, (), site, rfl, n, middle, happend, (), middle, rfl, rfl⟩

/-- The whole list of sources, by induction: each adds to what was laid before it. -/
theorem processFrom_ends {sources : List Source} {total done : Nat} {cs : List Contribution}
    {site site' : Site} {u : Unit} (h : Laid root base cs site)
    (hends : Job.Ends (processFrom total done sources) site u site') :
    Laid root base (cs ++ (loadsFrom sources site).flatMap contributionsOf) site' ∧
      ∃ touched, site'.context =
        { site.context with
          touched := touched
          processed := site.context.processed + (loadsFrom sources site).length
          failed := site.context.failed + (sources.length - (loadsFrom sources site).length)
          written := site.context.written +
            writtenBy ((loadsFrom sources site).flatMap contributionsOf) } := by
  induction sources generalizing done cs site with
  | nil =>
      obtain ⟨-, rfl⟩ := Job.ends_pure.mp hends
      simp only [loadsFrom, List.flatMap_nil, List.append_nil]
      exact ⟨h, site.context.touched, rfl⟩
  | cons source rest ih =>
      simp only [processFrom, Job.ends_bind, Job.ends_tell] at hends
      obtain ⟨_, _, rfl, _, middle, hsource, hrest⟩ := hends
      have hlength := length_loadsFrom_le rest middle
      rw [loadsFrom_cons hsource]
      simp only [processSource, Job.ends_bind, Job.ends_get] at hsource
      obtain ⟨_, _, ⟨rfl, rfl⟩, hsource⟩ := hsource
      cases htypes : source.types site.tree with
      | error fault =>
          -- Only the count of failures moves on.
          simp only [htypes, Job.ends_bind, Job.ends_report, Site.ends_onContext] at hsource
          obtain ⟨_, _, rfl, rfl⟩ := hsource
          obtain ⟨hlaid, touched, hcontext⟩ :=
            ih (h.onContext { site.context with failed := site.context.failed + 1 } rfl rfl) hrest
          refine ⟨hlaid, touched, ?_⟩
          rw [hcontext]
          simp only [Context.mk.injEq, List.length_cons, true_and, and_true]
          omega
      | ok types =>
          simp only [htypes] at hsource
          obtain ⟨hlaid, touched, hcontext⟩ := processTypes_ends hleads h hsource
          obtain ⟨hlaid', touched', hcontext'⟩ := ih hlaid hrest
          rw [List.append_assoc] at hlaid'
          simp only [List.flatMap_cons, List.length_cons]
          refine ⟨hlaid', touched', ?_⟩
          rw [hcontext', hcontext, writtenBy_append]
          simp only [Context.mk.injEq, true_and]
          refine ⟨?_, ?_, ?_⟩ <;> omega

theorem processFrom_succeeds {sources : List Source} {total done : Nat}
    {cs : List Contribution} {site : Site} (h : Laid root base cs site)
    (hfits : ∀ c ∈ (loadsFrom sources site).flatMap contributionsOf, Fits base root c.home) :
    ∃ site', Job.Ends (processFrom total done sources) site () site' := by
  induction sources generalizing done cs site with
  | nil => exact ⟨site, Job.ends_pure.mpr ⟨rfl, rfl⟩⟩
  | cons source rest ih =>
      have hends : ∃ middle cs', Job.Ends (processSource source) site () middle ∧
          Laid root base cs' middle := by
        simp only [processSource, Job.ends_bind, Job.ends_get]
        cases htypes : source.types site.tree with
        | error fault =>
            refine ⟨_, cs, ⟨_, _, ⟨rfl, rfl⟩, ?_⟩,
              h.onContext { site.context with failed := site.context.failed + 1 } rfl rfl⟩
            simp only [htypes, Job.ends_bind, Job.ends_report, Site.ends_onContext]
            exact ⟨(), _, rfl, rfl⟩
        | ok types =>
            have hhere : ∀ c ∈ contributionsOf ⟨source.id, types⟩, Fits base root c.home := by
              intro c hc
              apply hfits
              simp only [loadsFrom, htypes, List.flatMap_cons]
              exact List.mem_append_left _ hc
            obtain ⟨middle, hmiddle⟩ := processTypes_succeeds hleads source.id types h hhere
            obtain ⟨hlaid, -⟩ := processTypes_ends hleads h hmiddle
            refine ⟨middle, _, ⟨_, _, ⟨rfl, rfl⟩, ?_⟩, hlaid⟩
            simp only [htypes]
            exact hmiddle
      obtain ⟨middle, cs', hsource, hlaid⟩ := hends
      have hfits' : ∀ c ∈ (loadsFrom rest middle).flatMap contributionsOf, Fits base root c.home := by
        intro c hc
        apply hfits
        rw [loadsFrom_cons hsource]
        split
        · exact hc
        · rw [List.flatMap_cons]
          exact List.mem_append_right _ hc
      obtain ⟨site', hrest⟩ : ∃ site', Job.Ends (processFrom total (done + 1) rest) middle ()
          site' := ih hlaid hfits'
      refine ⟨site', ?_⟩
      simp only [processFrom, Job.ends_bind, Job.ends_tell]
      exact ⟨(), site, rfl, (), middle, hsource, hrest⟩

end Processing

end StubTree.Package
