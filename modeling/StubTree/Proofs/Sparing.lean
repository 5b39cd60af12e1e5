import StubTree.Proofs.Placement

/-!
What a run spares. Wherever the root leads, with two dots in it or without,
nothing but what is in the root is lost or changed while sources are processed,
and all that is new elsewhere are directories on the way to the root. A path
that leads elsewhere is therefore read as it was before the run, unless it
leads up again from a directory that only the run has made.
-/

namespace StubTree.Package

open Files Namespace

/-- At a place there is what there was, or else a directory that was missing. -/
def SparedAt (made : List Place) (tree after : Tree) (place : Place) : Prop :=
  after.get? place = tree.get? place ∨
    (place ∈ made ∧ tree.get? place = none ∧ after.get? place = some .directory)

/-- Two trees differ in what is in a place, and in directories that have been made. -/
structure Spared (outer : Place) (made : List Place) (tree after : Tree) : Prop where
  home : after.home = tree.home
  outside : ∀ place, ¬StrictlyAbove outer place → SparedAt made tree after place

section Spared

variable {outer place : Place} {made : List Place} {tree middle after : Tree} {entry : Entry}

theorem SparedAt.trans (h : SparedAt made tree middle place)
    (h' : SparedAt made middle after place) : SparedAt made tree after place := by
  rcases h with hsame | ⟨hmem, hnone, hmade⟩
  · rcases h' with hsame' | ⟨hmem, hnone', hmade'⟩
    · exact .inl (hsame'.trans hsame)
    · exact .inr ⟨hmem, hsame ▸ hnone', hmade'⟩
  · rcases h' with hsame' | ⟨-, hnone', -⟩
    · exact .inr ⟨hmem, hnone, hsame'.trans hmade⟩
    · rw [hmade] at hnone'
      cases hnone'

theorem Spared.trans (h : Spared outer made tree middle) (h' : Spared outer made middle after) :
    Spared outer made tree after :=
  ⟨h'.home.trans h.home, fun place hout => (h.outside place hout).trans (h'.outside place hout)⟩

theorem SparedAt.kept (h : SparedAt made tree after place) (hget : tree.get? place = some entry) :
    after.get? place = some entry := by
  rcases h with hsame | ⟨-, hnone, -⟩
  · rw [hsame, hget]
  · rw [hget] at hnone
    cases hnone

/-- Where nothing has been made, what there is was there before. -/
theorem SparedAt.before (h : SparedAt made tree after place)
    (hthere : place ∈ made → tree.get? place ≠ none) (hget : after.get? place = some entry) :
    tree.get? place = some entry := by
  rcases h with hsame | ⟨hmem, hnone, -⟩
  · rw [← hsame, hget]
  · exact absurd hnone (hthere hmem)

/-- No file is new. -/
theorem SparedAt.file_iff (h : SparedAt made tree after place) {content : List UInt8} :
    after.get? place = some (.file content) ↔ tree.get? place = some (.file content) := by
  refine ⟨fun hget => ?_, h.kept⟩
  rcases h with hsame | ⟨-, -, hmade⟩
  · rwa [hsame] at hget
  · rw [hget] at hmade
    cases hmade

theorem sparedAt_of_directory (hmem : place ∈ made) (hget : after.get? place = some .directory)
    (hfree : ∀ content, tree.get? place ≠ some (.file content)) :
    SparedAt made tree after place := by
  cases hbefore : tree.get? place with
  | none => exact .inr ⟨hmem, hbefore, hget⟩
  | some entry =>
      cases entry with
      | directory => exact .inl (hget.trans hbefore.symm)
      | file content => exact absurd hbefore (hfree content)

theorem sparedAt_along (h : Tree.Along made tree after) (place : Place) :
    SparedAt made tree after place := by
  have hget := h.get? place
  by_cases hmem : place ∈ made
  · rw [if_pos hmem] at hget
    exact sparedAt_of_directory hmem hget (h.free place hmem)
  · rw [if_neg hmem] at hget
    exact .inl hget

end Spared

section Roots

variable {tree base : Tree} {root : String}

theorem spared_createDirectories {outer : Place} {u : Unit}
    (h : Action.createDirectories root tree = .ok u base) :
    Spared outer (wayTo tree root) tree base := by
  by_cases hempty : root = ""
  · rw [hempty] at h
    cases h
    exact ⟨rfl, fun _ _ => .inl rfl⟩
  · have halong := along_root hempty h
    exact ⟨halong.home, fun place _ => sparedAt_along halong place⟩

/-- Emptying a root takes away what is in it and nothing else. -/
theorem spared_emptyRoot {u : Unit} (h : emptyRoot root tree = .ok u base) :
    Spared (placeOf tree root) (wayTo tree root) tree base := by
  rcases emptyRoot_eq_ok.mp h with ⟨-, hmake⟩ | ⟨-, cleared, hremove, hmake⟩
  · exact spared_createDirectories hmake
  · obtain ⟨hthere, hgone, -⟩ := Action.removeDirectory_ok hremove
    obtain ⟨-, hdirectory⟩ := Tree.isDirectoryAt_iff.mp hthere
    have halong := along_root (Tree.ne_empty_of_directory hthere) hmake
    rw [wayTo_congr hgone.home] at halong
    refine ⟨halong.home.trans hgone.home, fun other hout => ?_⟩
    by_cases hroot : other = placeOf tree root
    · -- The root itself is made anew if need be.
      have hmade := Tree.get?_walk fun p hp => (halong.get? p).trans (if_pos hp)
      exact .inl (by rw [hroot, hdirectory]; exact hmade)
    · have hmade := sparedAt_along halong other
      rwa [SparedAt, hgone.outside other fun hwithin => hout ⟨hwithin, Ne.symm hroot⟩] at hmade

/-- What has been laid below a root is all that differs from the emptied tree. -/
theorem spared_laid {cs : List Contribution} {site : Site} (h : Laid root base cs site) :
    Spared (placeOf base root) (wayTo base root) base site.tree := by
  refine ⟨h.home, fun place hout => ?_⟩
  rcases h.place_cases place with ⟨c, hc, rfl⟩ | ⟨c, hc, hway⟩ | hsame
  · exact absurd (strictlyAbove_append (by simp [stubPlace])) hout
  · have hfits := h.fits c hc
    have hmade := h.ways c hc place hway
    have hfree := hfits.free place hway
    rw [way, entered_append] at hway
    cases List.mem_append.mp hway with
    | inl hroot => exact sparedAt_of_directory hroot hmade hfree
    | inr hbelow =>
        obtain ⟨inner, hne, -, rfl⟩ :=
          (mem_entered_of_not_upwards (names_not_upwards hfits.accepted)).mp hbelow
        exact absurd (strictlyAbove_append hne) hout
  · exact .inl hsame

end Roots

section Reading

variable {place last : Place} {tree after : Tree} {segment : String} {rest segments : List String}

/-- A walk that meets nothing but what is there in another tree is possible in that tree. -/
theorem follow_kept
    (hkept : ∀ p, p <+: place ∨ p ∈ entered place (namesIn segments) →
      ∀ entry, tree.get? p = some entry → after.get? p = some entry)
    (hfollow : tree.follow place segments = .ok last) :
    after.follow place segments = .ok last := by
  induction segments generalizing place with
  | nil => exact hfollow
  | cons segment rest ih =>
      obtain ⟨hhere, hsteps⟩ := Tree.follow_cons_eq_ok.mp hfollow
      refine Tree.follow_cons_eq_ok.mpr ⟨hkept place (.inl List.prefix_rfl) _ hhere, ?_⟩
      rcases hsteps with ⟨hidle, hrest⟩ | ⟨hidle, rfl, hrest⟩ | ⟨hidle, hup, hshort, hnext, hrest⟩
      · rw [entered_idle hidle] at hkept
        exact .inl ⟨hidle, ih hkept hrest⟩
      · rw [entered_upwards] at hkept
        refine .inr (.inl ⟨hidle, rfl, ih (fun p hp => hkept p ?_) hrest⟩)
        exact hp.imp_left fun h => h.trans (List.dropLast_prefix place)
      · rw [entered_named hidle hup] at hkept
        obtain ⟨entry, hentry⟩ := Option.ne_none_iff_exists'.mp hnext
        have hthere := hkept _ (.inr List.mem_cons_self) entry hentry
        refine .inr (.inr ⟨hidle, hup, hshort, by simp [hthere], ih (fun p hp => hkept p ?_) hrest⟩)
        rcases hp with hp | hp
        · exact (List.prefix_concat_iff.mp hp).symm.imp id fun h => by simp [h]
        · exact .inr (List.mem_cons_of_mem _ hp)

variable {root path : String}

theorem locate_kept (hhome : after.home = tree.home)
    (hkept : ∀ p, p <+: [] ∨ p ∈ wayTo tree path →
      ∀ entry, tree.get? p = some entry → after.get? p = some entry)
    (hlocate : tree.locate path = .ok place) : after.locate path = .ok place := by
  obtain ⟨segments, hok, hfollow⟩ := bind_eq_ok.mp hlocate
  rw [wayTo, ← Tree.namesIn_segmentsFrom hok] at hkept
  exact bind_eq_ok.mpr
    ⟨segments, (Tree.segmentsFrom_congr hhome path).trans hok, follow_kept hkept hfollow⟩

theorem read_eq_ok {content : List UInt8} :
    tree.read path = .ok content ↔
      ∃ place, tree.locate path = .ok place ∧ tree.get? place = some (.file content) := by
  rw [Tree.read, bind_eq_ok]
  refine exists_congr fun place => and_congr_right fun _ => ?_
  cases tree.get? place with
  | none => simp
  | some entry => cases entry <;> simp [pure, Except.pure]

/-- A path that leads nowhere below the root. If it leads up again, then not from a directory on the
way to the root that is missing. -/
structure IsOutside (tree : Tree) (root path : String) : Prop where
  apart : ∀ p ∈ wayTo tree path, ¬StrictlyAbove (placeOf tree root) p
  settled : ".." ∈ pathNames tree.home path →
    ∀ p ∈ wayTo tree path, p ∈ wayTo tree root → tree.get? p ≠ none

instance : Decidable (IsOutside tree root path) :=
  decidable_of_iff
    ((∀ p ∈ wayTo tree path, ¬StrictlyAbove (placeOf tree root) p) ∧
      (".." ∈ pathNames tree.home path →
        ∀ p ∈ wayTo tree path, (wayTo tree root).contains p → tree.get? p ≠ none)) <| by
    simp only [List.contains_iff_mem]
    exact ⟨fun h => ⟨h.1, h.2⟩, fun h => ⟨h.apart, h.settled⟩⟩

/-- Straight down, whatever a path leads through is there with the file that it leads to. -/
theorem there_of_file (hground : tree.Grounded) (hup : ".." ∉ pathNames tree.home path)
    {content : List UInt8} (hfile : tree.get? (placeOf tree path) = some (.file content)) :
    ∀ p ∈ wayTo tree path, tree.get? p ≠ none := by
  intro p hp
  obtain ⟨inner, -, ⟨more, hmore⟩, rfl⟩ := (mem_entered_of_not_upwards hup).mp hp
  rw [placeOf, walk_of_not_upwards [] hup, List.nil_append, ← hmore] at hfile
  by_cases hnil : more = []
  · rw [hnil, List.append_nil] at hfile
    simp [hfile]
  · have hsome : (tree.get? (p ++ more)).isSome := by simp [hfile]
    simp [hground.above hnil hsome]

section Outside

variable (hout : IsOutside tree root path) {p : Place} (hmet : p <+: [] ∨ p ∈ wayTo tree path)
include hout hmet

/-- What a path outside leads through is spared. -/
theorem spared_of_met (h : Spared (placeOf tree root) (wayTo tree root) tree after) :
    SparedAt (wayTo tree root) tree after p := by
  refine h.outside p ?_
  cases hmet with
  | inl hnil =>
      rw [List.prefix_nil.mp hnil]
      exact fun habove => habove.2 (List.prefix_nil.mp habove.1)
  | inr hway => exact hout.apart p hway

/-- On the way to a file nothing is missing. -/
theorem there_of_met (hground : tree.Grounded) {content : List UInt8}
    (hfile : tree.get? (placeOf tree path) = some (.file content)) (hroot : p ∈ wayTo tree root) :
    tree.get? p ≠ none := by
  cases hmet with
  | inl hnil => simp [List.prefix_nil.mp hnil, Tree.get?_nil]
  | inr hway =>
      by_cases hup : ".." ∈ pathNames tree.home path
      · exact hout.settled hup p hway hroot
      · exact there_of_file hground hup hfile p hway

end Outside

/-- Outside the root a path is read afterwards exactly as before. -/
theorem read_spared (hground : tree.Grounded) (hout : IsOutside tree root path)
    (h : Spared (placeOf tree root) (wayTo tree root) tree after) {content : List UInt8} :
    after.read path = .ok content ↔ tree.read path = .ok content := by
  have hspared := spared_of_met hout (outer_walk List.prefix_rfl) h
  have hnames : pathNames after.home path = pathNames tree.home path := by rw [h.home]
  rw [read_eq_ok, read_eq_ok]
  constructor
  · rintro ⟨place, hlocate, hafter⟩
    obtain rfl : place = placeOf tree path := by
      rw [(Tree.locate_ok hlocate).2.1, placeOf, placeOf, hnames]
    have hbefore := hspared.file_iff.mp hafter
    refine ⟨_, locate_kept h.home.symm (fun p hmet entry hget => ?_) hlocate, hbefore⟩
    rw [wayTo, hnames] at hmet
    exact (spared_of_met hout hmet h).before (there_of_met hout hmet hground hbefore) hget
  · rintro ⟨place, hlocate, hbefore⟩
    obtain rfl := (Tree.locate_ok hlocate).2.1
    exact ⟨_, locate_kept h.home (fun p hmet _ => (spared_of_met hout hmet h).kept) hlocate,
      hspared.kept hbefore⟩

end Reading

end StubTree.Package
