import StubTree.Proofs.Effects
import StubTree.Proofs.Walks

/-!
What the actions on files do when they succeed, and when they do. Everything is
decided by the segments of a path from the working directory on: following them
ends where their names lead, directories are made at every place that is
entered, and a file is written in the place before the last.
-/

namespace StubTree.Files

open Files.Tree

theorem bind_eq_ok {α β : Type} {e : Except Fault α} {next : α → Except Fault β} {b : β} :
    (e >>= next) = .ok b ↔ ∃ a, e = .ok a ∧ next a = .ok b := by
  cases e <;> simp [bind, Except.bind]

/-- A step behind the working directory is the last of the whole path. -/
theorem lastStep?_fromHome {home path step : String} {segments : List String}
    (h : fromHome home path (Text.segments '/' path) = some segments)
    (hstep : Action.lastStep? segments = some step) :
    Action.lastStep? (Text.segments '/' path) = some step := by
  simp only [fromHome] at h
  split at h
  · rw [List.isPrefixOf?_eq_some_iff_append_eq] at h
    rw [Action.lastStep?] at hstep ⊢
    rw [← h, List.filter_append, List.getLast?_append, hstep, Option.some_or]
  · rwa [Option.some.inj h]

theorem exists_lastStep? {segments : List String} (hne : namesIn segments ≠ []) :
    ∃ step, Action.lastStep? segments = some step := by
  refine Option.isSome_iff_exists.mp ?_
  rw [Action.lastStep?, List.getLast?_isSome]
  intro hnil
  rw [← namesIn_filled, hnil] at hne
  exact hne rfl

/-- The place that a path leads to, whether or not there is something. -/
def placeOf (tree : Tree) (path : String) : Place := walk [] (pathNames tree.home path)

/-- The places that a path leads through, up to its end. -/
def wayTo (tree : Tree) (path : String) : List Place := entered [] (pathNames tree.home path)

namespace Tree

/-- Names of a path that can be looked up one by one. -/
def NamesFit (names : List String) : Prop := ∀ name ∈ names, name.utf8ByteSize ≤ longestName

theorem NamesFit.append {front back : List String} (h : NamesFit front) (h' : NamesFit back) :
    NamesFit (front ++ back) := by
  intro name hname
  cases List.mem_append.mp hname with
  | inl hname => exact h name hname
  | inr hname => exact h' name hname

theorem NamesFit.left {front back : List String} (h : NamesFit (front ++ back)) :
    NamesFit front := fun name hname => h name (List.mem_append_left _ hname)

theorem segmentsFrom_eq_ok {tree : Tree} {path : String} {segments : List String} :
    tree.segmentsFrom path = .ok segments ↔
      checkPath path = .ok () ∧
        fromHome tree.home path (Text.segments '/' path) = some segments := by
  simp only [segmentsFrom, fromHome]
  cases checkPath path with
  | error fault => simp [bind, Except.bind]
  | ok =>
      cases isAbsolute path with
      | false => simp [bind, Except.bind, pure, Except.pure]
      | true =>
          cases (Text.segments '/' tree.home).isPrefixOf? (Text.segments '/' path) with
          | none => simp [bind, Except.bind]
          | some rest => simp [bind, Except.bind, pure, Except.pure]

theorem segmentsFrom_congr {tree tree' : Tree} (h : tree'.home = tree.home) (path : String) :
    tree'.segmentsFrom path = tree.segmentsFrom path := by
  rw [segmentsFrom, segmentsFrom, h]

theorem namesIn_segmentsFrom {tree : Tree} {path : String} {segments : List String}
    (h : tree.segmentsFrom path = .ok segments) : namesIn segments = pathNames tree.home path :=
  (pathNames_of_segments (segmentsFrom_eq_ok.mp h).2).symm

/-- A path that is reached can be looked up, if any can that is written this way. -/
theorem exists_segmentsFrom {tree : Tree} {path : String} (hcheck : checkPath path = .ok ())
    (hreached : (fromHome tree.home path (trunk path)).isSome) :
    ∃ segments, tree.segmentsFrom path = .ok segments := by
  obtain ⟨segments, hsegments⟩ := exists_fromHome_segments hreached
  exact ⟨segments, segmentsFrom_eq_ok.mpr ⟨hcheck, hsegments⟩⟩

private theorem namesIn_cons (segment : String) (rest : List String) :
    namesIn (segment :: rest) =
      if isIdle segment then namesIn rest else segment :: namesIn rest := by
  cases h : isIdle segment <;> simp [namesIn, h]

theorem namesFit_cons {name : String} {rest : List String}
    (h : name.utf8ByteSize ≤ longestName) (hrest : NamesFit rest) : NamesFit (name :: rest) := by
  intro n hn
  cases hn with
  | head => exact h
  | tail _ hn => exact hrest n hn

theorem upwards_fits : "..".utf8ByteSize ≤ longestName := by decide

/-- What following one segment comes to, if the path is followed to its end. -/
theorem follow_cons_eq_ok {tree : Tree} {place last : Place} {segment : String}
    {rest : List String} :
    tree.follow place (segment :: rest) = .ok last ↔
      tree.get? place = some .directory ∧
        ((isIdle segment = true ∧ tree.follow place rest = .ok last) ∨
          (isIdle segment = false ∧ segment = ".." ∧ tree.follow place.dropLast rest = .ok last) ∨
          (isIdle segment = false ∧ segment ≠ ".." ∧ segment.utf8ByteSize ≤ longestName ∧
            tree.get? (place ++ [segment]) ≠ none ∧
              tree.follow (place ++ [segment]) rest = .ok last)) := by
  simp only [follow]
  cases hget : tree.get? place with
  | none => simp
  | some entry =>
      cases entry with
      | file content => simp
      | directory =>
          cases hidle : isIdle segment with
          | true => simp
          | false =>
              by_cases hup : segment = ".."
              · simp [hup]
              · by_cases hlong : longestName < segment.utf8ByteSize
                · simp [hup, hlong, Nat.not_le.mpr hlong]
                · cases hnext : tree.get? (place ++ [segment]) <;>
                    simp [hup, hlong, Nat.le_of_not_lt hlong]

/-- A path that is followed to its end leads where its names lead. -/
theorem follow_ok {tree : Tree} {place last : Place} {segments : List String}
    (h : tree.follow place segments = .ok last) :
    last = walk place (namesIn segments) ∧ NamesFit (namesIn segments) := by
  induction segments generalizing place with
  | nil =>
      simp only [follow, Except.ok.injEq] at h
      simp [namesIn, NamesFit, walk, h]
  | cons segment rest ih =>
      rw [namesIn_cons]
      obtain ⟨-, hsteps⟩ := follow_cons_eq_ok.mp h
      rcases hsteps with ⟨hidle, hrest⟩ | ⟨hidle, hup, hrest⟩ | ⟨hidle, hup, hshort, -, hrest⟩
      · rw [if_pos hidle]
        exact ih hrest
      · obtain ⟨hlast, hfit⟩ := ih hrest
        rw [if_neg (by simp [hidle]), walk, if_pos hup]
        exact ⟨hlast, hup ▸ namesFit_cons upwards_fits hfit⟩
      · obtain ⟨hlast, hfit⟩ := ih hrest
        rw [if_neg (by simp [hidle]), walk, if_neg hup]
        exact ⟨hlast, namesFit_cons hshort hfit⟩

/-- The way to a directory leads through directories. -/
theorem directory_of_mem_entered {tree : Tree} {place last p : Place} {segments : List String}
    (h : tree.follow place segments = .ok last) (hlast : tree.get? last = some .directory)
    (hp : p ∈ entered place (namesIn segments)) : tree.get? p = some .directory := by
  have hstart {start : Place} {rest : List String} (h : tree.follow start rest = .ok last) :
      tree.get? start = some .directory := by
    cases rest with
    | nil =>
        cases h
        exact hlast
    | cons segment rest => exact (follow_cons_eq_ok.mp h).1
  induction segments generalizing place with
  | nil => simp [namesIn, entered] at hp
  | cons segment rest ih =>
      obtain ⟨-, hsteps⟩ := follow_cons_eq_ok.mp h
      rcases hsteps with ⟨hidle, hrest⟩ | ⟨hidle, rfl, hrest⟩ | ⟨hidle, hup, -, -, hrest⟩
      · rw [entered_idle hidle] at hp
        exact ih hrest hp
      · rw [entered_upwards] at hp
        exact ih hrest hp
      · rw [entered_named hidle hup, List.mem_cons] at hp
        rcases hp with rfl | hp
        · exact hstart hrest
        · exact ih hrest hp

/-- Through directories all the way, every path can be followed. -/
theorem follow_eq {tree : Tree} {place : Place} {segments : List String}
    (hplace : ∀ p, p <+: place → tree.get? p = some .directory)
    (hentered : ∀ p ∈ entered place (namesIn segments), tree.get? p = some .directory)
    (hfit : NamesFit (namesIn segments)) :
    tree.follow place segments = .ok (walk place (namesIn segments)) := by
  induction segments generalizing place with
  | nil => simp [follow, namesIn, walk]
  | cons segment rest ih =>
      have hhere : tree.get? place = some .directory := hplace place List.prefix_rfl
      rw [namesIn_cons] at hentered hfit ⊢
      simp only [follow, hhere]
      by_cases hidle : isIdle segment = true
      · rw [if_pos hidle] at hentered hfit ⊢
        rw [if_pos hidle]
        exact ih hplace hentered hfit
      · rw [if_neg hidle] at hentered hfit ⊢
        rw [if_neg hidle]
        have hrest : NamesFit (namesIn rest) := fun n hn => hfit n (List.mem_cons_of_mem _ hn)
        simp only [walk, entered] at hentered ⊢
        by_cases hup : segment = ".."
        · rw [if_pos hup] at hentered ⊢
          rw [if_pos hup]
          exact ih (fun p hp => hplace p (hp.trans (List.dropLast_prefix place))) hentered hrest
        · rw [if_neg hup] at hentered ⊢
          have hlong : ¬ longestName < segment.utf8ByteSize :=
            Nat.not_lt.mpr (hfit segment List.mem_cons_self)
          have hnext := hentered (place ++ [segment]) List.mem_cons_self
          rw [if_neg hup, if_neg hlong, if_neg (by simp [hnext])]
          refine ih ?_ (fun p hp => hentered p (List.mem_cons_of_mem _ hp)) hrest
          intro p hp
          cases List.prefix_concat_iff.mp hp with
          | inl heq => rw [heq, hnext]
          | inr hp => exact hplace p hp

theorem follow_append (tree : Tree) (place : Place) (front back : List String) :
    tree.follow place (front ++ back) =
      tree.follow place front >>= fun last => tree.follow last back := by
  induction front generalizing place with
  | nil => rfl
  | cons segment rest ih =>
      simp only [List.cons_append, follow]
      split
      · rfl
      · rfl
      · rw [ih, ih, ih]
        repeat' split
        all_goals rfl

variable {tree : Tree}

theorem outer_nil (p : Place) (hp : p <+: []) : tree.get? p = some .directory := by
  rw [List.prefix_nil.mp hp, get?_nil]

theorem get?_walk {names : List String}
    (hentered : ∀ p ∈ entered [] names, tree.get? p = some .directory) :
    tree.get? (walk [] names) = some .directory := by
  cases outer_walk (List.prefix_refl (walk [] names)) with
  | inl habove => exact outer_nil _ habove
  | inr hmem => exact hentered _ hmem

/-- A path leads where its names lead, if it leads anywhere. -/
theorem locate_ok {path : String} {place : Place} (h : tree.locate path = .ok place) :
    checkPath path = .ok () ∧ place = placeOf tree path ∧
      NamesFit (pathNames tree.home path) := by
  obtain ⟨segments, hok, hfollow⟩ := bind_eq_ok.mp h
  obtain ⟨hplace, hfit⟩ := follow_ok hfollow
  rw [namesIn_segmentsFrom hok] at hplace hfit
  exact ⟨(segmentsFrom_eq_ok.mp hok).1, hplace, hfit⟩

/-- Through directories all the way, every path can be looked up. -/
theorem locate_eq {path : String} {segments : List String}
    (hok : tree.segmentsFrom path = .ok segments)
    (hway : ∀ p ∈ wayTo tree path, tree.get? p = some .directory)
    (hfit : NamesFit (pathNames tree.home path)) :
    tree.locate path = .ok (placeOf tree path) := by
  have hnames := namesIn_segmentsFrom hok
  rw [wayTo, ← hnames] at hway
  rw [placeOf, ← hnames]
  exact bind_eq_ok.mpr ⟨segments, hok, follow_eq outer_nil hway (hnames ▸ hfit)⟩

/-- Where a file belongs there is no directory, but one around it. -/
theorem filePlace_eq_ok {path : String} {place : Place} :
    tree.filePlace path = .ok place ↔
      ∃ segments parent name, tree.segmentsFrom path = .ok segments ∧
        tree.follow [] segments.dropLast = .ok parent ∧ tree.get? parent = some .directory ∧
        segments.getLast? = some name ∧ isIdle name = false ∧ name ≠ ".." ∧
        name.utf8ByteSize ≤ longestName ∧ tree.get? (parent ++ [name]) ≠ some .directory ∧
        place = parent ++ [name] := by
  simp only [filePlace, bind_eq_ok]
  refine exists_congr fun segments => ?_
  constructor
  · rintro ⟨hok, parent, hfollow, h⟩
    cases hget : tree.get? parent with
    | none => simp [hget] at h
    | some entry =>
        cases entry with
        | file content => simp [hget] at h
        | directory =>
            cases hlast : segments.getLast? with
            | none => simp [hget, hlast] at h
            | some name =>
                simp only [hget, hlast] at h
                split at h
                · simp at h
                · rename_i hplain
                  simp only [Bool.or_eq_true, decide_eq_true_eq, not_or, Bool.not_eq_true] at hplain
                  split at h
                  · simp at h
                  · rename_i hlong
                    split at h
                    · simp at h
                    · rename_i hfree
                      exact ⟨parent, name, hok, hfollow, hget, rfl, hplain.1, hplain.2,
                        Nat.le_of_not_lt hlong, hfree, (Except.ok.inj h).symm⟩
  · rintro ⟨parent, name, hok, hfollow, hget, hlast, hidle, hup, hlong, hfree, rfl⟩
    refine ⟨hok, parent, hfollow, ?_⟩
    simp only [hget, hlast, hidle, hup, decide_false, Bool.or_false, Bool.false_eq_true,
      ↓reduceIte, if_neg (Nat.not_lt.mpr hlong), if_neg hfree]
    rfl

theorem segmentsFrom_of_filePlace {path : String} {place : Place}
    (h : tree.filePlace path = .ok place) : ∃ segments, tree.segmentsFrom path = .ok segments := by
  obtain ⟨segments, _, _, hok, -⟩ := filePlace_eq_ok.mp h
  exact ⟨segments, hok⟩

theorem placeOf_of_not_upwards {path : String} (hup : ".." ∉ pathNames tree.home path) :
    placeOf tree path = pathNames tree.home path := by
  rw [placeOf, walk_of_not_upwards [] hup, List.nil_append]

theorem mem_wayTo_of_not_upwards {path : String} (hup : ".." ∉ pathNames tree.home path)
    {p : Place} : p ∈ wayTo tree path ↔ p ≠ [] ∧ p <+: pathNames tree.home path := by
  simp only [wayTo, mem_entered_of_not_upwards hup, List.nil_append]
  constructor
  · rintro ⟨inner, hne, hinner, rfl⟩
    exact ⟨hne, hinner⟩
  · rintro ⟨hne, hinner⟩
    exact ⟨p, hne, hinner, rfl⟩

section Named

variable {path name : String} {front : List String}
  (hok : tree.segmentsFrom path = .ok (front ++ [name])) (hname : IsPlainName name)
include hok hname

/-- A path that ends in a plain name leads to whatever has this name. -/
theorem locate_named
    (hentered : ∀ p ∈ entered [] (namesIn front), tree.get? p = some .directory)
    (hfit : NamesFit (namesIn front ++ [name]))
    (hsome : (tree.get? (walk [] (namesIn front) ++ [name])).isSome) :
    tree.locate path = .ok (walk [] (namesIn front) ++ [name]) := by
  refine bind_eq_ok.mpr ⟨_, hok, ?_⟩
  rw [follow_append, follow_eq outer_nil hentered hfit.left]
  have hlong : ¬ longestName < name.utf8ByteSize := Nat.not_lt.mpr (hfit name (by simp))
  have hthere : (tree.get? (walk [] (namesIn front) ++ [name])).isNone = false := by
    simpa [Option.isNone_eq_false_iff] using hsome
  simp only [bind, Except.bind, follow, get?_walk hentered, hname.not_idle, Bool.false_eq_true,
    ↓reduceIte, if_neg hname.not_upwards, if_neg hlong, hthere]

omit hname in
theorem filePlace_ok {place : Place} (h : tree.filePlace path = .ok place) :
    place = walk [] (namesIn front) ++ [name] ∧
      tree.get? (walk [] (namesIn front)) = some .directory ∧
      tree.get? (walk [] (namesIn front) ++ [name]) ≠ some .directory := by
  obtain ⟨segments, parent, last, hsegments, hfollow, hget, hlast, -, -, -, hfree, rfl⟩ :=
    filePlace_eq_ok.mp h
  rw [hok] at hsegments
  cases hsegments
  rw [List.getLast?_concat] at hlast
  cases hlast
  rw [List.dropLast_concat] at hfollow
  obtain ⟨rfl, -⟩ := follow_ok hfollow
  exact ⟨rfl, hget, hfree⟩

theorem filePlace_eq
    (hentered : ∀ p ∈ entered [] (namesIn front), tree.get? p = some .directory)
    (hfit : NamesFit (namesIn front ++ [name]))
    (hfree : tree.get? (walk [] (namesIn front) ++ [name]) ≠ some .directory) :
    tree.filePlace path = .ok (walk [] (namesIn front) ++ [name]) := by
  refine filePlace_eq_ok.mpr ⟨_, _, name, hok, ?_, get?_walk hentered, List.getLast?_concat,
    hname.not_idle, hname.not_upwards, hfit name (by simp), hfree, rfl⟩
  rw [List.dropLast_concat]
  exact follow_eq outer_nil hentered hfit.left

end Named

section Joined

variable {directory name : String} {front : List String}
  (hfront : fromHome tree.home directory (trunk directory) = some front) (hname : IsPlainName name)
include hfront hname

theorem segmentsFrom_join :
    tree.segmentsFrom (join directory name) = .ok (front ++ [name]) ↔
      checkPath (join directory name) = .ok () := by
  rw [segmentsFrom_eq_ok, fromHome_congr (isAbsolute_join hname), segments_join directory hname,
    fromHome_append hfront]
  simp

variable (hup : ".." ∉ pathNames tree.home directory)
include hup

omit hname in
theorem walk_front : walk [] (namesIn front) = pathNames tree.home directory := by
  rw [pathNames_of_front hfront] at hup ⊢
  rw [walk_of_not_upwards [] hup, List.nil_append]

/-- A file in a directory is in the place that the names of the directory lead to. -/
theorem filePlace_join {place : Place} (h : tree.filePlace (join directory name) = .ok place) :
    place = pathNames tree.home directory ++ [name] ∧
      tree.get? (pathNames tree.home directory ++ [name]) ≠ some .directory := by
  obtain ⟨segments, hok⟩ := segmentsFrom_of_filePlace h
  have hcheck := (segmentsFrom_eq_ok.mp hok).1
  obtain ⟨hplace, -, hfree⟩ := filePlace_ok ((segmentsFrom_join hfront hname).mpr hcheck) h
  rw [walk_front hfront hup] at hplace hfree
  exact ⟨hplace, hfree⟩

end Joined

end Tree

namespace Action

variable {α β : Type}

theorem ofExcept_eq_ok {e : Except Fault α} {tree tree' : Tree} {a : α} :
    ofExcept e tree = .ok a tree' ↔ e = .ok a ∧ tree = tree' := by
  cases e with
  | ok b => simp [ofExcept, Effect.pure_eq_ok]
  | error fault => simp [ofExcept, Effect.throw_ne_ok]

theorem write_eq_ok {path : String} {content : List UInt8} {tree tree' : Tree} {u : Unit} :
    write path content tree = .ok u tree' ↔
      ∃ place, tree.filePlace path = .ok place ∧ tree' = tree.put place (.file content) := by
  simp only [write, Effect.bind_eq_ok, Effect.get_eq_ok, ofExcept_eq_ok, Effect.modify_eq_ok]
  constructor
  · rintro ⟨_, _, ⟨rfl, rfl⟩, place, _, ⟨hplace, rfl⟩, rfl⟩
    exact ⟨place, hplace, rfl⟩
  · rintro ⟨place, hplace, rfl⟩
    exact ⟨_, _, ⟨rfl, rfl⟩, place, _, ⟨hplace, rfl⟩, rfl⟩

theorem append_eq_ok {path : String} {content : List UInt8} {tree tree' : Tree} {u : Unit} :
    append path content tree = .ok u tree' ↔
      ∃ place, tree.filePlace path = .ok place ∧
        tree' = tree.put place (.file (tree.contentAt place ++ content)) := by
  simp only [append, Effect.bind_eq_ok, Effect.get_eq_ok, ofExcept_eq_ok, Effect.modify_eq_ok]
  constructor
  · rintro ⟨_, _, ⟨rfl, rfl⟩, place, _, ⟨hplace, rfl⟩, rfl⟩
    exact ⟨place, hplace, rfl⟩
  · rintro ⟨place, hplace, rfl⟩
    exact ⟨_, _, ⟨rfl, rfl⟩, place, _, ⟨hplace, rfl⟩, rfl⟩

/-- Directories are made wherever the names enter and nothing is there yet. -/
theorem createFrom_ok {place : Place} {names : List String} {tree tree' : Tree} {u : Unit}
    (h : createFrom place names tree = .ok u tree') :
    Along (entered place names) tree tree' ∧ NamesFit names := by
  induction names generalizing place tree with
  | nil =>
      obtain ⟨-, rfl⟩ := Effect.pure_eq_ok.mp h
      exact ⟨.refl tree, by simp [NamesFit]⟩
  | cons name rest ih =>
      simp only [createFrom] at h
      simp only [entered]
      by_cases hup : name = ".."
      · rw [if_pos hup] at h ⊢
        obtain ⟨halong, hfit⟩ := ih h
        exact ⟨halong, hup ▸ namesFit_cons upwards_fits hfit⟩
      · rw [if_neg hup] at h ⊢
        by_cases hlong : longestName < name.utf8ByteSize
        · rw [if_pos hlong] at h
          exact absurd h Effect.throw_ne_ok
        · rw [if_neg hlong] at h
          have hshort := Nat.le_of_not_lt hlong
          rw [Effect.get_bind] at h
          cases hnext : tree.get? (place ++ [name]) with
          | none =>
              simp only [hnext] at h
              obtain ⟨_, made, hmade, h⟩ := Effect.bind_eq_ok.mp h
              rw [Effect.modify_eq_ok] at hmade
              subst hmade
              obtain ⟨halong, hfit⟩ := ih h
              exact ⟨halong.cons_of_put (by simp) hnext, namesFit_cons hshort hfit⟩
          | some entry =>
              cases entry with
              | directory =>
                  simp only [hnext] at h
                  obtain ⟨halong, hfit⟩ := ih h
                  exact ⟨halong.cons_of_directory hnext, namesFit_cons hshort hfit⟩
              | file content =>
                  simp only [hnext] at h
                  exact absurd h Effect.throw_ne_ok

theorem createFrom_succeeds {place : Place} {names : List String} {tree : Tree}
    (hfit : NamesFit names)
    (hfree : ∀ p ∈ entered place names, ∀ content, tree.get? p ≠ some (.file content)) :
    ∃ tree', createFrom place names tree = .ok () tree' := by
  induction names generalizing place tree with
  | nil => exact ⟨tree, rfl⟩
  | cons name rest ih =>
      have hrest : NamesFit rest := fun n hn => hfit n (List.mem_cons_of_mem _ hn)
      simp only [createFrom]
      simp only [entered] at hfree
      by_cases hup : name = ".."
      · rw [if_pos hup] at hfree ⊢
        exact ih hrest hfree
      · rw [if_neg hup] at hfree ⊢
        have hlong : ¬ longestName < name.utf8ByteSize :=
          Nat.not_lt.mpr (hfit name List.mem_cons_self)
        rw [if_neg hlong]
        simp only [Effect.bind_eq_ok, Effect.get_eq_ok]
        cases hnext : tree.get? (place ++ [name]) with
        | none =>
            have hfree' : ∀ p ∈ entered (place ++ [name]) rest, ∀ content,
                (tree.put (place ++ [name]) .directory).get? p ≠ some (.file content) := by
              intro p hp content
              rw [get?_put tree (by simp)]
              split
              · simp
              · exact hfree p (List.mem_cons_of_mem _ hp) content
            obtain ⟨tree', h⟩ := ih hrest hfree'
            refine ⟨tree', _, _, ⟨rfl, rfl⟩, ?_⟩
            simp only [hnext]
            exact Effect.bind_eq_ok.mpr ⟨(), _, Effect.modify_eq_ok.mpr rfl, h⟩
        | some entry =>
            cases entry with
            | directory =>
                obtain ⟨tree', h⟩ :=
                  ih hrest fun p hp content => hfree p (List.mem_cons_of_mem _ hp) content
                refine ⟨tree', _, _, ⟨rfl, rfl⟩, ?_⟩
                simp only [hnext]
                exact h
            | file content => exact absurd hnext (hfree _ List.mem_cons_self content)

/-- The last name of all enters at most the place where all of them lead. -/
private theorem along_of_dropLast {names : List String} {tree tree' : Tree}
    (h : Along (entered [] names.dropLast) tree tree')
    (hlast : tree'.get? (walk [] names) = some .directory) :
    Along (entered [] names) tree tree' := by
  cases List.eq_nil_or_concat names with
  | inl hnil => simpa [hnil] using h
  | inr hconcat =>
      obtain ⟨front, name, hnames⟩ := hconcat
      rw [List.concat_eq_append] at hnames
      subst hnames
      rw [List.dropLast_concat] at h
      rw [walk_append] at hlast
      rw [entered_append]
      simp only [walk, entered] at hlast ⊢
      by_cases hup : name = ".."
      · rw [if_pos hup, List.append_nil]
        exact h
      · rw [if_neg hup] at hlast ⊢
        exact h.concat hlast

theorem createDirectories_ok {path : String} {tree tree' : Tree} {u : Unit} (hne : path ≠ "")
    (h : createDirectories path tree = .ok u tree') :
    ∃ segments, tree.segmentsFrom path = .ok segments ∧
      Along (entered [] (namesIn segments)) tree tree' ∧ NamesFit (namesIn segments) ∧
      (endsInDot segments = true → ".." ∉ namesIn segments →
        tree.get? (namesIn segments) = some .directory) := by
  simp only [createDirectories, String.isEmpty_iff, if_neg hne] at h
  rw [Effect.get_bind] at h
  obtain ⟨segments, _, hsegments, h⟩ := Effect.bind_eq_ok.mp h
  obtain ⟨hok, rfl⟩ := ofExcept_eq_ok.mp hsegments
  refine ⟨segments, hok, ?_⟩
  change (if endsInDot segments = true then _ else createFrom [] (namesIn segments)) tree = _ at h
  by_cases hdot : endsInDot segments = true
  · -- A dot at the end: all but the last directory are made, and the last must be there.
    rw [if_pos hdot] at h
    obtain ⟨_, made, hmade, h⟩ := Effect.bind_eq_ok.mp h
    rw [Effect.get_bind] at h
    obtain ⟨last, _, hlast, h⟩ := Effect.bind_eq_ok.mp h
    obtain ⟨hfollow, rfl⟩ := ofExcept_eq_ok.mp hlast
    rw [Effect.get_bind] at h
    obtain ⟨halong, -⟩ := createFrom_ok hmade
    obtain ⟨rfl, hfit⟩ := follow_ok hfollow
    by_cases hdirectory : made.get? (walk [] (namesIn segments)) = some .directory
    · rw [if_pos hdirectory] at h
      obtain ⟨-, rfl⟩ := Effect.pure_eq_ok.mp h
      refine ⟨along_of_dropLast halong hdirectory, hfit, fun _ hup => ?_⟩
      rw [walk_of_not_upwards [] hup, List.nil_append, halong.get?] at hdirectory
      by_cases hnil : namesIn segments = []
      · rw [hnil, get?_nil]
      · rwa [if_neg] at hdirectory
        exact not_mem_entered_dropLast hup hnil
    · rw [if_neg hdirectory] at h
      exact absurd h Effect.throw_ne_ok
  · rw [if_neg hdot] at h
    obtain ⟨halong, hfit⟩ := createFrom_ok h
    exact ⟨halong, hfit, fun hdot' => absurd hdot' hdot⟩

theorem createDirectories_succeeds {path : String} {tree : Tree} {segments : List String}
    (hok : tree.segmentsFrom path = .ok segments)
    (hdot : endsInDot segments = true → tree.get? (walk [] (namesIn segments)) = some .directory)
    (hfit : NamesFit (namesIn segments))
    (hfree : ∀ p ∈ entered [] (namesIn segments), ∀ content,
      tree.get? p ≠ some (.file content)) :
    ∃ tree', createDirectories path tree = .ok () tree' := by
  have hne : path ≠ "" := (checkPath_eq_ok.mp (segmentsFrom_eq_ok.mp hok).1).2.1
  simp only [createDirectories, String.isEmpty_iff, if_neg hne, Effect.bind_eq_ok, Effect.get_eq_ok,
    ofExcept_eq_ok]
  by_cases hends : endsInDot segments = true
  · -- The last directory is there already, so the others are all that has to be made.
    obtain ⟨made, hmade⟩ := createFrom_succeeds
      (fun name hname => hfit name ((List.dropLast_sublist _).mem hname) :
        NamesFit (namesIn segments).dropLast)
      fun p hp => hfree p (mem_entered_of_dropLast hp)
    obtain ⟨hdropped, -⟩ := createFrom_ok hmade
    have hlast : made.get? (walk [] (namesIn segments)) = some .directory := by
      rw [hdropped.get?, hdot hends, ite_self]
    have halong := along_of_dropLast hdropped hlast
    have hfollow : made.follow [] segments = .ok (walk [] (namesIn segments)) :=
      follow_eq outer_nil (fun p hp => by rw [halong.get?, if_pos hp]) hfit
    refine ⟨made, _, _, ⟨rfl, rfl⟩, _, _, ⟨hok, rfl⟩, ?_⟩
    rw [if_pos hends]
    simp only [Effect.bind_eq_ok, Effect.get_eq_ok, ofExcept_eq_ok]
    refine ⟨(), made, hmade, _, _, ⟨rfl, rfl⟩, _, _, ⟨hfollow, rfl⟩, _, _, ⟨rfl, rfl⟩, ?_⟩
    rw [if_pos hlast]
    rfl
  · obtain ⟨tree', h⟩ := createFrom_succeeds hfit hfree
    refine ⟨tree', _, _, ⟨rfl, rfl⟩, _, _, ⟨hok, rfl⟩, ?_⟩
    rw [if_neg hends]
    exact h

theorem lastStep?_concat {front : List String} {name : String} (h : IsPlainName name) :
    lastStep? (front ++ [name]) = some name := by
  have hkept : [name].filter (· ≠ "") = [name] := by simp [h.ne_empty]
  rw [lastStep?, List.filter_append, hkept, List.getLast?_concat]

theorem endsInDot_concat {front : List String} {name : String} (h : IsPlainName name) :
    endsInDot (front ++ [name]) = false := by
  rw [endsInDot, lastStep?_concat h, decide_eq_false_iff_not]
  rintro heq
  cases heq
  exact absurd h.not_idle (by decide)

end Action

end StubTree.Files
