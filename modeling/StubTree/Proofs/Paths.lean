import Mathlib.Data.List.Basic
import StubTree.Files.Access
import StubTree.Proofs.Segments

/-!
The names along a written path, and how joining extends them. Joining a plain
name to a path adds exactly this name, whatever slashes the path ends in. An
ordinary root is below the working directory and never leads upwards; it may be
written from there on or from the top of all directories.
-/

namespace StubTree.Files

/-- The segments that lead somewhere. -/
def namesIn (segments : List String) : List String := segments.filter (!isIdle ·)

/-- The segments of a path before whatever is joined to it. -/
def trunk (path : String) : List String :=
  let all := Text.segments '/' path
  if all.getLast? = some "" then all.dropLast else all

/-- Those of the segments of a path that come behind the working directory. -/
def fromHome (home path : String) (all : List String) : Option (List String) :=
  if isAbsolute path then (Text.segments '/' home).isPrefixOf? all else some all

/-- The names that lead to a path from the working directory. -/
def pathNames (home path : String) : List String :=
  namesIn ((fromHome home path (trunk path)).getD [])

/-- A path that leads straight down to a place below the working directory. -/
structure IsOrdinaryRoot (home path : String) : Prop where
  names_ne_nil : pathNames home path ≠ []
  not_upwards : ".." ∉ pathNames home path

/-- A name that stands for one directory or file below whatever it is joined to. -/
structure IsPlainName (name : String) : Prop where
  not_idle : isIdle name = false
  not_upwards : name ≠ ".."
  no_slash : '/' ∉ name.toList

theorem plain_of_nil : ∀ name ∈ ([] : List String), IsPlainName name := by simp

theorem namesIn_append (front back : List String) :
    namesIn (front ++ back) = namesIn front ++ namesIn back := List.filter_append ..

theorem namesIn_of_plain {names : List String} (h : ∀ name ∈ names, IsPlainName name) :
    namesIn names = names := by
  apply List.filter_eq_self.mpr
  intro name hname
  simp [(h name hname).not_idle]

theorem namesIn_concat_empty (segments : List String) :
    namesIn (segments ++ [""]) = namesIn segments := by
  have hidle : namesIn [""] = [] := by decide
  rw [namesIn_append, hidle, List.append_nil]

theorem namesIn_filled (segments : List String) :
    namesIn (segments.filter (· ≠ "")) = namesIn segments := by
  rw [namesIn, List.filter_filter]
  refine List.filter_congr fun segment _ => ?_
  by_cases hempty : segment = ""
  · simp [hempty, isIdle]
  · simp [hempty]

theorem pathNames_of_front {home path : String} {front : List String}
    (h : fromHome home path (trunk path) = some front) : pathNames home path = namesIn front := by
  rw [pathNames, h, Option.getD_some]

/-- Only what is at the working directory or below has names. -/
theorem IsOrdinaryRoot.reached {home path : String} (h : IsOrdinaryRoot home path) :
    (fromHome home path (trunk path)).isSome := by
  cases hfront : fromHome home path (trunk path) with
  | some front => rfl
  | none => exact absurd (by simp [pathNames, hfront, namesIn]) h.names_ne_nil

theorem IsOrdinaryRoot.ne_empty {home path : String} (h : IsOrdinaryRoot home path) :
    path ≠ "" := by
  rintro rfl
  have hnone : pathNames home "" = [] := by
    have habs : isAbsolute "" = false := by decide
    have htrunk : namesIn (trunk "") = [] := by decide
    simp [pathNames, fromHome, habs, htrunk]
  exact h.names_ne_nil hnone

theorem fromHome_append {home path : String} {all front : List String}
    (h : fromHome home path all = some front) (more : List String) :
    fromHome home path (all ++ more) = some (front ++ more) := by
  simp only [fromHome] at h ⊢
  split
  · rename_i habs
    rw [if_pos habs, List.isPrefixOf?_eq_some_iff_append_eq] at h
    rw [List.isPrefixOf?_eq_some_iff_append_eq, ← h, List.append_assoc]
  · rename_i hrel
    rw [if_neg hrel] at h
    cases h
    rfl

theorem fromHome_congr {path path' : String} (h : isAbsolute path = isAbsolute path')
    (home : String) (all : List String) : fromHome home path all = fromHome home path' all := by
  rw [fromHome, fromHome, h]

theorem IsPlainName.relative {name : String} (h : IsPlainName name) :
    isAbsolute name = false := by
  have hslash := h.no_slash
  cases hcs : name.toList with
  | nil => simp [isAbsolute, hcs]
  | cons c cs =>
      rw [hcs] at hslash
      simp only [List.mem_cons, not_or] at hslash
      simp [isAbsolute, hcs, Ne.symm hslash.1]

theorem IsPlainName.ne_empty {name : String} (h : IsPlainName name) : name ≠ "" := by
  rintro rfl
  exact absurd h.not_idle (by decide)

theorem IsPlainName.segments_eq {name : String} (h : IsPlainName name) :
    Text.segments '/' name = [name] := Text.segments_of_not_mem h.no_slash

theorem isAbsolute_append {base : String} (hbase : base ≠ "") (more : String) :
    isAbsolute (base ++ more) = isAbsolute base := by
  cases hcs : base.toList with
  | nil => exact absurd (String.toList_eq_nil_iff.mp hcs) hbase
  | cons c cs => simp [isAbsolute, hcs]

/-- What is joined to a path that is not empty comes behind it, at most with a slash between. -/
theorem join_eq_append {base name : String} (hbase : base ≠ "") (h : IsPlainName name) :
    ∃ slash, join base name = base ++ (slash ++ name) ∧ (slash = "" ∨ slash = "/") := by
  simp only [join, h.relative, Bool.false_or]
  rw [if_neg (by simpa using hbase)]
  split
  · exact ⟨"", by simp, .inl rfl⟩
  · exact ⟨"/", String.append_assoc, .inr rfl⟩

theorem join_empty {name : String} : join "" name = name := by simp [join]

theorem join_ne_empty {base name : String} (h : IsPlainName name) : join base name ≠ "" := by
  by_cases hbase : base = ""
  · rw [hbase, join_empty]
    exact h.ne_empty
  · obtain ⟨slash, heq, -⟩ := join_eq_append hbase h
    simp [heq, hbase]

theorem isAbsolute_join {base name : String} (h : IsPlainName name) :
    isAbsolute (join base name) = isAbsolute base := by
  by_cases hbase : base = ""
  · rw [hbase, join_empty, h.relative]
    decide
  · obtain ⟨slash, heq, -⟩ := join_eq_append hbase h
    rw [heq, isAbsolute_append hbase]

theorem segments_eq_trunk (path : String) :
    Text.segments '/' path = trunk path ∨ Text.segments '/' path = trunk path ++ [""] := by
  simp only [trunk]
  split
  · rename_i hlast
    obtain ⟨front, hfront⟩ := List.getLast?_eq_some_iff.mp hlast
    exact .inr (by rw [hfront, List.dropLast_concat])
  · exact .inl rfl

/-- An empty segment at the end makes no difference to the names. -/
theorem pathNames_of_segments {home path : String} {segments : List String}
    (h : fromHome home path (Text.segments '/' path) = some segments) :
    pathNames home path = namesIn segments := by
  cases segments_eq_trunk path with
  | inl heq => exact pathNames_of_front (heq ▸ h)
  | inr heq =>
      rw [heq] at h
      simp only [pathNames, fromHome] at h ⊢
      split at h
      · rename_i habs
        rw [List.isPrefixOf?_eq_some_iff_append_eq] at h
        rw [if_pos habs]
        rcases List.eq_nil_or_concat segments with rfl | ⟨front, last, rfl⟩
        · -- The working directory itself, with a slash at the end of both.
          cases hfront : (Text.segments '/' home).isPrefixOf? (trunk path) with
          | none => rfl
          | some rest =>
              rw [List.isPrefixOf?_eq_some_iff_append_eq] at hfront
              have hlonger := congrArg List.length h
              have hshorter := congrArg List.length hfront
              simp only [List.append_nil, List.length_append, List.length_singleton]
                at hlonger hshorter
              omega
        · rw [List.concat_eq_append, ← List.append_assoc] at h
          obtain ⟨hfront, hlast⟩ := List.append_inj' h rfl
          rw [List.concat_eq_append, hlast, namesIn_concat_empty,
            List.isPrefixOf?_eq_some_iff_append_eq.mpr hfront, Option.getD_some]
      · rename_i hrel
        cases h
        rw [if_neg hrel, namesIn_concat_empty, Option.getD_some]

/-- Whatever slash a path ends in, it is reached with all its segments. -/
theorem exists_fromHome_segments {home path : String}
    (h : (fromHome home path (trunk path)).isSome) :
    ∃ segments, fromHome home path (Text.segments '/' path) = some segments := by
  obtain ⟨front, hfront⟩ := Option.isSome_iff_exists.mp h
  cases segments_eq_trunk path with
  | inl heq => exact ⟨front, heq ▸ hfront⟩
  | inr heq => exact ⟨front ++ [""], heq ▸ fromHome_append hfront [""]⟩

/-- Joining a plain name adds it as the last segment, whatever slash the base ends in. -/
theorem segments_join (base : String) {name : String} (h : IsPlainName name) :
    Text.segments '/' (join base name) = trunk base ++ [name] := by
  by_cases hempty : base = ""
  · have htrunk : trunk "" = [] := by decide
    rw [hempty, join_empty, h.segments_eq, htrunk, List.nil_append]
  · by_cases hlast : base.toList.getLast? = some '/'
    · -- A base that ends in a slash has an empty last segment, which the name replaces.
      obtain ⟨cs, hcs⟩ := List.getLast?_eq_some_iff.mp hlast
      have hjoin : (join base name).toList = (String.ofList cs).toList ++ '/' :: name.toList := by
        simp [join, h.relative, hempty, hcs]
      have hbase : base.toList = (String.ofList cs).toList ++ '/' :: "".toList := by
        simp [hcs]
      have hlastSegment : Text.segments '/' "" = [""] := by decide
      simp only [trunk]
      rw [Text.segments_of_toList_eq hjoin, h.segments_eq, Text.segments_of_toList_eq hbase,
        hlastSegment, List.getLast?_concat, if_pos rfl, List.dropLast_concat]
    · have hjoin : (join base name).toList = base.toList ++ '/' :: name.toList := by
        simp [join, h.relative, hempty, hlast]
      simp only [trunk]
      rw [if_neg (Text.getLast?_segments hempty hlast), Text.segments_of_toList_eq hjoin,
        h.segments_eq]

theorem trunk_join (base : String) {name : String} (h : IsPlainName name) :
    trunk (join base name) = trunk base ++ [name] := by
  rw [trunk, segments_join base h, if_neg]
  rw [List.getLast?_concat]
  intro hempty
  exact h.ne_empty (Option.some.inj hempty)

theorem trunk_foldl_join (base : String) {names : List String}
    (h : ∀ name ∈ names, IsPlainName name) :
    trunk (names.foldl join base) = trunk base ++ names := by
  induction names generalizing base with
  | nil => simp
  | cons name rest ih =>
      have hrest : ∀ n ∈ rest, IsPlainName n := fun n hn => h n (List.mem_cons_of_mem _ hn)
      rw [List.foldl_cons, ih _ hrest, trunk_join base (h name List.mem_cons_self)]
      simp

theorem segments_foldl_join (base : String) {names : List String}
    (h : ∀ name ∈ names, IsPlainName name) (hne : names ≠ []) :
    Text.segments '/' (names.foldl join base) = trunk base ++ names := by
  cases segments_eq_trunk (names.foldl join base) with
  | inl heq => rw [heq, trunk_foldl_join base h]
  | inr heq =>
      obtain ⟨front, name, hnames⟩ := List.eq_nil_or_concat names |>.resolve_left hne
      have hname : IsPlainName name := h name (by simp [hnames])
      rw [hnames, List.concat_eq_append, List.foldl_append, List.foldl_cons, List.foldl_nil,
        segments_join _ hname] at heq
      exact absurd (List.append_inj_right' heq rfl) (by simp [hname.ne_empty])

theorem isAbsolute_foldl_join (base : String) {names : List String}
    (h : ∀ name ∈ names, IsPlainName name) :
    isAbsolute (names.foldl join base) = isAbsolute base := by
  induction names generalizing base with
  | nil => rfl
  | cons name rest ih =>
      rw [List.foldl_cons, ih _ fun n hn => h n (List.mem_cons_of_mem _ hn)]
      exact isAbsolute_join (h name List.mem_cons_self)

/-- What is joined to a path that is reached comes behind it. -/
theorem fromHome_foldl_join {home base : String} {front names : List String}
    (h : ∀ name ∈ names, IsPlainName name) (hfront : fromHome home base (trunk base) = some front) :
    fromHome home (names.foldl join base) (trunk (names.foldl join base)) =
      some (front ++ names) := by
  rw [fromHome_congr (isAbsolute_foldl_join base h), trunk_foldl_join base h]
  exact fromHome_append hfront names

theorem reached_foldl_join {home base : String} {names : List String}
    (h : ∀ name ∈ names, IsPlainName name) (hreached : (fromHome home base (trunk base)).isSome) :
    (fromHome home (names.foldl join base) (trunk (names.foldl join base))).isSome := by
  obtain ⟨front, hfront⟩ := Option.isSome_iff_exists.mp hreached
  rw [fromHome_foldl_join h hfront]
  rfl

theorem pathNames_foldl_join {home base : String} {names : List String}
    (h : ∀ name ∈ names, IsPlainName name) (hreached : (fromHome home base (trunk base)).isSome) :
    pathNames home (names.foldl join base) = pathNames home base ++ names := by
  obtain ⟨front, hfront⟩ := Option.isSome_iff_exists.mp hreached
  rw [pathNames_of_front (fromHome_foldl_join h hfront), namesIn_append, namesIn_of_plain h,
    pathNames_of_front hfront]

theorem foldl_join_ne_empty {base : String} (hbase : base ≠ "") {names : List String}
    (h : ∀ name ∈ names, IsPlainName name) : names.foldl join base ≠ "" := by
  induction names generalizing base with
  | nil => exact hbase
  | cons name rest ih =>
      exact ih (join_ne_empty (h name List.mem_cons_self))
        fun n hn => h n (List.mem_cons_of_mem _ hn)

/-- What names are joined to stands at the front. -/
theorem foldl_join_eq_append {base : String} (hbase : base ≠ "") {names : List String}
    (h : ∀ name ∈ names, IsPlainName name) :
    ∃ more, names.foldl join base = base ++ more := by
  induction names generalizing base with
  | nil => exact ⟨"", by simp⟩
  | cons name rest ih =>
      have hname := h name List.mem_cons_self
      obtain ⟨slash, hjoin, -⟩ := join_eq_append hbase hname
      obtain ⟨more, hmore⟩ :=
        ih (join_ne_empty hname) fun n hn => h n (List.mem_cons_of_mem _ hn)
      exact ⟨slash ++ name ++ more, by rw [List.foldl_cons, hmore, hjoin, String.append_assoc]⟩

/-- A slash at the end does not count. -/
theorem components_eq (path : String) :
    components path =
      match trunk path with
      | [] => []
      | first :: rest => (if first ≠ "" then [first] else ["/"]) ++ namesIn rest := by
  cases htrunk : trunk path with
  | nil =>
      cases segments_eq_trunk path with
      | inl heq => exact absurd (heq.trans htrunk) (Text.segments_ne_nil '/' path)
      | inr heq => simp [components, heq, htrunk]
  | cons first rest =>
      cases segments_eq_trunk path with
      | inl heq =>
          -- A single empty segment is that of the empty path, which has no trunk.
          have hmore : first = "" → rest ≠ [] := by
            rintro rfl rfl
            simp [trunk, heq.trans htrunk] at htrunk
          rw [components, heq, htrunk]
          by_cases hfirst : first = ""
          · simp [hfirst, hmore hfirst, namesIn]
          · simp [hfirst, namesIn]
      | inr heq =>
          have hidle : isIdle "" = true := by decide
          rw [components, heq, htrunk]
          simp [namesIn, hidle]

/-- Joining a plain name extends what paths are compared by. -/
theorem components_join (base : String) {name : String} (h : IsPlainName name) :
    components (join base name) = components base ++ [name] := by
  rw [components_eq, components_eq, trunk_join base h]
  cases trunk base with
  | nil => simp [h.ne_empty, namesIn]
  | cons first rest =>
      have hnames : namesIn [name] = [name] := namesIn_of_plain (by simpa using h)
      simp only [List.cons_append, namesIn_append, hnames, List.append_assoc]

theorem components_foldl_join (base : String) {names : List String}
    (h : ∀ name ∈ names, IsPlainName name) :
    components (names.foldl join base) = components base ++ names := by
  induction names generalizing base with
  | nil => simp
  | cons name rest ih =>
      rw [List.foldl_cons, ih _ fun n hn => h n (List.mem_cons_of_mem _ hn),
        components_join base (h name List.mem_cons_self), List.append_assoc, List.singleton_append]

theorem checkPath_eq_ok {path : String} :
    checkPath path = .ok () ↔
      (∀ c ∈ path.toList, c.toNat ≠ 0) ∧ path ≠ "" ∧ path.utf8ByteSize < pathBound := by
  by_cases hnul : path.toList.any (·.toNat = 0) = true
  · simp only [checkPath, if_pos hnul, reduceCtorEq, false_iff, not_and]
    intro hall
    obtain ⟨c, hc, hzero⟩ := List.any_eq_true.mp hnul
    exact absurd (by simpa using hzero) (hall c hc)
  · have hall : ∀ c ∈ path.toList, c.toNat ≠ 0 := by simpa using hnul
    by_cases hempty : path = ""
    · simp [checkPath, hempty]
    · by_cases hlong : pathBound ≤ path.utf8ByteSize
      · simp [checkPath, hnul, hempty, hlong]
      · simp only [checkPath, if_neg hnul, String.isEmpty_iff, if_neg hempty, if_neg hlong]
        exact iff_of_true trivial ⟨hall, hempty, by omega⟩

/-- The null character is the only one with the number zero. -/
theorem forall_toNat_ne_zero {cs : List Char} : (∀ c ∈ cs, c.toNat ≠ 0) ↔ '\x00' ∉ cs := by
  constructor
  · intro h hnul
    exact h _ hnul rfl
  · rintro h c hc hzero
    obtain rfl : c = '\x00' := Char.toNat_inj.mp hzero
    exact h hc

/-- A path that can be looked up has a front that can be, unless that is empty. -/
theorem checkPath_of_append {front back : String} (hfront : front ≠ "")
    (h : checkPath (front ++ back) = .ok ()) : checkPath front = .ok () := by
  obtain ⟨hall, -, hlong⟩ := checkPath_eq_ok.mp h
  refine checkPath_eq_ok.mpr ⟨?_, hfront, ?_⟩
  · intro c hc
    exact hall c (by simp [hc])
  · rw [String.utf8ByteSize_append] at hlong
    omega

end StubTree.Files
