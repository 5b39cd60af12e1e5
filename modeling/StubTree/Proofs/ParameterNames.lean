import Mathlib.Data.List.Nodup
import StubTree.Proofs.ParameterTexts

/-!
Names of parameters as they are printed. A reserved word gets an underscore
behind it without a look at the other names, and no name is kept apart from
that of the receiver; so names that were distinct become the same exactly in
these two cases.
-/

namespace StubTree.Python

/-- Names that become the same: the empty one and its replacement, a reserved word and the word with
an underscore. -/
def Merges (name other : String) : Prop :=
  name = "" ∧ other = "arg" ∨ name ∈ reservedWords ∧ other = name ++ "_"

theorem safeName_of_free {name : String} (hne : name ≠ "") (hfree : name ∉ reservedWords) :
    safeName name = name := by
  rcases safeName_cases name with ⟨hempty, -⟩ | ⟨hreserved, -⟩ | ⟨-, -, hname⟩
  · exact absurd hempty hne
  · exact absurd hreserved hfree
  · exact hname

/-- No word of the table is another one with an underscore. -/
theorem marked_not_reserved : ∀ word ∈ reservedWords, word ++ "_" ∉ reservedWords := by
  decide +kernel

theorem marked_ne : ∀ word ∈ reservedWords, word ++ "_" ≠ "" ∧ word ++ "_" ≠ "arg" ∧
    word ++ "_" ≠ "self" := by
  decide +kernel

theorem safeName_not_reserved (name : String) : safeName name ∉ reservedWords := by
  rcases safeName_cases name with ⟨-, hname⟩ | ⟨hreserved, hname⟩ | ⟨-, hfree, hname⟩ <;> rw [hname]
  · decide
  · exact marked_not_reserved name hreserved
  · exact hfree

theorem safeName_idem (name : String) : safeName (safeName name) = safeName name :=
  safeName_of_free (safeName_ne_empty name) (safeName_not_reserved name)

theorem Merges.ne {name other : String} (h : Merges name other) : name ≠ other := by
  rcases h with ⟨rfl, rfl⟩ | ⟨hreserved, rfl⟩
  · decide
  · intro heq
    exact marked_not_reserved name hreserved (heq ▸ hreserved)

theorem Merges.safeName_eq {name other : String} (h : Merges name other) :
    safeName name = safeName other := by
  rcases h with ⟨rfl, rfl⟩ | ⟨hreserved, rfl⟩
  · decide +kernel
  · rw [safeName_of_free (marked_ne name hreserved).1 (marked_not_reserved name hreserved)]
    rcases safeName_cases name with ⟨rfl, -⟩ | ⟨-, hname⟩ | ⟨-, hfree, -⟩
    · exact absurd hreserved (by decide)
    · exact hname
    · exact absurd hreserved hfree

/-- Two names become the same only if they are, or if they merge. -/
theorem safeName_eq_iff {name other : String} :
    safeName name = safeName other ↔
      name = other ∨ Merges name other ∨ Merges other name := by
  constructor
  · intro heq
    rcases safeName_cases name with ⟨hempty, hname⟩ | ⟨hreserved, hname⟩ | ⟨hne, hfree, hname⟩ <;>
      rcases safeName_cases other with ⟨hempty', hother⟩ | ⟨hreserved', hother⟩ |
        ⟨hne', hfree', hother⟩ <;>
      rw [hname, hother] at heq
    · exact .inl (hempty.trans hempty'.symm)
    · exact absurd heq.symm (marked_ne other hreserved').2.1
    · exact .inr (.inl (.inl ⟨hempty, heq.symm⟩))
    · exact absurd heq (marked_ne name hreserved).2.1
    · exact .inl ((String.append_left_inj "_").mp heq)
    · exact .inr (.inl (.inr ⟨hreserved, heq.symm⟩))
    · exact .inr (.inr (.inl ⟨hempty', heq⟩))
    · exact .inr (.inr (.inr ⟨hreserved', heq⟩))
    · exact .inl heq
  · rintro (rfl | h | h)
    · rfl
    · exact h.safeName_eq
    · exact h.safeName_eq.symm

/-- What comes out is a name that can be declared and does not change again; and two different names
become the same exactly if they merge. -/
theorem safeName_usable_and_merging (name other : String) :
    safeName name ≠ "" ∧ safeName name ∉ reservedWords ∧
      safeName (safeName name) = safeName name ∧
      (name ≠ other ∧ safeName name = safeName other ↔ Merges name other ∨ Merges other name) := by
  refine ⟨safeName_ne_empty name, safeName_not_reserved name, safeName_idem name, ?_⟩
  rw [safeName_eq_iff]
  constructor
  · rintro ⟨hne, hsame⟩
    exact hsame.resolve_left hne
  · rintro (h | h)
    · exact ⟨h.ne, .inr (.inl h)⟩
    · exact ⟨h.ne.symm, .inr (.inr h)⟩

variable {names : List String}

/-- Distinct names stay distinct exactly if there is no reserved word beside its marked form. -/
theorem nodup_map_safeName (hnamed : "" ∉ names) (h : names.Nodup) :
    (names.map safeName).Nodup ↔ ∀ word ∈ reservedWords, word ∈ names → word ++ "_" ∉ names := by
  constructor
  · intro hnodup word hreserved hword hmarked
    have hmerges : Merges word (word ++ "_") := .inr ⟨hreserved, rfl⟩
    have heq := List.inj_on_of_nodup_map hnodup hword hmarked hmerges.safeName_eq
    exact marked_not_reserved word hreserved (heq ▸ hreserved)
  · intro hclear
    have hmerges {name other : String} (hname : name ∈ names) (hother : other ∈ names) :
        ¬ Merges name other := by
      rintro (⟨rfl, -⟩ | ⟨hreserved, rfl⟩)
      · exact hnamed hname
      · exact hclear name hreserved hname hother
    refine List.Nodup.map_on (fun name hname other hother heq => ?_) h
    exact (safeName_eq_iff.mp heq).resolve_right
      (not_or.mpr ⟨hmerges hname hother, hmerges hother hname⟩)

theorem receiver_mem_map_safeName : "self" ∈ names.map safeName ↔ "self" ∈ names := by
  have hreceiver : safeName "self" = "self" := by decide +kernel
  rw [List.mem_map]
  constructor
  · rintro ⟨name, hname, heq⟩
    rw [← hreceiver, safeName_eq_iff] at heq
    rcases heq with rfl | (⟨-, hself⟩ | ⟨hreserved, hself⟩) | (⟨hself, -⟩ | ⟨hreserved, -⟩)
    · exact hname
    · exact absurd hself (by decide)
    · exact absurd hself.symm (marked_ne name hreserved).2.2
    · exact absurd hself (by decide)
    · exact absurd hreserved (by decide)
  · intro hmem
    exact ⟨"self", hmem, hreceiver⟩

/-- The identifiers of the parameters in the text of a list. -/
def identifiersIn (text : String) : List String :=
  (pieces text).map fun piece => (Shown.read piece).name

theorem identifiersIn_parametersText {ps : List Parameter} (h : ∀ p ∈ ps, IsReadable p) :
    identifiersIn (parametersText ps) = ps.map Parameter.name := by
  have hnames := congrArg (List.map Shown.name) (read_pieces h)
  rw [List.map_map, List.map_map] at hnames
  exact hnames

end StubTree.Python

namespace StubTree.Stub

open Metadata Python

variable {ps : List Metadata.Parameter}

theorem names_parameters (ps : List Metadata.Parameter) :
    (parameters ps).map (·.name) = (ps.map (·.name)).map safeName := by
  simp only [parameters, List.map_map, Function.comp_def, name_parameter]

/-- Names that are given and distinct are printed distinct exactly if none of them is a reserved
word beside its marked form and, behind a receiver, none is called like the receiver. Where the text
can be read back, the names are those in the text. -/
theorem printed_names_distinct_iff (hnamed : ∀ p ∈ ps, p.name ≠ "")
    (hdistinct : (ps.map (·.name)).Nodup) :
    (((parameters ps).map (·.name)).Nodup ↔
        ∀ word ∈ reservedWords, word ∈ ps.map (·.name) → word ++ "_" ∉ ps.map (·.name)) ∧
      (((withReceiver ps).map (·.name)).Nodup ↔
        "self" ∉ ps.map (·.name) ∧ ((parameters ps).map (·.name)).Nodup) ∧
      ((∀ p ∈ ps, IsSeparable p) →
        identifiersIn (parametersText (parameters ps)) = (parameters ps).map (·.name) ∧
          identifiersIn (parametersText (withReceiver ps)) = (withReceiver ps).map (·.name)) := by
  have hempty : "" ∉ ps.map (·.name) := by
    intro hmem
    obtain ⟨p, hp, hname⟩ := List.mem_map.mp hmem
    exact hnamed p hp hname
  refine ⟨?_, ?_, fun hseparable => ⟨?_, ?_⟩⟩
  · rw [names_parameters]
    exact nodup_map_safeName hempty hdistinct
  · rw [withReceiver, List.map_cons, List.nodup_cons, names_parameters]
    exact and_congr_left' (not_congr receiver_mem_map_safeName)
  · exact identifiersIn_parametersText (readable_parameters hseparable)
  · exact identifiersIn_parametersText (readable_withReceiver hseparable)

/-- Names that only look like those of the receiver and of a reserved word. -/
def spanParameters : List Metadata.Parameter :=
  [{ name := "from", type := .primitive .int32 },
    { name := "self_", type := .array (.named "Span`1" [.primitive .byte]), variadic := true }]

theorem printed_names_distinct_of_span :
    (∀ p ∈ spanParameters, p.name ≠ "") ∧ (spanParameters.map (·.name)).Nodup ∧
      identifiersIn (parametersText (withReceiver spanParameters)) = ["self", "from_", "self_"] ∧
      ((withReceiver spanParameters).map (·.name)).Nodup := by
  have hnamed : ∀ p ∈ spanParameters, p.name ≠ "" := by decide
  have hdistinct : (spanParameters.map (·.name)).Nodup := by decide
  obtain ⟨hparameters, hreceiver, hread⟩ := printed_names_distinct_iff hnamed hdistinct
  refine ⟨hnamed, hdistinct, (hread (by decide +kernel)).2.trans (by decide +kernel), ?_⟩
  exact hreceiver.mpr ⟨by decide, hparameters.mpr (by decide +kernel)⟩

/-- A parameter that is called like the receiver. -/
def selfParameters : List Metadata.Parameter :=
  [{ name := "self", type := .primitive .int32 }]

/-- A reserved word beside its marked form. -/
def fromParameters : List Metadata.Parameter :=
  [{ name := "from", type := .primitive .int32 }, { name := "from_", type := .primitive .int32 }]

theorem distinct_names_printed_twice :
    (∀ p ∈ selfParameters, p.name ≠ "") ∧ (selfParameters.map (·.name)).Nodup ∧
      parametersText (withReceiver selfParameters) = "self, self: int" ∧
      ¬ (identifiersIn (parametersText (withReceiver selfParameters))).Nodup ∧
      (∀ p ∈ fromParameters, p.name ≠ "") ∧ (fromParameters.map (·.name)).Nodup ∧
      parametersText (parameters fromParameters) = "from_: int, from_: int" ∧
      ¬ (identifiersIn (parametersText (parameters fromParameters))).Nodup := by
  refine ⟨by decide, by decide, ?_, ?_, by decide, by decide, ?_, ?_⟩ <;> decide +kernel

end StubTree.Stub
