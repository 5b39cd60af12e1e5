import StubTree.Proofs.Rendering

/-!
The depth of a stub only moves its text. Every statement computes its own
indentation and that of its body, and the lines that come out deeper are those
at the margin with blanks put before them, the empty ones apart. A text is cut
back into its lines as long as nothing printed on them has a line end.
-/

namespace StubTree.Python

/-- A line moved to the right. An empty line stays as it is. -/
def shiftedLine (depth : Nat) (line : String) : String :=
  if line.isEmpty then line else indentation depth ++ line

def shifted (depth : Nat) (text : String) : String :=
  "\n".intercalate ((Text.segments '\n' text).map (shiftedLine depth))

example : shifted 1 "a:\n\n    b\n" = "    a:\n\n        b\n" := by decide +kernel

section Lines

variable {level depth : Nat} {code : String}

theorem indentation_add (level depth : Nat) :
    indentation (level + depth) = indentation depth ++ indentation level := by
  rw [indentation, Nat.add_comm, Nat.mul_add, ← List.replicate_append_replicate,
    String.ofList_append]
  rfl

theorem shiftedLine_of_ne (h : code ≠ "") :
    shiftedLine depth (indentation level ++ code) = indentation (level + depth) ++ code := by
  rw [shiftedLine, if_neg (by simp [h]), indentation_add, String.append_assoc]

/-- A function's decorators are shifted along with it. -/
theorem map_shiftedLine_function (f : Function) :
    (f.lines.map (indentation level ++ ·)).map (shiftedLine depth) =
      f.lines.map (indentation (level + depth) ++ ·) := by
  rw [List.map_map]
  refine List.map_congr_left fun line hline => shiftedLine_of_ne ?_
  rintro rfl
  simp [Function.lines] at hline

mutual

/-- A statement computes the same lines further to the right. -/
theorem lines_add (level depth : Nat) (s : Statement) :
    s.lines (level + depth) = (s.lines level).map (shiftedLine depth) := by
  match s with
  | .blank => rfl
  | .comment _ | .pass | .assign _ _ | .declare _ _ =>
    simp only [Statement.lines, String.append_assoc, List.map_cons, List.map_nil]
    rw [shiftedLine_of_ne (by simp)]
  | .function f => exact (map_shiftedLine_function f).symm
  | .classDef name heading body =>
    -- The body is one level deeper on both sides.
    rw [Statement.lines, Statement.lines, Nat.add_right_comm, linesOfBody_add, List.map_cons]
    simp only [String.append_assoc]
    rw [shiftedLine_of_ne (by simp)]

theorem linesOfBody_add (level depth : Nat) (body : List Statement) :
    Statement.linesOfBody (level + depth) body =
      (Statement.linesOfBody level body).map (shiftedLine depth) := by
  match body with
  | [] => rfl
  | s :: rest =>
    rw [Statement.linesOfBody, Statement.linesOfBody, lines_add, linesOfBody_add, List.map_append]

end

end Lines

section Texts

variable {depth : Nat}

theorem intercalate_ended (lines : List String) :
    "\n".intercalate (lines ++ [""]) = String.join (lines.map (· ++ "\n")) := by
  induction lines with
  | nil => rfl
  | cons line rest ih =>
      rw [List.map_cons, String.join_cons, ← ih]
      cases rest with
      | nil => simp
      | cons next more =>
          rw [List.cons_append, List.cons_append, String.intercalate_cons_cons, String.append_assoc]

theorem shifted_ended {lines : List String} (h : ∀ line ∈ lines, OneLine line) :
    shifted depth (String.join (lines.map (· ++ "\n"))) =
      String.join ((lines.map (shiftedLine depth)).map (· ++ "\n")) := by
  rw [shifted, segments_ended h, List.map_append, ← intercalate_ended]
  rfl

theorem text_eq_shifted {s : Statement} (h : ∀ line ∈ s.lines 0, OneLine line) :
    s.text depth = shifted depth (s.text 0) := by
  rw [Statement.text, Statement.text, shifted_ended h, ← lines_add, Nat.zero_add]

end Texts

section Fitting

/-- Everything printed of a function fits on a line. -/
structure Function.Fits (f : Function) : Prop where
  decorators : ∀ mark ∈ f.decorators, OneLine mark
  name : OneLine f.name
  parameters : ∀ p ∈ f.parameters, OneLine p.text
  result : OneLine f.result.text

mutual

def Fits : Statement → Prop
  | .blank | .pass => True
  | .comment text => OneLine text
  | .assign name _ => OneLine name
  | .declare name type => OneLine name ∧ OneLine type.text
  | .function f => f.Fits
  | .classDef name heading body => OneLine name ∧ OneLine heading.text ∧ FitsBody body

def FitsBody : List Statement → Prop
  | [] => True
  | s :: rest => Fits s ∧ FitsBody rest

end

theorem fitsBody_iff {body : List Statement} : FitsBody body ↔ ∀ s ∈ body, Fits s := by
  induction body with
  | nil => simp [FitsBody]
  | cons s rest ih => simp [FitsBody, ih]

theorem fits_function {marks : List String} {name : String} {ps : List Parameter}
    {result : TypeExpr} (hmarks : ∀ mark ∈ marks, OneLine mark) (hname : OneLine name)
    (hparameters : ∀ p ∈ ps, OneLine p.text) (hresult : OneLine result.text) :
    Fits (.function ⟨marks, name, ps, result⟩) := ⟨hmarks, hname, hparameters, hresult⟩

theorem Function.Fits.oneLine {f : Function} (h : f.Fits) : ∀ line ∈ f.lines, OneLine line := by
  intro line hline
  rw [Function.lines, List.mem_append] at hline
  cases hline with
  | inl hline =>
      obtain ⟨mark, hmark, rfl⟩ := List.mem_map.mp hline
      exact oneLine_append.mpr ⟨by decide, h.decorators mark hmark⟩
  | inr hline =>
      rw [List.mem_singleton.mp hline]
      simp only [oneLine_append]
      exact ⟨⟨⟨⟨⟨⟨by decide, h.name⟩, by decide⟩, Stub.oneLine_parametersText h.parameters⟩,
        by decide⟩, h.result⟩, by decide⟩

mutual

theorem oneLine_of_fits (level : Nat) (s : Statement) (h : Fits s) :
    ∀ line ∈ s.lines level, OneLine line := by
  have hindented {code : String} (hcode : OneLine code) : OneLine (indentation level ++ code) :=
    oneLine_append.mpr ⟨oneLine_indentation level, hcode⟩
  match s with
  | .blank => simp [Statement.lines, OneLine]
  | .comment text =>
    intro line hline
    rw [List.mem_singleton.mp hline, String.append_assoc]
    exact hindented (oneLine_append.mpr ⟨by decide, h⟩)
  | .pass =>
    intro line hline
    rw [List.mem_singleton.mp hline]
    exact hindented (by decide)
  | .assign name value =>
    intro line hline
    rw [List.mem_singleton.mp hline, oneLine_append, oneLine_append]
    exact ⟨⟨hindented h, by decide⟩, Stub.oneLine_int value⟩
  | .declare name type =>
    intro line hline
    rw [List.mem_singleton.mp hline, oneLine_append, oneLine_append]
    exact ⟨⟨hindented h.1, by decide⟩, h.2⟩
  | .function f =>
    intro line hline
    obtain ⟨code, hcode, rfl⟩ := List.mem_map.mp hline
    exact hindented (Function.Fits.oneLine h code hcode)
  | .classDef name heading body =>
    intro line hline
    rw [Statement.lines] at hline
    cases hline with
    | head =>
        rw [oneLine_append, oneLine_append]
        exact ⟨⟨hindented (by decide), h.1⟩, h.2.1⟩
    | tail _ hline => exact oneLine_of_fitsBody (level + 1) body h.2.2 line hline

theorem oneLine_of_fitsBody (level : Nat) (body : List Statement) (h : FitsBody body) :
    ∀ line ∈ Statement.linesOfBody level body, OneLine line := by
  match body with
  | [] => simp [Statement.linesOfBody]
  | s :: rest =>
    intro line hline
    rw [Statement.linesOfBody, List.mem_append] at hline
    exact hline.elim (oneLine_of_fits level s h.1 line) (oneLine_of_fitsBody level rest h.2 line)

end

end Fitting

end StubTree.Python

namespace StubTree.Stub

open Metadata Python Statement

section OneLine

structure OneLineHeader (t : TypeHeader) : Prop where
  name : OneLine t.name
  base : ∀ base ∈ t.base, OneLine base
  constants : ∀ c ∈ t.constants, OneLine c.name

mutual

/-- No text that is printed of a type or of what is nested in it has a line end. -/
def OneLineInfo : TypeInfo → Prop
  | ⟨header, members⟩ => OneLineHeader header ∧ OneLineMembers members

def OneLineMembers : List Member → Prop
  | [] => True
  | m :: rest => OneLineMember m ∧ OneLineMembers rest

def OneLineMember : Member → Prop
  | .constructor c => ∀ p ∈ c.parameters, OneLineParameter p
  | .property p =>
    OneLine p.name ∧ OneLineType p.type ∧ ∀ index ∈ p.indexParameters, OneLineParameter index
  | .field f => OneLine f.name ∧ OneLineType f.type
  | .method m =>
    OneLine m.name ∧ OneLineType m.returnType ∧ ∀ p ∈ m.parameters, OneLineParameter p
  | .nested t => OneLineInfo t

end

theorem oneLineMembers_iff {members : List Member} :
    OneLineMembers members ↔ ∀ m ∈ members, OneLineMember m := by
  induction members with
  | nil => simp [OneLineMembers]
  | cons m rest ih => simp [OneLineMembers, ih]

instance (t : TypeHeader) : Decidable (OneLineHeader t) :=
  decidable_of_iff
    (OneLine t.name ∧ (∀ base ∈ t.base, OneLine base) ∧ ∀ c ∈ t.constants, OneLine c.name)
    ⟨fun h => ⟨h.1, h.2.1, h.2.2⟩, fun h => ⟨h.name, h.base, h.constants⟩⟩

mutual

def decidableOneLineInfo : (t : TypeInfo) → Decidable (OneLineInfo t)
  | ⟨_, members⟩ => @instDecidableAnd _ _ inferInstance (decidableOneLineMembers members)

def decidableOneLineMembers : (members : List Member) → Decidable (OneLineMembers members)
  | [] => .isTrue trivial
  | m :: rest => @instDecidableAnd _ _ (decidableOneLineMember m) (decidableOneLineMembers rest)

def decidableOneLineMember : (m : Member) → Decidable (OneLineMember m)
  | .constructor c => inferInstanceAs (Decidable (∀ p ∈ c.parameters, OneLineParameter p))
  | .property p =>
    inferInstanceAs (Decidable (OneLine p.name ∧ OneLineType p.type ∧
      ∀ index ∈ p.indexParameters, OneLineParameter index))
  | .field f => inferInstanceAs (Decidable (OneLine f.name ∧ OneLineType f.type))
  | .method m =>
    inferInstanceAs (Decidable (OneLine m.name ∧ OneLineType m.returnType ∧
      ∀ p ∈ m.parameters, OneLineParameter p))
  | .nested t => decidableOneLineInfo t

end

instance (t : TypeInfo) : Decidable (OneLineInfo t) := decidableOneLineInfo t

end OneLine

section Members

theorem fits_constructorStub {c : Constructor} (h : OneLineMember (.constructor c))
    (overloaded : Bool) : Fits (constructorStub overloaded c) :=
  fits_function (by cases overloaded <;> decide) (by decide) (oneLine_withReceiver h) (by decide)

theorem fits_indexerStubs {p : Property} {index : Metadata.Parameter}
    (htype : OneLineType p.type) (hindex : OneLineType index.type) :
    ∀ s ∈ indexerStubs p index, Fits s := by
  have hkey : OneLine (typed "key" (typeExpr index.type)).text :=
    oneLine_typed (by decide) (oneLine_typeExpr _ hindex)
  have hvalue : OneLine (typed "value" (typeExpr p.type)).text :=
    oneLine_typed (by decide) (oneLine_typeExpr _ htype)
  intro s hs
  simp only [indexerStubs, List.mem_append] at hs
  cases hs with
  | inl hs =>
      split at hs
      · rw [List.mem_singleton.mp hs]
        exact fits_function (by simp) (by decide) (by simp [oneLine_receiver, hkey])
          (oneLine_typeExpr _ htype)
      · cases hs
  | inr hs =>
      split at hs
      · rw [List.mem_singleton.mp hs]
        exact fits_function (by simp) (by decide) (by simp [oneLine_receiver, hkey, hvalue])
          (by decide)
      · cases hs

theorem fits_propertyStubs {p : Property} (h : OneLineMember (.property p)) :
    ∀ s ∈ propertyStubs p, Fits s := by
  obtain ⟨hname, htype, hindices⟩ := h
  have hresult := oneLine_typeExpr _ htype
  have hvalue : OneLine (typed "value" (typeExpr p.type)).text := oneLine_typed (by decide) hresult
  intro s hs
  simp only [propertyStubs] at hs
  split at hs
  · rename_i index rest hp
    exact fits_indexerStubs htype (hindices index (hp ▸ List.mem_cons_self)).type s hs
  · split at hs
    · rw [List.mem_singleton.mp hs]
      exact ⟨hname, hresult⟩
    · cases hs with
      | head => exact fits_function (by decide) hname (by simp [oneLine_receiver]) hresult
      | tail _ hs =>
          split at hs
          · rw [List.mem_singleton.mp hs]
            refine fits_function (fun mark hmark => ?_) hname (by simp [oneLine_receiver, hvalue])
              (by decide)
            rw [List.mem_singleton.mp hmark]
            exact oneLine_append.mpr ⟨hname, by decide⟩
          · cases hs

theorem fits_fieldStub {f : Field} (h : OneLineMember (.field f)) : Fits (fieldStub f) := by
  have htype := oneLine_typeExpr _ h.2
  refine ⟨h.1, ?_⟩
  split
  · exact oneLine_applied (by decide) (by simpa using htype)
  · exact htype

theorem fits_operatorStubs {m : Method} (h : OneLineMember (.method m)) (symbol : String) :
    ∀ s ∈ operatorStubs m symbol, Fits s := by
  obtain ⟨-, htype, hparameters⟩ := h
  intro s hs
  simp only [operatorStubs] at hs
  split at hs
  · cases hs
  · rename_i slot hslot
    split at hs
    · rw [List.mem_singleton.mp hs]
      exact fits_function (by decide) (by decide) (oneLine_withReceiver hparameters) (by decide)
    · rw [List.mem_singleton.mp hs]
      exact fits_function (by simp) (isName_of_operatorSlot? hslot).oneLine
        (oneLine_withReceiver hparameters) (oneLine_typeExpr _ htype)

theorem fits_methodStub {m : Method} (h : OneLineMember (.method m)) (overloaded : Bool) :
    Fits (methodStub overloaded m) where
  decorators := by
    have hmarks : ∀ mark ∈ overloadIf overloaded ++ (if m.isStatic then ["staticmethod"] else []),
        OneLine mark := by
      cases overloaded <;> cases m.isStatic <;> decide
    exact hmarks
  name := h.1
  parameters := by
    intro p hp
    split at hp
    · exact oneLine_parameters h.2.2 p hp
    · exact oneLine_withReceiver h.2.2 p hp
  result := oneLine_typeExpr _ h.2.1

theorem fits_methodStubs {ms : List Method} (h : ∀ m ∈ ms, OneLineMember (.method m)) :
    ∀ s ∈ methodStubs ms, Fits s := by
  intro s hs
  obtain ⟨group, hgroup, hs⟩ := List.mem_flatMap.mp hs
  simp only [methodGroupStubs, List.mem_append] at hs
  cases hs with
  | inl hs =>
      obtain ⟨m, hm, hs⟩ := List.mem_flatMap.mp hs
      split at hs
      · exact fits_operatorStubs (h m (mem_group_methods hgroup hm)) _ s hs
      · cases hs
  | inr hs =>
      obtain ⟨m, hm, rfl⟩ := List.mem_map.mp hs
      exact fits_methodStub (h m (mem_group_methods hgroup (List.mem_filter.mp hm).1)) _

end Members

section Types

theorem fits_titled {title : String} {body : List Statement} (htitle : OneLine title)
    (h : ∀ s ∈ body, Fits s) : ∀ s ∈ titled title body, Fits s := by
  rw [titled]
  split
  · simp
  · intro s hs
    cases hs with
    | head => exact htitle
    | tail _ hs => exact h s hs

theorem fits_classBody {members : List Member} {nested : List Statement}
    (h : ∀ m ∈ members, OneLineMember m) (hnested : ∀ s ∈ nested, Fits s) :
    ∀ s ∈ classBody members nested, Fits s := by
  have haccepted : ∀ m ∈ accepted members, OneLineMember m := fun m hm =>
    h m (mem_accepted.mp hm).1
  have hconstructors : ∀ s ∈ constructorStubs (constructorsOf (accepted members)), Fits s := by
    intro s hs
    obtain ⟨c, hc, rfl⟩ := List.mem_map.mp hs
    exact fits_constructorStub (haccepted _ (mem_constructorsOf.mp hc)) _
  have hproperties : ∀ s ∈ (propertiesOf (accepted members)).flatMap propertyStubs, Fits s := by
    intro s hs
    obtain ⟨p, hp, hs⟩ := List.mem_flatMap.mp hs
    exact fits_propertyStubs (haccepted _ (mem_propertiesOf.mp hp)) s hs
  have hfields : ∀ s ∈ (fieldsOf (accepted members)).map fieldStub, Fits s := by
    intro s hs
    obtain ⟨f, hf, rfl⟩ := List.mem_map.mp hs
    exact fits_fieldStub (haccepted _ (mem_fieldsOf.mp hf))
  have hmethods : ∀ s ∈ methodStubs (methodsOf (accepted members)), Fits s :=
    fits_methodStubs fun m hm => haccepted _ (mem_methodsOf.mp hm)
  rw [classBody_eq]
  split
  · intro s hs
    rw [List.mem_singleton.mp hs]
    trivial
  · intro s hs
    simp only [sectionsOf, List.mem_append] at hs
    rcases hs with (((hs | hs) | hs) | hs) | hs
    · exact fits_titled (by decide) hconstructors s hs
    · exact fits_titled (by decide) hproperties s hs
    · exact fits_titled (by decide) hfields s hs
    · exact fits_titled (by decide) hmethods s hs
    · exact fits_titled (by decide) hnested s hs

theorem fits_enumBody {constants : List EnumConstant} (h : ∀ c ∈ constants, OneLine c.name) :
    ∀ s ∈ enumBody constants, Fits s := by
  intro s hs
  rw [enumBody] at hs
  split at hs
  · rw [List.mem_singleton.mp hs]
    trivial
  · cases List.mem_append.mp hs with
    | inl hs =>
        obtain ⟨c, hc, rfl⟩ := List.mem_map.mp hs
        exact oneLine_safeName (h c hc)
    | inr hs =>
        rw [List.mem_singleton.mp hs]
        trivial

mutual

theorem fits_stub? (t : TypeInfo) (h : OneLineInfo t) : ∀ s ∈ stub? t, Fits s := by
  obtain ⟨header, members⟩ := t
  obtain ⟨hheader, hmembers⟩ := h
  have hheading : OneLine (classHeading header.base).text := by
    cases hbase : header.base with
    | none => decide
    | some base => exact oneLine_append.mpr ⟨by decide, hheader.base base hbase⟩
  have hnested := fits_nestedStubs members hmembers
  intro s hs
  rw [stub?] at hs
  split at hs
  · cases hs
  · cases hs
    exact ⟨hheader.name, by decide, fitsBody_iff.mpr (fits_enumBody hheader.constants)⟩
  · cases hs
    exact ⟨hheader.name, hheading,
      fitsBody_iff.mpr (fits_classBody (oneLineMembers_iff.mp hmembers) hnested)⟩

theorem fits_nestedStubs (members : List Member) (h : OneLineMembers members) :
    ∀ s ∈ nestedStubs members, Fits s := by
  match members with
  | [] => simp [nestedStubs]
  | .nested t :: rest =>
    have hstub := fits_stub? t h.1
    intro s hs
    rw [nestedStubs, List.mem_append] at hs
    refine hs.elim (fun hs => ?_) (fits_nestedStubs rest h.2 s)
    split at hs
    · cases hs
    · cases hnested : stub? t with
      | none => simp [hnested] at hs
      | some s' =>
          rw [hnested] at hs hstub
          cases hs with
          | head => trivial
          | tail _ hs => exact List.mem_singleton.mp hs ▸ hstub s' rfl
  | .constructor _ :: rest | .property _ :: rest | .field _ :: rest | .method _ :: rest =>
    exact fits_nestedStubs rest h.2

end

theorem isSome_stub? {t : TypeInfo} (hkind : t.kind ≠ .unsupported) : ∃ s, stub? t = some s := by
  by_cases henum : t.kind = .enumeration
  · obtain ⟨header, members⟩ := t
    exact ⟨classDef header.name .enumeration (enumBody header.constants), by
      simp only [stub?, show header.kind = .enumeration from henum]⟩
  · exact ⟨_, stub?_of_class hkind henum⟩

/-- Written deeper, the stub of a type is its stub at the margin moved to the right, and the reports
are the same. -/
theorem render_eq_shifted {σ : Type} (t : TypeInfo) (h : OneLineInfo t)
    (hkind : t.kind ≠ .unsupported) (depth : Nat) (s : σ) :
    ∃ text,
      text? 0 t = some text ∧ text? depth t = some (shifted depth text) ∧
      render 0 t s = ⟨.ok (some text), s, (events t).map .event⟩ ∧
      render depth t s = ⟨.ok (some (shifted depth text)), s, (events t).map .event⟩ := by
  obtain ⟨stub, hstub⟩ := isSome_stub? hkind
  have hlines := oneLine_of_fits 0 stub (fits_stub? t h stub hstub)
  have htext : text? 0 t = some (stub.text 0) := by rw [text?, hstub]; rfl
  have hdeeper : text? depth t = some (shifted depth (stub.text 0)) := by
    rw [text?, hstub, ← text_eq_shifted hlines]
    rfl
  refine ⟨stub.text 0, htext, hdeeper, ?_, ?_⟩
  · rw [render_eq, htext, Job.telling_apply]
  · rw [render_eq, hdeeper, Job.telling_apply]

theorem canvas_render_eq_shifted :
    ∃ text,
      text? 0 canvas = some text ∧ text? 2 canvas = some (shifted 2 text) ∧
      render 0 canvas () = ⟨.ok (some text), (), (events canvas).map .event⟩ ∧
      render 2 canvas () = ⟨.ok (some (shifted 2 text)), (), (events canvas).map .event⟩ :=
  render_eq_shifted canvas (by decide +kernel) (by decide) 2 ()

end Types

end StubTree.Stub
