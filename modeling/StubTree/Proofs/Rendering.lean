import StubTree.Proofs.Jobs
import StubTree.Proofs.Suites

/-!
A stub written in a single pass. A type can also be gone through once, every
helper being told how far in it writes, and reporting on what it leaves out
where it meets it. The text and the reports that come out are those that the
stub and the events of the type give separately.
-/

namespace StubTree.Job

variable {σ α β ι : Type}

/-- Reports, and has a result. -/
def telling (events : List Log.Event) (a : α) : Job σ α := do
  report events
  return a

theorem telling_apply (events : List Log.Event) (a : α) (s : σ) :
    telling events a s = ⟨.ok a, s, events.map .event⟩ := by
  simp [telling, bind_apply, report, tell, Pure.pure, Job.pure]

/-- What is reported one after the other could have been reported at once. -/
theorem telling_bind {events events' : List Log.Event} {a : α} {b : β} {next : α → Job σ β}
    (h : next a = telling events' b) :
    telling events a >>= next = telling (events ++ events') b := by
  funext s
  simp only [bind_apply, telling_apply, h, List.map_append]

theorem telling_map (events : List Log.Event) (a : α) (f : α → β) :
    ((telling events a : Job σ α) >>= fun x => Pure.pure (f x)) = telling events (f a) := by
  funext s
  simp only [bind_apply, telling_apply]
  exact congrArg _ (List.append_nil _)

theorem report_eq_telling (events : List Log.Event) :
    (report events : Job σ Unit) = telling events () := by
  funext s
  rw [telling_apply]
  rfl

/-- Runs a job for every item and puts the texts together. -/
def gather (job : ι → Job σ String) : List ι → Job σ String
  | [] => return ""
  | x :: rest => do
    let text ← job x
    let more ← gather job rest
    return text ++ more

theorem gather_eq {job : ι → Job σ String} {events : ι → List Log.Event} {text : ι → String}
    {xs : List ι} (h : ∀ x ∈ xs, job x = telling (events x) (text x)) :
    gather job xs = telling (xs.flatMap events) (String.join (xs.map text)) := by
  induction xs with
  | nil => rfl
  | cons x rest ih =>
      have hrest := ih fun y hy => h y (List.mem_cons_of_mem _ hy)
      rw [gather, h x List.mem_cons_self, hrest, List.flatMap_cons, List.map_cons,
        String.join_cons]
      exact telling_bind (telling_map _ _ _)

end StubTree.Job

namespace StubTree.Stub

open Metadata Python Statement
open Log (Event)

variable {σ : Type}

section Passes

/-- The text of statements one below the other. -/
def bodyText (depth : Nat) (body : List Statement) : String :=
  String.join ((linesOfBody depth body).map (· ++ "\n"))

def slotReport? (owner : String) (m : Method) : Option Event :=
  match m.operator with
  | none => none
  | some symbol =>
    if (operatorSlot? symbol).isNone then some (.operatorUnsupported owner symbol) else none

/-- An operator without a slot leaves a report in place of a text. -/
def renderOperator (owner : String) (depth : Nat) (m : Method) : Job σ String :=
  let symbol := m.operator.getD m.name
  match operatorSlot? symbol with
  | none => do
    Job.report [.operatorUnsupported owner symbol]
    return ""
  | some _ => return bodyText depth (operatorStubs m symbol)

/-- The operators of a group come before its other methods. -/
def renderGroup (owner : String) (depth : Nat) (ms : List Method) : Job σ String := do
  let operators ← Job.gather (renderOperator owner depth) (ms.filter (·.operator.isSome))
  let plain := ms.filter (·.operator.isNone)
  return operators ++ bodyText depth (plain.map (methodStub (isSeveral plain)))

def renderMethods (owner : String) (depth : Nat) (ms : List Method) : Job σ String :=
  Job.gather (fun group => renderGroup owner depth group.2) (Text.groupBy Method.name ms)

def sectionText (depth : Nat) (title body : String) : String :=
  if body.isEmpty then "" else commentLine depth title ++ "\n" ++ body

/-- The sections of a class, given the texts of its methods and nested types. -/
def sectionsText (depth : Nat) (members : List Member) (methods nested : String) : String :=
  sectionText depth "Constructors" (bodyText depth (constructorStubs (constructorsOf members))) ++
    sectionText depth "Properties"
      (bodyText depth ((propertiesOf members).flatMap propertyStubs)) ++
    sectionText depth "Fields" (bodyText depth ((fieldsOf members).map fieldStub)) ++
    sectionText depth "Methods" methods ++
    sectionText depth "Nested Types" nested

def classText (depth : Nat) (header : TypeHeader) (sections : String) : String :=
  indentation depth ++ "class " ++ header.name ++ (classHeading header.base).text ++ "\n" ++
    if sections.isEmpty then passLine (depth + 1) ++ "\n" else sections

mutual

/-- Writes the stub of a type at a depth of nesting, unless its kind has none. -/
def render (depth : Nat) : TypeInfo → Job σ (Option String)
  | ⟨header, members⟩ =>
    match header.kind with
    | .unsupported => do
      Job.report [.kindUnsupported header.qualifiedName header.origin]
      return none
    | .enumeration =>
      return some ((classDef header.name .enumeration (enumBody header.constants)).text depth)
    | _ => do
      Job.report (skippedMembers header.name members)
      let methods ← renderMethods header.name (depth + 1) (methodsOf (accepted members))
      let nested ← renderNested (depth + 1) members
      return some
        (classText depth header (sectionsText (depth + 1) (accepted members) methods nested))

/-- Each of the nested types that have a stub is written below an empty line. -/
def renderNested (depth : Nat) : List Member → Job σ String
  | [] => return ""
  | .nested t :: rest =>
    if (typeRejection? t.toTypeHeader).isSome then renderNested depth rest
    else do
      let text ← render depth t
      let more ← renderNested depth rest
      return (match text with
        | none => ""
        | some text => "\n" ++ text) ++ more
  | _ :: rest => renderNested depth rest

end

end Passes

section Texts

variable {depth : Nat} {title : String} {body body' : List Statement}

theorem bodyText_append :
    bodyText depth (body ++ body') = bodyText depth body ++ bodyText depth body' := by
  rw [bodyText, linesOfBody_append, List.map_append, String.join_append]
  rfl

theorem bodyText_cons (s : Statement) :
    bodyText depth (s :: body) = s.text depth ++ bodyText depth body := by
  rw [bodyText, linesOfBody, List.map_append, String.join_append]
  rfl

theorem bodyText_flatMap {ι : Type} (f : ι → List Statement) (xs : List ι) :
    bodyText depth (xs.flatMap f) = String.join (xs.map fun x => bodyText depth (f x)) := by
  induction xs with
  | nil => rfl
  | cons x rest ih => rw [List.flatMap_cons, bodyText_append, ih, List.map_cons, String.join_cons]

theorem text_ne_empty (s : Statement) : s.text depth ≠ "" := by
  obtain ⟨line, rest, hlines⟩ := List.exists_cons_of_ne_nil (lines_ne_nil s depth)
  rw [Statement.text, hlines, List.map_cons, String.join_cons]
  intro hempty
  simpa using congrArg String.toList hempty

theorem bodyText_eq_empty : bodyText depth body = "" ↔ body = [] := by
  cases body with
  | nil => simp [bodyText, linesOfBody]
  | cons s rest =>
      rw [bodyText_cons]
      simp [text_ne_empty]

theorem sectionText_eq :
    sectionText depth title (bodyText depth body) = bodyText depth (titled title body) := by
  rw [sectionText, titled]
  by_cases hbody : body = []
  · subst hbody
    rfl
  · rw [if_neg (by simpa [bodyText_eq_empty] using hbody), if_neg (by simpa using hbody),
      bodyText_cons]
    simp [Statement.text, lines, commentLine]

theorem sectionsText_eq (members : List Member) (nested : List Statement) :
    sectionsText depth members (bodyText depth (methodStubs (methodsOf members)))
        (bodyText depth nested) =
      bodyText depth (sectionsOf members ++ titled "Nested Types" nested) := by
  simp only [sectionsText, sectionText_eq, sectionsOf, bodyText_append]

theorem classText_eq (header : TypeHeader) (members : List Member) (nested : List Statement) :
    classText depth header (sectionsText (depth + 1) (accepted members)
        (bodyText (depth + 1) (methodStubs (methodsOf (accepted members))))
        (bodyText (depth + 1) nested)) =
      (classDef header.name (classHeading header.base) (classBody members nested)).text depth := by
  have hbody : (classDef header.name (classHeading header.base) (classBody members nested)).text
      depth = indentation depth ++ "class " ++ header.name ++ (classHeading header.base).text ++
        "\n" ++ bodyText (depth + 1) (classBody members nested) := by
    simp [Statement.text, lines, bodyText, String.append_assoc]
  rw [hbody, classText, sectionsText_eq, classBody_eq]
  by_cases hempty : sectionsOf (accepted members) ++ titled "Nested Types" nested = []
  · rw [hempty]
    rfl
  · rw [if_neg (by simpa [bodyText_eq_empty] using hempty), if_neg (by simpa using hempty)]

end Texts

section Reports

variable {owner : String} {depth : Nat}

theorem renderOperator_eq {m : Method} {symbol : String} (hsymbol : m.operator = some symbol) :
    (renderOperator owner depth m : Job σ String) =
      Job.telling
        (if (operatorSlot? symbol).isNone then [.operatorUnsupported owner symbol] else [])
        (bodyText depth (operatorStubs m symbol)) := by
  simp only [renderOperator, hsymbol, Option.getD_some, operatorStubs]
  cases operatorSlot? symbol with
  | none => rfl
  | some slot => rfl

/-- The operators of a group, with a report for each that has no slot. -/
theorem gather_renderOperator (ms : List Method) :
    (Job.gather (renderOperator owner depth) (ms.filter (·.operator.isSome)) : Job σ String) =
      Job.telling
        (ms.filterMap (slotReport? owner))
        (bodyText depth (ms.flatMap fun m => match m.operator with
          | some symbol => operatorStubs m symbol
          | none => [])) := by
  induction ms with
  | nil => rfl
  | cons m rest ih =>
      cases hsymbol : m.operator with
      | none => simpa [hsymbol, slotReport?] using ih
      | some symbol =>
          rw [List.filter_cons_of_pos (by simp [hsymbol]), Job.gather, renderOperator_eq hsymbol,
            ih]
          refine (Job.telling_bind (Job.telling_map _ _ _)).trans ?_
          rw [List.flatMap_cons, bodyText_append, List.filterMap_cons, slotReport?, hsymbol]
          split <;> simp_all

theorem renderGroup_eq (ms : List Method) :
    (renderGroup owner depth ms : Job σ String) =
      Job.telling
        (ms.filterMap (slotReport? owner))
        (bodyText depth (methodGroupStubs ms)) := by
  rw [renderGroup, gather_renderOperator, Job.telling_map, methodGroupStubs]
  exact congrArg _ (bodyText_append ..).symm

theorem renderMethods_eq (ms : List Method) :
    (renderMethods owner depth ms : Job σ String) =
      Job.telling (operatorEvents owner ms) (bodyText depth (methodStubs ms)) := by
  rw [renderMethods, Job.gather_eq fun group _ => renderGroup_eq group.2, methodStubs,
    bodyText_flatMap]
  rfl

mutual

theorem render_eq (depth : Nat) (t : TypeInfo) :
    (render depth t : Job σ (Option String)) = Job.telling (events t) (text? depth t) := by
  obtain ⟨header, members⟩ := t
  rw [text?]
  cases hkind : header.kind with
  | unsupported =>
      simp only [render, events, stub?, hkind]
      rfl
  | enumeration =>
      simp only [render, events, stub?, hkind]
      rfl
  | reference | value | interface =>
      simp only [render, events, stub?, hkind, Job.report_eq_telling, renderMethods_eq,
        renderNested_eq, List.append_assoc, Option.map_some, ← classText_eq]
      exact Job.telling_bind (Job.telling_bind (Job.telling_map _ _ _))

theorem renderNested_eq (depth : Nat) (members : List Member) :
    (renderNested depth members : Job σ String) =
      Job.telling (nestedEvents members) (bodyText depth (nestedStubs members)) := by
  match members with
  | [] => rfl
  | .nested t :: rest =>
    rw [renderNested, nestedEvents, nestedStubs, renderNested_eq depth rest]
    split
    · rfl
    · rw [render_eq depth t, text?, bodyText_append]
      refine Job.telling_bind ((Job.telling_map _ _ _).trans ?_)
      cases stub? t with
      | none => rfl
      | some s =>
          have htext : bodyText depth [.blank, s] = "\n" ++ s.text depth := by
            simp [bodyText, linesOfBody, lines, Statement.text]
          rw [htext]
          rfl
  | .constructor _ :: rest | .property _ :: rest | .field _ :: rest | .method _ :: rest =>
    exact renderNested_eq depth rest

end

end Reports

end StubTree.Stub
