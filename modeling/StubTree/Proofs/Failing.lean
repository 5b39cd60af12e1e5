import StubTree.Proofs.Readers

/-!
Readers that fail. What counts of a failure is the path of its fault, which
grows by a step for every value that is being read around the faulty one. A
verdict on a text is such a path, or none if the text is taken.
-/

namespace StubTree.Json

open Effect Reader

namespace Reader

variable {α β : Type} {text middle rest : List UInt8} {path : Path} {verdict : Option Path}

/-- The reader fails, and the path of the fault is this one. -/
def FailsAt (reader : Reader α) (text : List UInt8) (path : Path) : Prop :=
  ∃ fault left, reader text = .error fault left ∧ fault.path = path

/-- Without a verdict the reader takes what stands before `rest`, with one it fails. -/
def Settles (reader : Reader α) (text rest : List UInt8) : Option Path → Prop
  | none => ∃ a, reader text = .ok a rest
  | some path => FailsAt reader text path

section Failures

theorem failsAt_fail (cause : Cause) : FailsAt (fail cause : Reader α) text [] :=
  ⟨_, _, rfl, rfl⟩

theorem failsAt_failAtNext (cause : Cause) : FailsAt (failAtNext cause : Reader α) text [] :=
  ⟨_, _, rfl, rfl⟩

theorem failsAt_failHere (cause : Cause) : FailsAt (failHere cause : Reader α) text [] :=
  ⟨_, _, rfl, rfl⟩

theorem failsAt_ofExcept {e : Except Cause α} {cause : Cause} (h : e = .error cause) :
    FailsAt (ofExcept e) text [] := by
  subst h
  exact failsAt_fail cause

variable {reader : Reader α}

theorem FailsAt.of_eq {other : Reader α} (h : FailsAt other middle path)
    (heq : reader text = other middle) : FailsAt reader text path := by
  rwa [FailsAt, heq]

/-- The second of two steps fails. -/
theorem failsAt_bind {next : α → Reader β} {a : α} (h : reader text = .ok a middle)
    (hnext : FailsAt (next a) middle path) : FailsAt (reader >>= next) text path :=
  hnext.of_eq (bind_of_ok h)

/-- The first of two steps fails. -/
theorem FailsAt.bind (h : FailsAt reader text path) (next : α → Reader β) :
    FailsAt (reader >>= next) text path := by
  obtain ⟨fault, left, hfault, hpath⟩ := h
  refine ⟨fault, left, ?_, hpath⟩
  simp only [Bind.bind, EStateM.bind, hfault]

theorem FailsAt.map (h : FailsAt reader text path) (f : α → β) :
    FailsAt (f <$> reader) text path := by
  obtain ⟨fault, left, hfault, hpath⟩ := h
  refine ⟨fault, left, ?_, hpath⟩
  simp only [Functor.map, EStateM.map, hfault]

/-- Placing a fault in the text does not change its path. -/
theorem FailsAt.located (h : FailsAt reader text path) : FailsAt (located reader) text path := by
  obtain ⟨fault, left, hfault, hpath⟩ := h
  refine ⟨{ fault with left := some (fault.left.getD left.length) }, left, ?_, hpath⟩
  simp only [Reader.located, tryCatch, tryCatchThe, MonadExceptOf.tryCatch, EStateM.tryCatch,
    hfault]
  rfl

theorem FailsAt.within (h : FailsAt reader text path) (step : Step) :
    FailsAt (within step reader) text (step :: path) := by
  obtain ⟨fault, left, hfault, rfl⟩ := h
  refine ⟨{ fault with path := step :: fault.path }, left, ?_, rfl⟩
  simp only [Reader.within, tryCatch, tryCatchThe, MonadExceptOf.tryCatch, EStateM.tryCatch,
    hfault]
  rfl

theorem FailsAt.closedBy (h : FailsAt reader text path) (close : Reader Unit) :
    FailsAt (closedBy close reader) text path := by
  obtain ⟨fault, left, hfault, hpath⟩ := h
  simp only [FailsAt, Reader.closedBy, hfault]
  cases close left with
  | ok u after => exact ⟨fault, after, rfl, hpath⟩
  | error other after => exact ⟨fault, after, rfl, hpath⟩

theorem FailsAt.close {close : Reader Unit} {a : α} (hbody : reader text = .ok a middle)
    (h : FailsAt close middle path) : FailsAt (Reader.closedBy close reader) text path := by
  obtain ⟨fault, left, hfault, hpath⟩ := h
  refine ⟨fault, left, ?_, hpath⟩
  simp only [Reader.closedBy, hbody, hfault]

end Failures

section Verdicts

variable {reader : Reader α}

theorem settles_pure (a : α) : Settles (pure a : Reader α) text text none := ⟨a, rfl⟩

theorem Settles.of_eq {other : Reader α} (h : Settles other middle rest verdict)
    (heq : reader text = other middle) : Settles reader text rest verdict := by
  cases verdict with
  | none => rwa [Settles, heq]
  | some path => exact FailsAt.of_eq h heq

/-- A step that succeeds leaves the verdict to the next one. -/
theorem settles_bind {next : α → Reader β} {a : α} (h : reader text = .ok a middle)
    (hnext : Settles (next a) middle rest verdict) :
    Settles (reader >>= next) text rest verdict := hnext.of_eq (bind_of_ok h)

theorem Settles.map (h : Settles reader text rest verdict) (f : α → β) :
    Settles (f <$> reader) text rest verdict := by
  cases verdict with
  | none =>
      obtain ⟨a, hread⟩ := h
      exact ⟨f a, map_of_ok hread f⟩
  | some path => exact FailsAt.map h f

theorem Settles.located (h : Settles reader text rest verdict) :
    Settles (located reader) text rest verdict := by
  cases verdict with
  | none =>
      obtain ⟨a, hread⟩ := h
      exact ⟨a, located_eq_ok.mpr hread⟩
  | some path => exact FailsAt.located h

theorem Settles.within (h : Settles reader text rest verdict) (step : Step) :
    Settles (within step reader) text rest (verdict.map (step :: ·)) := by
  cases verdict with
  | none =>
      obtain ⟨a, hread⟩ := h
      exact ⟨a, within_eq_ok.mpr hread⟩
  | some path => exact FailsAt.within h step

/-- The first of two steps with a verdict decides. -/
theorem Settles.bind {next : α → Reader β} {last : Option Path}
    (h : Settles reader text middle verdict) (hnext : ∀ a, Settles (next a) middle rest last) :
    Settles (reader >>= next) text rest (verdict.or last) := by
  cases verdict with
  | none =>
      obtain ⟨a, hread⟩ := h
      exact settles_bind hread (hnext a)
  | some path => exact FailsAt.bind h next

theorem Settles.nested {close : Reader Unit} {body : Nat → Reader α} {inner : Nat}
    (h : Settles (body inner) text.tail middle verdict) (hclose : close middle = .ok () rest) :
    Settles (nested close body (inner + 1)) text rest verdict := by
  refine settles_bind (discard_ok text) ?_
  cases verdict with
  | none =>
      obtain ⟨a, hread⟩ := h
      exact ⟨a, closedBy_eq_ok.mpr ⟨middle, hread, hclose⟩⟩
  | some path => exact FailsAt.closedBy h close

end Verdicts

section Parts

variable {read : Reader α} {depth : Nat} {v : Value}

theorem settles_entryValue {name : String} (h : entryValue name (value depth) text = .ok v rest)
    (hread : ∀ {text}, value depth text = .ok v rest → Settles read text rest verdict) :
    Settles (entryValue name read) text rest (verdict.map (.key name :: ·)) := by
  obtain ⟨middle, hcolon, hvalue⟩ := entryValue_eq_ok.mp h
  exact settles_bind hcolon ((hread hvalue).within (.key name))

theorem element?_of_settles {i : Nat} (h : element? (value depth) i text = .ok (some v) rest)
    (hread : ∀ {text}, value depth text = .ok v rest → Settles read text rest none) :
    ∃ a, element? read i text = .ok (some a) rest := by
  obtain ⟨middle, hmore, hvalue⟩ := element?_some.mp h
  obtain ⟨a, ha⟩ := hread hvalue
  exact ⟨a, element?_some.mpr ⟨middle, hmore, ha⟩⟩

theorem failsAt_element? {i : Nat} (h : element? (value depth) i text = .ok (some v) rest)
    (hread : ∀ {text}, value depth text = .ok v rest → Settles read text rest (some path)) :
    FailsAt (element? read i) text (.index i :: path) := by
  obtain ⟨middle, hmore, hvalue⟩ := element?_some.mp h
  have hfails : FailsAt (some <$> within (.index i) read) middle (.index i :: path) :=
    (FailsAt.within (hread hvalue) (.index i)).map some
  exact failsAt_bind hmore hfails

/-- What has been read after the first step is read in the same way when it is counted anew. -/
theorem Collects.shift {step : Nat → Reader (Option α)} {fuel fuel' : Fuel} {count : Nat}
    {as : List α}
    (hless : ∀ {i text a rest}, step i text = .ok (some a) rest → rest.length < text.length)
    (h : Collects step fuel (count + 1) text as rest) (hfuel : text.length < fuel.length)
    (hfuel' : text.length < fuel'.length) :
    Collects (fun i => step (i + 1)) fuel' count text as rest := by
  generalize hcount : count + 1 = counted at h
  induction h generalizing count fuel' with
  | spent => simp at hfuel
  | last hstep =>
      subst hcount
      cases fuel' with
      | nil => simp at hfuel'
      | cons f fuel' => exact .last hstep
  | more hstep _ ih =>
      subst hcount
      have hshort := hless hstep
      cases fuel' with
      | nil => simp at hfuel'
      | cons f fuel' =>
          rw [List.length_cons] at hfuel hfuel'
          exact .more hstep (ih (by omega) (by omega) rfl)

end Parts

end Reader

end StubTree.Json
