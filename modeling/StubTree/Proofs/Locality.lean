import StubTree.Proofs.Readers

/-!
How far readers look. What a reader takes from the front of a text it takes from
the front of any other text as well, as long as the byte behind it is the same.
Readers that take a closing quote or bracket last do not look even that far.
-/

namespace StubTree.Json.Reader

open Effect

variable {α β γ : Type} {text rest : List UInt8}

/-- A reader that leaves no more of a text than there was. -/
def Shortens (reader : Reader α) : Prop :=
  ∀ text a rest, reader text = .ok a rest → rest.length ≤ text.length

/-- Looks at no more than one byte behind what is taken. -/
def Local (reader : Reader α) : Prop :=
  ∀ text a rest, reader text = .ok a rest → ∃ used, text = used ++ rest ∧
    ∀ rest', rest'.head? = rest.head? → reader (used ++ rest') = .ok a rest'

/-- Looks at nothing behind what is taken when it gives `a`. -/
def EndsAt (reader : Reader α) (a : α) : Prop :=
  ∀ text rest, reader text = .ok a rest → ∃ used, used ≠ [] ∧ text = used ++ rest ∧
    ∀ rest', reader (used ++ rest') = .ok a rest'

/-- Neither takes anything nor looks at anything. -/
def Still (reader : Reader α) : Prop :=
  ∀ text a rest, reader text = .ok a rest → text = rest ∧ ∀ text', reader text' = .ok a text'

theorem EndsAt.length_lt {reader : Reader α} {a : α} (h : EndsAt reader a)
    (hread : reader text = .ok a rest) : rest.length < text.length := by
  obtain ⟨used, hne, rfl, -⟩ := h _ _ hread
  have hpos := List.length_pos_iff.mpr hne
  rw [List.length_append]
  omega

theorem endsAt_congr {reader other : Reader α} {a : α}
    (h : ∀ {text rest}, reader text = .ok a rest ↔ other text = .ok a rest) :
    EndsAt reader a ↔ EndsAt other a := by
  simp only [EndsAt, h]

theorem Still.local {reader : Reader α} (h : Still reader) : Local reader := by
  intro text a rest hread
  obtain ⟨rfl, hanywhere⟩ := h _ _ _ hread
  exact ⟨[], rfl, fun rest' _ => hanywhere rest'⟩

theorem Still.within {reader : Reader α} (h : Still reader) (step : Step) :
    Still (within step reader) := by
  simpa only [Still, within_eq_ok] using h

theorem local_of_endsAt {reader : Reader α} (h : ∀ a, EndsAt reader a) : Local reader := by
  intro text a rest hread
  obtain ⟨used, -, htext, hread⟩ := h a _ _ hread
  exact ⟨used, htext, fun rest' _ => hread rest'⟩

theorem Local.bind {reader : Reader α} {next : α → Reader β} (h : Local reader)
    (hnext : ∀ a, Local (next a)) : Local (reader >>= next) := by
  intro text b rest hread
  obtain ⟨a, middle, hfirst, hlast⟩ := bind_eq_ok.mp hread
  obtain ⟨used, rfl, hfirst'⟩ := h _ _ _ hfirst
  obtain ⟨used', rfl, hlast'⟩ := hnext a _ _ _ hlast
  refine ⟨used ++ used', (List.append_assoc ..).symm, fun rest' hhead => ?_⟩
  have hmiddle : (used' ++ rest').head? = (used' ++ rest).head? := by
    rw [List.head?_append, List.head?_append, hhead]
  rw [List.append_assoc, bind_of_ok (hfirst' _ hmiddle)]
  exact hlast' rest' hhead

theorem Local.bind_endsAt {reader : Reader α} {next : α → Reader β} {b : β} (h : Local reader)
    (hnext : ∀ a, (∃ text rest, reader text = .ok a rest) → EndsAt (next a) b) :
    EndsAt (reader >>= next) b := by
  intro text rest hread
  obtain ⟨a, middle, hfirst, hlast⟩ := bind_eq_ok.mp hread
  obtain ⟨used, rfl, hfirst'⟩ := h _ _ _ hfirst
  obtain ⟨used', hne, rfl, hlast'⟩ := hnext a ⟨_, _, hfirst⟩ _ _ hlast
  refine ⟨used ++ used', by simp [hne], (List.append_assoc ..).symm, fun rest' => ?_⟩
  have hmiddle : (used' ++ rest').head? = (used' ++ rest).head? := by
    rw [List.head?_append_of_ne_nil _ hne, List.head?_append_of_ne_nil _ hne]
  rw [List.append_assoc, bind_of_ok (hfirst' _ hmiddle)]
  exact hlast' rest'

theorem endsAt_bind_still {reader : Reader α} {next : α → Reader β} (h : ∀ a, EndsAt reader a)
    (hnext : ∀ a, Still (next a)) (b : β) : EndsAt (reader >>= next) b := by
  intro text rest hread
  obtain ⟨a, middle, hfirst, hlast⟩ := bind_eq_ok.mp hread
  obtain ⟨rfl, hlast'⟩ := hnext a _ _ _ hlast
  obtain ⟨used, hne, rfl, hfirst'⟩ := h a _ _ hfirst
  refine ⟨used, hne, rfl, fun rest' => ?_⟩
  rw [bind_of_ok (hfirst' rest')]
  exact hlast' rest'

theorem Local.map {reader : Reader α} (h : Local reader) (f : α → β) : Local (f <$> reader) := by
  intro text b rest hread
  obtain ⟨a, hfirst, rfl⟩ := map_eq_ok.mp hread
  obtain ⟨used, htext, hfirst'⟩ := h _ _ _ hfirst
  exact ⟨used, htext, fun rest' hhead => map_of_ok (hfirst' rest' hhead) f⟩

theorem Local.located {reader : Reader α} (h : Local reader) : Local (located reader) := by
  simpa only [Local, located_eq_ok] using h

theorem Local.within {reader : Reader α} (h : Local reader) (step : Step) :
    Local (within step reader) := by
  simpa only [Local, within_eq_ok] using h

theorem Local.shortens {reader : Reader α} (h : Local reader) : Shortens reader := by
  intro text a rest hread
  obtain ⟨used, rfl, -⟩ := h _ _ _ hread
  simp

section Primitives

theorem still_pure (a : α) : Still (pure a : Reader α) := by
  intro text b rest h
  obtain ⟨rfl, rfl⟩ := pure_eq_ok.mp h
  exact ⟨rfl, fun _ => rfl⟩

theorem still_ofExcept (e : Except Cause α) : Still (ofExcept e) := by
  intro text a rest h
  obtain ⟨rfl, rfl⟩ := ofExcept_eq_ok.mp h
  exact ⟨rfl, fun _ => rfl⟩

theorem local_pure (a : α) : Local (pure a : Reader α) := (still_pure a).local

theorem local_fail (cause : Cause) : Local (fail cause : Reader α) :=
  fun _ _ _ h => absurd h fail_ne_ok

theorem local_failHere (cause : Cause) : Local (failHere cause : Reader α) :=
  fun _ _ _ h => absurd h failHere_ne_ok

theorem local_failAtNext (cause : Cause) : Local (failAtNext cause : Reader α) :=
  fun _ _ _ h => absurd h failAtNext_ne_ok

theorem local_peek : Local peek := by
  intro text b rest h
  obtain ⟨rfl, rfl⟩ := peek_eq_ok.mp h
  exact ⟨[], rfl, fun rest' hhead => peek_eq_ok.mpr ⟨hhead, rfl⟩⟩

theorem local_next : Local next := by
  intro text b rest h
  obtain ⟨rfl, rfl⟩ := next_eq_ok.mp h
  cases text with
  | nil =>
      refine ⟨[], rfl, fun rest' hhead => ?_⟩
      obtain rfl := List.head?_eq_none_iff.mp hhead
      rfl
  | cons b t => exact ⟨[b], rfl, fun rest' _ => rfl⟩

theorem local_discard : Local discard := by
  intro text u rest h
  obtain rfl := discard_eq_ok.mp h
  cases text with
  | nil =>
      refine ⟨[], rfl, fun rest' hhead => ?_⟩
      obtain rfl := List.head?_eq_none_iff.mp hhead
      rfl
  | cons b t => exact ⟨[b], rfl, fun rest' _ => rfl⟩

/-- A run of bytes ends where it did if the byte behind it is the same. -/
theorem spans (p : UInt8 → Bool) {text rest' : List UInt8}
    (hhead : rest'.head? = (text.dropWhile p).head?) :
    (text.takeWhile p ++ rest').takeWhile p = text.takeWhile p ∧
      (text.takeWhile p ++ rest').dropWhile p = rest' := by
  have hall : ∀ b ∈ text.takeWhile p, p b = true := fun _ => List.mem_takeWhile_imp
  rw [List.takeWhile_append_of_pos hall, List.dropWhile_append_of_pos hall]
  cases rest' with
  | nil => simp
  | cons b rest' =>
      have hb : ¬ p b = true := by
        have hsome : (text.dropWhile p).head? = some b := hhead.symm
        obtain ⟨t, ht⟩ := List.head?_eq_some_iff.mp hsome
        have hfirst := List.head_dropWhile_not p (l := text) (by simp [ht])
        simpa [ht] using hfirst
      rw [List.takeWhile_cons_of_neg hb, List.dropWhile_cons_of_neg hb, List.append_nil]
      exact ⟨rfl, rfl⟩

theorem local_peekPastBlanks : Local peekPastBlanks := by
  intro text b rest h
  obtain ⟨rfl, rfl⟩ := peekPastBlanks_eq_ok.mp h
  refine ⟨text.takeWhile isBlankByte, List.takeWhile_append_dropWhile.symm, fun rest' hhead => ?_⟩
  have hpast : pastBlanks (text.takeWhile isBlankByte ++ rest') = rest' :=
    (spans isBlankByte hhead).2
  exact peekPastBlanks_eq_ok.mpr ⟨by rw [hpast, hhead], hpast⟩

theorem local_digits : Local digits := by
  intro text ds rest h
  obtain ⟨rfl, rfl⟩ := digits_eq_ok.mp h
  refine ⟨text.takeWhile isDigit, List.takeWhile_append_dropWhile.symm, fun rest' hhead => ?_⟩
  obtain ⟨hdigits, hrest⟩ := spans isDigit hhead
  exact digits_eq_ok.mpr ⟨by rw [hdigits], hrest⟩

theorem local_plainBytes : Local plainBytes := by
  intro text plain rest h
  obtain ⟨rfl, rfl⟩ := plainBytes_eq_ok.mp h
  exact ⟨text.takeWhile isPlainByte, List.takeWhile_append_dropWhile.symm,
    fun rest' hhead => plainBytes_eq_ok.mpr (spans isPlainByte hhead)⟩

/-- Where a byte is expected, what follows is read from the byte on. -/
theorem local_peeked {cause : Cause} {next : UInt8 → Reader α} (h : ∀ b, Local (next b)) :
    Local (do match ← peekPastBlanks with
      | none => failAtNext cause
      | some b => next b) :=
  local_peekPastBlanks.bind fun b => by
    cases b with
    | none => exact local_failAtNext _
    | some b => exact h b

/-- What ends with the first byte that is not blank ends there in any text. -/
theorem endsAt_of_past {reader : Reader α} {a : α} {b : UInt8}
    (h : ∀ {text rest}, reader text = .ok a rest ↔ pastBlanks text = b :: rest) :
    EndsAt reader a := by
  intro text rest hread
  have hpast : text.dropWhile isBlankByte = b :: rest := h.mp hread
  refine ⟨text.takeWhile isBlankByte ++ [b], by simp, ?_, fun rest' => h.mpr ?_⟩
  · rw [List.append_assoc, List.singleton_append, ← hpast, List.takeWhile_append_dropWhile]
  · have hhead : (b :: rest').head? = (text.dropWhile isBlankByte).head? := by rw [hpast]; rfl
    rw [List.append_assoc, List.singleton_append]
    exact (spans isBlankByte hhead).2

end Primitives

section Loops

/-- Looks at no more than one byte behind what is taken, whatever the fuel is if only it is
enough. -/
def LocalWith (fuel : Fuel) (reader : Fuel → Reader α) : Prop :=
  ∀ text a rest, text.length < fuel.length → reader fuel text = .ok a rest → ∃ used,
    text = used ++ rest ∧ ∀ rest' (fuel' : Fuel), rest'.head? = rest.head? →
      (used ++ rest').length < fuel'.length → reader fuel' (used ++ rest') = .ok a rest'

variable {fuel : Fuel} {reader : Fuel → Reader α}

theorem Local.localWith {reader : Reader α} (h : Local reader) (fuel : Fuel) :
    LocalWith fuel fun _ => reader := by
  intro text a rest _ hread
  obtain ⟨used, htext, hread'⟩ := h _ _ _ hread
  exact ⟨used, htext, fun rest' _ hhead _ => hread' rest' hhead⟩

theorem localWith_nil (reader : Fuel → Reader α) : LocalWith [] reader :=
  fun _ _ _ hfuel => absurd hfuel (Nat.not_lt_zero _)

theorem Local.bind_localWith {first : Reader γ} {next : γ → Fuel → Reader α} (h : Local first)
    (hnext : ∀ c, LocalWith fuel (next c)) :
    LocalWith fuel fun fuel => first >>= fun c => next c fuel := by
  intro text a rest hfuel hread
  obtain ⟨c, middle, hfirst, hlast⟩ := bind_eq_ok.mp hread
  have hshort := h.shortens _ _ _ hfirst
  obtain ⟨used, rfl, hfirst'⟩ := h _ _ _ hfirst
  obtain ⟨used', rfl, hlast'⟩ := hnext c _ _ _ (hshort.trans_lt hfuel) hlast
  refine ⟨used ++ used', (List.append_assoc ..).symm, fun rest' fuel' hhead hfuel' => ?_⟩
  have hmiddle : (used' ++ rest').head? = (used' ++ rest).head? := by
    rw [List.head?_append, List.head?_append, hhead]
  rw [List.append_assoc, List.length_append] at hfuel'
  rw [List.append_assoc]
  exact (bind_of_ok (hfirst' _ hmiddle)).trans (hlast' rest' fuel' hhead (by omega))

theorem LocalWith.bind {next : α → Reader β} (h : LocalWith fuel reader)
    (hnext : ∀ a, Local (next a)) : LocalWith fuel fun fuel => reader fuel >>= next := by
  intro text b rest hfuel hread
  obtain ⟨a, middle, hfirst, hlast⟩ := bind_eq_ok.mp hread
  obtain ⟨used, rfl, hfirst'⟩ := h _ _ _ hfuel hfirst
  obtain ⟨used', rfl, hlast'⟩ := hnext a _ _ _ hlast
  refine ⟨used ++ used', (List.append_assoc ..).symm, fun rest' fuel' hhead hfuel' => ?_⟩
  have hmiddle : (used' ++ rest').head? = (used' ++ rest).head? := by
    rw [List.head?_append, List.head?_append, hhead]
  rw [List.append_assoc] at hfuel' ⊢
  exact (bind_of_ok (hfirst' _ fuel' hmiddle hfuel')).trans (hlast' rest' hhead)

/-- A step that goes on takes a byte at least, so what is left of the fuel is enough for it. -/
theorem localWith_cons {f : UInt8} {first : Reader γ} (next : γ → Fuel → Reader α)
    (hreader : ∀ f fuel, reader (f :: fuel) = first >>= fun c => next c fuel)
    (hfirst : Local first)
    (hnext : ∀ c, (∃ last, (∀ fuel, next c fuel = last) ∧ Local last) ∨
      (∀ {text rest}, first text = .ok c rest → rest.length < text.length) ∧
        LocalWith fuel (next c)) :
    LocalWith (f :: fuel) reader := by
  intro text a rest hfuel hread
  rw [hreader] at hread
  rw [List.length_cons] at hfuel
  obtain ⟨c, middle, hc, hlast⟩ := bind_eq_ok.mp hread
  obtain ⟨used, rfl, hc'⟩ := hfirst _ _ _ hc
  have hgoes : ∃ used', middle = used' ++ rest ∧ ∀ rest' (fuel' : Fuel),
      rest'.head? = rest.head? → (used ++ (used' ++ rest')).length < fuel'.length + 1 →
        next c fuel' (used' ++ rest') = .ok a rest' := by
    rcases hnext c with ⟨last, hstops, hlocal⟩ | ⟨hless, hlocal⟩
    · rw [hstops] at hlast
      obtain ⟨used', rfl, hlast'⟩ := hlocal _ _ _ hlast
      refine ⟨used', rfl, fun rest' fuel' hhead _ => ?_⟩
      rw [hstops]
      exact hlast' rest' hhead
    · have hshort := hless hc
      rw [List.length_append] at hshort hfuel
      obtain ⟨used', rfl, hlast'⟩ := hlocal _ _ _ (by omega) hlast
      refine ⟨used', rfl, fun rest' fuel' hhead hfuel' => hlast' rest' fuel' hhead ?_⟩
      rw [List.length_append] at hfuel'
      omega
  obtain ⟨used', rfl, hgoes⟩ := hgoes
  refine ⟨used ++ used', (List.append_assoc ..).symm, fun rest' fuel' hhead hfuel' => ?_⟩
  obtain ⟨f', fuel', rfl⟩ := List.exists_cons_of_length_pos (Nat.zero_lt_of_lt hfuel')
  have hmiddle : (used' ++ rest').head? = (used' ++ rest).head? := by
    rw [List.head?_append, List.head?_append, hhead]
  rw [List.append_assoc] at hfuel' ⊢
  rw [hreader, bind_of_ok (hc' _ hmiddle)]
  exact hgoes rest' fuel' hhead hfuel'

theorem local_fuel (h : ∀ fuel, LocalWith fuel reader) : Local (Reader.fuel >>= reader) := by
  intro text a rest hread
  obtain ⟨_, _, hfuel, hread⟩ := bind_eq_ok.mp hread
  obtain ⟨rfl, rfl⟩ := fuel_eq_ok.mp hfuel
  obtain ⟨used, rfl, hread'⟩ := h _ _ _ _ (by simp) hread
  refine ⟨used, rfl, fun rest' hhead => ?_⟩
  rw [bind_of_ok (fuel_eq_ok.mpr ⟨rfl, rfl⟩)]
  exact hread' rest' _ hhead (by simp)

end Loops

end StubTree.Json.Reader
