import StubTree.Proofs.Locality

/-!
How far skipping looks. The readers that skip, and those that they share with
reading, are gone through one by one, as they are put together.
-/

namespace StubTree.Json.Reader

open Effect

variable {text rest : List UInt8}

theorem local_literal (word : List Char) : Local (literal word) := by
  induction word with
  | nil => exact local_pure ()
  | cons c word ih =>
      refine local_next.bind fun b => ?_
      cases b with
      | none => exact local_failHere _
      | some b =>
          dsimp only
          split
          · exact ih
          · exact local_failHere _

theorem local_exponentSign : Local exponentSign := by
  refine local_peek.bind fun b => ?_
  cases b with
  | none => exact local_pure _
  | some b =>
      dsimp only
      split
      · exact local_discard.bind fun _ => local_pure _
      · split
        · exact local_discard.bind fun _ => local_pure _
        · exact local_pure _

theorem local_atExponent : Local atExponent := by
  refine local_peek.bind fun b => ?_
  cases b with
  | none => exact local_pure _
  | some b => exact local_pure _

theorem local_skipExponent : Local skipExponent := by
  refine local_discard.bind fun _ => local_exponentSign.bind fun _ => local_next.bind fun b => ?_
  cases b with
  | none => exact local_failHere _
  | some b =>
      dsimp only
      split
      · exact local_digits.bind fun _ => local_pure _
      · exact local_failHere _

theorem local_skipNumberTail : Local skipNumberTail := by
  have hexponent : Local (do if ← atExponent then skipExponent else pure ()) := by
    refine local_atExponent.bind fun more => ?_
    split
    · exact local_skipExponent
    · exact local_pure _
  refine local_peek.bind fun b => ?_
  split
  · refine local_discard.bind fun _ => local_digits.bind fun written => ?_
    split
    · exact local_failAtNext _
    · exact hexponent
  · exact hexponent

theorem local_skipNumber : Local skipNumber := by
  refine local_next.bind fun b => ?_
  cases b with
  | none => exact local_failHere _
  | some b =>
      dsimp only
      split
      · refine local_peek.bind fun d => ?_
        cases d with
        | none => exact local_pure _
        | some d =>
            dsimp only
            split
            · exact local_failAtNext _
            · exact local_skipNumberTail
      · split
        · exact local_digits.bind fun _ => local_skipNumberTail
        · exact local_failHere _

theorem local_hexUnit : Local hexUnit := by
  intro text n rest h
  obtain ⟨a, b, c, d, i, j, k, l, rfl, hdigits⟩ := hexUnit_eq_ok.mp h
  exact ⟨[a, b, c, d], rfl, fun rest' _ =>
    hexUnit_eq_ok.mpr ⟨a, b, c, d, i, j, k, l, rfl, hdigits⟩⟩

theorem local_skipPiece : Local skipPiece := by
  refine local_plainBytes.bind fun _ => local_peek.bind fun b => ?_
  cases b with
  | none => exact local_failHere _
  | some b =>
      dsimp only
      split
      · exact local_failHere _
      · refine local_discard.bind fun _ => ?_
        split
        · exact local_pure _
        · refine local_next.bind fun e => ?_
          cases e with
          | none => exact local_failHere _
          | some e =>
              dsimp only
              split
              · exact local_hexUnit.bind fun _ => local_pure _
              · split
                · exact local_pure _
                · exact local_failHere _

theorem length_lt_of_skipPiece {last : Bool} (h : skipPiece text = .ok last rest) :
    rest.length < text.length := by
  have hshort := (List.dropWhile_suffix isPlainByte (l := text)).length_le
  rcases skipPiece_ok h with ⟨-, hquote⟩ | ⟨-, e, t, hback, hescaped⟩
  · rw [hquote, List.length_cons] at hshort
    exact hshort
  · have hrest : rest.length ≤ t.length := by
      rcases hescaped with ⟨-, n, hhex⟩ | ⟨-, rfl⟩
      · exact local_hexUnit.shortens _ _ _ hhex
      · exact le_rfl
    rw [hback, List.length_cons, List.length_cons] at hshort
    omega

theorem local_skipString : Local skipString := by
  refine local_fuel fun fuel => ?_
  induction fuel with
  | nil => exact localWith_nil _
  | cons f fuel ih =>
      refine localWith_cons _ (fun _ _ => rfl) local_skipPiece fun last => ?_
      cases last with
      | true => exact .inl ⟨pure (), fun _ => rfl, local_pure _⟩
      | false => exact .inr ⟨length_lt_of_skipPiece, ih⟩

theorem local_colon : Local colon :=
  local_peeked fun b => by
    split
    · exact local_discard
    · exact local_failAtNext _

theorem local_skipKey (frame : Frame) : Local (skipKey frame) := by
  cases frame with
  | list => exact local_pure _
  | object =>
      refine local_peeked fun b => ?_
      split
      · exact local_discard.bind fun _ => local_skipString.bind fun _ => local_colon
      · exact local_failAtNext _

theorem local_leave (outer : List Frame) : Local (leave outer) := by
  induction outer with
  | nil => exact local_pure _
  | cons frame outer ih =>
      refine local_peeked fun b => ?_
      split
      · exact local_discard.bind fun _ => (local_skipKey frame).bind fun _ => local_pure _
      · split
        · exact local_discard.bind fun _ => ih
        · exact local_failAtNext _

theorem local_enter (frame : Frame) (outer : List Frame) : Local (enter frame outer) := by
  refine local_discard.bind fun _ => local_peeked fun b => ?_
  split
  · exact local_discard.bind fun _ => local_leave outer
  · exact (local_skipKey frame).bind fun _ => local_pure _

theorem local_skipStart (outer : List Frame) : Local (skipStart outer) := by
  have hleave {reader : Reader Unit} (h : Local reader) : Local (do reader; leave outer) :=
    h.bind fun _ => local_leave outer
  refine local_peeked fun b => ?_
  split
  · exact hleave (local_literal _)
  · split
    · exact hleave (local_literal _)
    · split
      · exact hleave (local_literal _)
      · split
        · exact local_discard.bind fun _ => hleave local_skipNumber
        · split
          · exact hleave local_skipNumber
          · split
            · exact local_discard.bind fun _ => hleave local_skipString
            · split
              · exact local_enter _ _
              · split
                · exact local_enter _ _
                · exact local_failAtNext _

end StubTree.Json.Reader
