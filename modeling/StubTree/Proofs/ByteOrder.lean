import Mathlib.Data.List.Basic
import StubTree.Files.Access

/-!
The order of texts. Texts are compared by their code points, one after the
other. Their bytes compare in the same way: where two texts first differ, the
bytes of the smaller character run into a smaller byte before they end.
-/

namespace StubTree.Text

open Files (bytes)

def codePoints (s : String) : List Nat := s.toList.map Char.toNat

section Characters

/-- A byte of a character holds some bits of its code point behind a mark. -/
theorem toNat_marked (n : Nat) {bits mark : Nat} (hbits : 0 < bits) (h : bits + mark ≤ 256) :
    (UInt8.ofNat (n % bits + mark)).toNat = n % bits + mark := by
  have hlt := Nat.mod_lt n hbits
  exact UInt8.toNat_ofNat_of_lt' (Nat.lt_of_lt_of_le (Nat.add_lt_add_right hlt mark) h)

theorem toNat_plain {n : Nat} (h : n ≤ 127) : (UInt8.ofNat n).toNat = n :=
  UInt8.toNat_ofNat_of_lt' (Nat.lt_of_le_of_lt h (by decide))

/-- Of two numbers, the smaller one is so without the last six bits, or by these alone. -/
theorem lt_cases_of_lt {m n : Nat} (h : m < n) :
    m / 64 < n / 64 ∨ m / 64 = n / 64 ∧ m % 64 < n % 64 := by
  omega

theorem utf8EncodeChar_append_lt {c d : Char} (h : c < d) (after after' : List UInt8) :
    String.utf8EncodeChar c ++ after < String.utf8EncodeChar d ++ after' := by
  have hlt : c.val.toNat < d.val.toNat := h
  have hmost : d.val.toNat < 1114112 := by
    have hvalid := d.valid
    simp only [UInt32.isValidChar, Nat.isValidChar] at hvalid
    omega
  -- The bits of both characters, six at a time from the last ones on.
  have hlow := lt_cases_of_lt hlt
  have hmiddle := fun hlt : c.val.toNat / 64 < d.val.toNat / 64 => lt_cases_of_lt hlt
  have hhigh := fun hlt : c.val.toNat / 4096 < d.val.toNat / 4096 => lt_cases_of_lt hlt
  simp only [Nat.div_div_eq_div_mul, Nat.reduceMul] at hmiddle hhigh
  have hfirst : c.val.toNat / 262144 % 8 = c.val.toNat / 262144 := by omega
  have hfirst' : d.val.toNat / 262144 % 8 = d.val.toNat / 262144 := by omega
  simp only [String.utf8EncodeChar]
  split_ifs <;>
    simp (disch := first | decide | assumption) only [List.cons_append, List.nil_append,
      List.cons_lt_cons_iff, UInt8.lt_iff_toNat_lt, ← UInt8.toNat_inj, toNat_marked,
      toNat_plain] <;>
    omega

end Characters

theorem flatMap_utf8EncodeChar_lt {cs ds : List Char} (h : cs < ds) :
    cs.flatMap String.utf8EncodeChar < ds.flatMap String.utf8EncodeChar := by
  induction ds generalizing cs with
  | nil => exact absurd h (List.not_lt_nil cs)
  | cons d ds ih =>
      rw [List.flatMap_cons]
      cases cs with
      | nil =>
          obtain ⟨b, rest, hbytes⟩ :=
            List.exists_cons_of_ne_nil (String.utf8EncodeChar_ne_nil (c := d))
          rw [hbytes]
          exact List.nil_lt_cons b _
      | cons c cs =>
          rw [List.flatMap_cons]
          rcases List.cons_lt_cons_iff.mp h with hlt | ⟨rfl, hlt⟩
          · exact utf8EncodeChar_append_lt hlt _ _
          · exact List.append_left_lt (ih hlt)

section Texts

theorem codePoints_lt {s s' : String} (h : s < s') : codePoints s < codePoints s' :=
  List.map_lt (fun _ _ hlt => hlt) h

theorem bytes_lt {s s' : String} (h : s < s') : bytes s < bytes s' :=
  flatMap_utf8EncodeChar_lt h

/-- A strictly ordered image of the texts is in the order of the texts. -/
theorem image_le_iff {α : Type} [LT α] [Std.Asymm fun x y : α => x < y]
    {image : String → List α} (h : ∀ {s s'}, s < s' → image s < image s') {s s' : String} :
    (image s).le (image s') ↔ s ≤ s' := by
  constructor
  · intro hle
    exact String.not_lt.mp fun hlt => hle (h hlt)
  · intro hle
    cases Std.le_iff_lt_or_eq.mp hle with
    | inl hlt => exact List.lt_asymm (h hlt)
    | inr heq =>
        subst heq
        exact List.lt_irrefl _

theorem codePoints_le_iff {s s' : String} : (codePoints s).le (codePoints s') ↔ s ≤ s' :=
  image_le_iff codePoints_lt

theorem bytes_le_iff {s s' : String} : (bytes s).le (bytes s') ↔ s ≤ s' :=
  image_le_iff bytes_lt

end Texts

end StubTree.Text
