import StubTree.Number.Binary

/-!
How far a run has come, in single precision.
-/

namespace StubTree.Package

open Number

def wholeSingle (n : Nat) : Magnitude := (single.round n 1).getD ⟨0, 0⟩

/-- The part of `total` that is done. -/
def fraction (done total : Nat) : Magnitude :=
  (single.div (wholeSingle done) (wholeSingle total)).getD ⟨0, 0⟩

/-- A fraction in hundredths; a half counts as a whole. -/
def percent (done total : Nat) : Nat :=
  let x := (single.mul (fraction done total) (wholeSingle 100)).getD ⟨0, 0⟩
  (2 * x.numerator + x.denominator) / (2 * x.denominator)

end StubTree.Package
