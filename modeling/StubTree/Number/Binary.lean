/-!
Binary floating-point magnitudes of a fixed precision, and the rounding of an exact quotient to the
nearest of them. Signs, infinities and the undefined value play no part here: a quotient beyond the
largest magnitude has no rounding.
-/

namespace StubTree.Number

/-- The magnitude `significand · 2 ^ exponent`. -/
structure Magnitude where
  significand : Nat
  exponent : Int
deriving DecidableEq, Repr

/-- Significands below `2 ^ precision`, with exponents in a range. -/
structure Format where
  precision : Nat
  minExponent : Int
  maxExponent : Int

def double : Format := ⟨53, -1074, 971⟩

def single : Format := ⟨24, -149, 104⟩

namespace Magnitude

def numerator (x : Magnitude) : Nat := x.significand * Nat.pow 2 x.exponent.toNat

def denominator (x : Magnitude) : Nat := Nat.pow 2 (-x.exponent).toNat

end Magnitude

/-- The whole exponent `e` with `2 ^ e ≤ num / den < 2 ^ (e + 1)`, for a positive quotient. -/
def quotientLog2 (num den : Nat) : Int :=
  let e : Int := num.log2 - den.log2
  if den * Nat.pow 2 e.toNat ≤ num * Nat.pow 2 (-e).toNat then e else e - 1

/-- The whole number nearest to `num / den`; a half goes to the even neighbour. -/
def nearestNat (num den : Nat) : Nat :=
  let q := num / den
  let twice := 2 * (num % den)
  if twice < den then q
  else if den < twice then q + 1
  else if q % 2 = 0 then q else q + 1

namespace Format

/-- The magnitude nearest to `num / den`, an even significand winning a tie; none beyond the
largest. -/
def round (f : Format) (num den : Nat) : Option Magnitude :=
  if num = 0 then some ⟨0, f.minExponent⟩
  else
    let e := max f.minExponent (quotientLog2 num den + 1 - f.precision)
    let m := nearestNat (num * Nat.pow 2 (-e).toNat) (den * Nat.pow 2 e.toNat)
    let x : Magnitude := if m < Nat.pow 2 f.precision then ⟨m, e⟩ else ⟨m / 2, e + 1⟩
    if x.exponent ≤ f.maxExponent then some x else none

def mul (f : Format) (x y : Magnitude) : Option Magnitude :=
  f.round (x.numerator * y.numerator) (x.denominator * y.denominator)

def div (f : Format) (x y : Magnitude) : Option Magnitude :=
  f.round (x.numerator * y.denominator) (x.denominator * y.numerator)

/-- The bits of a positive-signed value: exponent field, then the significand without its leading
bit. -/
def bits (f : Format) (x : Magnitude) : Nat :=
  let leading := Nat.pow 2 (f.precision - 1)
  if x.significand < leading then x.significand
  else (x.exponent - f.minExponent + 1).toNat * leading + (x.significand - leading)

end Format

end StubTree.Number
