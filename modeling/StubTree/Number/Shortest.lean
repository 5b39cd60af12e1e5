import StubTree.Number.Binary

/-!
The decimal text of a magnitude: the fewest digits that read back, among those the ones nearest to
the value. Values from a hundred-thousandth up to ten quadrillions are written positionally, the
others with an exponent.
-/

namespace StubTree.Number

/-- The decimal `digits · 10 ^ exponent`. -/
structure Decimal where
  digits : Nat
  exponent : Int
deriving DecidableEq, Repr

namespace Decimal

def numerator (d : Decimal) : Nat := d.digits * Nat.pow 10 d.exponent.toNat

def denominator (d : Decimal) : Nat := Nat.pow 10 (-d.exponent).toNat

/-- Moves trailing zeros of the digits into the exponent. `fuel` bounds their number. -/
def trimmed : Nat → Decimal → Decimal
  | 0, d => d
  | fuel + 1, d =>
    if d.digits ≠ 0 ∧ d.digits % 10 = 0 then trimmed fuel ⟨d.digits / 10, d.exponent + 1⟩ else d

end Decimal

/-- Twice the distance of `d` from `num / den`, over a denominator that depends on the exponent of
`d` alone. -/
def distance (num den : Nat) (d : Decimal) : Nat :=
  let a := num * d.denominator
  let b := d.numerator * den
  if a ≤ b then b - a else a - b

/-- Of the two decimals around `x` with last place `10 ^ k`, the nearest one that reads back. -/
def readsBackAt (f : Format) (x : Magnitude) (k : Int) : Option Decimal :=
  let q := x.numerator * Nat.pow 10 (-k).toNat / (x.denominator * Nat.pow 10 k.toNat)
  let below : Decimal := ⟨q, k⟩
  let above : Decimal := ⟨q + 1, k⟩
  let reads (d : Decimal) : Bool := f.round d.numerator d.denominator = some x
  if reads below then
    if reads above then
      let down := distance x.numerator x.denominator below
      let up := distance x.numerator x.denominator above
      if down < up ∨ down = up ∧ q % 2 = 0 then some below else some above
    else some below
  else if reads above then some above
  else none

/-- The number of decimal digits of a whole number. -/
def decimalLength (n : Nat) : Nat := (Nat.toDigits 10 n).length

/-- A place `p` with `x < 10 ^ p`, at most one too large. -/
def leadingPlace (x : Magnitude) : Int :=
  let n := x.numerator
  let d := x.denominator
  if d ≤ n then decimalLength (n / d)
  else 1 - (decimalLength (d / n) : Int) + 1

/-- Tries one more digit at a time. -/
def shortestFrom (f : Format) (x : Magnitude) (place : Int) : Nat → Nat → Decimal
  | 0, count => ((readsBackAt f x (place - count)).getD ⟨0, 0⟩).trimmed 20
  | fuel + 1, count =>
    match readsBackAt f x (place - count) with
    | some d => d.trimmed 20
    | none => shortestFrom f x place fuel (count + 1)

def shortest (f : Format) (x : Magnitude) : Decimal :=
  if x.significand = 0 then ⟨0, 0⟩ else shortestFrom f x (leadingPlace x) 18 0

def zeros (n : Nat) : String := String.ofList (List.replicate n '0')

/-- `place` counts the digits before the decimal point. -/
def Decimal.text (d : Decimal) : String :=
  let digits := Nat.toDigits 10 d.digits
  let place : Int := digits.length + d.exponent
  let written := String.ofList digits
  if 0 ≤ d.exponent ∧ place ≤ 16 then written ++ zeros d.exponent.toNat ++ ".0"
  else if 0 < place ∧ place ≤ 16 then
    String.ofList (digits.take place.toNat) ++ "." ++ String.ofList (digits.drop place.toNat)
  else if -5 < place ∧ place ≤ 0 then "0." ++ zeros (-place).toNat ++ written
  else
    let tail := digits.drop 1
    String.ofList (digits.take 1) ++ (if tail.isEmpty then "" else "." ++ String.ofList tail)
      ++ "e" ++ (if place ≤ 0 then "-" else "+") ++ toString (place - 1).natAbs

def Magnitude.text (x : Magnitude) : String := (shortest double x).text

end StubTree.Number
