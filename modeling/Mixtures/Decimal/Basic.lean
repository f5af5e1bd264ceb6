/-!
# Decimal numbers

A decimal number is a whole coefficient times a power of ten. This module has the exact integer
arithmetic with which doubles are turned into decimal numbers: dividing with a half going to the
even neighbour, counting digits, and finding the power of ten at which a fraction leads.
-/

namespace Mixtures

/-- The number `coefficient * 10 ^ exponent`. -/
structure Decimal where
  /-- The digits, as a whole number. -/
  coefficient : Nat
  /-- The power of ten of the last digit. -/
  exponent : Int
deriving DecidableEq, Repr

namespace Decimal

/-- The whole number nearest to a fraction, the even one of two equally near. -/
def roundHalfEven (num den : Nat) : Nat :=
  let q := num / den
  let r := num % den
  if 2 * r < den then q
  else if den < 2 * r then q + 1
  else if q % 2 = 0 then q
  else q + 1

/-- How many digits a whole number has; zero has one. -/
def digitCount (n : Nat) : Nat := (Nat.toDigits 10 n).length

/-- The power of ten of the leading digit of a positive fraction: the largest `e` for which
`10 ^ e` is not above it. -/
def leadingExponent (num den : Nat) : Int :=
  if den ≤ num then (digitCount (num / den) : Int) - 1
  else
    let count := digitCount (den / num)
    if den ≤ num * Nat.pow 10 (count - 1) then -((count : Int) - 1) else -(count : Int)

/-- A fraction divided by a power of ten, as a fraction. -/
def scale (num den : Nat) (exponent : Int) : Nat × Nat :=
  match exponent with
  | .ofNat n => (num, den * Nat.pow 10 n)
  | .negSucc n => (num * Nat.pow 10 (n + 1), den)

/-- Moves trailing zeros of the coefficient into the exponent, as many as the first argument
allows. -/
def dropZeros : Nat → Decimal → Decimal
  | 0, d => d
  | n + 1, d =>
    if d.coefficient ≠ 0 && d.coefficient % 10 == 0 then
      dropZeros n ⟨d.coefficient / 10, d.exponent + 1⟩
    else d

/-- The same number without trailing zeros. -/
def trim (d : Decimal) : Decimal := dropZeros (digitCount d.coefficient) d

/-- A positive fraction rounded to a positive number of significant digits. -/
def significant (count num den : Nat) : Decimal :=
  let exponent := leadingExponent num den - ((count : Int) - 1)
  let (num, den) := scale num den exponent
  trim ⟨roundHalfEven num den, exponent⟩

end Decimal

end Mixtures
