import Mixtures.Decimal.Basic

/-!
# Doubles as exact numbers

A finite double is a whole mantissa of at most 53 bits times a power of two, with a sign. All
decimal renderings start from this exact value.

The shortest decimal form of a double is found among the decimals that are read back as that
double: those in the interval of numbers that are nearer to it than to any other double. Its ends
are halfway to the neighbours, and belong to it exactly when the mantissa is even. For one digit,
then two, and so on, the two neighbours of the value on the grid of that many digits are tried;
of two that lie in the interval the nearer one is taken.
-/

namespace Mixtures

/-- The size `mantissa * 2 ^ exponent` of a finite double. -/
structure Magnitude where
  /-- The bits of the double as a whole number. -/
  mantissa : Nat
  /-- The power of two of the last bit. -/
  exponent : Int
deriving DecidableEq, Repr

namespace Magnitude

/-- The least power of two of a last bit. -/
def minExponent : Int := -1074

/-- The leading bit of the mantissa of a normal double, which is not stored. -/
def hiddenBit : Nat := Nat.pow 2 52

/-- The size of a finite double. -/
def ofFloat (x : Float) : Magnitude :=
  let bits := x.toBits.toNat
  let fraction := bits % hiddenBit
  let stored : Nat := bits / hiddenBit % 2048
  if stored = 0 then ⟨fraction, minExponent⟩
  else ⟨fraction + hiddenBit, minExponent + ((stored : Int) - 1)⟩

/-- A whole number times a power of two, as a fraction. -/
def fraction (mantissa : Nat) (exponent : Int) : Nat × Nat :=
  match exponent with
  | .ofNat n => (mantissa * Nat.pow 2 n, 1)
  | .negSucc n => (mantissa, Nat.pow 2 (n + 1))

/-- The size as a fraction. -/
def ratio (m : Magnitude) : Nat × Nat := fraction m.mantissa m.exponent

/-- Four times the mantissa at the lower end of the interval of numbers that are read as this
size. Below a power of two the doubles lie twice as close. -/
def lowerEnd (m : Magnitude) : Nat :=
  if m.mantissa = hiddenBit && minExponent < m.exponent then 4 * m.mantissa - 1
  else 4 * m.mantissa - 2

/-- Four times the mantissa at the upper end of that interval. -/
def upperEnd (m : Magnitude) : Nat := 4 * m.mantissa + 2

/-- A coefficient times a power of ten lies in the interval of numbers that are read as this
size. -/
def contains (m : Magnitude) (coefficient : Nat) (exponent : Int) : Bool :=
  let (num, den) := Decimal.scale coefficient 1 (-exponent)
  let (low, unit) := fraction m.lowerEnd (m.exponent - 2)
  let (high, _) := fraction m.upperEnd (m.exponent - 2)
  let left := low * den
  let middle := num * unit
  let right := high * den
  if m.mantissa % 2 = 0 then decide (left ≤ middle) && decide (middle ≤ right)
  else decide (left < middle) && decide (middle < right)

/-- The decimal with the given number of digits that is read as this size, the nearer one of
two. -/
def withDigits (m : Magnitude) (count : Nat) : Option Decimal :=
  let (num, den) := m.ratio
  let exponent := Decimal.leadingExponent num den - ((count : Int) - 1)
  let (num, den) := Decimal.scale num den exponent
  let below := num / den
  let near := Decimal.roundHalfEven num den
  let far := if near = below then below + 1 else below
  if m.contains near exponent then some ⟨near, exponent⟩
  else if m.contains far exponent then some ⟨far, exponent⟩
  else none

/-- The shortest decimal that is read as this positive size. Seventeen digits always suffice. -/
def shortest (m : Magnitude) : Decimal :=
  (((List.range 17).findSome? fun n => m.withDigits (n + 1)).getD
    (Decimal.significant 17 m.ratio.1 m.ratio.2)).trim

end Magnitude

/-- The sign bit of a double. -/
def isNegative (x : Float) : Bool := decide (Nat.pow 2 63 ≤ x.toBits.toNat)

end Mixtures
