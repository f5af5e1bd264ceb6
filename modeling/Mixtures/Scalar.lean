/-!
# Scalars

Every numerical routine of the library is written once, over a type of *scalars*: the
arithmetic operations, a decidable order, square root, exponential and logarithm. Two readings
of that one text matter. At `Float` it is the program that runs, rounding after every
operation, with not-a-number and the infinities among its values. At an exact field it is the
mathematics that the program approximates: nothing rounds and every scalar is finite.

The class carries no laws. A statement about exact arithmetic is made at an exact instance, a
statement about order of evaluation or about bits at an arbitrary one.

Constants are built from whole numbers by division, so that one definition denotes the intended
number in both readings: a power of two or ten below `2 ^ 1023` and its reciprocal are the
nearest doubles to their exact values.
-/

namespace Mixtures

/-- Numbers to compute with. `isFinite` tells the values that take part in exact reasoning from
infinities and not-a-number; `x == x` fails exactly for not-a-number. -/
class Scalar (α : Type) extends
    Zero α, One α, Add α, Sub α, Mul α, Div α, Neg α, LT α, LE α, BEq α where
  /-- The strict order is decidable. -/
  decidableLT : DecidableLT α
  /-- The order is decidable. -/
  decidableLE : DecidableLE α
  /-- The scalar nearest to a whole number. -/
  ofNat : Nat → α
  /-- Neither infinite nor not-a-number. -/
  isFinite : α → Bool
  /-- Square root of a non-negative scalar. -/
  sqrt : α → α
  /-- The exponential function. -/
  exp : α → α
  /-- The natural logarithm. -/
  ln : α → α
  /-- The logarithm of the circumference of the unit circle, `ln (2π)`. -/
  lnTwoPi : α

instance instDecidableLTScalar {α : Type} [Scalar α] : DecidableLT α := Scalar.decidableLT

instance instDecidableLEScalar {α : Type} [Scalar α] : DecidableLE α := Scalar.decidableLE

/-- Doubles, with the elementary functions of the machine. -/
instance instScalarFloat : Scalar Float where
  zero := 0.0
  one := 1.0
  decidableLT := inferInstance
  decidableLE := inferInstance
  ofNat := Float.ofNat
  isFinite := Float.isFinite
  sqrt := Float.sqrt
  exp := Float.exp
  ln := Float.log
  lnTwoPi := 1.8378770664093455

namespace Scalar

variable {α : Type} [Scalar α]

/-- Not-a-number is the one value that differs from itself. -/
def isNaN (x : α) : Bool := !(x == x)

/-- One half. -/
def half : α := 1 / ofNat 2

/-- The distance from one to the next larger double, `2 ^ (-52)`. -/
def epsilon : α := 1 / ofNat (Nat.pow 2 52)

/-- The smallest positive normal double, `2 ^ (-1022)`. -/
def minPositive : α := 1 / ofNat (Nat.pow 2 1022)

/-- Absolute value. -/
def abs (x : α) : α := if x < 0 then -x else x

/-- The larger of two scalars, and the other one when one of them is not a number. -/
def max (x y : α) : α := if x < y || isNaN x then y else x

/-- The sum from left to right. It starts at negative zero, the neutral element of floating
addition: a list of negative zeros sums to negative zero. -/
def sum (xs : List α) : α := xs.foldl (· + ·) (-0)

end Scalar

end Mixtures
