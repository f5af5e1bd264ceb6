import Mixtures.Scalar

/-!
# Logarithms of masses

Probability masses are kept as logarithms. The mass zero has no logarithm among the scalars, so
it is a value of its own, `LogMass.zero`, below every other. The sum of masses is computed
without leaving the logarithms: the largest term is split off, which keeps every exponential
between zero and one.

Terms that are not a number do not take part in the choice of the largest one; if some term is
chosen, they make the sum not a number.
-/

namespace Mixtures

/-- The logarithm of a mass. -/
inductive LogMass (α : Type) where
  /-- The logarithm of zero. -/
  | zero
  /-- The logarithm of `exp x`. -/
  | of (x : α)
deriving BEq, DecidableEq, Repr

namespace LogMass

variable {α : Type} [Scalar α]

/-- The mass itself. -/
def mass : LogMass α → α
  | zero => 0
  | of x => Scalar.exp x

/-- The mass relative to one whose logarithm is `shift`. -/
def massAbove (shift : α) : LogMass α → α
  | zero => 0
  | of x => Scalar.exp (x - shift)

/-- The logarithm, if it is finite. -/
def finite? : LogMass α → Option α
  | zero => none
  | of x => if Scalar.isFinite x then some x else none

/-- The larger of a maximum so far and a term; a term that is not a number is passed over. -/
def raise (top : Option α) : LogMass α → Option α
  | zero => top
  | of x =>
    if Scalar.isNaN x then top
    else match top with
      | none => some x
      | some y => some (if y < x then x else y)

/-- The largest logarithm among the terms, if there is one. -/
def top (terms : List (LogMass α)) : Option α := terms.foldl raise none

/-- The logarithm of the sum of the masses. -/
def sum (terms : List (LogMass α)) : LogMass α :=
  match top terms with
  | none => zero
  | some m =>
    if Scalar.isFinite m then of (m + Scalar.ln (Scalar.sum (terms.map (massAbove m)))) else of m

/-- Below positive infinity, and a number. -/
def isBelowInfinity : LogMass α → Bool
  | zero => true
  | of x => Scalar.isFinite x || x < 0

/-- The order of masses. The mass zero is below every finite logarithm. -/
def lt : LogMass α → LogMass α → Bool
  | zero, zero => false
  | zero, of y => Scalar.isFinite y || 0 < y
  | of _, zero => false
  | of x, of y => x < y

end LogMass

end Mixtures
