import Mixtures.Error
import Mixtures.Linear.Square

/-!
# Components

A component of a mixture is a weighted normal distribution: a weight, a mean and a covariance.
The covariance is a square matrix, row after row. A component as such may have any shape;
`Component.HasShape` says that its lists fit a dimension, and `Component.mismatch` reports the
first that does not.
-/

namespace Mixtures

/-- One weighted normal distribution. -/
structure Component (α : Type) where
  /-- The share of this component in the mixture. -/
  weight : α
  /-- The mean. -/
  mean : List α
  /-- The entries of the covariance, row after row. -/
  covariance : List α
deriving DecidableEq, Repr

namespace Component

variable {α : Type}

/-- The dimension of the mean. -/
def dim (c : Component α) : Nat := c.mean.length

/-- Mean and covariance fit a dimension. -/
def HasShape (dim : Nat) (c : Component α) : Prop :=
  c.mean.length = dim ∧ c.covariance.length = dim * dim

instance (dim : Nat) (c : Component α) : Decidable (c.HasShape dim) :=
  inferInstanceAs (Decidable (_ ∧ _))

/-- The first size that does not fit a dimension: that of the mean, then that of the
covariance. -/
def mismatch (dim : Nat) (c : Component α) : Option Error :=
  if c.mean.length ≠ dim then some (.dimensionMismatch dim c.mean.length)
  else if c.covariance.length ≠ dim * dim then
    some (.dimensionMismatch (dim * dim) c.covariance.length)
  else none

theorem mismatch_eq_none_iff {dim : Nat} {c : Component α} :
    c.mismatch dim = none ↔ c.HasShape dim := by
  unfold mismatch HasShape
  by_cases hm : c.mean.length = dim <;>
    by_cases hc : c.covariance.length = dim * dim <;> simp [hm, hc]

/-- The covariance entry in a row and column, unless its position is beyond the last entry. -/
def covarianceAt? (c : Component α) (row col : Nat) : Option α :=
  c.covariance[Square.position c.dim row col]?

variable [Scalar α]

/-- The diagonal of the covariance. -/
def variances (c : Component α) : List α :=
  (List.range c.dim).map fun i => Square.entry c.dim c.covariance i i

/-- The component with the given parts. The covariance has to fit the mean, and the weight has
to lie between zero and one. -/
def ofParts (weight : α) (mean covariance : List α) : Except Error (Component α) :=
  if covariance.length ≠ mean.length * mean.length then
    .error (.dimensionMismatch (mean.length * mean.length) covariance.length)
  else if 0 ≤ weight && weight ≤ 1 then .ok { weight, mean, covariance }
  else .error (.invalidParameter .weight)

/-- A component without weight, at the origin, with `floor` on the diagonal of its
covariance. -/
def placeholder (dim : Nat) (floor : α) : Component α where
  weight := 0
  mean := List.replicate dim 0
  covariance := Square.diagonal (List.replicate dim floor)

end Component

end Mixtures
