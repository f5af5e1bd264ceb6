import Mixtures.Linear.Cholesky

/-!
# Density kernels

A kernel is what fitting and evaluating mixtures need to know about one component: how to turn a
covariance into a prepared *factor*, if that is possible at all, and how to evaluate the
logarithm of the density with it. `gaussian` is the kernel of normal distributions; that fitting
keeps its invariants holds for any kernel.
-/

namespace Mixtures

/-- Preparation and evaluation of component densities, with factors of type `F`. -/
structure DensityKernel (α F : Type) where
  /-- Prepares a covariance of a dimension; fails on one that has no density. -/
  factor : Nat → List α → Option F
  /-- The logarithm of the density at a point, given the factor and the mean. -/
  logDensity : F → List α → List α → α

/-- Normal distributions, prepared by Cholesky factorization. -/
def DensityKernel.gaussian {α : Type} [Scalar α] : DensityKernel α (Cholesky α) where
  factor := Cholesky.factor
  logDensity := Cholesky.logDensity

end Mixtures
