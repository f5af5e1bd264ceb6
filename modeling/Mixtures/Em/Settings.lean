import Mixtures.Error
import Mixtures.Scalar

/-!
# Settings of a training run

What a caller chooses about expectation maximization: how many components each group gets, where
the first responsibilities come from, when to stop, how covariances are estimated, how often a
component may be reset, and how much is reported.
-/

namespace Mixtures.Em

/-- Where the first responsibilities come from. -/
inductive Start where
  /-- From one label for each sample, given by the caller. -/
  | labels
  /-- From the nearest of randomly drawn samples. -/
  | randomSamples
deriving DecidableEq, Repr

/-- How much is reported. -/
inductive Verbosity where
  /-- Nothing. -/
  | silent
  /-- One line for each group and one for the run. -/
  | summary
  /-- Also every iteration and every recovery. -/
  | detailed
deriving DecidableEq, Repr

namespace Verbosity

/-- The verbosity of a level: zero is silent, one is a summary, more is detailed. -/
def ofLevel : Nat → Verbosity
  | 0 => silent
  | 1 => summary
  | _ => detailed

/-- The place in the order from silent to detailed. -/
def rank : Verbosity → Nat
  | silent => 0
  | summary => 1
  | detailed => 2

end Verbosity

/-- The form of the estimated covariances. -/
inductive CovarianceForm where
  /-- Any symmetric matrix. -/
  | full
  /-- A matrix that is zero off its diagonal. -/
  | diagonal
deriving DecidableEq, Repr

/-- The settings of a training run. -/
structure Settings (α : Type) where
  /-- The number of components of every group. -/
  componentCount : Nat
  /-- The most iterations for one group. -/
  maxIterations : Nat
  /-- Where the first responsibilities come from. -/
  start : Start
  /-- How much is reported. -/
  verbosity : Verbosity
  /-- The relative change of the log-likelihood below which a group has converged. -/
  tolerance : α
  /-- The amount added to every covariance diagonal. -/
  floor : α
  /-- The form of the estimated covariances. -/
  form : CovarianceForm
  /-- How many components a group may reset before it is given up. -/
  maxResets : Nat
  /-- The seed of the random streams; without one, a seed has to come from outside. -/
  seed : Option UInt64
deriving DecidableEq, Repr

namespace Settings

variable {α : Type} [Scalar α]

/-- The default settings for a number of components. -/
def ofCount (componentCount : Nat) : Settings α where
  componentCount
  maxIterations := 100
  start := .labels
  verbosity := .silent
  tolerance := 1 / Scalar.ofNat 1000
  floor := 1 / Scalar.ofNat 1000000
  form := .full
  maxResets := 10
  seed := none

/-- A finite number that is not negative. -/
def isFiniteNonNegative (x : α) : Bool := Scalar.isFinite x && decide (0 ≤ x)

/-- What is wrong with a component count, a tolerance and a floor, in this order. -/
def check (componentCount : Nat) (tolerance floor : α) : Except Error Unit :=
  if componentCount = 0 then .error (.invalidParameter .componentCount)
  else if !isFiniteNonNegative tolerance then .error (.invalidParameter .convergenceThreshold)
  else if !isFiniteNonNegative floor then .error (.invalidParameter .covarianceFloor)
  else .ok ()

/-- Checks the settings. -/
def validate (s : Settings α) : Except Error Unit := check s.componentCount s.tolerance s.floor

end Settings

end Mixtures.Em
