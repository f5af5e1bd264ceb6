import Mixtures.Em.Settings
import Mixtures.KMeans.Fit

/-!
# Configurations

A configuration has every choice of a fitting run: those of clustering and those of training.
The two share the number of components, which is the number of clusters, and the seed.
-/

namespace Mixtures

/-- The choices of a fitting run. -/
structure Config (α : Type) where
  /-- The number of components, and of clusters, of every group. -/
  componentCount : Nat
  /-- The most iterations of training for one group. -/
  maxEmIterations : Nat
  /-- The most refinement steps of clustering for one group. -/
  maxKMeansIterations : Nat
  /-- Where the first responsibilities come from. -/
  start : Em.Start
  /-- How much training reports. -/
  verbosity : Em.Verbosity
  /-- The relative change of the log-likelihood below which a group has converged. -/
  convergenceThreshold : α
  /-- The amount added to every covariance diagonal. -/
  covarianceFloor : α
  /-- The form of the estimated covariances. -/
  form : Em.CovarianceForm
  /-- How many components a group may reset before it is given up. -/
  maxResets : Nat
  /-- The seed of the random streams. -/
  seed : Option UInt64
deriving BEq, Repr

namespace Config

variable {α : Type} [Scalar α]

/-- The default configuration for a number of components. -/
def ofCount (componentCount : Nat) : Config α where
  componentCount
  maxEmIterations := 100
  maxKMeansIterations := 100
  start := .labels
  verbosity := .silent
  convergenceThreshold := 1 / Scalar.ofNat 1000
  covarianceFloor := 1 / Scalar.ofNat 1000000
  form := .full
  maxResets := 10
  seed := none

/-- The default configuration has three components. -/
def default : Config α := ofCount 3

/-- Checks the choices that can be wrong. -/
def validate (c : Config α) : Except Error Unit :=
  Em.Settings.check c.componentCount c.convergenceThreshold c.covarianceFloor

omit [Scalar α] in
/-- How groups are clustered. -/
def clustering (c : Config α) : KMeans :=
  { clusterCount := c.componentCount
    maxIterations := c.maxKMeansIterations
    seed := c.seed }

omit [Scalar α] in
/-- How groups are trained. -/
def training (c : Config α) : Em.Settings α :=
  { componentCount := c.componentCount
    maxIterations := c.maxEmIterations
    start := c.start
    verbosity := c.verbosity
    tolerance := c.convergenceThreshold
    floor := c.covarianceFloor
    form := c.form
    maxResets := c.maxResets
    seed := c.seed }

end Config

end Mixtures
