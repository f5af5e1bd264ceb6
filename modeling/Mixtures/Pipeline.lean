import Mixtures.Config.Basic
import Mixtures.Em.Trainer
import Mixtures.KMeans.Fit

/-!
# Fitting in one call

Clustering followed by training, as a configuration describes them. The configuration is
checked first, then the samples and the layout, all before any numerical work. Labels come from
clustering unless training starts from random samples, in which case nothing is clustered.
-/

namespace Mixtures

variable {α F : Type} [Scalar α]

/-- Fits one mixture to every group, with components of the given kernel. -/
def Config.fitWith (c : Config α) (kernel : DensityKernel α F) (entropy : UInt64)
    (executor : Executor) (samples : List (Point α)) (ids : List Nat) (groupCount : Nat) :
    Except Error (Em.Training α) := do
  c.validate
  let dim ← checkSamples samples ids
  let layout ← Layout.ofIds ids groupCount
  let labels ← match c.start with
    | .labels => do
      let fit ← c.clustering.fitLayout entropy executor samples layout
      pure (some fit.labels)
    | .randomSamples => pure none
  c.training.trainLayout kernel entropy executor samples layout dim labels

/-- Fits one mixture of normal distributions to every group; `entropy` is the seed of a run that
fixes none. -/
def Config.fit (c : Config α) (entropy : UInt64) (executor : Executor)
    (samples : List (Point α)) (ids : List Nat) (groupCount : Nat) :
    Except Error (Em.Training α) :=
  c.fitWith .gaussian entropy executor samples ids groupCount

end Mixtures
