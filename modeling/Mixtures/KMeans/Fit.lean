import Mixtures.Executor
import Mixtures.Group.Layout
import Mixtures.Group.Samples
import Mixtures.KMeans.Refinement
import Mixtures.KMeans.Seeding
import Mixtures.Random.KeyStream

/-!
# k-means fits

A fit of one group seeds `k` clusters, one for each point if there are fewer points than `k`,
and refines them. All groups of a layout are fitted independently, each with the random stream
of its group; the labels of all samples are the labels of the groups one after the other, since
the spans of the groups follow each other.
-/

namespace Mixtures

/-- How to cluster the samples of each group. -/
structure KMeans where
  /-- The number of clusters in each group. -/
  clusterCount : Nat := 3
  /-- The most refinement steps for one group. -/
  maxIterations : Nat := 100
  /-- The seed of the random streams; without one, a seed has to come from outside. -/
  seed : Option UInt64 := none
deriving DecidableEq, Repr

namespace KMeans

/-- The clusters of one group. -/
structure GroupFit (α : Type) where
  /-- The centroids: as many as clusters were asked for, or as there are points. -/
  centroids : List (Point α)
  /-- The label of every sample of the group. -/
  labels : List Nat
  /-- The number of refinement steps. -/
  iterations : Nat
deriving DecidableEq, Repr

/-- The clusters of all groups. -/
structure Fit (α : Type) where
  /-- The label of every sample. -/
  labels : List Nat
  /-- The fit of every group, by group id. -/
  groups : List (GroupFit α)
deriving DecidableEq, Repr

variable {α ρ : Type} [Scalar α] [RandomSource ρ]

/-- Clusters the samples of one group. -/
def fitGroup (points : List (Point α)) (k maxIterations : Nat) (source : ρ) :
    Except Error (GroupFit α) :=
  if points.isEmpty then .ok ⟨[], [], 0⟩
  else do
    let centroids ← seeds points (min k points.length) source
    let (final, iterations) :=
      refine points maxIterations { centroids, labels := assign points centroids }
    return ⟨final.centroids, final.labels, iterations⟩

/-- Clusters the groups of a layout; `entropy` is the seed of a run that fixes none. -/
def fitLayout (method : KMeans) (entropy : UInt64) (executor : Executor)
    (samples : List (Point α)) (layout : Layout) : Except Error (Fit α) :=
  if method.clusterCount = 0 then .error (.invalidParameter .clusterCount)
  else do
    let seed := method.seed.getD entropy
    let groups ← (executor.mapGroups layout.groupCount fun group =>
      fitGroup (layout.slice group samples) method.clusterCount method.maxIterations
        (Stage.init.source seed group)).mapM id
    return { labels := groups.flatMap (·.labels), groups }

/-- Checks the samples and clusters every group. -/
def fit (method : KMeans) (entropy : UInt64) (executor : Executor) (samples : List (Point α))
    (ids : List Nat) (groupCount : Nat) : Except Error (Fit α) := do
  let _ ← checkSamples samples ids
  let layout ← Layout.ofIds ids groupCount
  method.fitLayout entropy executor samples layout

end KMeans

end Mixtures
