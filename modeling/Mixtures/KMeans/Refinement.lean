import Mixtures.Point

/-!
# Refinement of clusters

A clustering is a list of centroids and a label for every point. A refinement step moves every
centroid to the mean of its points and labels every point anew with its nearest centroid; a
centroid without points stays where it is. Steps are repeated until the labels do not change or
a budget is spent. In both cases the labels belong to the centroids they are returned with: they
are the nearest ones.
-/

namespace Mixtures.KMeans

/-- Centroids, and the position of the nearest centroid for every point. -/
structure Clustering (α : Type) where
  /-- The centroids. -/
  centroids : List (Point α)
  /-- The label of every point. -/
  labels : List Nat
deriving DecidableEq, Repr

variable {α : Type} [Scalar α]

/-- The label of every point: its nearest centroid. -/
def assign (points centroids : List (Point α)) : List Nat :=
  points.map fun p => Point.nearestIndex p centroids

/-- The points with a label. -/
def members (points : List (Point α)) (labels : List Nat) (label : Nat) : List (Point α) :=
  ((points.zip labels).filter fun entry => entry.2 == label).map (·.1)

/-- A centroid moved to the mean of the given points: their sum, times the reciprocal of their
number. -/
def moveTo (dim : Nat) (points : List (Point α)) (centroid : Point α) : Point α :=
  if points.isEmpty then centroid
  else
    let total := points.foldl Point.add (List.replicate dim 0)
    let inverse := 1 / Scalar.ofNat points.length
    Point.overlay (total.map (· * inverse)) centroid

/-- Every centroid moved to the mean of its points. -/
def moveCentroids (points : List (Point α)) (clusters : Clustering α) : List (Point α) :=
  let dim := (clusters.centroids.headD []).length
  clusters.centroids.mapIdx fun label centroid =>
    moveTo dim (members points clusters.labels label) centroid

/-- One refinement step. -/
def step (points : List (Point α)) (clusters : Clustering α) : Clustering α :=
  let centroids := moveCentroids points clusters
  { centroids, labels := assign points centroids }

/-- Repeats the step until labels repeat or the budget is spent. Gives the last clustering and
the number of steps. -/
def refine (points : List (Point α)) : Nat → Clustering α → Clustering α × Nat
  | 0, clusters => (clusters, 0)
  | budget + 1, clusters =>
    let next := step points clusters
    if next.labels == clusters.labels then (next, 1)
    else
      let (final, steps) := refine points budget next
      (final, steps + 1)

end Mixtures.KMeans
