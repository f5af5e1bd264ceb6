import Mixtures.Error
import Mixtures.Point
import Mixtures.Random.Uniform
import Mixtures.Random.Weighted

/-!
# Seeding of clusters

The first seed is a uniformly drawn point. Each further seed is a point drawn with a chance
proportional to its squared distance from the nearest seed chosen so far, which favours points
far from all seeds and passes over those that coincide with one. When that leaves nothing to draw
from (all weights zero, or a weight that is not a number), the draw is uniform.

Weights that add up to infinity end the seeding with an error: distances of finite points may
exceed the largest double.
-/

namespace Mixtures.KMeans

variable {α ρ : Type} [Scalar α] [RandomSource ρ]

/-- The squared distances to the nearest seed after one more seed has been chosen. -/
def lowerDistances (points : List (Point α)) (chosen : Point α) (distances : List α) : List α :=
  distances.zipWith (fun d p =>
    let candidate := Point.squaredDistance p chosen
    if candidate < d then candidate else d) points

/-- Draws the position of the next seed, given the squared distances to the nearest seed. -/
def drawSeed (count : Nat) (distances : List α) (source : ρ) : Except Error (Nat × ρ) :=
  match WeightedChoice.ofWeights distances with
  | .ok choice => .ok (choice.draw source)
  | .error .infiniteTotal => .error .infiniteWeight
  | .error _ => .ok (uniformBelow count source)

/-- Draws further seeds, as many as the first argument says. -/
def moreSeeds (points : List (Point α)) : Nat → List α → ρ → Except Error (List (Point α))
  | 0, _, _ => .ok []
  | n + 1, distances, source => do
    let (i, source) ← drawSeed points.length distances source
    let chosen := points.getD i []
    return chosen :: (← moreSeeds points n (lowerDistances points chosen distances) source)

/-- The seeds of `k` clusters, for `1 ≤ k ≤ points.length`. -/
def seeds (points : List (Point α)) (k : Nat) (source : ρ) : Except Error (List (Point α)) := do
  let (i, source) := uniformBelow points.length source
  let first := points.getD i []
  let distances := points.map fun p => Point.squaredDistance p first
  return first :: (← moreSeeds points (k - 1) distances source)

end Mixtures.KMeans
