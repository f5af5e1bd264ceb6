import Mixtures.Scalar
import Mixtures.Search

/-!
# Points

Samples, means and centroids are points: lists of coordinates. The squared distance of two
points adds the squared coordinate differences from left to right; coordinates beyond the
shorter point are ignored. Likewise a point that is added to or laid over another leaves alone
the coordinates that it does not have, so the result is always as long as the other point.
-/

namespace Mixtures

/-- A point, by its coordinates. -/
abbrev Point (α : Type) := List α

variable {α : Type} [Scalar α]

namespace Point

/-- Replaces the leading coordinates of `old` by those of `new`. -/
def overlay (new old : Point α) : Point α := new.take old.length ++ old.drop new.length

omit [Scalar α] in
theorem overlay_of_length_eq {new old : Point α} (h : new.length = old.length) :
    overlay new old = new := by
  simp [overlay, ← h]

omit [Scalar α] in
@[simp] theorem length_overlay (new old : Point α) : (overlay new old).length = old.length := by
  simp only [overlay, List.length_append, List.length_take, List.length_drop]
  omega

omit [Scalar α] in
/-- What is laid over a point replaces what was laid over it before. -/
@[simp] theorem overlay_overlay (new old : Point α) :
    overlay new (overlay new old) = overlay new old := by
  rw [overlay, length_overlay]
  rcases Nat.le_total new.length old.length with hle | hle
  · rw [overlay, List.take_of_length_le hle, List.drop_left' rfl]
  · have hnone : old.drop new.length = [] := List.drop_eq_nil_of_le hle
    rw [overlay, hnone, List.append_nil, List.drop_eq_nil_of_le, List.append_nil]
    rw [List.length_take]
    omega

/-- Adds the coordinates of `x` to those of `s`. -/
def add (s x : Point α) : Point α := overlay (s.zipWith (· + ·) x) s

/-- The squared Euclidean distance. -/
def squaredDistance (a b : Point α) : α :=
  Scalar.sum (a.zipWith (fun x y => (x - y) * (x - y)) b)

/-- A squared distance that is below infinity: finite, or negative without bound, which leaves
out positive infinity and not-a-number. -/
def isBelowInfinity (d : α) : Bool := Scalar.isFinite d || d < 0

/-- The position of the first center at the least distance below infinity, with that squared
distance. -/
def nearest (point : Point α) (centers : List (Point α)) : Option (Nat × α) :=
  firstBest isBelowInfinity (· < ·) (centers.map (squaredDistance point))

/-- The position of the nearest center, the first one when no distance is below infinity. -/
def nearestIndex (point : Point α) (centers : List (Point α)) : Nat :=
  ((nearest point centers).map (·.1)).getD 0

end Point

end Mixtures
