import Mixtures.Em.State

/-!
# Resetting a component

A component that has lost all responsibility, or whose covariance cannot be factored, is moved
onto the sample that the other components explain worst: its mean becomes that sample, its
covariance the coordinate variances of the group plus the floor, its weight that of one sample.
Without another component to compare with, the sample farthest from the mean of the group is
taken.

Asking for a reset counts, whether it is granted or not: the count is raised first and then
compared with the bound.
-/

namespace Mixtures.Em

variable {α F : Type} [Scalar α]

/-- Above negative infinity, and a number. -/
def isAboveNegativeInfinity (d : α) : Bool := Scalar.isFinite d || 0 < d

namespace Problem

/-- The components other than `skip` that carry weight and can be factored, with their
factors. -/
def others (p : Problem α F) (components : List (Component α)) (skip : Nat) :
    List (Component α × F) :=
  components.zipIdx.filterMap fun (c, i) =>
    if i ≠ skip && decide (0 < c.weight) then (p.prepare c.covariance).1.map ((c, ·)) else none

/-- The sample farthest from the mean of the group. -/
def farthestFromCenter (p : Problem α F) : Nat :=
  let center := p.center
  ((firstBest isAboveNegativeInfinity (fun d kept => decide (kept < d))
    (p.points.map fun x => Point.squaredDistance x center)).map (·.1)).getD 0

/-- The logarithm of the density of a sample under prepared components. -/
def explained (p : Problem α F) (live : List (Component α × F)) (x : Point α) : LogMass α :=
  LogMass.sum (live.map fun (c, f) => .of (p.logTerm x c f))

/-- The sample with the least density under the components other than `skip`. -/
def outlier (p : Problem α F) (components : List (Component α)) (skip : Nat) : Nat :=
  let live := p.others components skip
  if live.isEmpty then p.farthestFromCenter
  else
    ((firstBest LogMass.isBelowInfinity LogMass.lt (p.points.map (p.explained live))).map
      (·.1)).getD 0

/-- The component that a reset puts onto a sample. -/
def resetComponent (p : Problem α F) (sample : Nat) : Component α where
  weight := 1 / Scalar.ofNat p.size
  mean := p.points.getD sample []
  covariance := Square.diagonal (p.spread.map (· + p.settings.floor))

/-- Moves a component onto the sample that the others explain worst, if a further reset is
allowed. -/
def reset (p : Problem α F) (component : Nat) (s : State α) : Outcome (State α) Unit :=
  let s := { s with resets := s.resets + 1 }
  if p.settings.maxResets < s.resets then .gaveUp s
  else
    let sample := p.outlier s.components component
    let moved := s.components.set component (p.resetComponent sample)
    .done () ({ s with components := normalizeWeights moved }.record (.reset component sample))

/-- Resets several components, one after the other. -/
def resetAll (p : Problem α F) : List Nat → State α → Outcome (State α) Unit
  | [], s => .done () s
  | c :: cs, s => (p.reset c s).andThen fun _ s => p.resetAll cs s

end Problem

end Mixtures.Em
