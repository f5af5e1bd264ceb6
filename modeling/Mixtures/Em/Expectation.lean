import Mixtures.Em.Reset

/-!
# The expectation step

Every component with weight is prepared: its covariance is factored, with jitter if need be, and
a component for which that fails is reset and prepared again. Then each sample distributes
responsibility one over the components in proportion to their weighted densities. The logarithms
of the summed densities add up to the log-likelihood of the group.

A sample for which no component has a finite density belongs to the nearest component with
weight, and adds nothing to the log-likelihood.
-/

namespace Mixtures.Em

variable {α F : Type} [Scalar α]

/-- The squared distance to a component with weight. -/
def liveDistance (x : Point α) (c : Component α) : Option α :=
  if c.weight ≤ 0 then none else some (Point.squaredDistance x c.mean)

/-- The nearest component with weight; the first component if there is none at a distance below
infinity. -/
def nearestLive (components : List (Component α)) (x : Point α) : Nat :=
  ((firstBest (fun d => d.any Point.isBelowInfinity)
    (fun d kept => match d, kept with
      | some d, some kept => decide (d < kept)
      | _, _ => false)
    (components.map (liveDistance x))).map (·.1)).getD 0

namespace Problem

/-- Replaces the covariance of a component. -/
def setCovariance (s : State α) (component : Nat) (covariance : List α) : State α :=
  { s with components := s.components.modify component fun c => { c with covariance } }

/-- Prepares a component where it stands: the state keeps the covariance after jitter. -/
def prepareAt (p : Problem α F) (component : Nat) (s : State α) : Option F × State α :=
  match s.components[component]? with
  | none => (none, s)
  | some c =>
    let (f, covariance) := p.prepare c.covariance
    (f, setCovariance s component covariance)

/-- The factor of a component with weight, after a reset if it cannot be factored as it is;
nothing for a component without weight. -/
def factorAt (p : Problem α F) (component : Nat) (s : State α) :
    Outcome (State α) (Option F) :=
  match s.components[component]? with
  | none => .done none s
  | some c =>
    if c.weight ≤ 0 then .done none s
    else
      match p.prepareAt component s with
      | (some f, s) => .done (some f) s
      | (none, s) =>
        (p.reset component s).andThen fun _ s =>
          match p.prepareAt component s with
          | (some f, s) => .done (some f) s
          | (none, s) => .gaveUp s

/-- The factors of the given components, one after the other. -/
def factorAll (p : Problem α F) : List Nat → State α → Outcome (State α) (List (Option F))
  | [], s => .done [] s
  | c :: cs, s =>
    (p.factorAt c s).andThen fun f s =>
      (p.factorAll cs s).andThen fun fs s => .done (f :: fs) s

/-- The logarithms of the weighted densities of the components at a sample. -/
def logTerms (p : Problem α F) (components : List (Component α)) (factors : List (Option F))
    (x : Point α) : List (LogMass α) :=
  components.zipWith (fun c f =>
    match f with
    | some f => .of (p.logTerm x c f)
    | none => .zero) factors

/-- The responsibilities for a sample, and the logarithm of its density if that is finite. -/
def explain (p : Problem α F) (components : List (Component α)) (factors : List (Option F))
    (x : Point α) : List α × Option α :=
  let terms := p.logTerms components factors x
  match (LogMass.sum terms).finite? with
  | some norm => (terms.map (LogMass.massAbove norm), some norm)
  | none => (oneHot p.count (nearestLive components x), none)

/-- The state after the samples have been explained, with the log-likelihood. -/
def distribute (p : Problem α F) (factors : List (Option F)) (s : State α) : α × State α :=
  let rows := p.points.map (p.explain s.components factors)
  let s := { s with responsibilities := rows.map (·.1) }
  let unexplained := rows.countP fun row => row.2.isNone
  let s := if unexplained = 0 then s else s.record (.unexplained unexplained)
  ((rows.filterMap (·.2)).foldl (· + ·) 0, s)

/-- The expectation step; its value is the log-likelihood of the group. -/
def expect (p : Problem α F) (s : State α) : Outcome (State α) α :=
  (p.factorAll (List.range p.count) s).andThen fun factors s =>
    let (total, s) := p.distribute factors s
    .done total s

end Problem

end Mixtures.Em
