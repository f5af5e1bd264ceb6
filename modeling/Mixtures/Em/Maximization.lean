import Mixtures.Em.Reset

/-!
# The maximization step

Every component is estimated anew from its responsibilities: its weight is its share of the
samples, its mean the weighted mean and its covariance the weighted covariance of the samples,
plus the floor on the diagonal. Only the entries on and below the diagonal are summed; those
above are the same numbers.

A component whose responsibilities add up to next to nothing has *collapsed* and is left as it
was. If the group has at least as many samples as components, it is then reset; otherwise it
loses its weight.
-/

namespace Mixtures.Em

variable {α F : Type} [Scalar α]

/-- The sum of responsibilities up to which a component counts as collapsed. -/
def collapseBound : α := 1 / Scalar.ofNat 10000000000

/-- The responsibilities of one component for all samples. -/
def column (responsibilities : List (List α)) (component : Nat) : List α :=
  responsibilities.map fun row => row.getD component 0

namespace Problem

/-- The samples for which responsibilities are not zero, with these. -/
def weighted (p : Problem α F) (column : List α) : List (α × Point α) :=
  (column.zip p.points).filter fun entry => !(entry.1 == 0)

/-- The weighted mean, given the sum of the responsibilities. -/
def weightedMean (dim : Nat) (mass : α) (entries : List (α × Point α)) : Point α :=
  (entries.foldl (fun m entry => m.zipWith (fun s v => s + entry.1 * v) entry.2)
    (List.replicate dim 0)).map (· / mass)

/-- The weighted mean of the product of two coordinates. -/
def weightedProduct (mass : α) (entries : List (α × Point α)) (i j : Nat) : α :=
  entries.foldl (fun s entry => s + entry.1 * entry.2.getD i 0 * entry.2.getD j 0) 0 / mass

/-- The weighted covariance of centered samples, in the given form and with the floor. -/
def weightedCovariance (dim : Nat) (form : CovarianceForm) (floor mass : α)
    (centered : List (α × Point α)) : List α :=
  Square.tabulate dim fun i j =>
    if i = j then weightedProduct mass centered i i + floor
    else
      match form with
      | .full => weightedProduct mass centered (max i j) (min i j)
      | .diagonal => 0 / mass

/-- The component estimated from a column of responsibilities, unless it has collapsed. -/
def estimate (p : Problem α F) (column : List α) : Option (Component α) :=
  let mass := Scalar.sum column
  if Scalar.isFinite mass && decide (collapseBound < mass) then
    let entries := p.weighted column
    let mean := weightedMean p.dim mass entries
    let centered := entries.map fun entry => (entry.1, entry.2.zipWith (· - ·) mean)
    some
      { weight := mass / Scalar.ofNat p.size
        mean
        covariance := weightedCovariance p.dim p.settings.form p.settings.floor mass centered }
  else none

/-- The estimates of all components. -/
def estimates (p : Problem α F) (responsibilities : List (List α)) :
    List (Option (Component α)) :=
  (List.range p.count).map fun c => p.estimate (column responsibilities c)

/-- The positions of the components without an estimate. -/
def collapsed (estimates : List (Option (Component α))) : List Nat :=
  (estimates.zipIdx.filter fun entry => entry.1.isNone).map (·.2)

/-- Takes the weight from the given components. Their means stay. -/
def silence (p : Problem α F) (positions : List Nat) (components : List (Component α)) :
    List (Component α) :=
  positions.foldl (fun cs position => cs.modify position fun c =>
    { Component.placeholder p.dim p.settings.floor with mean := c.mean }) components

/-- The maximization step. -/
def maximize (p : Problem α F) (s : State α) : Outcome (State α) Unit :=
  let estimates := p.estimates s.responsibilities
  let lost := collapsed estimates
  let s := { s with components := s.components.zipWith (fun c e => e.getD c) estimates }
  let recovered :=
    if p.count ≤ p.size then p.resetAll lost s
    else .done () { s with components := p.silence lost s.components }
  recovered.andThen fun _ s => .done () { s with components := normalizeWeights s.components }

end Problem

end Mixtures.Em
