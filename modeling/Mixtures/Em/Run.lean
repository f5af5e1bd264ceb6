import Mixtures.Em.Expectation
import Mixtures.Em.Maximization
import Mixtures.Random.Distinct

/-!
# Training one group

Training starts with responsibilities and a maximization step, and then alternates expectation
and maximization. It ends

* when the first maximization step gives up,
* when an expectation step gives up,
* when the log-likelihood of an expectation step differs relatively by less than the tolerance
  from that of the one before,
* when a maximization step gives up, or
* when the budget of iterations is spent.

After giving up, the components are those that the last completed expectation step left behind,
if there was one, so nothing of the failed step is seen.
-/

namespace Mixtures.Em

variable {α F : Type} [Scalar α]

/-- The change from one log-likelihood to the next, relative to the size of the first. -/
def relativeChange (before after : α) : α :=
  Scalar.abs (after - before) / Scalar.max (Scalar.abs before) Scalar.minPositive

/-- The end of the iterations of a group. -/
structure Ending (α : Type) where
  /-- The log-likelihoods of the expectation steps. -/
  trace : List α
  /-- Why the iterations ended. -/
  status : Status
  /-- The state in which they ended. -/
  state : State α
  /-- The components after the last completed expectation step. -/
  valid : Option (List (Component α))
deriving DecidableEq, Repr

namespace Problem

/-- The log-likelihood has settled. -/
def hasSettled (p : Problem α F) (before : Option α) (after : α) : Bool :=
  match before with
  | none => false
  | some before => decide (relativeChange before after < p.settings.tolerance)

/-- Iterates with the given budget. The other arguments are the number of iterations done so
far, the last log-likelihood, the components after the last completed expectation step, and the
state, in which the components have just been estimated. -/
def iterate (p : Problem α F) :
    Nat → Nat → Option α → Option (List (Component α)) → State α → Ending α
  | 0, _, _, valid, s => { trace := [], status := .maxIterations, state := s, valid }
  | budget + 1, index, before, valid, s =>
    match p.expect s with
    | .gaveUp s => { trace := [], status := .degenerate, state := s, valid }
    | .done total s =>
      let valid := some s.components
      let s := s.record (.iteration index total)
      if p.hasSettled before total then
        { trace := [total], status := .converged, state := s, valid }
      else
        match p.maximize s with
        | .gaveUp s => { trace := [total], status := .degenerate, state := s, valid }
        | .done _ s =>
          let later := p.iterate budget (index + 1) (some total) valid s
          { later with trace := total :: later.trace }

/-- Estimates the components from the first responsibilities and iterates. -/
def ending (p : Problem α F) (s : State α) : Ending α :=
  match p.maximize s with
  | .gaveUp s => { trace := [], status := .degenerate, state := s, valid := none }
  | .done _ s => p.iterate p.settings.maxIterations 0 none none s

/-- The components that are returned. -/
def Ending.components (e : Ending α) : List (Component α) :=
  if e.status = .degenerate then normalizeWeights (e.valid.getD e.state.components)
  else e.state.components

/-- The report on the group. -/
def report (p : Problem α F) (e : Ending α) : Diagnostics α where
  samples := p.size
  trace := e.trace
  status := e.status
  resets := e.state.resets

end Problem

/-- What training makes of one group. -/
structure GroupResult (α : Type) where
  /-- The mixture. -/
  mixture : Mixture α
  /-- The report. -/
  report : Diagnostics α
  /-- What happened, in order. -/
  events : List (GroupEvent α)
deriving DecidableEq, Repr

namespace Problem

/-- The labels with which a group starts when none are given: distinct samples are drawn, one
for each component as far as there are samples, and every sample is labelled by the nearest of
them. -/
def randomLabels {ρ : Type} [RandomSource ρ] (p : Problem α F) (source : ρ) : List Nat :=
  let (drawn, _) := distinctIndices p.size (min p.count p.size) source
  let centers := drawn.map fun i => p.points.getD i []
  p.points.map fun x => Point.nearestIndex x centers

/-- Trains a group from one label for each sample. -/
def train (p : Problem α F) (labels : List Nat) : GroupResult α :=
  if p.points.isEmpty then
    { mixture := Mixture.empty p.count p.dim p.settings.floor
      report := .ofNoSamples
      events := [] }
  else
    let e := p.ending (p.initialState (labels.map (oneHot p.count)))
    let report := p.report e
    { mixture := ⟨Ending.components e⟩
      report
      events := e.state.history.reverse ++ [.ended report] }

end Problem

end Mixtures.Em
