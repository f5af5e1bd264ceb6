import Mixtures.Density.Kernel
import Mixtures.Em.Report
import Mixtures.Linear.Jitter
import Mixtures.Model.Mixture
import Mixtures.Point

/-!
# The state of training one group

A *problem* is what stays fixed while a group is trained: the settings, the samples, their
dimension and the kind of density. The *state* is what changes: the components, the
responsibility of every component for every sample, how many resets have been asked for, and
the events so far.

A step of training ends with a new state and perhaps a value, or it gives up because no further
reset is allowed. A step that gives up leaves behind the state in which it did so.
-/

namespace Mixtures.Em

/-- What stays fixed while a group is trained. -/
structure Problem (α F : Type) where
  /-- The settings of the run. -/
  settings : Settings α
  /-- The samples of the group. -/
  points : List (Point α)
  /-- The dimension of the samples. -/
  dim : Nat
  /-- The densities of the components. -/
  kernel : DensityKernel α F

/-- What changes while a group is trained. -/
structure State (α : Type) where
  /-- The components. -/
  components : List (Component α)
  /-- For each sample, the responsibilities of the components. -/
  responsibilities : List (List α)
  /-- How many resets have been asked for. -/
  resets : Nat
  /-- The events so far, the latest first. -/
  history : List (GroupEvent α)
deriving DecidableEq, Repr

/-- The end of a step of training. -/
inductive Outcome (σ β : Type) where
  /-- The step was completed. -/
  | done (value : β) (state : σ)
  /-- The step needed more resets than allowed. -/
  | gaveUp (state : σ)
deriving DecidableEq, Repr

namespace Outcome

variable {σ β γ : Type}

/-- Goes on after a completed step. -/
def andThen (outcome : Outcome σ β) (next : β → σ → Outcome σ γ) : Outcome σ γ :=
  match outcome with
  | done value state => next value state
  | gaveUp state => gaveUp state

/-- The state at the end of the step, completed or not. -/
def state : Outcome σ β → σ
  | done _ s => s
  | gaveUp s => s

end Outcome

variable {α F : Type} [Scalar α]

namespace Problem

/-- The number of components. -/
def count (p : Problem α F) : Nat := p.settings.componentCount

/-- The number of samples. -/
def size (p : Problem α F) : Nat := p.points.length

/-- The mean of the samples. -/
def center (p : Problem α F) : Point α :=
  (p.points.foldl (fun s x => s.zipWith (· + ·) x) (List.replicate p.dim 0)).map
    (· / Scalar.ofNat p.size)

/-- The variance of the samples in each coordinate. -/
def spread (p : Problem α F) : List α :=
  let center := p.center
  (p.points.foldl (fun s x =>
    s.zipWith (· + ·) (x.zipWith (fun v c => (v - c) * (v - c)) center))
    (List.replicate p.dim 0)).map (· / Scalar.ofNat p.size)

/-- The factor of a covariance, after jitter if need be, and the covariance afterwards. -/
def prepare (p : Problem α F) (covariance : List α) : Option F × List α :=
  factorWithJitter (p.kernel.factor p.dim) p.dim p.settings.floor covariance

/-- The logarithm of the weighted density of a prepared component. -/
def logTerm (p : Problem α F) (x : Point α) (c : Component α) (f : F) : α :=
  Scalar.ln c.weight + p.kernel.logDensity f c.mean x

end Problem

/-- The list of `count` numbers that is one at a position and zero elsewhere. -/
def oneHot (count position : Nat) : List α :=
  (List.range count).map fun c => if c = position then 1 else 0

/-- The components with their weights divided by the sum of the weights, as long as that sum is
positive and finite. -/
def normalizeWeights (components : List (Component α)) : List (Component α) :=
  let total := Scalar.sum (components.map (·.weight))
  if 0 < total && Scalar.isFinite total then
    components.map fun c => { c with weight := c.weight / total }
  else components

/-- The state before the first step: placeholders for components. -/
def Problem.initialState (p : Problem α F) (responsibilities : List (List α)) : State α where
  components := List.replicate p.count (Component.placeholder p.dim p.settings.floor)
  responsibilities
  resets := 0
  history := []

/-- The state with one more event. -/
def State.record (s : State α) (event : GroupEvent α) : State α :=
  { s with history := event :: s.history }

end Mixtures.Em
