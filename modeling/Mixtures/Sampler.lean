import Mixtures.Linear.Jitter
import Mixtures.Model.Collection
import Mixtures.Point
import Mixtures.Random.Weighted

/-!
# Sampling from mixtures

A draw from a mixture picks a component by its weight, draws one standard normal number for each
dimension and maps them through the Cholesky factor of the component. Choices and factors are
prepared once for all groups. A group that cannot be sampled is kept with the reason and is only
reported when a sample is requested from it; weights that add up to infinity, however, prevent
the preparation of the whole sampler.

A stream of samples checks all requested groups before the first draw and then draws one sample
at a time.
-/

namespace Mixtures

/-- What sampling needs to know about one group. -/
inductive PreparedGroup (α : Type) where
  /-- The choice of a component, and for each component with weight its factor. -/
  | ready (choice : WeightedChoice α) (factors : List (Option (Cholesky α)))
  /-- The weights do not define a choice. -/
  | empty
  /-- A component with weight has a covariance that cannot be factored. -/
  | unfactorable
deriving DecidableEq, Repr

variable {α ρ : Type} [Scalar α] [RandomSource ρ]

namespace PreparedGroup

/-- The factors of the components with weight, unless one cannot be factored. -/
def factors (dim : Nat) : List (Component α) → Option (List (Option (Cholesky α)))
  | [] => some []
  | c :: cs =>
    if c.weight ≤ 0 then (factors dim cs).map (none :: ·)
    else
      match (factorWithJitter (Cholesky.factor dim) dim Scalar.epsilon c.covariance).1 with
      | none => none
      | some f => (factors dim cs).map (some f :: ·)

/-- Prepares a mixture of the given dimension. -/
def ofMixture (dim : Nat) (m : Mixture α) : Except Error (PreparedGroup α) :=
  match WeightedChoice.ofWeights m.weights with
  | .error .infiniteTotal => .error .infiniteWeight
  | .error _ => .ok .empty
  | .ok choice =>
    match factors dim m.components with
    | none => .ok .unfactorable
    | some fs => .ok (.ready choice fs)

end PreparedGroup

/-- A sampler of the mixtures of all groups. -/
structure Sampler (α : Type) where
  /-- The mixtures. -/
  models : Collection α
  /-- The preparation of every group. -/
  groups : List (PreparedGroup α)
deriving DecidableEq

/-- One draw: which component was picked, and the sample. -/
structure Sample (α : Type) where
  /-- The position of the component. -/
  component : Nat
  /-- The sample. -/
  point : Point α
deriving DecidableEq, Repr

namespace Sampler

/-- Prepares all groups of a collection. -/
def ofModels (models : Collection α) : Except Error (Sampler α) := do
  return { models, groups := ← models.mixtures.mapM (PreparedGroup.ofMixture models.dim) }

/-- The choice and the factors of a group that can be sampled. -/
def lookup (sampler : Sampler α) (group : Nat) :
    Except Error (WeightedChoice α × List (Option (Cholesky α))) :=
  match sampler.groups[group]? with
  | none => .error (.invalidGroup group sampler.groups.length)
  | some .empty => .error (.emptyMixture group)
  | some .unfactorable => .error (.invalidParameter .covariance)
  | some (.ready choice factors) => .ok (choice, factors)

/-- The sample that standard normal numbers give in a component: `mean + L z` with its factor
`L`, the mean alone without one. -/
def place (c : Component α) (factor : Option (Cholesky α)) (z : List α) : Point α :=
  match factor with
  | some f => f.transform c.mean z
  | none => c.mean

/-- Draws from a prepared group; `normal` draws a standard normal number. -/
def drawPrepared (sampler : Sampler α) (normal : ρ → α × ρ) (group : Nat)
    (choice : WeightedChoice α) (factors : List (Option (Cholesky α))) (source : ρ) :
    Sample α × ρ :=
  let (i, source) := choice.draw source
  let components := ((sampler.models.get? group).map (·.components)).getD []
  let c := components.getD i (Component.placeholder sampler.models.dim 0)
  let (z, source) := drawMany normal c.dim source
  (⟨i, place c (factors.getD i none) z⟩, source)

/-- Draws one sample from a group. -/
def draw (sampler : Sampler α) (normal : ρ → α × ρ) (group : Nat) (source : ρ) :
    Except Error (Sample α × ρ) := do
  let (choice, factors) ← sampler.lookup group
  return sampler.drawPrepared normal group choice factors source

end Sampler

/-- A stream of samples, one for each requested group. -/
structure SampleStream (α : Type) where
  /-- The sampler. -/
  sampler : Sampler α
  /-- The groups from which samples are still to be drawn. -/
  remaining : List Nat
deriving DecidableEq

namespace Sampler

/-- The stream of samples from the given groups, if all of them can be sampled. -/
def stream (sampler : Sampler α) (groups : List Nat) : Except Error (SampleStream α) := do
  groups.forM fun group => discard (sampler.lookup group)
  return { sampler, remaining := groups }

end Sampler

namespace SampleStream

/-- How many samples are left. -/
def length (stream : SampleStream α) : Nat := stream.remaining.length

/-- The next sample and the stream after it, unless the stream has ended. -/
def next (stream : SampleStream α) (normal : ρ → α × ρ) (source : ρ) :
    Option (Point α × SampleStream α × ρ) :=
  match stream.remaining with
  | [] => none
  | group :: groups =>
    match stream.sampler.draw normal group source with
    | .error _ => none
    | .ok (sample, source) => some (sample.point, { stream with remaining := groups }, source)

/-- Takes at most a number of samples. -/
def take (stream : SampleStream α) (normal : ρ → α × ρ) :
    Nat → ρ → List (Point α) × SampleStream α × ρ
  | 0, source => ([], stream, source)
  | n + 1, source =>
    match stream.next normal source with
    | none => ([], stream, source)
    | some (x, later, source) =>
      let (xs, final, source) := later.take normal n source
      (x :: xs, final, source)

end SampleStream

end Mixtures
