import Mixtures.Em.Run
import Mixtures.Executor
import Mixtures.Group.Layout
import Mixtures.Group.Samples
import Mixtures.Model.Collection
import Mixtures.Random.KeyStream

/-!
# Training all groups

Every group of a layout is trained by itself, with the random stream of its group. The mixtures
form a collection, the reports a list in group order, and the events of the groups follow each
other in group order, with one event for the run at the end.
-/

namespace Mixtures.Em

/-- What a training run gives. -/
structure Training (α : Type) where
  /-- The mixture of every group. -/
  models : Collection α
  /-- The report on every group. -/
  reports : List (Diagnostics α)
  /-- The events that the verbosity lets through, in order. -/
  events : List (Event α)
deriving DecidableEq

/-- The number of groups that have converged. -/
def Training.converged {α : Type} (t : Training α) : Nat :=
  t.reports.countP fun r => r.status = .converged

namespace Settings

variable {α F : Type} [Scalar α]

/-- Checks the labels given for a number of samples. -/
def checkLabels (s : Settings α) (count : Nat) : Option (List Nat) → Except Error (List Nat)
  | none => .error (.inputContract 0 .labelsMissing)
  | some labels =>
    if labels.length ≠ count then
      .error (.inputContract (min labels.length count) (.labelCount count labels.length))
    else
      match labels.findIdx? fun label => decide (s.componentCount ≤ label) with
      | some i => .error (.inputContract i (.labelTooLarge (labels.getD i 0) s.componentCount))
      | none => .ok labels

/-- The labels from which training starts, if it starts from given labels. -/
def startLabels (s : Settings α) (count : Nat) (labels : Option (List Nat)) :
    Except Error (Option (List Nat)) :=
  match s.start with
  | .labels => do return some (← s.checkLabels count labels)
  | .randomSamples => .ok none

/-- The result of training one group of a layout. -/
def trainGroup (s : Settings α) (kernel : DensityKernel α F) (seed : UInt64)
    (samples : List (Point α)) (layout : Layout) (dim : Nat) (labels : Option (List Nat))
    (group : Nat) : GroupResult α :=
  let p : Problem α F := { settings := s, points := layout.slice group samples, dim, kernel }
  match labels with
  | some labels => p.train (layout.slice group labels)
  | none => p.train (p.randomLabels (Stage.em.source seed group))

/-- All events of a run, given the results of the groups in order. -/
def eventsOf (s : Settings α) (results : List (GroupResult α)) (sampleCount dim : Nat) :
    List (Event α) :=
  let groupEvents := results.zipIdx.flatMap fun (r, g) => r.events.map (Event.group g)
  let converged := results.countP fun r => r.report.status = .converged
  groupEvents ++ [.trained results.length converged sampleCount s.componentCount dim]

/-- Trains the groups of a layout of samples of the given dimension; `entropy` is the seed of a
run that fixes none. -/
def trainLayout (s : Settings α) (kernel : DensityKernel α F) (entropy : UInt64)
    (executor : Executor) (samples : List (Point α)) (layout : Layout) (dim : Nat)
    (labels : Option (List Nat)) : Except Error (Training α) := do
  s.validate
  let labels ← s.startLabels samples.length labels
  let seed := s.seed.getD entropy
  let results := executor.mapGroups layout.groupCount
    (s.trainGroup kernel seed samples layout dim labels)
  let models ← Collection.ofMixtures s.componentCount dim (results.map (·.mixture))
  return {
    models
    reports := results.map (·.report)
    events := (s.eventsOf results samples.length dim).filter (Event.isShownAt s.verbosity) }

/-- Checks the samples and trains every group. -/
def train (s : Settings α) (kernel : DensityKernel α F) (entropy : UInt64) (executor : Executor)
    (samples : List (Point α)) (ids : List Nat) (groupCount : Nat)
    (labels : Option (List Nat)) : Except Error (Training α) := do
  let dim ← checkSamples samples ids
  let layout ← Layout.ofIds ids groupCount
  s.trainLayout kernel entropy executor samples layout dim labels

end Settings

end Mixtures.Em
