import Mixtures.Em.Settings

/-!
# Reports of training

What training tells besides the models: for each group how its iterations went and why they
ended, and a sequence of events. Events are always recorded; the verbosity only selects which of
them are passed on, so it cannot influence the result.
-/

namespace Mixtures.Em

/-- How the iterations of a group ended. -/
inductive Status where
  /-- The relative change of the log-likelihood fell below the tolerance. -/
  | converged
  /-- The budget of iterations was spent first. -/
  | maxIterations
  /-- The group needed more resets than allowed. -/
  | degenerate
  /-- The group has no samples. -/
  | empty
deriving DecidableEq, Repr

/-- The name of a status. -/
def Status.name : Status → String
  | converged => "Converged"
  | maxIterations => "MaxIterations"
  | degenerate => "Degenerate"
  | empty => "Empty"

/-- The report on one group. -/
structure Diagnostics (α : Type) where
  /-- The number of samples of the group. -/
  samples : Nat
  /-- The log-likelihood found by each expectation step. -/
  trace : List α
  /-- Why the iterations ended. -/
  status : Status
  /-- How many component resets were asked for. -/
  resets : Nat
deriving DecidableEq, Repr

namespace Diagnostics

variable {α : Type}

/-- The number of expectation steps. -/
def iterations (d : Diagnostics α) : Nat := d.trace.length

/-- The log-likelihood found by the last expectation step. -/
def final? (d : Diagnostics α) : Option α := d.trace.getLast?

/-- The report on a group without samples. -/
def ofNoSamples : Diagnostics α := { samples := 0, trace := [], status := .empty, resets := 0 }

end Diagnostics

/-- Something that happened while a group was trained. -/
inductive GroupEvent (α : Type) where
  /-- An expectation step was completed. -/
  | iteration (index : Nat) (logLikelihood : α)
  /-- Some samples had no finite density. -/
  | unexplained (count : Nat)
  /-- A component was moved to a sample. -/
  | reset (component sample : Nat)
  /-- Training of the group ended. -/
  | ended (report : Diagnostics α)
deriving DecidableEq, Repr

/-- Something that happened during a training run. -/
inductive Event (α : Type) where
  /-- It happened while a group was trained. -/
  | group (id : Nat) (event : GroupEvent α)
  /-- All groups have been trained. -/
  | trained (groups converged samples componentCount dim : Nat)
deriving DecidableEq, Repr

/-- How important an event is to a reader. -/
inductive Level where
  /-- Detail. -/
  | debug
  /-- Information. -/
  | info
  /-- Something went wrong. -/
  | warn
deriving DecidableEq, Repr

/-- The name of a level. -/
def Level.name : Level → String
  | debug => "DEBUG"
  | info => "INFO"
  | warn => "WARN"

namespace Event

variable {α : Type}

/-- The level of an event. -/
def level : Event α → Level
  | group _ (.ended report) => if report.status = .degenerate then .warn else .info
  | group _ _ => .debug
  | trained .. => .info

/-- The least verbosity that passes an event on. -/
def threshold : Event α → Verbosity
  | group _ (.ended _) => .summary
  | group _ _ => .detailed
  | trained .. => .summary

/-- An event is passed on at a verbosity. -/
def isShownAt (verbosity : Verbosity) (event : Event α) : Bool :=
  event.threshold.rank ≤ verbosity.rank

/-- The text of an event, given the text of a log-likelihood, which is absent after no
iteration. -/
def message (number : Option α → String) : Event α → String
  | group id (.iteration index ll) =>
    let text := number (some ll)
    s!"group {id}: iteration {index} log-likelihood {text}"
  | group id (.unexplained count) =>
    s!"group {id}: {count} samples had no finite density, assigned to nearest component"
  | group id (.reset component sample) =>
    s!"group {id}: component {component} reset to outlier sample {sample}"
  | group id (.ended report) =>
    if report.status = .degenerate then
      s!"group {id}: gave up after {report.resets} component resets"
    else
      let text := number report.final?
      s!"group {id}: {report.status.name} after {report.iterations} iterations " ++
        s!"({report.samples} samples), log-likelihood {text}"
  | trained groups converged samples k d =>
    s!"trained {groups} groups: {converged} converged, {samples} samples, k={k}, d={d}"

/-- The line of an event: its level and its text. -/
def line (number : Option α → String) (event : Event α) : String :=
  event.level.name ++ " " ++ event.message number

end Event

end Mixtures.Em
