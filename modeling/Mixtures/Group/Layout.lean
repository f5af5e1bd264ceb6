import Mixtures.Error

/-!
# Group layouts

Samples come with one group id each. The ids may not decrease, so the samples of a group are a
contiguous *span* of positions, and a group is found by cutting its span out of any list that is
aligned with the samples. An id may skip ahead; the groups passed over have no samples and the
empty span `0 ‥ 0`.

`Layout.ofIds` reads the ids once. It keeps the run of equal ids it is in and closes that run
when a larger id begins the next one.
-/

namespace Mixtures

/-- The positions from `start` up to but not including `stop`. -/
structure Span where
  /-- The first position. -/
  start : Nat
  /-- The position after the last one. -/
  stop : Nat
deriving DecidableEq, Repr

namespace Span

/-- How many positions there are. -/
def length (span : Span) : Nat := span.stop - span.start

/-- The entries of a list at these positions. -/
def slice {β : Type} (span : Span) (xs : List β) : List β := (xs.drop span.start).take span.length

end Span

/-- For each group, the span of its samples. -/
structure Layout where
  /-- The spans, by group id. -/
  spans : List Span
deriving DecidableEq, Repr

namespace Layout

/-- A run of equal ids that has begun at a position. -/
structure Run where
  /-- The repeated id. -/
  group : Nat
  /-- The position of its first occurrence. -/
  start : Nat
deriving DecidableEq, Repr

/-- The group of a run that ends before a position, with its span. -/
def Run.closeAt (run : Run) (stop : Nat) : Nat × Span := (run.group, ⟨run.start, stop⟩)

/-- The runs of equal ids from a position on, given the run that is still open there. Fails at
the first id that is too large or smaller than the one before it. -/
def runs (groupCount : Nat) : Nat → Option Run → List Nat → Except Error (List (Nat × Span))
  | _, none, [] => .ok []
  | index, some run, [] => .ok [run.closeAt index]
  | index, current, id :: ids =>
    if groupCount ≤ id then .error (.inputContract index (.idTooLarge id groupCount))
    else
      match current with
      | none => runs groupCount (index + 1) (some ⟨id, index⟩) ids
      | some run =>
        if id < run.group then .error (.inputContract index (.idDecreases id run.group))
        else if id = run.group then runs groupCount (index + 1) (some run) ids
        else do
          let later ← runs groupCount (index + 1) (some ⟨id, index⟩) ids
          return run.closeAt index :: later

/-- The layout of a list of ids with the given number of groups. -/
def ofIds (ids : List Nat) (groupCount : Nat) : Except Error Layout := do
  let found ← runs groupCount 0 none ids
  return ⟨(List.range groupCount).map fun g => (found.lookup g).getD ⟨0, 0⟩⟩

/-- The number of groups, with and without samples. -/
def groupCount (layout : Layout) : Nat := layout.spans.length

/-- The span of a group, empty beyond the last group. -/
def span (layout : Layout) (group : Nat) : Span := layout.spans.getD group ⟨0, 0⟩

/-- The entries of an aligned list that belong to a group. -/
def slice {β : Type} (layout : Layout) (group : Nat) (xs : List β) : List β :=
  (layout.span group).slice xs

end Layout

end Mixtures
