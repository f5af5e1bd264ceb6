import Mixtures.Error

/-!
# Executors

Fitting runs one task for each group. An executor says how: one after the other, or at the same
time. Tasks are pure, so every executor gives the results in group order that mapping over the
groups gives; this law is part of the type.
-/

namespace Mixtures

/-- A way to run one task for each group. -/
structure Executor where
  /-- The results of the tasks of groups `0`, `1`, …, below the given count. -/
  mapGroups : {β : Type} → Nat → (Nat → β) → List β
  /-- Results come in group order and do not depend on how the tasks were run. -/
  mapGroups_eq : ∀ {β : Type} (count : Nat) (task : Nat → β),
    mapGroups count task = (List.range count).map task
  /-- The number of workers set aside for this executor, if any were. -/
  workers : Option Nat := none

namespace Executor

/-- Runs the tasks one after the other. -/
def sequential : Executor where
  mapGroups count task := (List.range count).map task
  mapGroups_eq _ _ := rfl

/-- Runs the tasks at the same time on the shared workers. -/
def parallel : Executor where
  mapGroups count task :=
    ((List.range count).map fun group => Task.spawn fun _ => task group).map Task.get
  mapGroups_eq count task := by simp [Task.spawn, Function.comp_def]

/-- Runs the tasks at the same time on workers of its own; there has to be at least one. -/
def withWorkers (count : Nat) : Except Error Executor :=
  if count = 0 then .error (.invalidParameter .threads)
  else .ok { parallel with workers := some count }

end Executor

end Mixtures
