import Mixtures.Em.Run

/-!
# What the steps of training read

The steps of training look at few of the settings: the number of components, the floor, the form of
covariances and the bound on resets. The other settings decide when to stop (the tolerance and the
budget) or nothing about a group at all (the seed, the start and the verbosity).

* `expect_congr` and `maximize_congr`: problems that agree in what the steps read have the same
  steps.
* `train_congr`: if they also stop at the same time, they have the same result.
-/

namespace Mixtures.Em.Problem

variable {α F : Type} [Scalar α]

/-- Two problems agree in all that the steps of training read. -/
structure SameSteps (p q : Problem α F) : Prop where
  points : p.points = q.points
  dim : p.dim = q.dim
  kernel : p.kernel = q.kernel
  count : p.settings.componentCount = q.settings.componentCount
  floor : p.settings.floor = q.settings.floor
  form : p.settings.form = q.settings.form
  maxResets : p.settings.maxResets = q.settings.maxResets

variable {p q : Problem α F}

omit [Scalar α] in
/-- Problems with the same steps are equal once the other settings are made equal. -/
theorem SameSteps.eq (h : p.SameSteps q) :
    p = { q with settings := { p.settings with
      componentCount := q.settings.componentCount
      floor := q.settings.floor
      form := q.settings.form
      maxResets := q.settings.maxResets } } := by
  obtain ⟨⟨_, _, _, _, _, _, _, _, _⟩, _, _, _⟩ := p
  obtain ⟨hpoints, hdim, hkernel, hcount, hfloor, hform, hresets⟩ := h
  simp only at hpoints hdim hkernel hcount hfloor hform hresets
  simp only [hpoints, hdim, hkernel, hcount, hfloor, hform, hresets]

theorem reset_congr (h : p.SameSteps q) (component : Nat) (s : State α) :
    p.reset component s = q.reset component s := by
  rw [h.eq]
  rfl

theorem resetAll_congr (h : p.SameSteps q) (components : List Nat) (s : State α) :
    p.resetAll components s = q.resetAll components s := by
  induction components generalizing s with
  | nil => rfl
  | cons component components ih =>
    rw [resetAll, resetAll, reset_congr h, funext fun _ => funext ih]

/-- The maximization step is the same. -/
theorem maximize_congr (h : p.SameSteps q) (s : State α) : p.maximize s = q.maximize s := by
  have hestimates : p.estimates = q.estimates := by
    rw [h.eq]
    rfl
  have hsilence : p.silence = q.silence := by
    rw [h.eq]
    rfl
  have hcount : p.count = q.count := h.count
  have hsize : p.size = q.size := by rw [size, size, h.points]
  unfold maximize
  simp only [hestimates, hsilence, hcount, hsize, resetAll_congr h]

theorem factorAt_congr (h : p.SameSteps q) (component : Nat) (s : State α) :
    p.factorAt component s = q.factorAt component s := by
  rw [h.eq]
  rfl

theorem factorAll_congr (h : p.SameSteps q) (components : List Nat) (s : State α) :
    p.factorAll components s = q.factorAll components s := by
  induction components generalizing s with
  | nil => rfl
  | cons component components ih =>
    rw [factorAll, factorAll, factorAt_congr h]
    simp only [ih]

/-- The expectation step is the same. -/
theorem expect_congr (h : p.SameSteps q) (s : State α) : p.expect s = q.expect s := by
  have hcount : p.count = q.count := h.count
  have hdistribute : p.distribute = q.distribute := by
    rw [h.eq]
    rfl
  unfold expect
  simp only [factorAll_congr h, hcount, hdistribute]

theorem iterate_congr (h : p.SameSteps q)
    (htolerance : p.settings.tolerance = q.settings.tolerance) (budget index : Nat)
    (before : Option α) (valid : Option (List (Component α))) (s : State α) :
    p.iterate budget index before valid s = q.iterate budget index before valid s := by
  have hsettled : p.hasSettled = q.hasSettled := by
    unfold hasSettled
    rw [htolerance]
  induction budget generalizing index before valid s with
  | zero => rfl
  | succ budget ih =>
    rw [iterate, iterate]
    simp only [expect_congr h, maximize_congr h, hsettled, ih]

/-- **Training reads no more** than what its steps read and when they stop. -/
theorem train_congr (h : p.SameSteps q)
    (htolerance : p.settings.tolerance = q.settings.tolerance)
    (hbudget : p.settings.maxIterations = q.settings.maxIterations) (labels : List Nat) :
    p.train labels = q.train labels := by
  have hending : p.ending = q.ending := by
    funext s
    unfold ending
    simp only [maximize_congr h, hbudget, iterate_congr h htolerance]
  have hreport : p.report = q.report := by
    rw [h.eq]
    rfl
  have hinitial : p.initialState = q.initialState := by
    rw [h.eq]
    rfl
  have hcount : p.count = q.count := h.count
  unfold train
  simp only [hending, hreport, hinitial, hcount, h.points, h.dim, h.floor]

end Mixtures.Em.Problem
