import Mixtures.Proofs.KMeans.Assignment

/-!
# Where refinement comes to rest

Centroids are moved to where their points put them, wherever they were before, and stay where they
are without points. Moving them once more with the same labels does nothing, so a step that repeats
the labels is the last one to change anything. Refinement that stops before its budget is spent has
come to such a step, and would have come to it with any other budget that allows as many steps.

* `moveCentroids_moveCentroids`: moving centroids is idempotent.
* `step_step_of_labels_eq`: a step that repeats the labels leads to a fixed point.
* `refine_of_settled`: refinement that has settled does not depend on the budget.
* `refinement_settles`: both of these for the clusters of a group.
-/

namespace Mixtures.KMeans

variable {α ρ : Type} [Scalar α] [RandomSource ρ] {points : List (Point α)}

/-- A centroid is moved to where its points put it, wherever it was. -/
theorem moveTo_moveTo (dim : Nat) (points : List (Point α)) (centroid : Point α) :
    moveTo dim points (moveTo dim points centroid) = moveTo dim points centroid := by
  unfold moveTo
  split
  · rfl
  · dsimp only
    rw [Point.overlay_overlay]

/-- Moving keeps the number of coordinates that the sums of points begin with. -/
theorem length_headD_moveCentroids (points : List (Point α)) (c : Clustering α) :
    ((moveCentroids points c).headD []).length = (c.centroids.headD []).length := by
  obtain ⟨centroids, labels⟩ := c
  cases centroids with
  | nil => rfl
  | cons centroid centroids =>
    rw [moveCentroids]
    dsimp only
    rw [List.mapIdx_cons, List.headD_cons, List.headD_cons, length_moveTo]

/-- Centroids that have been moved are where they are, as long as the labels stay. -/
theorem moveCentroids_moveCentroids (points : List (Point α)) (c : Clustering α) :
    moveCentroids points ⟨moveCentroids points c, c.labels⟩ = moveCentroids points c := by
  have hdim := length_headD_moveCentroids points c
  rw [moveCentroids, hdim, moveCentroids, List.mapIdx_mapIdx]
  simp only [Function.comp_def, moveTo_moveTo]

/-- A step that repeats the labels leads to a clustering that further steps leave alone. -/
theorem step_step_of_labels_eq {c : Clustering α} (h : (step points c).labels = c.labels) :
    step points (step points c) = step points c := by
  have hstep : step points c = ⟨moveCentroids points c, c.labels⟩ :=
    congrArg (Clustering.mk (moveCentroids points c)) h
  rw [step, hstep, moveCentroids_moveCentroids, ← hstep]
  rfl

theorem refine_steps_le (points : List (Point α)) (budget : Nat) (c : Clustering α) :
    (refine points budget c).2 ≤ budget := by
  induction budget generalizing c with
  | zero => exact Nat.le_refl 0
  | succ budget ih =>
    by_cases hlabels : (step points c).labels = c.labels
    · rw [refine_succ_of_eq hlabels]
      omega
    · rw [refine_succ_of_ne hlabels]
      exact Nat.succ_le_succ (ih (step points c))

/-- Refinement that leaves budget unspent ends at a fixed point. -/
theorem step_refine_of_settled {budget : Nat} {c : Clustering α}
    (h : (refine points budget c).2 < budget) :
    step points (refine points budget c).1 = (refine points budget c).1 := by
  induction budget generalizing c with
  | zero => cases h
  | succ budget ih =>
    by_cases hlabels : (step points c).labels = c.labels
    · rw [refine_succ_of_eq hlabels]
      exact step_step_of_labels_eq hlabels
    · rw [refine_succ_of_ne hlabels] at h ⊢
      exact ih (Nat.lt_of_succ_lt_succ h)

/-- Refinement that leaves budget unspent is the same with any budget for its steps. -/
theorem refine_of_settled {budget other : Nat} {c : Clustering α}
    (h : (refine points budget c).2 < budget) (hother : (refine points budget c).2 ≤ other) :
    refine points other c = refine points budget c := by
  induction budget generalizing c other with
  | zero => cases h
  | succ budget ih =>
    by_cases hlabels : (step points c).labels = c.labels
    · rw [refine_succ_of_eq hlabels] at hother ⊢
      obtain ⟨rest, rfl⟩ := Nat.exists_eq_add_of_le' hother
      exact refine_succ_of_eq hlabels rest
    · rw [refine_succ_of_ne hlabels] at h hother ⊢
      obtain ⟨rest, rfl⟩ := Nat.exists_eq_add_of_le' (Nat.le_of_add_left_le hother)
      rw [refine_succ_of_ne hlabels, ih (Nat.lt_of_succ_lt_succ h) (Nat.le_of_succ_le_succ hother)]

/-- The clusters of a group that leave budget unspent are the same with any budget for their
steps. -/
theorem fitGroup_of_settled {k budget other : Nat} {source : ρ} {fit : GroupFit α}
    (h : fitGroup points k budget source = .ok fit) (hsettled : fit.iterations < budget)
    (hother : fit.iterations ≤ other) : fitGroup points k other source = .ok fit := by
  by_cases hpoints : points = []
  · subst hpoints
    exact h
  · obtain ⟨centroids, hseeds, rfl⟩ := (fitGroup_eq_ok_iff hpoints).mp h
    rw [fitGroup_eq_ok_iff hpoints]
    refine ⟨centroids, hseeds, ?_⟩
    rw [refine_of_settled hsettled hother]

/-- **Refinement settles.** The clusters of a group take no more steps than the budget allows. If
they take fewer, moving the centroids and labelling the points once more changes nothing, clusters
without points included, and any other budget for that many steps leads to the same clusters in as
many steps. -/
theorem refinement_settles {points : List (Point α)} (hpoints : points ≠ []) {k budget : Nat}
    {source : ρ} {fit : GroupFit α} (h : fitGroup points k budget source = .ok fit) :
    fit.iterations ≤ budget ∧
      (fit.iterations < budget →
        (moveCentroids points ⟨fit.centroids, fit.labels⟩ = fit.centroids ∧
            assign points (moveCentroids points ⟨fit.centroids, fit.labels⟩) = fit.labels) ∧
          ∀ other, fit.iterations ≤ other → fitGroup points k other source = .ok fit) := by
  have hbudget : fit.iterations < budget → ∀ other, fit.iterations ≤ other →
      fitGroup points k other source = .ok fit := by
    intro hsettled other
    exact fitGroup_of_settled h hsettled
  obtain ⟨centroids, -, rfl⟩ := (fitGroup_eq_ok_iff hpoints).mp h
  refine ⟨refine_steps_le points budget _, fun hsettled => ⟨?_, hbudget hsettled⟩⟩
  have hstep := step_refine_of_settled hsettled
  exact ⟨congrArg Clustering.centroids hstep, congrArg Clustering.labels hstep⟩

theorem refinement_settles_pairAndOutlier :
    ∃ fit, fitGroup pairAndOutlier 2 5 ({ words := [3] } : WordList) = .ok fit ∧
      fit.iterations = 2 ∧
      (moveCentroids pairAndOutlier ⟨fit.centroids, fit.labels⟩ = fit.centroids ∧
        assign pairAndOutlier (moveCentroids pairAndOutlier ⟨fit.centroids, fit.labels⟩) =
          fit.labels) ∧
      fitGroup pairAndOutlier 2 2 ({ words := [3] } : WordList) = .ok fit := by
  have hrun : (fitGroup pairAndOutlier 2 5 ({ words := [3] } : WordList)).toOption.map
      (·.iterations) = some 2 := by
    decide +kernel
  obtain ⟨fit, hfit, hsteps⟩ := exists_ok_of_toOption hrun
  obtain ⟨-, hsettled⟩ := refinement_settles (by simp [pairAndOutlier]) hfit
  obtain ⟨hfixed, hbudget⟩ := hsettled (by omega)
  exact ⟨fit, hfit, hsteps, hfixed, hbudget 2 hsteps.le⟩

end Mixtures.KMeans
