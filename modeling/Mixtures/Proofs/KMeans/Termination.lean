import Mathlib
import Mixtures.Proofs.KMeans.Settling
import Mixtures.Proofs.Means
import Mixtures.Proofs.Selection

/-!
# Refinement terminates

In exact arithmetic refinement ends by itself, whatever seeds it begins with. A step moves every
centroid to the mean of its points, from which the squared distances add up to the least, and then
gives every point the label of the nearest centroid. Neither raises the distortion, but with ties
neither needs to lower it. What a step cannot do is come back to labels that it has left: the
distortion of the labels at the means of their clusters would stand still in between, so the labels
would change by ties alone, and a tie goes to the lower label. Empty clusters, whose centroids stay
where they are, add nothing to this distortion.

* `distortion_step_le`: a step does not raise the distortion.
* `labels_iterate_eq_of_revisit`: labels that come back have not changed in between.
* `steps_le_labellings`: there are no more steps than labellings.
* `refinement_terminates`: all this for the refinement of sound clusterings, and so for the clusters
  of a group.
-/

namespace Mixtures.KMeans

open Finset (range)

section Iteration

variable {α : Type} [Scalar α] {points : List (Point α)}

/-- The distortion of a clustering: the squared distances of the points to the centroids of their
labels, added up. -/
def distortion (points : List (Point α)) (c : Clustering α) : α :=
  Scalar.sum ((points.zip c.labels).map fun entry =>
    Point.squaredDistance entry.1 (c.centroids.getD entry.2 []))

/-- A clustering whose centroids have been moved, while its labels are still those from before. -/
def moved (points : List (Point α)) (c : Clustering α) : Clustering α :=
  ⟨moveCentroids points c, c.labels⟩

/-- Refinement is repeated steps. -/
theorem refine_eq_iterate (points : List (Point α)) (budget : Nat) (c : Clustering α) :
    (refine points budget c).1 = (step points)^[(refine points budget c).2] c := by
  induction budget generalizing c with
  | zero => rfl
  | succ budget ih =>
    by_cases hlabels : (step points c).labels = c.labels
    · rw [refine_succ_of_eq hlabels]
      rfl
    · rw [refine_succ_of_ne hlabels]
      exact ih (step points c)

/-- As long as refinement goes on, every step changes labels. -/
theorem labels_iterate_ne {budget : Nat} {c : Clustering α} {i : Nat}
    (h : i + 1 < (refine points budget c).2) :
    ((step points)^[i + 1] c).labels ≠ ((step points)^[i] c).labels := by
  induction budget generalizing c i with
  | zero => cases h
  | succ budget ih =>
    by_cases hlabels : (step points c).labels = c.labels
    · rw [refine_succ_of_eq hlabels] at h
      omega
    · rw [refine_succ_of_ne hlabels] at h
      cases i with
      | zero => exact hlabels
      | succ i => exact ih (c := step points c) (Nat.lt_of_succ_lt_succ h)

theorem iterate_sound {dim k : Nat} (hk : 0 < k) {c : Clustering α} (h : c.Sound points dim k)
    (i : Nat) : ((step points)^[i] c).Sound points dim k :=
  Function.Iterate.rec (fun c : Clustering α => c.Sound points dim k) h (fun _ => step_sound hk) i

end Iteration

variable {points : List (Point ℝ)} {dim k : Nat} {c : Clustering ℝ}

/-! ## Moving centroids -/

/-- A sum over entries with labels, label by label. -/
theorem sum_eq_sum_labels {β : Type} {entries : List (β × Nat)} (h : ∀ entry ∈ entries, entry.2 < k)
    (f : β × Nat → ℝ) :
    (entries.map f).sum =
      ∑ label ∈ range k, ((entries.filter fun entry => entry.2 == label).map f).sum := by
  induction entries with
  | nil => simp
  | cons entry entries ih =>
    obtain ⟨hentry, hrest⟩ := List.forall_mem_cons.mp h
    have hfirst : ∑ label ∈ range k, (if entry.2 == label then f entry else 0) = f entry := by
      simp [hentry]
    rw [List.map_cons, List.sum_cons, ih hrest, ← hfirst, ← Finset.sum_add_distrib]
    refine Finset.sum_congr rfl fun label _ => ?_
    rw [List.filter_cons]
    split
    · rw [List.map_cons, List.sum_cons]
    · rw [zero_add]

theorem distortion_eq_sum_labels (h : c.Fits points k) :
    distortion points c =
      ∑ label ∈ range k, ((members points c.labels label).map
        (Point.squaredDistance · (c.centroids.getD label []))).sum := by
  rw [distortion, Exact.sum_eq,
    sum_eq_sum_labels fun entry hentry => h.label_lt _ (List.of_mem_zip hentry).2]
  refine Finset.sum_congr rfl fun label _ => congrArg List.sum ?_
  rw [members, List.map_map]
  refine List.map_congr_left fun entry hentry => ?_
  rw [beq_iff_eq.mp (List.mem_filter.mp hentry).2]
  rfl

theorem moved_fits (h : c.Fits points k) : (moved points c).Fits points k :=
  ⟨(List.length_mapIdx).trans h.centroidCount, h.labelCount, h.label_lt⟩

/-- Moving the centroids does not raise the distortion. -/
theorem distortion_moved_le (hdim : ∀ x ∈ points, x.length = dim) (h : c.Sound points dim k) :
    distortion points (moved points c) ≤ distortion points c := by
  rw [distortion_eq_sum_labels (moved_fits h.fits), distortion_eq_sum_labels h.fits]
  refine Finset.sum_le_sum fun label hlabel => ?_
  rw [Finset.mem_range] at hlabel
  rw [moved, getD_moveCentroids h hlabel]
  exact sum_squaredDistance_moveTo_le (fun x hx => hdim x (mem_of_mem_members hx))
    (length_getD_centroids h hlabel) (length_getD_centroids h hlabel)

/-- After moving the centroids, the distortion depends on the labels alone: where there are no
points, it does not matter that the centroid stays. -/
theorem distortion_moved_congr (hdim : ∀ x ∈ points, x.length = dim) {c c' : Clustering ℝ}
    (h : c.Sound points dim k) (h' : c'.Sound points dim k) (hlabels : c.labels = c'.labels) :
    distortion points (moved points c) = distortion points (moved points c') := by
  rw [distortion_eq_sum_labels (moved_fits h.fits), distortion_eq_sum_labels (moved_fits h'.fits)]
  refine Finset.sum_congr rfl fun label hlabel => ?_
  rw [Finset.mem_range] at hlabel
  rw [moved, moved, getD_moveCentroids h hlabel, getD_moveCentroids h' hlabel, hlabels]
  have hmembers : ∀ x ∈ members points c'.labels label, x.length = dim := fun x hx =>
    hdim x (mem_of_mem_members hx)
  by_cases hempty : members points c'.labels label = []
  · rw [hempty]
    rfl
  · rw [moveTo_eq_weightedMean hempty hmembers (length_getD_centroids h hlabel),
      moveTo_eq_weightedMean hempty hmembers (length_getD_centroids h' hlabel)]

/-! ## Assigning labels -/

theorem distortion_eq_sum_points (h : c.labels.length = points.length) :
    distortion points c =
      ∑ i ∈ range points.length, Point.squaredDistance (points.getD i [])
        (c.centroids.getD (c.labels.getD i 0) []) := by
  have hlength : (points.zip c.labels).length = points.length := by
    rw [List.length_zip, h, Nat.min_self]
  rw [distortion, Exact.sum_eq, Exact.sum_eq_sum_range ((List.length_map _).trans hlength)]
  refine Finset.sum_congr rfl fun i hi => ?_
  rw [Finset.mem_range] at hi
  rw [List.getD_eq_getElem _ _ (by rw [List.length_map, hlength]; exact hi), List.getElem_map,
    List.getElem_zip, List.getD_eq_getElem points _ hi, List.getD_eq_getElem c.labels _ (h ▸ hi)]

section Assign

variable (hk : 0 < k) (h : c.Fits points k)

include h

/-- The nearest centroid is no farther than that of the label. -/
theorem squaredDistance_assign_le {i : Nat} (hi : i < points.length) :
    Point.squaredDistance (points.getD i [])
        (c.centroids.getD ((assign points c.centroids).getD i 0) []) ≤
      Point.squaredDistance (points.getD i []) (c.centroids.getD (c.labels.getD i 0) []) := by
  have hlabel : c.labels.getD i 0 < c.centroids.length := by
    rw [h.centroidCount]
    exact h.label_lt _ (getD_mem (hi.trans_eq h.labelCount.symm) 0)
  rw [getD_assign hi]
  exact (Point.nearestIndex_least (points.getD i [])
    (List.ne_nil_of_length_pos (Nat.zero_lt_of_lt hlabel))).1 _ (getD_mem hlabel [])

/-- Labels of the nearest centroids do not raise the distortion. -/
theorem distortion_assign_le :
    distortion points ⟨c.centroids, assign points c.centroids⟩ ≤ distortion points c := by
  rw [distortion_eq_sum_points (List.length_map _), distortion_eq_sum_points h.labelCount]
  exact Finset.sum_le_sum fun i hi => squaredDistance_assign_le h (Finset.mem_range.mp hi)

include hk

/-- If they do not lower it either, they change by ties alone, and those are broken downwards. -/
theorem assign_le_of_distortion_eq
    (heq : distortion points ⟨c.centroids, assign points c.centroids⟩ = distortion points c)
    {i : Nat}
    (hi : i < points.length) : (assign points c.centroids).getD i 0 ≤ c.labels.getD i 0 := by
  rw [distortion_eq_sum_points (List.length_map _), distortion_eq_sum_points h.labelCount,
    Finset.sum_eq_sum_iff_of_le fun i hi => squaredDistance_assign_le h (Finset.mem_range.mp hi)]
    at heq
  have htie := heq i (Finset.mem_range.mpr hi)
  have hcentroids : c.centroids ≠ [] := List.ne_nil_of_length_pos (h.centroidCount ▸ hk)
  rw [getD_assign hi] at htie ⊢
  by_contra hlt
  exact ((Point.nearestIndex_least _ hcentroids).2 _ (not_le.mp hlt)).ne htie

end Assign

/-! ## Steps -/

section Steps

variable (hdim : ∀ x ∈ points, x.length = dim) (hk : 0 < k) (h : c.Sound points dim k)

include hdim h

/-- **A step does not raise the distortion.** -/
theorem distortion_step_le : distortion points (step points c) ≤ distortion points c :=
  (distortion_assign_le (moved_fits h.fits)).trans (distortion_moved_le hdim h)

include hk

/-- What the centroids make of the labels falls from step to step. -/
theorem antitone_distortion_moved :
    Antitone fun i => distortion points (moved points ((step points)^[i] c)) := by
  refine antitone_nat_of_succ_le fun i => ?_
  have hsound := iterate_sound hk h i
  rw [Function.iterate_succ_apply']
  exact (distortion_moved_le hdim (step_sound hk hsound)).trans
    (distortion_assign_le (moved_fits hsound.fits))

/-- **Labels that come back have never changed**: a labelling that is seen again is repeated by the
next step. -/
theorem labels_iterate_eq_of_revisit {i j : Nat} (hij : i < j)
    (hlabels : ((step points)^[i] c).labels = ((step points)^[j] c).labels) :
    ((step points)^[i + 1] c).labels = ((step points)^[i] c).labels := by
  have hsound := iterate_sound hk h
  have hback := distortion_moved_congr hdim (hsound i) (hsound j) hlabels
  have hantitone := antitone_distortion_moved hdim hk h
  -- between the two visits the distortion stands still, so every label only falls
  have hfalls : ∀ t, i ≤ t → t < j → ∀ n < points.length,
      ((step points)^[t + 1] c).labels.getD n 0 ≤ ((step points)^[t] c).labels.getD n 0 := by
    intro t hit htj n hn
    rw [Function.iterate_succ_apply']
    refine assign_le_of_distortion_eq hk (moved_fits (hsound t).fits) (le_antisymm ?_ ?_) hn
    · exact distortion_assign_le (moved_fits (hsound t).fits)
    · calc distortion points (moved points ((step points)^[t] c))
          ≤ distortion points (moved points ((step points)^[i] c)) := hantitone hit
        _ = distortion points (moved points ((step points)^[j] c)) := hback
        _ ≤ distortion points (moved points ((step points)^[t + 1] c)) := hantitone htj
        _ = distortion points (moved points (step points ((step points)^[t] c))) := by
            rw [Function.iterate_succ_apply']
        _ ≤ distortion points (step points ((step points)^[t] c)) :=
            distortion_moved_le hdim (step_sound hk (hsound t))
  have hlast : ∀ n < points.length, ∀ t, i + 1 ≤ t → t ≤ j →
      ((step points)^[t] c).labels.getD n 0 ≤ ((step points)^[i + 1] c).labels.getD n 0 := by
    intro n hn t hit
    induction t, hit using Nat.le_induction with
    | base => exact fun _ => le_rfl
    | succ t hit ih => exact fun htj => (hfalls t (by omega) htj n hn).trans (ih (by omega))
  refine List.ext_getElem ((hsound _).fits.labelCount.trans (hsound _).fits.labelCount.symm) ?_
  intro n hn hn'
  have hpoint : n < points.length := hn.trans_eq (hsound _).fits.labelCount
  have hle := hfalls i le_rfl hij n hpoint
  have hge := hlast n hpoint j hij le_rfl
  rw [← hlabels, List.getD_eq_getElem _ _ hn', List.getD_eq_getElem _ _ hn] at hge
  rw [List.getD_eq_getElem _ _ hn', List.getD_eq_getElem _ _ hn] at hle
  exact le_antisymm hle hge

end Steps

/-! ## The number of steps -/

/-- A labelling that refinement sees twice is the last one, and the step before has led to it. -/
theorem eq_of_revisit (hdim : ∀ x ∈ points, x.length = dim) (hk : 0 < k) (h : c.Sound points dim k)
    {budget i j : Nat} (hij : i < j) (hj : j ≤ (refine points budget c).2)
    (hlabels : ((step points)^[i] c).labels = ((step points)^[j] c).labels) :
    j = (refine points budget c).2 ∧ j = i + 1 := by
  have hrepeat := labels_iterate_eq_of_revisit hdim hk h hij hlabels
  have hlast : ¬i + 1 < (refine points budget c).2 := fun hlt => labels_iterate_ne hlt hrepeat
  omega

/-- Refinement takes no more steps than there are labellings. -/
theorem steps_le_labellings (hdim : ∀ x ∈ points, x.length = dim) (hk : 0 < k)
    (h : c.Sound points dim k) (budget : Nat) :
    (refine points budget c).2 ≤ k ^ points.length := by
  have hsound := iterate_sound hk h
  let labelling (i : Fin (refine points budget c).2) (n : Fin points.length) : Fin k :=
    ⟨((step points)^[i] c).labels.get ⟨n, n.isLt.trans_eq (hsound i).fits.labelCount.symm⟩,
      (hsound i).fits.label_lt _ (List.getElem_mem _)⟩
  have hinjective : Function.Injective labelling := by
    have hdistinct : ∀ i j : Fin (refine points budget c).2, i < j → labelling i ≠ labelling j := by
      intro i j hij heq
      have hlabels : ((step points)^[i] c).labels = ((step points)^[j] c).labels := by
        refine List.ext_getElem
          ((hsound i).fits.labelCount.trans (hsound j).fits.labelCount.symm) fun n hn _ => ?_
        have hpoint : n < points.length := hn.trans_eq (hsound i).fits.labelCount
        exact congrArg Fin.val (congrFun heq ⟨n, hpoint⟩)
      obtain ⟨hlast, -⟩ := eq_of_revisit hdim hk h hij j.isLt.le hlabels
      exact j.isLt.ne hlast
    intro i j heq
    by_contra hne
    rcases lt_or_gt_of_ne hne with hij | hji
    · exact hdistinct i j hij heq
    · exact hdistinct j i hji heq.symm
  have hcard := Fintype.card_le_of_injective labelling hinjective
  rwa [Fintype.card_fin, Fintype.card_fun, Fintype.card_fin, Fintype.card_fin] at hcard

/-- How refinement of clusters of points, at most `k` of them, comes to an end. Step after step the
distortion does not rise. The last clustering is that of the last step, no labelling is seen twice
but the last one, which the last step may repeat, and there are no more steps than labellings, so
that with a larger budget the end is a fixed point. -/
structure Terminates (points : List (Point ℝ)) (k budget : Nat) (c : Clustering ℝ) : Prop where
  distortion_le : ∀ i, distortion points ((step points)^[i + 1] c) ≤
    distortion points ((step points)^[i] c)
  final_eq : (refine points budget c).1 = (step points)^[(refine points budget c).2] c
  revisit : ∀ i j, i < j → j ≤ (refine points budget c).2 →
    ((step points)^[i] c).labels = ((step points)^[j] c).labels →
      j = (refine points budget c).2 ∧ j = i + 1
  steps_le : (refine points budget c).2 ≤ k ^ points.length
  settles : k ^ points.length < budget →
    step points (refine points budget c).1 = (refine points budget c).1

theorem terminates (hdim : ∀ x ∈ points, x.length = dim) (hk : 0 < k) (h : c.Sound points dim k)
    (budget : Nat) : Terminates points k budget c where
  distortion_le i := by
    rw [Function.iterate_succ_apply']
    exact distortion_step_le hdim (iterate_sound hk h i)
  final_eq := refine_eq_iterate points budget c
  revisit i j := eq_of_revisit hdim hk h
  steps_le := steps_le_labellings hdim hk h budget
  settles hbudget :=
    step_refine_of_settled ((steps_le_labellings hdim hk h budget).trans_lt hbudget)

/-- **Refinement terminates**, in exact arithmetic: from every sound clustering with as many
centroids as clusters are asked for, or as there are points, and so for the clusters of a group,
which are always found, from any source of random words. -/
theorem refinement_terminates {points : List (Point ℝ)} {dim k : Nat} (hpoints : points ≠ [])
    (hdim : ∀ x ∈ points, x.length = dim) (hk : 0 < k) :
    (∀ (c : Clustering ℝ) (budget : Nat), c.Sound points dim (min k points.length) →
        Terminates points (min k points.length) budget c) ∧
      ∀ (ρ : Type) [RandomSource ρ] (source : ρ) (budget : Nat),
        ∃ centroids fit, seeds points (min k points.length) source = .ok centroids ∧
          Terminates points (min k points.length) budget ⟨centroids, assign points centroids⟩ ∧
          fitGroup points k budget source = .ok fit ∧
          refine points budget ⟨centroids, assign points centroids⟩ =
            (⟨fit.centroids, fit.labels⟩, fit.iterations) := by
  have hpos : 0 < points.length := List.length_pos_of_ne_nil hpoints
  have hcount : 0 < min k points.length := by omega
  have hall : ∀ (c : Clustering ℝ) (budget : Nat), c.Sound points dim (min k points.length) →
      Terminates points (min k points.length) budget c := fun c budget h =>
    terminates hdim hcount h budget
  refine ⟨hall, fun ρ _ source budget => ?_⟩
  rcases seeds_outcome points hcount source with herror | ⟨centroids, hseeds, -⟩
  · exact absurd herror (seeds_ne_error_of_isFinite Exact.isFinite_eq points _ source)
  · exact ⟨centroids, _, hseeds, hall _ budget (seeds_sound hdim hpos hcount hseeds),
      (fitGroup_eq_ok_iff hpoints).mpr ⟨centroids, hseeds, rfl⟩, rfl⟩

/-- Two samples on a line and one far away from them settle into two clusters, in eight steps at
most, also if refinement begins with centroids at the two. -/
theorem refinement_terminates_threeOnLine :
    Terminates [[0], [1], [9]] 2 9 ⟨[[0], [1]], [0, 1, 1]⟩ ∧
      ∃ fit, fitGroup [[0], [1], [9]] 2 9 ({ words := [3] } : WordList) = .ok fit ∧
        fit.iterations ≤ 8 ∧
        step [[0], [1], [9]] ⟨fit.centroids, fit.labels⟩ =
          (⟨fit.centroids, fit.labels⟩ : Clustering ℝ) := by
  have hdim : ∀ x ∈ ([[0], [1], [9]] : List (Point ℝ)), x.length = 1 := by simp
  obtain ⟨hall, hgroup⟩ := refinement_terminates (List.cons_ne_nil _ _) hdim Nat.two_pos
  have hsound : Clustering.Sound [[0], [1], [9]] 1 2 (⟨[[0], [1]], [0, 1, 1]⟩ : Clustering ℝ) :=
    ⟨⟨rfl, rfl, by simp⟩, by simp⟩
  obtain ⟨centroids, fit, -, hends, hfit, hrefine⟩ := hgroup WordList { words := [3] } 9
  have hsteps := hends.steps_le
  have hsettles := hends.settles (by decide)
  rw [hrefine] at hsteps hsettles
  exact ⟨hall _ 9 hsound, fit, hfit, hsteps, hsettles⟩

end Mixtures.KMeans
