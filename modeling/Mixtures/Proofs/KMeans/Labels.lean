import Mixtures.KMeans.Fit
import Mixtures.Proofs.Search

/-!
# Labels of a clustering

Whatever the random draws are, a clustering of a group has the right form: as many centroids as
clusters, and one label below their number for each point. Refinement keeps this form, step by
step, and clustering fails only where a seed is drawn from weights that add up to infinity.
-/

namespace Mixtures.KMeans

variable {α ρ : Type} [Scalar α] [RandomSource ρ]

/-- A clustering of points into a number of clusters: that many centroids, and for each point a
label below that number. -/
structure Clustering.Fits (points : List (Point α)) (k : Nat) (c : Clustering α) : Prop where
  centroidCount : c.centroids.length = k
  labelCount : c.labels.length = points.length
  label_lt : ∀ label ∈ c.labels, label < k

theorem getD_assign {points centroids : List (Point α)} {i : Nat} (hi : i < points.length) :
    (assign points centroids).getD i 0 = Point.nearestIndex (points.getD i []) centroids := by
  rw [assign, List.getD_eq_getElem?_getD, List.getD_eq_getElem?_getD, List.getElem?_map,
    List.getElem?_eq_getElem hi]
  rfl

theorem assign_fits (points : List (Point α)) {centroids : List (Point α)} {k : Nat} (hk : 0 < k)
    (h : centroids.length = k) :
    Clustering.Fits points k { centroids, labels := assign points centroids } := by
  refine ⟨h, List.length_map _, fun label hlabel => ?_⟩
  obtain ⟨x, -, rfl⟩ := List.mem_map.mp hlabel
  rw [← h]
  exact Point.nearestIndex_lt x (List.ne_nil_of_length_pos (by omega))

/-- A refinement step keeps the form of a clustering. -/
theorem step_fits {points : List (Point α)} {k : Nat} (hk : 0 < k) {c : Clustering α}
    (h : c.Fits points k) : (step points c).Fits points k := by
  refine assign_fits points hk ?_
  rw [moveCentroids, List.length_mapIdx, h.centroidCount]

/-- Refinement ends with a step that repeats the labels. -/
theorem refine_succ_of_eq {points : List (Point α)} {c : Clustering α}
    (h : (step points c).labels = c.labels) (budget : Nat) :
    refine points (budget + 1) c = (step points c, 1) := by
  rw [refine]
  dsimp only
  rw [if_pos (beq_iff_eq.mpr h)]

/-- Refinement goes on after a step that changes labels. -/
theorem refine_succ_of_ne {points : List (Point α)} {c : Clustering α}
    (h : (step points c).labels ≠ c.labels) (budget : Nat) :
    refine points (budget + 1) c =
      ((refine points budget (step points c)).1, (refine points budget (step points c)).2 + 1) := by
  rw [refine]
  dsimp only
  rw [if_neg (by simpa using h)]

/-- What every step keeps is kept by refinement, for as many steps as it takes. -/
theorem refine_preserves {points : List (Point α)} (P : Clustering α → Prop)
    (hstep : ∀ c, P c → P (step points c)) (budget : Nat) {c : Clustering α} (h : P c) :
    P (refine points budget c).1 := by
  induction budget generalizing c with
  | zero => exact h
  | succ budget ih =>
    by_cases hlabels : (step points c).labels = c.labels
    · rw [refine_succ_of_eq hlabels]
      exact hstep c h
    · rw [refine_succ_of_ne hlabels]
      exact ih (hstep c h)

/-- Refinement keeps the form of a clustering. -/
theorem refine_fits {points : List (Point α)} {k : Nat} (hk : 0 < k) (budget : Nat)
    {c : Clustering α} (h : c.Fits points k) : (refine points budget c).1.Fits points k :=
  refine_preserves (Clustering.Fits points k) (fun _ => step_fits hk) budget h

/-- Drawing a seed fails only on weights that add up to infinity. -/
theorem drawSeed_error {count : Nat} {distances : List α} {source : ρ} {e : Error}
    (h : drawSeed count distances source = .error e) : e = .infiniteWeight := by
  unfold drawSeed at h
  split at h <;> cases h
  rfl

/-- After a draw the seeding goes on with the distances to the chosen point. -/
theorem moreSeeds_succ_of_ok {points : List (Point α)} {n i : Nat} {distances : List α}
    {source next : ρ} (h : drawSeed points.length distances source = .ok (i, next)) :
    moreSeeds points (n + 1) distances source =
      (moreSeeds points n (lowerDistances points (points.getD i []) distances) next).map
        (points.getD i [] :: ·) := by
  rw [moreSeeds, h]
  dsimp only [bind, Except.bind]
  cases moreSeeds points n (lowerDistances points (points.getD i []) distances) next <;> rfl

theorem moreSeeds_outcome (points : List (Point α)) (n : Nat) (distances : List α) (source : ρ) :
    moreSeeds points n distances source = .error .infiniteWeight ∨
      ∃ seeds, moreSeeds points n distances source = .ok seeds ∧ seeds.length = n := by
  induction n generalizing distances source with
  | zero => exact .inr ⟨[], rfl, rfl⟩
  | succ n ih =>
    cases hdraw : drawSeed points.length distances source with
    | error e =>
      left
      rw [moreSeeds, hdraw, drawSeed_error hdraw]
      rfl
    | ok drawn =>
      obtain ⟨i, next⟩ := drawn
      rw [moreSeeds_succ_of_ok hdraw]
      rcases ih (lowerDistances points (points.getD i []) distances) next with h | ⟨more, h, hlen⟩
      · left
        rw [h]
        rfl
      · right
        rw [h]
        exact ⟨points.getD i [] :: more, rfl, by rw [List.length_cons, hlen]⟩

/-- Seeding gives as many centroids as clusters, or fails on weights that add up to infinity. -/
theorem seeds_outcome (points : List (Point α)) {k : Nat} (hk : 0 < k) (source : ρ) :
    seeds points k source = .error .infiniteWeight ∨
      ∃ centroids, seeds points k source = .ok centroids ∧ centroids.length = k := by
  unfold seeds
  rcases uniformBelow points.length source with ⟨i, source⟩
  dsimp only
  rcases moreSeeds_outcome points (k - 1)
    (points.map fun p => Point.squaredDistance p (points.getD i [])) source with h | ⟨more, h, hlen⟩
  · left
    rw [h]
    rfl
  · right
    refine ⟨points.getD i [] :: more, ?_, by rw [List.length_cons, hlen]; omega⟩
    rw [h]
    rfl

/-- The first seed is drawn without weights. -/
theorem seeds_ne_error_of_le_one (points : List (Point α)) {k : Nat} (hk : k ≤ 1) (source : ρ)
    (e : Error) : seeds points k source ≠ .error e := by
  have hmore : k - 1 = 0 := by omega
  unfold seeds
  rw [hmore]
  rcases uniformBelow points.length source with ⟨i, source⟩
  exact nofun

/-- Clustering points succeeds exactly if their seeding does, with what refinement makes of it. -/
theorem fitGroup_eq_ok_iff {points : List (Point α)} (hpoints : points ≠ []) {k budget : Nat}
    {source : ρ} {fit : GroupFit α} :
    fitGroup points k budget source = .ok fit ↔
      ∃ centroids, seeds points (min k points.length) source = .ok centroids ∧
        fit = ⟨(refine points budget ⟨centroids, assign points centroids⟩).1.centroids,
          (refine points budget ⟨centroids, assign points centroids⟩).1.labels,
          (refine points budget ⟨centroids, assign points centroids⟩).2⟩ := by
  rw [fitGroup, List.isEmpty_eq_false_iff.mpr hpoints, if_neg (by decide)]
  cases seeds points (min k points.length) source <;>
    simp [bind, Except.bind, pure, Except.pure, eq_comm]

/-- Clustering a group fails only in its seeding. Otherwise it gives one centroid for each cluster,
or for each point if there are fewer, and labels of the right form. -/
theorem fitGroup_outcome (points : List (Point α)) {k : Nat} (hk : 0 < k) (maxIterations : Nat)
    (source : ρ) :
    (seeds points (min k points.length) source = .error .infiniteWeight ∧
        fitGroup points k maxIterations source = .error .infiniteWeight) ∨
      (seeds points (min k points.length) source ≠ .error .infiniteWeight ∧
        ∃ fit, fitGroup points k maxIterations source = .ok fit ∧
          Clustering.Fits points (min k points.length) ⟨fit.centroids, fit.labels⟩) := by
  cases points with
  | nil =>
    refine .inr ⟨?_, ⟨[], [], 0⟩, rfl, by simp, rfl, by simp⟩
    rw [List.length_nil, Nat.min_zero, seeds]
    exact nofun
  | cons x xs =>
    have hpos : 0 < min k (x :: xs).length := by
      rw [List.length_cons]
      omega
    rw [fitGroup, List.isEmpty_cons, if_neg (by decide)]
    rcases seeds_outcome (x :: xs) hpos source with h | ⟨centroids, h, hlen⟩
    · left
      rw [h]
      exact ⟨rfl, rfl⟩
    · right
      rw [h]
      exact ⟨nofun, _, rfl, refine_fits hpos maxIterations (assign_fits (x :: xs) hpos hlen)⟩

end Mixtures.KMeans
