import Mixtures.Proofs.KMeans.Labels
import Mixtures.Proofs.Random.Draws

/-!
# The course of seeding

Seeding draws one position after the other, each from the squared distances to the nearest point
chosen before it. `Course` lists the situations it comes through. In all of them the positions are
those of points, and there is one distance for each point. What ends it early is only a situation
whose distances add up to infinity.

* `Course.lt_length`, `Course.length_distances`: every draw is in range.
* `seeds_outcome_course`: seeding ends with the points at the drawn positions, or where distances
  add up to infinity.
* `seeds_sound`, `refine_sound`: before refinement and in every step of it the centroids have the
  dimension of the points, and every label is the position of one.
-/

namespace Mixtures.KMeans

variable {α ρ : Type} [Scalar α] [RandomSource ρ]

/-- There stays one distance for each point. -/
theorem length_lowerDistances {points : List (Point α)} {distances : List α}
    (h : distances.length = points.length) (chosen : Point α) :
    (lowerDistances points chosen distances).length = points.length := by
  rw [lowerDistances, List.length_zipWith, h, Nat.min_self]

/-- A seed is one of the points there are. -/
theorem drawSeed_lt {count i : Nat} {distances : List α} {source next : ρ} (hpos : 0 < count)
    (hlength : distances.length = count) (h : drawSeed count distances source = .ok (i, next)) :
    i < count := by
  unfold drawSeed at h
  split at h
  next choice hchoice =>
    have hdraw := WeightedChoice.draw_lt hchoice source
    rw [Except.ok.inj h] at hdraw
    exact hdraw.trans_eq hlength
  next => cases h
  next =>
    have huniform := uniformBelow_lt hpos source
    rwa [Except.ok.inj h] at huniform

/-- Drawing a seed fails exactly on weights that add up to infinity. -/
theorem drawSeed_eq_error_iff {count : Nat} {distances : List α} {source : ρ} :
    drawSeed count distances source = .error .infiniteWeight ↔
      WeightedChoice.fault? distances = some .infiniteTotal := by
  rw [← WeightedChoice.ofWeights_eq_error_iff, drawSeed]
  split
  next hchoice => simp [hchoice]
  next hchoice => simp [hchoice]
  next fault hne hchoice =>
    rw [hchoice]
    exact ⟨nofun, fun h => absurd (Except.error.inj h) hne⟩

/-- The situations that seeding comes through: the positions drawn so far, the squared distance of
every point to the nearest of them, and what is left of the source. -/
inductive Course (points : List (Point α)) (source : ρ) : List Nat → List α → ρ → Prop
  /-- The first position has been drawn. -/
  | first : Course points source [(uniformBelow points.length source).1]
      (points.map fun p =>
        Point.squaredDistance p (points.getD (uniformBelow points.length source).1 []))
      (uniformBelow points.length source).2
  /-- One more position is drawn. -/
  | further {chosen : List Nat} {distances : List α} {rest next : ρ} {i : Nat}
      (h : Course points source chosen distances rest)
      (hdraw : drawSeed points.length distances rest = .ok (i, next)) :
      Course points source (chosen ++ [i])
        (lowerDistances points (points.getD i []) distances) next

namespace Course

variable {points : List (Point α)} {source rest : ρ} {chosen : List Nat} {distances : List α}

/-- There is one distance for each point. -/
theorem length_distances (h : Course points source chosen distances rest) :
    distances.length = points.length := by
  induction h with
  | first => exact List.length_map _
  | further _ _ ih => exact length_lowerDistances ih _

theorem length_pos (h : Course points source chosen distances rest) : 0 < chosen.length := by
  cases h with
  | first => exact Nat.one_pos
  | further h hdraw =>
    rw [List.length_append]
    exact Nat.succ_pos _

/-- All drawn positions are those of points. -/
theorem lt_length (hpos : 0 < points.length) (h : Course points source chosen distances rest) :
    ∀ i ∈ chosen, i < points.length := by
  induction h with
  | first =>
    intro i hi
    rw [List.mem_singleton.mp hi]
    exact uniformBelow_lt hpos source
  | further h hdraw ih =>
    intro j hj
    rcases List.mem_append.mp hj with hj | hj
    · exact ih j hj
    · rw [List.mem_singleton.mp hj]
      exact drawSeed_lt hpos h.length_distances hdraw

/-- Seeding goes on from every situation that it comes through. -/
theorem seeds_eq (h : Course points source chosen distances rest) (n : Nat) :
    seeds points (chosen.length + n) source =
      (moreSeeds points n distances rest).map (chosen.map (points.getD · []) ++ ·) := by
  induction h generalizing n with
  | first =>
    have hcount : [(uniformBelow points.length source).1].length + n - 1 = n := by
      rw [List.length_singleton]
      omega
    unfold seeds
    rw [hcount]
    generalize uniformBelow points.length source = drawn
    obtain ⟨i, next⟩ := drawn
    dsimp only [bind, Except.bind]
    cases moreSeeds points n _ next <;> rfl
  | @further chosen distances rest next i h hdraw ih =>
    have hlength : (chosen ++ [i]).length + n = chosen.length + (n + 1) := by
      rw [List.length_append, List.length_singleton]
      omega
    rw [hlength, ih (n + 1), moreSeeds_succ_of_ok hdraw]
    cases moreSeeds points n (lowerDistances points (points.getD i []) distances) next with
    | error e => rfl
    | ok seeds => simp [Except.map]

/-- From every situation, seeding comes to any number of further positions, unless it comes to
distances that add up to infinity before. -/
theorem exists_further (h : Course points source chosen distances rest) (n : Nat) :
    (∃ chosen' distances' rest', Course points source chosen' distances' rest' ∧
        chosen'.length = chosen.length + n) ∨
      ∃ chosen' distances' rest', Course points source chosen' distances' rest' ∧
        chosen'.length < chosen.length + n ∧
        WeightedChoice.fault? distances' = some .infiniteTotal := by
  induction n generalizing chosen distances rest with
  | zero => exact .inl ⟨chosen, distances, rest, h, rfl⟩
  | succ n ih =>
    cases hdraw : drawSeed points.length distances rest with
    | error e =>
      rw [drawSeed_error hdraw, drawSeed_eq_error_iff] at hdraw
      exact .inr ⟨chosen, distances, rest, h, by omega, hdraw⟩
    | ok drawn =>
      obtain ⟨i, next⟩ := drawn
      have hlength : chosen.length + (n + 1) = (chosen ++ [i]).length + n := by
        rw [List.length_append, List.length_singleton]
        omega
      rw [hlength]
      exact ih (h.further hdraw)

end Course

/-- **The outcome of seeding**: the points at the positions that were drawn, or an error where the
distances add up to infinity. -/
theorem seeds_outcome_course (points : List (Point α)) {k : Nat} (hk : 0 < k) (source : ρ) :
    (∃ chosen distances rest, Course points source chosen distances rest ∧ chosen.length = k ∧
        seeds points k source = .ok (chosen.map (points.getD · []))) ∨
      ∃ chosen distances rest, Course points source chosen distances rest ∧ chosen.length < k ∧
        WeightedChoice.fault? distances = some .infiniteTotal ∧
        seeds points k source = .error .infiniteWeight := by
  have hfirst : Course points source _ _ _ := .first
  rcases hfirst.exists_further (k - 1) with
    ⟨chosen, distances, rest, h, hlength⟩ | ⟨chosen, distances, rest, h, hlt, hfault⟩
  · rw [List.length_singleton] at hlength
    refine .inl ⟨chosen, distances, rest, h, by omega, ?_⟩
    have hseeds := h.seeds_eq 0
    rw [Nat.add_zero, show chosen.length = k by omega] at hseeds
    rw [hseeds, moreSeeds]
    simp [Except.map]
  · rw [List.length_singleton] at hlt
    refine .inr ⟨chosen, distances, rest, h, by omega, hfault, ?_⟩
    have hseeds := h.seeds_eq (k - chosen.length - 1 + 1)
    rw [show chosen.length + (k - chosen.length - 1 + 1) = k by omega] at hseeds
    rw [hseeds, moreSeeds, drawSeed_eq_error_iff.mpr hfault]
    rfl

/-- Seeding fails exactly where it comes to distances that add up to infinity. -/
theorem seeds_eq_error_iff {points : List (Point α)} {k : Nat} {source : ρ} :
    seeds points k source = .error .infiniteWeight ↔
      ∃ chosen distances rest, Course points source chosen distances rest ∧ chosen.length < k ∧
        WeightedChoice.fault? distances = some .infiniteTotal := by
  constructor
  · intro herror
    have hk : 0 < k := Nat.pos_of_ne_zero fun hzero =>
      seeds_ne_error_of_le_one points (by omega) source _ herror
    rcases seeds_outcome_course points hk source with
      ⟨chosen, distances, rest, -, -, hok⟩ | ⟨chosen, distances, rest, h, hlt, hfault, -⟩
    · rw [herror] at hok
      cases hok
    · exact ⟨chosen, distances, rest, h, hlt, hfault⟩
  · rintro ⟨chosen, distances, rest, h, hlt, hfault⟩
    obtain ⟨n, rfl⟩ : ∃ n, k = chosen.length + (n + 1) := ⟨k - chosen.length - 1, by omega⟩
    rw [h.seeds_eq (n + 1), moreSeeds, drawSeed_eq_error_iff.mpr hfault]
    rfl

/-- Distances that are always finite never add up to infinity. -/
theorem seeds_ne_error_of_isFinite (hfinite : ∀ x : α, Scalar.isFinite x) (points : List (Point α))
    (k : Nat) (source : ρ) : seeds points k source ≠ .error .infiniteWeight := by
  intro herror
  obtain ⟨_, distances, _, -, -, hfault⟩ := seeds_eq_error_iff.mp herror
  unfold WeightedChoice.fault? at hfault
  simp only [hfinite, not_true_eq_false, if_false] at hfault
  split_ifs at hfault <;> cases hfault

/-- Seeds are points. -/
theorem mem_of_mem_seeds {points : List (Point α)} {k : Nat} {source : ρ}
    {centroids : List (Point α)} (hpos : 0 < points.length) (hk : 0 < k)
    (h : seeds points k source = .ok centroids) : ∀ centroid ∈ centroids, centroid ∈ points := by
  rcases seeds_outcome_course points hk source with
    ⟨chosen, distances, rest, hcourse, -, hok⟩ | ⟨_, _, _, -, -, -, herror⟩
  · obtain rfl := Except.ok.inj (hok.symm.trans h)
    intro centroid hcentroid
    obtain ⟨i, hi, rfl⟩ := List.mem_map.mp hcentroid
    exact getD_mem (hcourse.lt_length hpos i hi) []
  · rw [h] at herror
    cases herror

/-! ## Refinement -/

/-- A clustering of points of a dimension into a number of clusters, with centroids of that
dimension. -/
structure Clustering.Sound (points : List (Point α)) (dim k : Nat) (c : Clustering α) : Prop where
  fits : c.Fits points k
  length_eq : ∀ centroid ∈ c.centroids, centroid.length = dim

theorem length_moveTo (dim : Nat) (points : List (Point α)) (centroid : Point α) :
    (moveTo dim points centroid).length = centroid.length := by
  rw [moveTo]
  split
  · rfl
  · rw [Point.length_overlay]

theorem step_sound {points : List (Point α)} {dim k : Nat} (hk : 0 < k) {c : Clustering α}
    (h : c.Sound points dim k) : (step points c).Sound points dim k := by
  refine ⟨step_fits hk h.fits, fun centroid hcentroid => ?_⟩
  rw [step, moveCentroids] at hcentroid
  obtain ⟨label, hlabel, rfl⟩ := List.mem_mapIdx.mp hcentroid
  rw [length_moveTo]
  exact h.length_eq _ (List.getElem_mem hlabel)

/-- A centroid moves to where the points with its label put it. -/
theorem getD_moveCentroids {points : List (Point α)} {dim k : Nat} {c : Clustering α}
    (h : c.Sound points dim k) {label : Nat} (hlabel : label < k) :
    (moveCentroids points c).getD label [] =
      moveTo dim (members points c.labels label) (c.centroids.getD label []) := by
  have hlt : label < c.centroids.length := hlabel.trans_eq h.fits.centroidCount.symm
  have hdim : (c.centroids.headD []).length = dim := by
    obtain ⟨first, rest, hcons⟩ := List.exists_cons_of_length_pos (Nat.zero_lt_of_lt hlt)
    rw [hcons, List.headD_cons]
    exact h.length_eq first (hcons ▸ List.mem_cons_self)
  rw [moveCentroids, hdim, List.getD_eq_getElem?_getD, List.getElem?_mapIdx,
    List.getElem?_eq_getElem hlt, List.getD_eq_getElem _ _ hlt]
  rfl

omit [Scalar α] in
theorem length_getD_centroids {points : List (Point α)} {dim k : Nat} {c : Clustering α}
    (h : c.Sound points dim k) {label : Nat} (hlabel : label < k) :
    (c.centroids.getD label []).length = dim :=
  h.length_eq _ (getD_mem (hlabel.trans_eq h.fits.centroidCount.symm) [])

/-- Refinement keeps the dimension of centroids. -/
theorem refine_sound {points : List (Point α)} {dim k : Nat} (hk : 0 < k) (budget : Nat)
    {c : Clustering α} (h : c.Sound points dim k) :
    (refine points budget c).1.Sound points dim k :=
  refine_preserves (Clustering.Sound points dim k) (fun _ => step_sound hk) budget h

/-- Seeds with the labels of their points are a sound clustering, where refinement begins. -/
theorem seeds_sound {points : List (Point α)} {dim k : Nat} {source : ρ}
    {centroids : List (Point α)} (hdim : ∀ x ∈ points, x.length = dim) (hpos : 0 < points.length)
    (hk : 0 < k) (h : seeds points k source = .ok centroids) :
    Clustering.Sound points dim k ⟨centroids, assign points centroids⟩ := by
  refine ⟨?_, fun centroid hcentroid => hdim _ (mem_of_mem_seeds hpos hk h centroid hcentroid)⟩
  rcases seeds_outcome points hk source with herror | ⟨found, hok, hlength⟩
  · rw [h] at herror
    cases herror
  · obtain rfl := Except.ok.inj (hok.symm.trans h)
    exact assign_fits points hk hlength

end Mixtures.KMeans
