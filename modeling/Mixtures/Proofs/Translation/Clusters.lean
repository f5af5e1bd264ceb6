import Mixtures.Proofs.KMeans.Groups
import Mixtures.Proofs.Means
import Mixtures.Proofs.Translation.Points

/-!
# Clusters of translated samples

Clustering looks at points through squared distances and means only. The same seeds are drawn from
translated points, and every refinement step gives the same labels and translated centroids.

* `fitGroup_translate`: the clusters of one group.
* `fit_translate`: the clusters of all groups.
-/

namespace Mixtures

variable {ρ : Type} [RandomSource ρ] {t : Point ℝ}

namespace KMeans

open Point (translate)

/-! ## Seeds -/

theorem lowerDistances_translate {points : List (Point ℝ)}
    (hlength : ∀ x ∈ points, x.length ≤ t.length)
    (chosen : Point ℝ) (distances : List ℝ) :
    lowerDistances (points.map (translate t)) (translate t chosen) distances =
      lowerDistances points chosen distances := by
  unfold lowerDistances
  rw [List.zipWith_map_right]
  induction points generalizing distances with
  | nil => simp
  | cons x points ih =>
    obtain ⟨hx, hrest⟩ := List.forall_mem_cons.mp hlength
    cases distances with
    | nil => rfl
    | cons d distances =>
      rw [List.zipWith_cons_cons, List.zipWith_cons_cons, ih hrest,
        Point.squaredDistance_translate hx]

theorem moreSeeds_translate {points : List (Point ℝ)} (hlength : ∀ x ∈ points, x.length ≤ t.length)
    (n : Nat) (distances : List ℝ) (source : ρ) :
    moreSeeds (points.map (translate t)) n distances source =
      (moreSeeds points n distances source).map (List.map (translate t)) := by
  induction n generalizing distances source with
  | zero => rfl
  | succ n ih =>
    cases hdraw : drawSeed points.length distances source with
    | error e =>
      rw [moreSeeds, moreSeeds, List.length_map, hdraw]
      rfl
    | ok drawn =>
      obtain ⟨i, next⟩ := drawn
      have hdraw' : drawSeed (points.map (translate t)).length distances source =
          .ok (i, next) := by
        rw [List.length_map, hdraw]
      rw [moreSeeds_succ_of_ok hdraw, moreSeeds_succ_of_ok hdraw', Point.getD_translate,
        lowerDistances_translate hlength, ih]
      cases moreSeeds points n (lowerDistances points (points.getD i []) distances) next <;> rfl

/-- The same positions are drawn, so the seeds are translated. -/
theorem seeds_translate {points : List (Point ℝ)} (hlength : ∀ x ∈ points, x.length ≤ t.length)
    (k : Nat) (source : ρ) :
    seeds (points.map (translate t)) k source =
      (seeds points k source).map (List.map (translate t)) := by
  unfold seeds
  rw [List.length_map]
  rcases uniformBelow points.length source with ⟨i, next⟩
  have hdistances : (points.map (translate t)).map
      (fun p => Point.squaredDistance p (translate t (points.getD i []))) =
      points.map fun p => Point.squaredDistance p (points.getD i []) := by
    rw [List.map_map]
    exact List.map_congr_left fun x hx => Point.squaredDistance_translate (hlength x hx)
  dsimp only
  rw [Point.getD_translate, hdistances, moreSeeds_translate hlength]
  cases moreSeeds points (k - 1) _ next <;> rfl

/-! ## Refinement -/

/-- A clustering with translated centroids. -/
def Clustering.translate (t : Point ℝ) (c : Clustering ℝ) : Clustering ℝ :=
  { c with centroids := c.centroids.map (Point.translate t) }

theorem assign_translate {points : List (Point ℝ)} (hlength : ∀ x ∈ points, x.length ≤ t.length)
    (centroids : List (Point ℝ)) :
    assign (points.map (translate t)) (centroids.map (translate t)) = assign points centroids := by
  unfold assign
  rw [List.map_map]
  exact List.map_congr_left fun x hx => Point.nearestIndex_translate centroids (hlength x hx)

theorem members_translate (points : List (Point ℝ)) (labels : List Nat) (label : Nat) :
    members (points.map (translate t)) labels label =
      (members points labels label).map (translate t) := by
  unfold members
  rw [List.zip_map_left, List.filter_map, List.map_map, List.map_map]
  rfl

theorem moveTo_translate {points : List (Point ℝ)} (hlength : ∀ x ∈ points, x.length = t.length)
    {centroid : Point ℝ} (hcentroid : centroid.length = t.length) :
    moveTo t.length (points.map (translate t)) (translate t centroid) =
      translate t (moveTo t.length points centroid) := by
  by_cases hpoints : points = []
  · rw [hpoints]
    rfl
  · have hlength' : ∀ x ∈ points.map (translate t), x.length = t.length := by
      intro x hx
      obtain ⟨y, hy, rfl⟩ := List.mem_map.mp hx
      rw [Point.length_translate (hlength y hy).le, hlength y hy]
    have hcentroid' : (translate t centroid).length = t.length := by
      rw [Point.length_translate hcentroid.le, hcentroid]
    have hne : (points.length : ℝ) ≠ 0 := by simpa using hpoints
    have hsum : ((points.map fun x => ((1 : ℝ), x)).map (·.1)).sum = points.length := by
      simp [Function.comp_def]
    rw [moveTo_eq_weightedMean (by simpa using hpoints) hlength' hcentroid',
      moveTo_eq_weightedMean hpoints hlength hcentroid, List.length_map,
      ← Em.Problem.weightedMean_translate le_rfl hne hsum, List.map_map, List.map_map]
    rfl

theorem moveCentroids_translate {points : List (Point ℝ)}
    (hlength : ∀ x ∈ points, x.length = t.length) {c : Clustering ℝ}
    (hcentroids : ∀ centroid ∈ c.centroids, centroid.length = t.length) :
    moveCentroids (points.map (translate t)) (c.translate t) =
      (moveCentroids points c).map (translate t) := by
  unfold moveCentroids Clustering.translate
  dsimp only
  refine List.ext_getElem (by simp) fun label hlabel hlabel' => ?_
  have hlt : label < c.centroids.length := by simpa using hlabel
  -- the first centroid gives the dimension
  have hdim : (c.centroids.headD []).length = t.length := by
    obtain ⟨first, rest, hcons⟩ := List.exists_cons_of_length_pos (Nat.zero_lt_of_lt hlt)
    rw [hcons, List.headD_cons]
    exact hcentroids first (hcons ▸ List.mem_cons_self)
  have hdim' : ((c.centroids.map (translate t)).headD []).length = t.length := by
    obtain ⟨first, rest, hcons⟩ := List.exists_cons_of_length_pos (Nat.zero_lt_of_lt hlt)
    rw [hcons, List.headD_cons] at hdim
    rw [hcons, List.map_cons, List.headD_cons, Point.length_translate hdim.le, hdim]
  simp only [List.getElem_mapIdx, List.getElem_map, hdim, hdim', members_translate]
  exact moveTo_translate (fun x hx => hlength x (mem_of_mem_members hx))
    (hcentroids _ (List.getElem_mem hlt))

/-- A refinement step gives translated centroids and the same labels. -/
theorem step_translate {points : List (Point ℝ)} (hlength : ∀ x ∈ points, x.length = t.length)
    {c : Clustering ℝ} (hcentroids : ∀ centroid ∈ c.centroids, centroid.length = t.length) :
    step (points.map (translate t)) (c.translate t) = (step points c).translate t := by
  unfold step
  dsimp only
  rw [moveCentroids_translate hlength hcentroids,
    assign_translate fun x hx => (hlength x hx).le]
  rfl

theorem refine_translate {points : List (Point ℝ)} (hlength : ∀ x ∈ points, x.length = t.length)
    {k : Nat} (hk : 0 < k) (budget : Nat) {c : Clustering ℝ} (h : c.Sound points t.length k) :
    refine (points.map (translate t)) budget (c.translate t) =
      ((refine points budget c).1.translate t, (refine points budget c).2) := by
  induction budget generalizing c with
  | zero => rfl
  | succ budget ih =>
    have hstep := step_translate hlength h.length_eq
    have hlabels : (step (points.map (translate t)) (c.translate t)).labels =
        (step points c).labels := by
      rw [hstep]
      rfl
    by_cases hrepeat : (step points c).labels = c.labels
    · rw [refine_succ_of_eq hrepeat, refine_succ_of_eq (hlabels.trans hrepeat), hstep]
    · rw [refine_succ_of_ne hrepeat, refine_succ_of_ne fun h => hrepeat (hlabels.symm.trans h),
        hstep, ih (step_sound hk h)]

/-! ## Groups -/

/-- The fit of a group with translated centroids. -/
def GroupFit.translate (t : Point ℝ) (fit : GroupFit ℝ) : GroupFit ℝ :=
  { fit with centroids := fit.centroids.map (Point.translate t) }

/-- The fit of all groups with translated centroids. -/
def Fit.translate (t : Point ℝ) (fit : Fit ℝ) : Fit ℝ :=
  { fit with groups := fit.groups.map (GroupFit.translate t) }

/-- **The clusters of translated points** have the same labels and translated centroids, found in as
many steps. -/
theorem fitGroup_translate {points : List (Point ℝ)} (hlength : ∀ x ∈ points, x.length = t.length)
    {k : Nat} (hk : 0 < k) (maxIterations : Nat) (source : ρ) :
    fitGroup (points.map (translate t)) k maxIterations source =
      (fitGroup points k maxIterations source).map (GroupFit.translate t) := by
  have hle : ∀ x ∈ points, x.length ≤ t.length := fun x hx => (hlength x hx).le
  unfold fitGroup
  rw [List.isEmpty_map, List.length_map, seeds_translate hle]
  by_cases hpoints : points = []
  · rw [hpoints]
    rfl
  · have hpos : 0 < points.length := List.length_pos_iff.mpr hpoints
    rw [if_neg (by simpa using hpoints), if_neg (by simpa using hpoints)]
    cases hseeds : seeds points (min k points.length) source with
    | error e => rfl
    | ok centroids =>
      have hmin : 0 < min k points.length := by omega
      have hsound := seeds_sound hlength hpos hmin hseeds
      have hrefine := refine_translate hlength hmin maxIterations hsound
      unfold Clustering.translate at hrefine
      dsimp only at hrefine
      dsimp only [Except.map, bind, Except.bind, pure, Except.pure]
      rw [assign_translate hle, hrefine]
      rfl

end KMeans

/-! ## All groups -/

theorem Layout.owned_map {β γ : Type} (f : β → γ) (group : Nat) (ids : List Nat) (xs : List β) :
    owned group ids (xs.map f) = (owned group ids xs).map f := by
  unfold owned
  rw [List.zip_map_right, List.filter_map, List.map_map, List.map_map]
  rfl

variable {samples : List (Point ℝ)} {ids : List Nat} {groupCount : Nat}

theorem Fittable.length_le (h : Fittable samples ids groupCount t.length) :
    ∀ x ∈ samples, x.length ≤ t.length :=
  fun x hx => (h.length_eq x hx).le

/-- Translated samples pass the same checks. -/
theorem Fittable.translate (h : Fittable samples ids groupCount t.length) :
    Fittable (samples.map (Point.translate t)) ids groupCount t.length where
  aligned := (List.length_map _).trans h.aligned
  nonempty := fun hnil => h.nonempty (List.map_eq_nil_iff.mp hnil)
  dim_pos := h.dim_pos
  length_eq := by
    intro x hx
    obtain ⟨y, hy, rfl⟩ := List.mem_map.mp hx
    rw [Point.length_translate (h.length_le y hy), h.length_eq y hy]
  finite := fun x _ => List.all_eq_true.mpr fun _ _ => rfl
  id_lt := h.id_lt
  sorted := h.sorted

namespace KMeans

/-- Results in order that are changed one by one. -/
theorem mapM_id_map {ε β γ : Type} (f : β → γ) (results : List (Except ε β)) :
    (results.map (Except.map f)).mapM id = (results.mapM id).map (List.map f) := by
  induction results with
  | nil => rfl
  | cons result results ih =>
    rw [List.map_cons, List.mapM_cons, List.mapM_cons, ih]
    cases result with
    | error e => rfl
    | ok value => cases results.mapM id <;> rfl

/-- **The clusters of translated samples** have the same labels and translated centroids, found in
as many steps. -/
theorem fit_translate (method : KMeans) (hk : method.clusterCount ≠ 0) (entropy : UInt64)
    (executor : Executor) (h : Fittable samples ids groupCount t.length) :
    method.fit entropy executor (samples.map (Point.translate t)) ids groupCount =
      (method.fit entropy executor samples ids groupCount).map (Fit.translate t) := by
  rw [fit_eq_of_fittable method entropy executor h,
    fit_eq_of_fittable method entropy executor h.translate,
    fitLayout_eq method entropy executor h hk,
    fitLayout_eq method entropy executor h.translate hk]
  have hgroups : (List.range groupCount).map
      (method.groupFit entropy (samples.map (Point.translate t)) ids) =
      ((List.range groupCount).map (method.groupFit entropy samples ids)).map
        (Except.map (GroupFit.translate t)) := by
    rw [List.map_map]
    refine List.map_congr_left fun group _ => ?_
    unfold groupFit
    rw [Layout.owned_map]
    exact fitGroup_translate (fun x hx => h.length_eq x (Layout.mem_of_mem_owned hx))
      (Nat.pos_of_ne_zero hk) _ _
  rw [hgroups, mapM_id_map]
  cases ((List.range groupCount).map (method.groupFit entropy samples ids)).mapM id with
  | error e => rfl
  | ok groups =>
    dsimp only [Except.map, Fit.translate]
    rw [List.flatMap_map]
    rfl

/-- Exact squared distances never add up to infinity. -/
theorem not_meetsInfinity_exact (method : KMeans) (entropy : UInt64) :
    ¬method.MeetsInfinity entropy samples ids groupCount := by
  rintro ⟨group, -, chosen, distances, rest, -, -, -, -, -, hinfinite⟩
  exact hinfinite (Exact.isFinite_eq _)

/-- So exact clustering of fittable input never fails. -/
theorem exists_fit_exact {method : KMeans} (hk : method.clusterCount ≠ 0)
    (h : Fittable samples ids groupCount dim) (entropy : UInt64) (executor : Executor) :
    ∃ fit, method.fit entropy executor samples ids groupCount = .ok fit := by
  rw [fit_eq_of_fittable method entropy executor h]
  rcases fitLayout_outcome method entropy executor h hk with ⟨hoverflow, -⟩ | ⟨-, hfit⟩
  · exact absurd hoverflow (not_meetsInfinity_exact method entropy)
  · exact hfit

end KMeans

end Mixtures
