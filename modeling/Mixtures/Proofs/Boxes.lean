import Mathlib
import Mixtures.Proofs.Em.Estimates
import Mixtures.Proofs.Em.Weights
import Mixtures.Proofs.KMeans.Groups
import Mixtures.Proofs.Translation.Clusters

/-!
# Means inside the box of the samples

In exact arithmetic nothing leaves the bounding box of the samples. A weighted mean lies between the
bounds of what it averages, a reset and a seed take a sample as it is, and whatever else happens to
a component or to a centroid leaves its place alone. The placeholders of training stand at the
origin, perhaps outside the box, but they have no weight, and only an estimate or a reset gives
weight to a component.

* `Point.InBox`: the bounding box of points.
* `weightedMean_inBox`: weighted means.
* `keeps_inBox`: training.
* `fitGroup_inBox`: clustering.
* `means_in_box`: the results of runs.
-/

namespace Mixtures

/-! ## Boxes -/

namespace Point

/-- A point lies in the box of some points: in every coordinate it is between the least and the
greatest of theirs. -/
structure InBox (points : List (Point ℝ)) (x : Point ℝ) : Prop where
  length_eq : ∀ y ∈ points, x.length = y.length
  between : ∀ i < x.length, ∃ least ∈ points, ∃ greatest ∈ points,
    (∀ y ∈ points, least.getD i 0 ≤ y.getD i 0 ∧ y.getD i 0 ≤ greatest.getD i 0) ∧
      least.getD i 0 ≤ x.getD i 0 ∧ x.getD i 0 ≤ greatest.getD i 0

variable {points : List (Point ℝ)} {x : Point ℝ}

theorem exists_extremes (hne : points ≠ []) (i : Nat) :
    ∃ least ∈ points, ∃ greatest ∈ points,
      ∀ y ∈ points, least.getD i 0 ≤ y.getD i 0 ∧ y.getD i 0 ≤ greatest.getD i 0 := by
  have hsome : {y | y ∈ points}.Nonempty := List.exists_mem_of_ne_nil points hne
  obtain ⟨least, hleast, hlow⟩ :=
    Set.exists_min_image {y | y ∈ points} (·.getD i 0) points.finite_toSet hsome
  obtain ⟨greatest, hgreatest, hhigh⟩ :=
    Set.exists_max_image {y | y ∈ points} (·.getD i 0) points.finite_toSet hsome
  exact ⟨least, hleast, greatest, hgreatest, fun y hy => ⟨hlow y hy, hhigh y hy⟩⟩

/-- What keeps to all bounds of the points lies in their box. -/
theorem InBox.of_bounds (hne : points ≠ []) (hlength : ∀ y ∈ points, x.length = y.length)
    (h : ∀ i < x.length, ∀ low high, (∀ y ∈ points, low ≤ y.getD i 0 ∧ y.getD i 0 ≤ high) →
      low ≤ x.getD i 0 ∧ x.getD i 0 ≤ high) : InBox points x where
  length_eq := hlength
  between i hi := by
    obtain ⟨least, hleast, greatest, hgreatest, hbounds⟩ := exists_extremes hne i
    exact ⟨least, hleast, greatest, hgreatest, hbounds, h i hi _ _ hbounds⟩

theorem InBox.of_mem {dim : Nat} (hlength : ∀ y ∈ points, y.length = dim) (hx : x ∈ points) :
    InBox points x :=
  .of_bounds (List.ne_nil_of_mem hx) (fun y hy => (hlength x hx).trans (hlength y hy).symm)
    fun _ _ _ _ hbounds => hbounds x hx

end Point

/-! ## Weighted means -/

namespace Em.Problem

/-- A weighted sum of numbers lies between the multiples of their bounds. -/
theorem sum_between {entries : List (ℝ × Point ℝ)} (hweights : ∀ e ∈ entries, 0 ≤ e.1) {i : Nat}
    {low high : ℝ} (h : ∀ e ∈ entries, low ≤ e.2.getD i 0 ∧ e.2.getD i 0 ≤ high) :
    (entries.map (·.1)).sum * low ≤ (entries.map fun e => e.1 * e.2.getD i 0).sum ∧
      (entries.map fun e => e.1 * e.2.getD i 0).sum ≤ (entries.map (·.1)).sum * high := by
  rw [← List.sum_map_mul_right, ← List.sum_map_mul_right]
  constructor
  · exact List.sum_le_sum fun e he => mul_le_mul_of_nonneg_left (h e he).1 (hweights e he)
  · exact List.sum_le_sum fun e he => mul_le_mul_of_nonneg_left (h e he).2 (hweights e he)

/-- **A weighted mean** of some of the points lies in their box. -/
theorem weightedMean_inBox {points : List (Point ℝ)} {dim : Nat}
    (hlength : ∀ y ∈ points, y.length = dim) {entries : List (ℝ × Point ℝ)}
    (hmem : ∀ e ∈ entries, e.2 ∈ points) (hweights : ∀ e ∈ entries, 0 ≤ e.1) {mass : ℝ}
    (hmass : 0 < mass) (hsum : (entries.map (·.1)).sum = mass) :
    Point.InBox points (weightedMean dim mass entries) := by
  have hentries : ∀ e ∈ entries, e.2.length = dim := fun e he => hlength _ (hmem e he)
  have hmean : (weightedMean dim mass entries).length = dim := length_weightedMean hentries
  have hne : points ≠ [] := by
    rintro rfl
    obtain rfl : entries = [] := List.eq_nil_iff_forall_not_mem.mpr fun e he => by
      simpa using hmem e he
    exact hmass.ne hsum
  refine .of_bounds hne (fun y hy => hmean.trans (hlength y hy).symm) fun i hi low high h => ?_
  obtain ⟨hlow, hhigh⟩ := sum_between hweights fun e he => h _ (hmem e he)
  rw [hsum] at hlow hhigh
  rw [getD_weightedMean hentries (hi.trans_eq hmean), le_div_iff₀' hmass, div_le_iff₀' hmass]
  exact ⟨hlow, hhigh⟩

/-! ## Training -/

variable {F : Type} {p : Problem ℝ F}

/-- **Training keeps the means of components with weight in the box of the samples.** -/
theorem keeps_inBox (hpoints : ∀ x ∈ p.points, x.length = p.dim) :
    p.Keeps (fun c => 0 < c.weight → Point.InBox p.points c.mean) NonNegative where
  placeholder hweight := absurd hweight (lt_irrefl 0)
  oneHot := nonNegative_oneHot p.count
  explained components factors x _ _ _ := nonNegative_explain p components factors x
  estimated rows hrows hrow component c hc _ := by
    obtain ⟨hmass, -, hmean, -⟩ := estimate_eq_some hc
    rw [hmean]
    have hcolumn : (column rows component).length = p.size := (List.length_map _).trans hrows
    exact weightedMean_inBox hpoints (fun e => mem_points_of_mem_weighted)
      (nonNegative_weighted hrow component) hmass (sum_weighted hcolumn)
  silenced c _ hweight := absurd hweight (lt_irrefl 0)
  moved sample hsample _ := .of_mem hpoints (getD_mem hsample [])
  prepared c hc := hc
  normalized c total htotal _ hc hweight := hc ((div_pos_iff_of_pos_right htotal).mp hweight)

end Em.Problem

/-! ## Clustering -/

namespace KMeans

variable {points : List (Point ℝ)} {dim k : Nat}

/-- A centroid is moved to a place in the box, or left in its own. -/
theorem moveTo_inBox (hlength : ∀ x ∈ points, x.length = dim) {members : List (Point ℝ)}
    (hmem : ∀ x ∈ members, x ∈ points) {centroid : Point ℝ} (h : Point.InBox points centroid)
    (hcentroid : centroid.length = dim) : Point.InBox points (moveTo dim members centroid) := by
  by_cases hne : members = []
  · rw [moveTo, if_pos (List.isEmpty_iff.mpr hne)]
    exact h
  · have hones : (members.map fun x => ((1 : ℝ), x)).map (·.1) =
        List.replicate members.length 1 := by
      rw [List.map_map]
      exact List.map_const'
    rw [moveTo_eq_weightedMean hne (fun x hx => hlength x (hmem x hx)) hcentroid]
    refine Em.Problem.weightedMean_inBox hlength (by simpa using hmem) (by simp)
      (Nat.cast_pos.mpr (List.length_pos_of_ne_nil hne)) ?_
    rw [hones, List.sum_replicate, nsmul_one]

/-- A refinement step keeps the centroids in the box. -/
theorem step_inBox (hlength : ∀ x ∈ points, x.length = dim) {c : Clustering ℝ}
    (h : c.Sound points dim k) (hbox : ∀ centroid ∈ c.centroids, Point.InBox points centroid) :
    ∀ centroid ∈ (step points c).centroids, Point.InBox points centroid := by
  intro centroid hcentroid
  change centroid ∈ moveCentroids points c at hcentroid
  obtain ⟨label, hlabel, rfl⟩ := List.mem_iff_getElem.mp hcentroid
  have hlt : label < k := by
    rwa [moveCentroids, List.length_mapIdx, h.fits.centroidCount] at hlabel
  have hlt' : label < c.centroids.length := hlt.trans_eq h.fits.centroidCount.symm
  have hmoved := getD_moveCentroids h hlt
  rw [List.getD_eq_getElem _ _ hlabel, List.getD_eq_getElem _ _ hlt'] at hmoved
  rw [hmoved]
  exact moveTo_inBox hlength (fun x => mem_of_mem_members) (hbox _ (List.getElem_mem hlt'))
    (h.length_eq _ (List.getElem_mem hlt'))

/-- **The clusters of a group** have their centroids in the box of the points, from any source of
random words. -/
theorem fitGroup_inBox {ρ : Type} [RandomSource ρ] (hlength : ∀ x ∈ points, x.length = dim)
    (hk : 0 < k) {budget : Nat} {source : ρ} {fit : GroupFit ℝ}
    (h : fitGroup points k budget source = .ok fit) :
    ∀ centroid ∈ fit.centroids, Point.InBox points centroid := by
  by_cases hpoints : points = []
  · subst hpoints
    obtain rfl : ⟨[], [], 0⟩ = fit := Except.ok.inj h
    exact List.forall_mem_nil _
  · obtain ⟨centroids, hseeds, rfl⟩ := (fitGroup_eq_ok_iff hpoints).mp h
    have hpos : 0 < points.length := List.length_pos_of_ne_nil hpoints
    have hcount : 0 < min k points.length := by omega
    have hinvariant := refine_preserves
      (fun c => c.Sound points dim (min k points.length) ∧
        ∀ centroid ∈ c.centroids, Point.InBox points centroid)
      (fun c hc => ⟨step_sound hcount hc.1, step_inBox hlength hc.1 hc.2⟩) budget
      ⟨seeds_sound hlength hpos hcount hseeds, fun centroid hcentroid =>
        .of_mem hlength (mem_of_mem_seeds hpos hcount hseeds centroid hcentroid)⟩
    exact hinvariant.2

end KMeans

/-! ## Results -/

/-- **Means lie in the box of the samples**, in exact arithmetic: the mean of every component with
weight, in every mixture of every training run, whatever the status of its group, lies in the
bounding box of the samples of its group, and so does every centroid of every clustering. -/
theorem means_in_box :
    (∀ {F : Type} (s : Em.Settings ℝ) (kernel : DensityKernel ℝ F) (samples : List (Point ℝ))
      (ids : List Nat) (groupCount : Nat) (t : Em.Training ℝ),
      s.Yields kernel samples ids groupCount t → ∀ group m r, t.Gives group m r →
        ∀ c ∈ m.components, 0 < c.weight →
          Point.InBox (Layout.owned group ids samples) c.mean) ∧
    ∀ (method : KMeans) (entropy : UInt64) (executor : Executor) (samples : List (Point ℝ))
      (ids : List Nat) (groupCount : Nat) (fit : KMeans.Fit ℝ),
      method.fit entropy executor samples ids groupCount = .ok fit →
        ∀ (group : Nat) (hgroup : group < fit.groups.length),
          ∀ centroid ∈ fit.groups[group].centroids,
            Point.InBox (Layout.owned group ids samples) centroid := by
  constructor
  · intro F s kernel samples ids groupCount t h group m r hgives
    obtain ⟨own, hown, -, rfl, -⟩ := h.exists_labels hgives
    exact (Em.Problem.train_good (Em.Problem.keeps_inBox
      (Em.Settings.length_eq_of_mem_groupProblem h.fittable group)) hown).2
  · intro method entropy executor samples ids groupCount fit hfit group hgroup
    obtain ⟨dim, h, hk, hlayout⟩ := KMeans.checks_of_fit_eq_ok hfit
    exact KMeans.fitGroup_inBox (fun x hx => h.length_eq x (Layout.mem_of_mem_owned hx))
      (Nat.pos_of_ne_zero hk) (KMeans.groupFit_eq_ok h hk hlayout hgroup)

section OnAxis

open Em Em.Settings

/-- The group with two samples, one for each component, gives weight to both components. -/
theorem weights_pos_onAxis : ∀ c ∈ (noIteration.groupResult .gaussian 0 onAxis [0, 0, 2] 1
    (some [0, 1, 1]) 0).mixture.components, 0 < c.weight := by
  have hlabels : ∀ label ∈ [0, 1],
      label < (noIteration.groupProblem .gaussian onAxis [0, 0, 2] 1 0).count := by
    simp [Problem.count, groupProblem, noIteration, ofCount]
  obtain ⟨-, -, -, hpos⟩ := Problem.train_isShare
    (p := noIteration.groupProblem .gaussian onAxis [0, 0, 2] 1 0) Nat.zero_lt_two rfl hlabels
  have hstatus : (noIteration.groupResult .gaussian 0 onAxis [0, 0, 2] 1
      (some [0, 1, 1]) 0).report.status ≠ .degenerate := by
    rw [status_onAxis]
    simp
  exact fun c hc => hpos le_rfl hstatus _ (List.mem_map_of_mem hc)

/-- Two components and two clusters for the samples at zero and one: all four are between them. -/
theorem means_in_box_onAxis :
    (∃ t m r, noIteration.Yields .gaussian onAxis [0, 0, 2] 3 t ∧ t.Gives 0 m r ∧
      m.components.length = 2 ∧ ∀ c ∈ m.components, Point.InBox [[0], [1]] c.mean) ∧
    ∃ fit, ({ clusterCount := 2, seed := some 7 } : KMeans).fit 0 .sequential onAxis [0, 0, 2] 3 =
        .ok fit ∧
      ∃ hgroup : 0 < fit.groups.length, fit.groups[0].centroids.length = 2 ∧
        ∀ centroid ∈ fit.groups[0].centroids, Point.InBox [[0], [1]] centroid := by
  constructor
  · have hvalid : noIteration.validate = .ok () := by
      simp [validate_eq_ok_iff, isFiniteNonNegative, noIteration, ofCount]
    have hstart : noIteration.startLabels 3 (some [0, 1, 1]) = .ok (some [0, 1, 1]) := rfl
    obtain ⟨t, ht, hcollects⟩ := train_outcome fittable_onAxis .gaussian 0 .sequential hstart hvalid
    have hgives := (gives_iff hcollects).mpr ⟨(by decide : 0 < 3), rfl, rfl⟩
    refine ⟨t, _, _, .train ht, hgives, ?_, fun c hc => ?_⟩
    · exact (hcollects.hasShape _ (List.mem_of_getElem? hgives.1)).1
    · exact means_in_box.1 _ _ _ _ _ t (.train ht) 0 _ _ hgives c hc (weights_pos_onAxis c hc)
  · have hk : ({ clusterCount := 2, seed := some 7 } : KMeans).clusterCount ≠ 0 := two_ne_zero
    obtain ⟨fit, hfit⟩ := KMeans.exists_fit_exact hk fittable_onAxis 0 .sequential
    have hlayout := hfit
    rw [KMeans.fit_eq_of_fittable _ _ _ fittable_onAxis] at hlayout
    have hgroup : 0 < fit.groups.length := by
      rw [KMeans.length_groups fittable_onAxis hk hlayout]
      decide
    exact ⟨fit, hfit, hgroup, (KMeans.group_fits fittable_onAxis hk hlayout hgroup).centroidCount,
      means_in_box.2 _ _ _ _ _ _ fit hfit 0 hgroup⟩

end OnAxis

end Mixtures
