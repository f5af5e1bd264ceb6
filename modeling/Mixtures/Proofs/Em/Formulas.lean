import Mathlib
import Mixtures.Proofs.Em.Estimates
import Mixtures.Proofs.Em.Shares

/-!
# The formulas of the maximization step

In exact arithmetic a maximization step that finds every component with responsibility computes the
formulas of the textbook. The weight of a component is the average of its responsibilities, its mean
the average of the samples weighted by them, and its covariance the weighted average of the products
of the coordinates about the mean, with the floor on the diagonal. What the components were before
does not matter.

`momentNormal` is the normal distribution with the moments of a weighted sum, whatever is summed:
the same definition, with the responsibilities of a component or with the samples of a class.

* `estimate_eq_weightedNormal`: one component.
* `weightedNormal_eq_classNormal`: samples that belong to one component each.
* `maximize_formulas`: the step.
-/

namespace Mixtures.Em.Problem

open Finset (range)

variable {F : Type} {p : Problem ℝ F}

/-! ## Normal distributions by their moments -/

/-- The normal distribution with given moments: `total` sums a quantity over the samples, with
weights that add up to `mass`. -/
noncomputable def momentNormal (p : Problem ℝ F) (mass : ℝ) (total : (Point ℝ → ℝ) → ℝ) :
    Component ℝ :=
  let mean (i : Nat) : ℝ := total (fun x => x.getD i 0) / mass
  let product (i j : Nat) : ℝ :=
    total (fun x => (x.getD i 0 - mean i) * (x.getD j 0 - mean j)) / mass
  { weight := mass / p.size
    mean := (List.range p.dim).map mean
    covariance := Square.tabulate p.dim fun i j =>
      if i = j then product i i + p.settings.floor
      else if p.settings.form = .diagonal then 0
      else product i j }

/-- The responsibility of a component for a sample. -/
def responsibility (rows : List (List ℝ)) (i c : Nat) : ℝ := (rows.getD i []).getD c 0

/-- The sum of the responsibilities of a component. -/
noncomputable def massOf (p : Problem ℝ F) (rows : List (List ℝ)) (c : Nat) : ℝ :=
  ∑ i ∈ range p.size, responsibility rows i c

/-- The sum of a quantity of the samples, weighted by the responsibilities of a component. -/
noncomputable def weightedTotal (p : Problem ℝ F) (rows : List (List ℝ)) (c : Nat)
    (g : Point ℝ → ℝ) : ℝ :=
  ∑ i ∈ range p.size, responsibility rows i c * g (p.points.getD i [])

/-- The normal distribution with the moments of the samples, weighted by the responsibilities of a
component. -/
noncomputable def weightedNormal (p : Problem ℝ F) (rows : List (List ℝ)) (c : Nat) : Component ℝ :=
  p.momentNormal (p.massOf rows c) (p.weightedTotal rows c)

/-- The normal distribution with the moments of the samples that have a label. -/
noncomputable def classNormal (p : Problem ℝ F) (labels : List Nat) (c : Nat) : Component ℝ :=
  p.momentNormal (KMeans.members p.points labels c).length fun g =>
    ((KMeans.members p.points labels c).map g).sum

/-! ## Sums over the samples -/

/-- A sum over two lists, by their positions. -/
theorem sum_zip_eq_sum_range {weights : List ℝ} {points : List (Point ℝ)}
    (h : weights.length = points.length) (g : Point ℝ → ℝ) :
    ((weights.zip points).map fun e => e.1 * g e.2).sum =
      ∑ i ∈ range points.length, weights.getD i 0 * g (points.getD i []) := by
  induction weights generalizing points with
  | nil =>
    obtain rfl : points = [] := List.eq_nil_of_length_eq_zero h.symm
    rfl
  | cons w weights ih =>
    obtain ⟨x, points, rfl⟩ := List.exists_cons_of_length_eq_add_one h.symm
    rw [List.zip_cons_cons, List.map_cons, List.sum_cons, ih (Nat.succ.inj h), List.length_cons,
      Finset.sum_range_succ', add_comm]
    rfl

variable {rows : List (List ℝ)}

theorem length_column (hrows : rows.length = p.size) (c : Nat) :
    (column rows c).length = p.size := by
  rw [column, List.length_map, hrows]

theorem getD_column (rows : List (List ℝ)) (i c : Nat) :
    (column rows c).getD i 0 = responsibility rows i c := by
  unfold column responsibility
  simp only [List.getD_eq_getElem?_getD, List.getElem?_map]
  cases rows[i]? with
  | none => rfl
  | some row => rfl

theorem sum_column (hrows : rows.length = p.size) (c : Nat) :
    (column rows c).sum = p.massOf rows c := by
  rw [Exact.sum_eq_sum_range (length_column hrows c), massOf]
  exact Finset.sum_congr rfl fun i _ => getD_column rows i c

/-- Summing over the samples that take part in an estimate is summing over all of them. -/
theorem sum_weighted_column (hrows : rows.length = p.size) (c : Nat) (g : Point ℝ → ℝ) :
    ((p.weighted (column rows c)).map fun e => e.1 * g e.2).sum = p.weightedTotal rows c g := by
  rw [sum_map_weighted, sum_zip_eq_sum_range (length_column hrows c), weightedTotal]
  exact Finset.sum_congr rfl fun i _ => by rw [getD_column]

/-! ## Estimates -/

/-- The products of the coordinates about a point. -/
theorem weightedProduct_centered (hpoints : ∀ x ∈ p.points, x.length = p.dim)
    (hrows : rows.length = p.size) (c : Nat) {mean : Point ℝ} (hmean : mean.length = p.dim)
    {i j : Nat} (hi : i < p.dim) (hj : j < p.dim) (mass : ℝ) :
    weightedProduct mass
        ((p.weighted (column rows c)).map fun e => (e.1, e.2.zipWith (· - ·) mean)) i j =
      p.weightedTotal rows c
        (fun x => (x.getD i 0 - mean.getD i 0) * (x.getD j 0 - mean.getD j 0)) / mass := by
  have hcentered {k : Nat} (hk : k < p.dim) {e : ℝ × Point ℝ}
      (he : e ∈ p.weighted (column rows c)) :
      (e.2.zipWith (· - ·) mean).getD k 0 = e.2.getD k 0 - mean.getD k 0 :=
    Cholesky.getD_zipWith 0 (hk.trans_eq (hpoints _ (mem_points_of_mem_weighted he)).symm)
      (hk.trans_eq hmean.symm)
  rw [weightedProduct_eq_sum, ← sum_weighted_column hrows, List.map_map]
  congr 2
  refine List.map_congr_left fun e he => ?_
  rw [Function.comp_apply, hcentered hi he, hcentered hj he, mul_assoc]

/-- The mean of an estimate has the weighted means of the coordinates. -/
theorem weightedMean_eq (hpoints : ∀ x ∈ p.points, x.length = p.dim) (hrows : rows.length = p.size)
    (c : Nat) :
    weightedMean p.dim (p.massOf rows c) (p.weighted (column rows c)) =
      (p.weightedNormal rows c).mean := by
  have hlength : ∀ e ∈ p.weighted (column rows c), e.2.length = p.dim :=
    fun e he => hpoints _ (mem_points_of_mem_weighted he)
  have hmean := Cholesky.map_getD_range
    (weightedMean p.dim (p.massOf rows c) (p.weighted (column rows c))) 0
  rw [length_weightedMean hlength] at hmean
  rw [← hmean]
  refine List.map_congr_left fun i hi => ?_
  rw [getD_weightedMean hlength (List.mem_range.mp hi),
    sum_weighted_column hrows c fun x => x.getD i 0]

/-- The covariance of an estimate has the weighted means of the products about the mean. -/
theorem weightedCovariance_eq (hpoints : ∀ x ∈ p.points, x.length = p.dim)
    (hrows : rows.length = p.size) (c : Nat) :
    weightedCovariance p.dim p.settings.form p.settings.floor (p.massOf rows c)
        ((p.weighted (column rows c)).map fun e =>
          (e.1, e.2.zipWith (· - ·) (p.weightedNormal rows c).mean)) =
      (p.weightedNormal rows c).covariance := by
  have hmean : (p.weightedNormal rows c).mean.length = p.dim := by
    rw [weightedNormal, momentNormal, List.length_map, List.length_range]
  have hgetD {i : Nat} (hi : i < p.dim) : (p.weightedNormal rows c).mean.getD i 0 =
      p.weightedTotal rows c (fun x => x.getD i 0) / p.massOf rows c := by
    simp [weightedNormal, momentNormal, List.getD_eq_getElem?_getD, hi]
  refine Square.tabulate_congr fun i hi j hj => ?_
  by_cases hij : i = j
  · subst hij
    rw [if_pos rfl, if_pos rfl, weightedProduct_centered hpoints hrows c hmean hi hi, hgetD hi]
  · rw [if_neg hij, if_neg hij, weightedProduct_max_min,
      weightedProduct_centered hpoints hrows c hmean hi hj, hgetD hi, hgetD hj, zero_div]
    cases p.settings.form with
    | full => exact (if_neg (by decide)).symm
    | diagonal => exact (if_pos rfl).symm

/-- **An estimate** is the normal distribution with the weighted moments. -/
theorem estimate_eq_weightedNormal (hpoints : ∀ x ∈ p.points, x.length = p.dim)
    (hrows : rows.length = p.size) {c : Nat} (hmass : collapseBound < p.massOf rows c) :
    p.estimate (column rows c) = some (p.weightedNormal rows c) := by
  have hguard : Scalar.isFinite (Scalar.sum (column rows c)) &&
      decide (collapseBound < Scalar.sum (column rows c)) := by
    simpa [sum_column hrows] using hmass
  unfold estimate
  dsimp only
  rw [if_pos hguard, Exact.sum_eq, sum_column hrows, weightedMean_eq hpoints hrows,
    weightedCovariance_eq hpoints hrows]
  rfl

/-! ## The step -/

/-- Rows that add up to one have the number of samples as their sum, component by component. -/
theorem sum_massOf (hrows : rows.length = p.size)
    (hrow : ∀ row ∈ rows, row.length = p.count ∧ row.sum = 1) :
    ∑ c ∈ range p.count, p.massOf rows c = p.size := by
  have hone : ∀ i ∈ range p.size, ∑ c ∈ range p.count, responsibility rows i c = 1 := by
    intro i hi
    have hmem : rows.getD i [] ∈ rows :=
      getD_mem ((Finset.mem_range.mp hi).trans_eq hrows.symm) []
    obtain ⟨hlength, hsum⟩ := hrow _ hmem
    rw [← hsum, Exact.sum_eq_sum_range hlength]
    rfl
  simp only [massOf]
  rw [Finset.sum_comm, Finset.sum_congr rfl hone, Finset.sum_const, Finset.card_range, nsmul_one]

/-- The weights of the estimates need not be divided by their sum. -/
theorem normalizeWeights_weightedNormals (hrows : rows.length = p.size)
    (hrow : ∀ row ∈ rows, row.length = p.count ∧ row.sum = 1)
    (hmass : ∀ c < p.count, collapseBound < p.massOf rows c) :
    normalizeWeights ((List.range p.count).map (p.weightedNormal rows)) =
      (List.range p.count).map (p.weightedNormal rows) := by
  rcases Nat.eq_zero_or_pos p.count with hcount | hcount
  · rw [hcount]
    simp [normalizeWeights]
  · -- some component has responsibility, so there are samples
    have hsize : (p.size : ℝ) ≠ 0 := by
      have hbound : (0 : ℝ) ≤ collapseBound := div_nonneg zero_le_one (Nat.cast_nonneg _)
      rw [Nat.cast_ne_zero]
      intro hsize
      refine (hbound.trans_lt (hmass 0 hcount)).ne' ?_
      rw [massOf, hsize, Finset.range_zero, Finset.sum_empty]
    have hweights : weightsOf ((List.range p.count).map (p.weightedNormal rows)) =
        (List.range p.count).map fun c => p.massOf rows c / p.size := by
      rw [weightsOf, List.map_map]
      rfl
    refine normalizeWeights_of_sum_eq ?_
    calc (weightsOf ((List.range p.count).map (p.weightedNormal rows))).sum
        = ∑ c ∈ range p.count, p.massOf rows c / p.size := by
          rw [hweights,
            Exact.sum_eq_sum_range ((List.length_map _).trans (List.length_range (n := p.count)))]
          exact Finset.sum_congr rfl fun c hc => by simp [Finset.mem_range.mp hc]
      _ = 1 := by rw [← Finset.sum_div, sum_massOf hrows hrow, div_self hsize]

/-! ## Classes -/

/-- With samples that belong to one component each, sums weighted by the responsibilities are sums
over the members of a class. -/
theorem weightedTotal_oneHot {labels : List Nat} (hlabels : labels.length = p.size) {c : Nat}
    (hc : c < p.count) (g : Point ℝ → ℝ) :
    p.weightedTotal (labels.map (oneHot p.count)) c g =
      ((KMeans.members p.points labels c).map g).sum := by
  have hrows : (labels.map (oneHot p.count : Nat → List ℝ)).length = p.size := by
    rw [List.length_map, hlabels]
  have hcolumn : column (labels.map (oneHot p.count)) c =
      labels.map fun label => if c = label then (1 : ℝ) else 0 := by
    rw [column, List.map_map]
    refine List.map_congr_left fun label _ => ?_
    rw [Function.comp_apply, getD_oneHot]
    simp only [hc, true_and]
  rw [← sum_weighted_column hrows, sum_map_weighted, hcolumn, KMeans.members]
  clear hcolumn hrows hlabels
  induction p.points generalizing labels with
  | nil => simp
  | cons x points ih =>
    cases labels with
    | nil => rfl
    | cons label labels =>
      rw [List.map_cons, List.zip_cons_cons, List.map_cons, List.sum_cons, ih, List.zip_cons_cons,
        List.filter_cons]
      by_cases hlabel : c = label
      · simp [hlabel]
      · simp [hlabel, Ne.symm hlabel]

/-- Samples that belong to one component each give every component the moments of its class. -/
theorem weightedNormal_eq_classNormal {labels : List Nat} (hlabels : labels.length = p.size)
    {c : Nat}
    (hc : c < p.count) :
    p.weightedNormal (labels.map (oneHot p.count)) c = p.classNormal labels c := by
  have hmass : p.massOf (labels.map (oneHot p.count)) c =
      (KMeans.members p.points labels c).length := by
    have hones := weightedTotal_oneHot hlabels hc fun _ => 1
    simpa [weightedTotal, massOf] using hones
  rw [weightedNormal, classNormal, hmass, funext (weightedTotal_oneHot hlabels hc)]

/-- **The maximization step computes the formulas of the textbook**, in exact arithmetic, if the
responsibilities of every component add up to more than the bound for collapse: the weights are the
averages of the responsibilities, the means those of the samples and the covariances those of the
products about the mean, with the floor on the diagonal. Nothing depends on the components that were
there before. If every sample belongs to one component, these are the proportions, the means and the
covariances of the classes. -/
theorem maximize_formulas (hpoints : ∀ x ∈ p.points, x.length = p.dim) {s : State ℝ}
    (hcount : s.components.length = p.count) (hrows : s.responsibilities.length = p.size)
    (hrow : ∀ row ∈ s.responsibilities, row.length = p.count ∧ row.sum = 1)
    (hmass : ∀ c < p.count, collapseBound < p.massOf s.responsibilities c) :
    p.maximize s =
        .done () { s with
          components := (List.range p.count).map (p.weightedNormal s.responsibilities) } ∧
      ∀ labels, s.responsibilities = labels.map (oneHot p.count) → ∀ c < p.count,
        p.weightedNormal s.responsibilities c = p.classNormal labels c := by
  constructor
  · refine maximize_of_estimates ?_ ?_ (normalizeWeights_weightedNormals hrows hrow hmass)
    · rw [hcount, List.length_map, List.length_range]
    · rw [estimates, List.map_map]
      exact List.map_congr_left fun c hc =>
        estimate_eq_weightedNormal hpoints hrows (hmass c (List.mem_range.mp hc))
  · intro labels hlabels c hc
    rw [hlabels, List.length_map] at hrows
    rw [hlabels]
    exact weightedNormal_eq_classNormal hrows hc

/-- Three samples in the plane, and a floor of one. -/
noncomputable def threeInPlane : Problem ℝ (Cholesky ℝ) :=
  { settings := { Settings.ofCount 2 with floor := 1 }
    points := [[0, 0], [1, 0], [0, 1]], dim := 2, kernel := .gaussian }

/-- One component gets the first sample, the other one the mean and the covariance of the
other two. -/
theorem maximize_formulas_threeInPlane :
    ∃ s, threeInPlane.maximize (threeInPlane.initialState ([0, 1, 1].map (oneHot 2))) = .done () s ∧
      s.components =
        [⟨1 / 3, [0, 0], [1, 0, 0, 1]⟩,
          ⟨2 / 3, [1 / 2, 1 / 2], [5 / 4, -1 / 4, -1 / 4, 5 / 4]⟩] := by
  have hpoints : ∀ x ∈ threeInPlane.points, x.length = threeInPlane.dim := by
    simp [threeInPlane]
  have hrow : ∀ row ∈ [0, 1, 1].map (oneHot 2 : Nat → List ℝ),
      row.length = threeInPlane.count ∧ row.sum = 1 := by
    simp [threeInPlane, count, Settings.ofCount, oneHot, List.range_succ]
  have hmass : ∀ c < threeInPlane.count,
      collapseBound < threeInPlane.massOf ([0, 1, 1].map (oneHot 2)) c := by
    intro c hc
    change c < 2 at hc
    interval_cases c <;>
      norm_num [threeInPlane, massOf, responsibility, size, oneHot, collapseBound, List.range_succ,
        Finset.sum_range_succ]
  obtain ⟨hstep, hclasses⟩ := maximize_formulas (p := threeInPlane)
    (s := threeInPlane.initialState ([0, 1, 1].map (oneHot 2))) hpoints List.length_replicate rfl
    hrow hmass
  have hfirst := hclasses [0, 1, 1] rfl 0 Nat.zero_lt_two
  have hsecond := hclasses [0, 1, 1] rfl 1 Nat.one_lt_two
  have hclass : KMeans.members threeInPlane.points [0, 1, 1] 0 = [[0, 0]] := rfl
  have hclass' : KMeans.members threeInPlane.points [0, 1, 1] 1 = [[1, 0], [0, 1]] := rfl
  refine ⟨_, hstep, ?_⟩
  show [threeInPlane.weightedNormal _ 0, threeInPlane.weightedNormal _ 1] = _
  rw [hfirst, hsecond, classNormal, classNormal, hclass, hclass']
  norm_num [momentNormal, threeInPlane, size, Square.tabulate, List.range_succ, Settings.ofCount,
    (by decide : CovarianceForm.full ≠ .diagonal)]

end Mixtures.Em.Problem
