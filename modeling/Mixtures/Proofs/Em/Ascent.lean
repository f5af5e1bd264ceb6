import Mathlib
import Mixtures.Proofs.Em.Likelihood
import Mixtures.Proofs.Em.Regular

/-!
# Ascent of the log-likelihood

In exact arithmetic and without a floor, one round of maximization and expectation does not lower
the log-likelihood, as long as no component collapses that has weight and no covariance needs
jitter. The log-densities of the samples rise by at least what the terms of the components rise on
the average, each weighted by its responsibility; and both the weights and the normal distributions
of the new components are the best ones for these responsibilities.

* `log_sum_sub_le`: sums of masses against their terms.
* `gain_of_refits`, `gain_of_weights`: the normal distributions and the weights.
* `log_likelihood_ascends`: a round, and the rounds of training.
-/

namespace Mixtures

/-! ## Logarithms of shares -/

namespace Exact

theorem mul_log_sub_le {a b : ℝ} (ha : 0 ≤ a) (hb : 0 ≤ b) (h : 0 < a → 0 < b) :
    a * (Real.log b - Real.log a) ≤ b - a := by
  rcases ha.eq_or_lt with rfl | hpos
  · simpa using hb
  · have hpos' := h hpos
    calc a * (Real.log b - Real.log a) = a * Real.log (b / a) := by
          rw [Real.log_div hpos'.ne' hpos.ne']
      _ ≤ a * (b / a - 1) :=
          mul_le_mul_of_nonneg_left (Real.log_le_sub_one_of_pos (div_pos hpos' hpos)) ha
      _ = b - a := by rw [mul_sub, mul_one, mul_div_cancel₀ _ hpos.ne']

variable {ι : Type} {s : Finset ι} {a b : ι → ℝ}

/-- **Shares explain themselves best**: in the average over shares, no others have higher
logarithms. -/
theorem sum_mul_log_sub_le (ha : ∀ i ∈ s, 0 ≤ a i) (hb : ∀ i ∈ s, 0 ≤ b i)
    (h : ∀ i ∈ s, 0 < a i → 0 < b i) :
    ∑ i ∈ s, a i * (Real.log (b i) - Real.log (a i)) ≤ ∑ i ∈ s, b i - ∑ i ∈ s, a i := by
  rw [← Finset.sum_sub_distrib]
  exact Finset.sum_le_sum fun i hi => mul_log_sub_le (ha i hi) (hb i hi) (h i hi)

/-- **The logarithm of a sum** rises by at least what the logarithms of its terms rise on the
average over their shares. -/
theorem log_sum_sub_le (ha : ∀ i ∈ s, 0 ≤ a i) (hb : ∀ i ∈ s, 0 ≤ b i)
    (h : ∀ i ∈ s, 0 < a i → 0 < b i) {total total' : ℝ} (htotal : ∑ i ∈ s, a i = total)
    (htotal' : ∑ i ∈ s, b i = total') (hpos : 0 < total) (hpos' : 0 < total') :
    ∑ i ∈ s, a i / total * (Real.log (b i) - Real.log (a i)) ≤
      Real.log total' - Real.log total := by
  have hshares := sum_mul_log_sub_le (s := s) (a := fun i => a i / total)
    (b := fun i => b i / total') (fun i hi => div_nonneg (ha i hi) hpos.le)
    (fun i hi => div_nonneg (hb i hi) hpos'.le)
    (fun i hi hai => div_pos (h i hi ((div_pos_iff_of_pos_right hpos).mp hai)) hpos')
  rw [← Finset.sum_div, ← Finset.sum_div, htotal, htotal', div_self hpos.ne', div_self hpos'.ne',
    sub_self] at hshares
  have hterm : ∀ i ∈ s, a i / total * (Real.log (b i) - Real.log (a i)) =
      a i / total * (Real.log (b i / total') - Real.log (a i / total)) +
        a i / total * (Real.log total' - Real.log total) := by
    intro i hi
    rcases (ha i hi).eq_or_lt with hzero | hai
    · rw [← hzero]
      ring
    · rw [Real.log_div (h i hi hai).ne' hpos'.ne', Real.log_div hai.ne' hpos.ne']
      ring
  rw [Finset.sum_congr rfl hterm, Finset.sum_add_distrib, ← Finset.sum_mul, ← Finset.sum_div,
    htotal, div_self hpos.ne', one_mul]
  linarith only [hshares]

end Exact

namespace Em

/-- The positions of the components with weight. -/
noncomputable def live (components : List (Component ℝ)) : Finset Nat :=
  (Finset.range components.length).filter fun i => 0 < (weightsOf components).getD i 0

theorem mem_live {components : List (Component ℝ)} {i : Nat} :
    i ∈ live components ↔ HasWeight components i := by
  rw [live, Finset.mem_filter, Finset.mem_range, hasWeight_iff]
  exact ⟨fun h => h.2, fun h => ⟨(hasWeight_iff.mpr h).lt_length, h⟩⟩

theorem isPart_massesAt {F : Type} {kernel : DensityKernel ℝ F} {dim count : Nat}
    {components : List (Component ℝ)} (hlength : components.length = count) (x : Point ℝ) :
    IsPart count (live components) (Mixture.massesAt kernel dim components x) where
  length_eq := (Mixture.length_massesAt ..).trans hlength
  nonNegative := Mixture.nonNegative_massesAt kernel dim components x
  outside _ hi := Mixture.getD_massesAt_of_not_hasWeight (mt mem_live.mpr hi) x

namespace Problem

/-! ## What an expectation step leaves behind -/

section Shares

variable {F : Type} {p : Problem ℝ F} {before s : State ℝ} {total : ℝ}

variable (hlength : before.components.length = p.count) (hexpect : p.expect before = .done total s)
  (hlive : ∃ i, HasWeight s.components i) (hcount : 0 < p.count) (hsize : 0 < p.size)

include hlength hexpect hlive hcount hsize

theorem estimable_of_expect_done (hbalanced : p.Balanced (Finset.range p.count) s.components) :
    p.Estimable (live s.components) s := by
  have hcomponents : s.components.length = p.count :=
    (List.length_map _).symm.trans hbalanced.isShare.length_eq
  have hrows := responsibilities_eq_shares hlength hexpect hlive hcount hsize
  refine ⟨by rw [hrows, List.length_map, size], fun row hrow => ?_, hbalanced.isShare.length_eq,
    hbalanced.isShare.nonNegative, fun i hi => ?_⟩
  · rw [hrows] at hrow
    obtain ⟨x, -, rfl⟩ := List.mem_map.mp hrow
    exact (isPart_massesAt hcomponents x).div_sum (densityAt_pos hlength hexpect hlive x)
  · refine le_antisymm (not_lt.mp fun hpos => hi (mem_live.mpr (hasWeight_iff.mpr hpos))) ?_
    exact NonNegative.getD hbalanced.isShare.nonNegative i

end Shares

/-! ## One round -/

section Round

variable {p : Problem ℝ (Cholesky ℝ)} {before s : State ℝ} {total : ℝ}
  {components : List (Component ℝ)}

/-- **The normal distributions** of the new components are the best ones: what is left of the rise
of their terms is the rise of the weights. -/
theorem gain_of_refits (hsize : 0 < p.size) (hkernel : p.kernel = .gaussian)
    (hfloor : p.settings.floor = 0) (hpoints : ∀ x ∈ p.points, x.length = p.dim)
    (hformed : ∀ c ∈ s.components, p.Formed c)
    (hcolumn : ∀ i, column s.responsibilities i = p.points.map (p.share s.components i))
    (hrefits : p.Refits s components) (hfactors : p.Factors s.components)
    (hfactors' : p.Factors components) (i : Nat) :
    (column s.responsibilities i).sum *
        (Real.log ((weightsOf components).getD i 0) -
          Real.log ((weightsOf s.components).getD i 0)) ≤
      (p.points.map fun x => p.share s.components i x *
        (Real.log ((Mixture.massesAt p.kernel p.dim components x).getD i 0) -
          Real.log ((Mixture.massesAt p.kernel p.dim s.components x).getD i 0))).sum := by
  rw [hcolumn]
  by_cases hweight : HasWeight s.components i
  · obtain ⟨e, he, hnew⟩ := hrefits.live i hweight
    obtain ⟨c, hc, hlive⟩ := hweight
    have hlive' : ¬e.weight ≤ 0 := not_le.mpr (estimate_weight_pos hsize he)
    have hformed := hformed c (List.mem_of_getElem? hc)
    obtain ⟨f, hf⟩ := hfactors c (List.mem_of_getElem? hc) hlive
    obtain ⟨f', hf'⟩ := hfactors' e (List.mem_of_getElem? hnew) hlive'
    simp only [Mixture.getD_massesAt_of_factor hc hlive hf,
      Mixture.getD_massesAt_of_factor hnew hlive' hf', Real.log_exp,
      getD_weightsOf_of_getElem? hc, getD_weightsOf_of_getElem? hnew]
    rw [hkernel] at hf hf' ⊢
    rw [hcolumn] at he
    have hbest := sum_logDensity_le hfloor hpoints he hf' hformed.shape.1 hformed.isSymm
      hformed.isDiag hf
    have hsplit : (p.points.map fun x => p.share s.components i x *
          (Real.log e.weight + f'.logDensity e.mean x -
            (Real.log c.weight + f.logDensity c.mean x))).sum +
          (p.points.map fun x => p.share s.components i x * f.logDensity c.mean x).sum =
        (p.points.map (p.share s.components i)).sum * (Real.log e.weight - Real.log c.weight) +
          (p.points.map fun x => p.share s.components i x * f'.logDensity e.mean x).sum := by
      rw [← List.sum_map_add, ← List.sum_map_mul_right, ← List.sum_map_add]
      refine congrArg List.sum (List.map_congr_left fun x _ => ?_)
      ring
    show _ ≤ (p.points.map fun x => p.share s.components i x *
      (Real.log e.weight + f'.logDensity e.mean x -
        (Real.log c.weight + f.logDensity c.mean x))).sum
    linarith only [hbest, hsplit]
  · have hzero : p.share s.components i = fun _ => 0 := by
      funext x
      rw [share, Mixture.getD_massesAt_of_not_hasWeight hweight, zero_div]
    simp [hzero]

/-- **The weights** of the new components are the best ones. -/
theorem gain_of_weights (hsize : 0 < p.size) (hs : p.Estimable (live s.components) s)
    (hbalanced : p.Balanced (Finset.range p.count) s.components) (hrefits : p.Refits s components) :
    0 ≤ ∑ i ∈ Finset.range p.count, (column s.responsibilities i).sum *
      (Real.log ((weightsOf components).getD i 0) -
        Real.log ((weightsOf s.components).getD i 0)) := by
  have hshare := hrefits.isShare hsize hs fun _ => mem_live
  have hbest := Exact.sum_mul_log_sub_le (s := Finset.range p.count)
    (a := fun i => (weightsOf components).getD i 0)
    (b := fun i => (weightsOf s.components).getD i 0)
    (fun i _ => NonNegative.getD hshare.nonNegative i)
    (fun i _ => NonNegative.getD hbalanced.isShare.nonNegative i)
    (fun i _ hpos => hasWeight_iff.mp (mem_live.mp (by
      by_contra hdead
      exact hpos.ne' (hshare.outside i hdead))))
  rw [← Exact.sum_eq_sum_range hshare.length_eq,
    ← Exact.sum_eq_sum_range hbalanced.isShare.length_eq,
    hshare.sum_eq, hbalanced.isShare.sum_eq, sub_self] at hbest
  have hmass : ∀ i, (column s.responsibilities i).sum =
      p.size * (weightsOf components).getD i 0 := by
    intro i
    rw [hrefits.weight_eq hs fun _ => mem_live, mul_div_cancel₀ _ (Nat.cast_pos.mpr hsize).ne']
  have hterms : ∑ i ∈ Finset.range p.count, (column s.responsibilities i).sum *
      (Real.log ((weightsOf components).getD i 0) -
        Real.log ((weightsOf s.components).getD i 0)) =
      -(p.size * ∑ i ∈ Finset.range p.count, (weightsOf components).getD i 0 *
        (Real.log ((weightsOf s.components).getD i 0) -
          Real.log ((weightsOf components).getD i 0))) := by
    rw [Finset.mul_sum, ← Finset.sum_neg_distrib]
    refine Finset.sum_congr rfl fun i _ => ?_
    rw [hmass]
    ring
  rw [hterms]
  exact neg_nonneg.mpr (mul_nonpos_of_nonneg_of_nonpos (Nat.cast_nonneg _) hbest)

/-- **The log-density** of a sample rises by at least what the terms rise on the average. -/
theorem sum_share_le_log_densityAt_sub (hlength : s.components.length = p.count)
    (hsize : 0 < p.size) (hrefits : p.Refits s components) (hfactors' : p.Factors components)
    {x : Point ℝ}
    (hpos : 0 < Mixture.densityAt p.kernel p.dim s.components x)
    (hpos' : 0 < Mixture.densityAt p.kernel p.dim components x) :
    ∑ i ∈ Finset.range p.count, p.share s.components i x *
        (Real.log ((Mixture.massesAt p.kernel p.dim components x).getD i 0) -
          Real.log ((Mixture.massesAt p.kernel p.dim s.components x).getD i 0)) ≤
      Real.log (Mixture.densityAt p.kernel p.dim components x) -
        Real.log (Mixture.densityAt p.kernel p.dim s.components x) := by
  have hnonneg : ∀ components i, 0 ≤ (Mixture.massesAt p.kernel p.dim components x).getD i 0 :=
    fun components i => NonNegative.getD (Mixture.nonNegative_massesAt _ _ components x) i
  refine Exact.log_sum_sub_le (fun i _ => hnonneg _ i) (fun i _ => hnonneg _ i)
    (fun i _ hmass => ?_)
    (Exact.sum_eq_sum_range ((Mixture.length_massesAt ..).trans hlength)).symm
    (Exact.sum_eq_sum_range ((Mixture.length_massesAt ..).trans hrefits.length_eq)).symm hpos hpos'
  have hweight : HasWeight s.components i := by
    by_contra hdead
    exact hmass.ne' (Mixture.getD_massesAt_of_not_hasWeight hdead x)
  obtain ⟨c, hc, hpositive⟩ := hrefits.hasWeight hsize hweight
  obtain ⟨f, hf⟩ := hfactors' c (List.mem_of_getElem? hc) hpositive
  rw [Mixture.getD_massesAt_of_factor hc hpositive hf]
  exact Real.exp_pos _

/-- **One round**: a maximization step in which no component collapses that has weight, and an
expectation step in which every covariance can be factored as it stands. -/
theorem ascends (hkernel : p.kernel = .gaussian) (hfloor : p.settings.floor = 0)
    (hpoints : ∀ x ∈ p.points, x.length = p.dim) (hsize : 0 < p.size)
    (hexpect : p.expect before = .done total s) (hregular : p.Regular s.components)
    (hkept : ∀ i ∈ collapsed (p.estimates s.responsibilities), ¬HasWeight s.components i)
    (event : GroupEvent ℝ) :
    ∃ s', p.maximize (s.record event) = .done () s' ∧ s'.resets = s.resets ∧
      (p.Factors s'.components → ∃ next s'', p.expect s' = .done next s'' ∧
        s''.components = s'.components ∧ s''.resets = s.resets ∧ total ≤ next) := by
  obtain ⟨factors, hexplains⟩ := expect_done hexpect
  have hlength : s.components.length = p.count := hregular.good.1
  have hbefore : before.components.length = p.count := hexplains.length_eq.symm.trans hlength
  have hlive := hregular.exists_hasWeight
  have hcount : 0 < p.count := by
    obtain ⟨i, hi⟩ := hlive
    exact Nat.zero_lt_of_lt (hlength ▸ hi.lt_length)
  have hestimable := estimable_of_expect_done hbefore hexpect hlive hcount hsize hregular.balanced
  obtain ⟨s', hmaximize, hresets, hrecorded⟩ := maximize_refits hsize (hestimable.record event)
    (fun _ => mem_live) hregular.balanced.hasWeight hkept
  have hrefits : p.Refits s s'.components := ⟨hrecorded.length_eq, hrecorded.live, hrecorded.dead⟩
  refine ⟨s', hmaximize, hresets, fun hfactors' => ?_⟩
  obtain ⟨next, s'', hexpect', hcomponents, hresets'⟩ := expect_of_factors hfactors'
  refine ⟨next, s'', hexpect', hcomponents, hresets'.trans hresets, ?_⟩
  have hlive' : ∃ i, HasWeight s''.components i := by
    obtain ⟨i, hi⟩ := hlive
    exact ⟨i, hcomponents ▸ hrefits.hasWeight hsize hi⟩
  have hfactors : p.Factors s.components := by
    intro c hc hpositive
    obtain ⟨i, hi⟩ := List.mem_iff_getElem?.mp hc
    exact hexplains.exists_factor hbefore hi hpositive
  have htotal := total_eq_sum_log hbefore hexpect hlive hcount hsize
  have hnext := total_eq_sum_log hrefits.length_eq hexpect' hlive' hcount hsize
  have hpositive := densityAt_pos hbefore hexpect hlive
  have hpositive' := densityAt_pos hrefits.length_eq hexpect' hlive'
  rw [hcomponents] at hnext hpositive'
  have hweights := gain_of_weights hsize hestimable hregular.balanced hrefits
  have hgains := Finset.sum_le_sum fun i (_ : i ∈ Finset.range p.count) =>
    gain_of_refits hsize hkernel hfloor hpoints hregular.good.2
      (column_eq_share hbefore hexpect hlive hcount hsize) hrefits hfactors hfactors' i
  have hrise := List.sum_le_sum fun x (_ : x ∈ p.points) =>
    le_sub_iff_add_le.mp (sum_share_le_log_densityAt_sub hlength hsize hrefits hfactors'
      (hpositive x) (hpositive' x))
  rw [List.sum_map_add, Exact.sum_map_sum, ← htotal, ← hnext] at hrise
  linarith only [hweights, hgains, hrise]

end Round

end Problem

namespace Settings

/-- **The log-likelihood ascends**, in exact arithmetic, for normal distributions without a floor
and for either form of covariances. From regular components that a completed expectation step has
left behind, a maximization step in which no component collapses that has weight is completed and
resets none; and if after it every covariance of a component with weight can be factored as it
stands, then the next expectation step is completed as well, and its log-likelihood is not lower. In
a run all components that an expectation step leaves behind are regular. -/
theorem log_likelihood_ascends :
    (∀ (p : Problem ℝ (Cholesky ℝ)) (before s : State ℝ) (total : ℝ), p.kernel = .gaussian →
      p.settings.floor = 0 → (∀ x ∈ p.points, x.length = p.dim) → 0 < p.size →
      p.expect before = .done total s → p.Regular s.components →
      (∀ i ∈ Problem.collapsed (p.estimates s.responsibilities), ¬HasWeight s.components i) →
      ∀ event, ∃ s', p.maximize (s.record event) = .done () s' ∧ s'.resets = s.resets ∧
        (p.Factors s'.components → ∃ next s'', p.expect s' = .done next s'' ∧
          s''.components = s'.components ∧ s''.resets = s.resets ∧ total ≤ next)) ∧
    ∀ (s : Settings ℝ) (samples : List (Point ℝ)) (ids : List Nat) (groupCount : Nat)
      (t : Training ℝ), s.Yields .gaussian samples ids groupCount t →
      ∀ group m r, t.Gives group m r → 0 < (Layout.owned group ids samples).length →
        ∃ own, (s.groupProblem .gaussian samples ids t.models.dim group).TrainsTo own m r ∧
          ∀ trace valid before after total,
            (s.groupProblem .gaussian samples ids t.models.dim group).Reaches
                ((s.groupProblem .gaussian samples ids t.models.dim group).initialState
                  (own.map (oneHot s.componentCount))) trace valid before →
              (s.groupProblem .gaussian samples ids t.models.dim group).expect before =
                .done total after →
              (s.groupProblem .gaussian samples ids t.models.dim group).Regular
                after.components := by
  constructor
  · intro p before s total hkernel hfloor hpoints hsize hexpect hregular hkept event
    exact Problem.ascends hkernel hfloor hpoints hsize hexpect hregular hkept event
  · intro s samples ids groupCount t h group m r hgives hsize
    obtain ⟨own, hown⟩ := h.exists_labels hgives
    refine ⟨own, hown, fun trace valid before after total hreaches hexpect => ?_⟩
    exact Problem.regular_of_reaches (length_eq_of_mem_groupProblem h.fittable group) hsize
      hown.length_eq hown.lt_count hreaches hexpect

/-- One component, and no floor. -/
noncomputable def noFloor : Settings ℝ :=
  { (ofCount 1 : Settings ℝ) with floor := 0 }

/-- Two samples on a line for one normal distribution, without a floor. -/
noncomputable def oneNormal : Problem ℝ (Cholesky ℝ) where
  settings := noFloor
  points := [[-1], [1]]
  dim := 1
  kernel := .gaussian

/-- The normal distribution around the one sample. -/
noncomputable def aroundOne : State ℝ where
  components := [⟨1, [1], [1]⟩]
  responsibilities := []
  resets := 0
  history := []

theorem regular_aroundOne : oneNormal.Regular aroundOne.components where
  good := by
    refine ⟨rfl, fun c hc => ?_⟩
    obtain rfl := List.mem_singleton.mp hc
    exact ⟨⟨rfl, rfl⟩, Cholesky.isSymm_singleton [1], nofun⟩
  balanced := by
    refine ⟨⟨⟨rfl, ?_, fun i hi => ?_⟩, by simp [weightsOf, aroundOne]⟩, fun _ i hi => ?_⟩
    · simp [NonNegative, weightsOf, aroundOne]
    · exact List.getD_eq_default _ _ (not_lt.mp fun hlt => hi (Finset.mem_range.mpr hlt))
    · obtain rfl : i = 0 := Nat.lt_one_iff.mp hi
      exact ⟨_, rfl, by simp⟩

/-- The only component can be factored if its variance is one. -/
theorem factors_oneNormal (mean : Point ℝ) : oneNormal.Factors [⟨1, mean, [1]⟩] := by
  intro c hc _
  obtain rfl := List.mem_singleton.mp hc
  exact Cholesky.exists_factor_singleton one_pos

/-- What a sample is given to the only component. -/
theorem share_aroundOne (x : Point ℝ) : oneNormal.share aroundOne.components 0 x = 1 := by
  obtain ⟨f, hf⟩ := Cholesky.exists_factor_singleton one_pos
  have hmass : (Mixture.massesAt oneNormal.kernel oneNormal.dim aroundOne.components x).getD 0 0 ≠
      0 := by
    rw [Mixture.getD_massesAt_of_factor (c := ⟨1, [1], [1]⟩) (f := f) rfl (by simp) hf]
    exact (Real.exp_pos _).ne'
  have hdensity : Mixture.densityAt oneNormal.kernel oneNormal.dim aroundOne.components x =
      (Mixture.massesAt oneNormal.kernel oneNormal.dim aroundOne.components x).getD 0 0 :=
    add_zero _
  rw [Problem.share, hdensity, div_self hmass]

theorem estimates_oneNormal {rows : List (List ℝ)} (hcolumn : column rows 0 = [1, 1]) :
    oneNormal.estimates rows = [some ⟨1, [0], [1]⟩] := by
  have hestimate : oneNormal.estimate [1, 1] = some ⟨1, [0], [1]⟩ := by
    norm_num [Problem.estimate, oneNormal, noFloor, ofCount, Problem.weighted, Problem.weightedMean,
      Problem.weightedCovariance, Problem.weightedProduct, Problem.size, collapseBound,
      Square.tabulate]
  exact congrArg (fun e => [e]) ((congrArg oneNormal.estimate hcolumn).trans hestimate)

/-- Samples that are given to the only component make it the standard normal distribution. -/
theorem maximize_oneNormal {s : State ℝ} (hlength : s.components.length = 1)
    (hcolumn : column s.responsibilities 0 = [1, 1]) :
    oneNormal.maximize s = .done () { s with components := [⟨1, [0], [1]⟩] } :=
  Problem.maximize_of_estimates hlength (estimates_oneNormal hcolumn)
    (normalizeWeights_of_sum_eq (by simp [weightsOf]))

theorem fittable_oneNormal : Fittable ([[-1], [1]] : List (Point ℝ)) [0, 0] 1 1 where
  aligned := rfl
  nonempty := List.cons_ne_nil _ _
  dim_pos := Nat.one_pos
  length_eq := by simp
  finite := by simp
  id_lt := by simp
  sorted := by simp

/-- One round leads from the normal distribution around the one sample to the standard normal
distribution. That is also where a run begins, with regular components. -/
theorem log_likelihood_ascends_oneNormal :
    (∃ total s s' next s'', oneNormal.expect aroundOne = .done total s ∧
      oneNormal.maximize (s.record (.iteration 0 total)) = .done () s' ∧
      s'.components = [⟨1, [0], [1]⟩] ∧ oneNormal.expect s' = .done next s'' ∧ total ≤ next) ∧
    ∃ t m r before total after, noFloor.Yields .gaussian [[-1], [1]] [0, 0] 1 t ∧ t.Gives 0 m r ∧
      oneNormal.Reaches (oneNormal.initialState [[1], [1]]) [] none before ∧
      oneNormal.expect before = .done total after ∧ oneNormal.Regular after.components := by
  constructor
  · obtain ⟨total, s, hexpect, hcomponents, -⟩ :=
      Problem.expect_of_factors (s := aroundOne) (factors_oneNormal [1])
    have hregular : oneNormal.Regular s.components := hcomponents ▸ regular_aroundOne
    have hcolumn : column s.responsibilities 0 = [1, 1] := by
      rw [Problem.column_eq_share rfl hexpect hregular.exists_hasWeight Nat.one_pos Nat.two_pos,
        hcomponents]
      exact congrArg₂ (fun a b => [a, b]) (share_aroundOne _) (share_aroundOne _)
    have hkept : ∀ i ∈ Problem.collapsed (oneNormal.estimates s.responsibilities),
        ¬HasWeight s.components i := by
      rw [estimates_oneNormal hcolumn]
      exact nofun
    obtain ⟨s', hmaximize, -, hnext⟩ := log_likelihood_ascends.1 oneNormal aroundOne s total rfl rfl
      (by simp [oneNormal]) Nat.two_pos hexpect hregular hkept (.iteration 0 total)
    have hstandard := maximize_oneNormal (s := s.record (.iteration 0 total))
      (congrArg List.length hcomponents) hcolumn
    rw [hmaximize, Outcome.done.injEq] at hstandard
    obtain ⟨-, rfl⟩ := hstandard
    obtain ⟨next, s'', hexpect', -, -, hle⟩ := hnext (factors_oneNormal [0])
    exact ⟨total, s, _, next, s'', hexpect, hmaximize, rfl, hexpect', hle⟩
  · have hvalid : noFloor.validate = .ok () := by
      simp [validate_eq_ok_iff, isFiniteNonNegative, noFloor, ofCount]
    have hstart : noFloor.startLabels 2 (some [0, 0]) = .ok (some [0, 0]) := rfl
    obtain ⟨t, ht, hgives⟩ :=
      exists_train_gives fittable_oneNormal .gaussian 0 .sequential hstart hvalid
    have hyields : noFloor.Yields .gaussian [[-1], [1]] [0, 0] 1 t := .train ht
    have hdim : t.models.dim = 1 := (hyields.fittable.length_eq [-1] (by simp)).symm
    obtain ⟨own, hown, hall⟩ :=
      log_likelihood_ascends.2 noFloor [[-1], [1]] [0, 0] 1 t hyields 0 _ _
      (hgives 0 Nat.one_pos) Nat.two_pos
    rw [hdim] at hown hall
    have hlabels : own = [0, 0] := List.eq_replicate_iff.mpr
      ⟨hown.length_eq, fun label hlabel => Nat.lt_one_iff.mp (hown.lt_count label hlabel)⟩
    rw [hlabels] at hall
    have hreaches : oneNormal.Reaches (oneNormal.initialState [[1], [1]]) [] none
        { oneNormal.initialState [[1], [1]] with components := [⟨1, [0], [1]⟩] } :=
      .first (maximize_oneNormal rfl rfl)
    obtain ⟨total, after, hexpect, -, -⟩ := Problem.expect_of_factors
      (s := { oneNormal.initialState [[1], [1]] with components := [⟨1, [0], [1]⟩] })
      (factors_oneNormal [0])
    exact ⟨t, _, _, _, total, after, hyields, hgives 0 Nat.one_pos, hreaches, hexpect,
      hall [] none _ after total hreaches hexpect⟩

end Settings

end Em

end Mixtures
