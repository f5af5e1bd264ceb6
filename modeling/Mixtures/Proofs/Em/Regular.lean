import Mathlib
import Mixtures.Proofs.Em.Estimates
import Mixtures.Proofs.Em.Weights

/-!
# Regular components

In exact arithmetic all components that training makes are regular: they fit the dimension, their
covariances are symmetric, and diagonal if that is what is asked for. While no component collapses
that has weight, a maximization step is the plain one: it estimates all of them anew and resets
nothing.

* `keeps_formed`, `regular_of_reaches`: regular components as an invariant of training.
* `maximize_refits`: a maximization step in which no component collapses that has weight.
-/

namespace Mixtures.Em

open Matrix

variable {F : Type}

namespace Problem

variable {p : Problem ℝ F}

/-- A component that fits the dimension, with a symmetric covariance of the form that is
asked for. -/
structure Formed (p : Problem ℝ F) (c : Component ℝ) : Prop where
  shape : c.HasShape p.dim
  isSymm : (Square.matrix p.dim c.covariance).IsSymm
  isDiag : p.settings.form = .diagonal → (Square.matrix p.dim c.covariance).IsDiag

/-- A component is formed if it has its shape and its covariance is symmetric, entry by entry. -/
theorem formed_iff {c : Component ℝ} : p.Formed c ↔ c.HasShape p.dim ∧ p.Symmetric c := by
  constructor
  · intro h
    refine ⟨h.shape, h.shape.2, fun i hi j hj => ?_, fun hform i hi j hj hne => ?_⟩
    · exact (h.isSymm.apply ⟨i, hi⟩ ⟨j, hj⟩).symm
    · exact h.isDiag hform (i := ⟨i, hi⟩) (j := ⟨j, hj⟩) (Fin.ne_of_val_ne hne)
  · exact fun ⟨hshape, hform⟩ => ⟨hshape, hform.isSymm, hform.isDiag⟩

/-- Training keeps components formed. -/
theorem keeps_formed (hpoints : ∀ x ∈ p.points, x.length = p.dim) :
    p.Keeps p.Formed fun _ => True := by
  rw [show p.Formed = fun c => c.HasShape p.dim ∧ p.Symmetric c from
    funext fun c => propext formed_iff]
  exact (keeps_hasShape hpoints).and (keeps_symmetric hpoints)

/-- Formed components with weights that are shares, all of them positive if there are enough
samples. -/
structure Regular (p : Problem ℝ F) (components : List (Component ℝ)) : Prop where
  good : p.Good p.Formed components
  balanced : p.Balanced (Finset.range p.count) components

theorem Regular.exists_hasWeight {components : List (Component ℝ)} (h : p.Regular components) :
    ∃ i, HasWeight components i := by
  obtain ⟨i, hi⟩ := h.balanced.isShare.exists_pos
  exact ⟨i, hasWeight_iff.mpr hi⟩

theorem Balanced.mono {support positions : Finset Nat} {components : List (Component ℝ)}
    (h : p.Balanced support components) (hsubset : support ⊆ positions) :
    p.Balanced positions components :=
  ⟨⟨⟨h.isShare.length_eq, h.isShare.nonNegative,
      fun i hi => h.isShare.outside i fun hmem => hi (hsubset hmem)⟩, h.isShare.sum_eq⟩,
    h.hasWeight⟩

/-- **Whatever an expectation step of training leaves behind is regular.** -/
theorem regular_of_reaches (hpoints : ∀ x ∈ p.points, x.length = p.dim) (hsize : 0 < p.size)
    {labels : List Nat} (hlength : labels.length = p.size) (hlt : ∀ label ∈ labels, label < p.count)
    {trace : List ℝ} {valid : Option (List (Component ℝ))} {before s : State ℝ} {total : ℝ}
    (hreaches : p.Reaches (p.initialState (labels.map (oneHot p.count))) trace valid before)
    (hexpect : p.expect before = .done total s) : p.Regular s.components := by
  have hne : p.points ≠ [] := List.ne_nil_of_length_pos hsize
  obtain ⟨support, hhosts, hmem⟩ := exists_hosts hsize hlength hlt
  have hbalanced := expect_balanced hhosts
    (reaches_balanced hhosts (initialState_estimable hhosts hlength hmem) hreaches).1
  have hholds := expect_holds (keeps_formed hpoints) hne
    (reaches_holds (keeps_formed hpoints) hne
      (initialState_holds (keeps_formed hpoints) hlength) hreaches)
  rw [hexpect] at hbalanced hholds
  exact ⟨hholds.good, hbalanced.mono hhosts.subset⟩

/-! ## The maximization step without a collapse -/

/-- Silencing takes the weight from the given components and leaves it to the others. -/
theorem getD_weightsOf_silence (p : Problem ℝ F) (positions : List Nat)
    (components : List (Component ℝ)) (i : Nat) :
    (weightsOf (p.silence positions components)).getD i 0 =
      if i ∈ positions then 0 else (weightsOf components).getD i 0 := by
  unfold silence
  induction positions generalizing components with
  | nil => rfl
  | cons position positions ih =>
    rw [List.foldl_cons, ih, weightsOf_silence_step, getD_set]
    by_cases hi : i ∈ positions
    · rw [if_pos hi, if_pos (List.mem_cons_of_mem _ hi)]
    by_cases hposition : position = i
    · subst hposition
      rw [if_neg hi, if_pos List.mem_cons_self]
      split
      · rfl
      next hlength => exact List.getD_eq_default _ _ (not_lt.mp fun hlt => hlength ⟨rfl, hlt⟩)
    · rw [if_neg hi, if_neg fun h => hposition h.1, if_neg]
      exact List.not_mem_cons_of_ne_of_not_mem (Ne.symm hposition) hi

theorem getElem?_silence (p : Problem ℝ F) {positions : List Nat} {components : List (Component ℝ)}
    {i : Nat} (hi : i ∉ positions) : (p.silence positions components)[i]? = components[i]? := by
  unfold silence
  induction positions generalizing components with
  | nil => rfl
  | cons position positions ih =>
    obtain ⟨hposition, hrest⟩ := List.ne_and_not_mem_of_not_mem_cons hi
    rw [List.foldl_cons, ih hrest, List.getElem?_modify_ne _ _ (Ne.symm hposition)]

/-- Components that are estimated anew where there was weight, and have none elsewhere. -/
structure Refits (p : Problem ℝ F) (s : State ℝ) (components : List (Component ℝ)) : Prop where
  length_eq : components.length = p.count
  live : ∀ i, HasWeight s.components i →
    ∃ e, p.estimate (column s.responsibilities i) = some e ∧ components[i]? = some e
  dead : ∀ i, ¬HasWeight s.components i → (weightsOf components).getD i 0 = 0

section Refits

variable {support : Finset Nat} {s : State ℝ}

/-- If no component collapses that has weight, recovery resets nothing. -/
theorem recover_refits (hs : p.Estimable support s)
    (hsupport : ∀ i, i ∈ support ↔ HasWeight s.components i)
    (henough : p.count ≤ p.size → ∀ i < p.count, HasWeight s.components i)
    (h : ∀ i ∈ collapsed (p.estimates s.responsibilities), ¬HasWeight s.components i) :
    ∃ s', p.recover (collapsed (p.estimates s.responsibilities))
        { s with components := p.estimated s } = .done () s' ∧
      s'.resets = s.resets ∧ p.Refits s s'.components := by
  have hlength : s.components.length = p.count :=
    (List.length_map _).symm.trans hs.weights.length_eq
  have hestimated : (p.estimated s).length = p.count := by
    rw [estimated, List.length_zipWith, length_estimates, hlength, Nat.min_self]
  have hlive : ∀ i, HasWeight s.components i →
      ∃ e, p.estimate (column s.responsibilities i) = some e ∧ (p.estimated s)[i]? = some e := by
    intro i hweight
    have hi : i < p.count := hlength ▸ hweight.lt_length
    obtain ⟨c, -, hnew⟩ := getElem?_estimated hs hi
    cases he : p.estimate (column s.responsibilities i) with
    | none =>
      refine absurd hweight (h i ?_)
      rw [mem_collapsed, getElem?_estimates p _ hi, he]
    | some e =>
      rw [he] at hnew
      exact ⟨e, rfl, hnew⟩
  unfold recover
  split
  next hsamples =>
    -- with enough samples every component has weight
    have hnone : collapsed (p.estimates s.responsibilities) = [] := by
      refine List.eq_nil_iff_forall_not_mem.mpr fun i hi => h i hi (henough hsamples i ?_)
      exact length_estimates p s.responsibilities ▸
        (List.getElem?_eq_some_iff.mp (mem_collapsed.mp hi)).1
    rw [hnone]
    refine ⟨_, rfl, rfl, hestimated, hlive, fun i hdead => List.getD_eq_default _ _ ?_⟩
    rw [weightsOf, List.length_map, hestimated]
    exact not_lt.mp fun hi => hdead (henough hsamples i hi)
  next =>
    refine ⟨_, rfl, rfl, (length_silence p _ _).trans hestimated, fun i hweight => ?_,
      fun i hdead => ?_⟩
    · obtain ⟨e, he, hnew⟩ := hlive i hweight
      exact ⟨e, he, (getElem?_silence p fun hi => h i hi hweight).trans hnew⟩
    · rw [getD_weightsOf_silence]
      split
      · rfl
      next hkept =>
        refine List.getD_eq_default _ _ ?_
        rw [weightsOf, List.length_map, hestimated]
        refine not_lt.mp fun hi => hkept ?_
        rw [mem_collapsed, getElem?_estimates p _ hi, estimate_of_le]
        rw [mass_eq_zero hs.row (mt (hsupport i).mp hdead)]
        exact div_nonneg zero_le_one (Nat.cast_nonneg _)

/-- No component loses its weight. -/
theorem Refits.hasWeight (hsize : 0 < p.size) {components : List (Component ℝ)}
    (h : p.Refits s components) {i : Nat} (hi : HasWeight s.components i) :
    HasWeight components i := by
  obtain ⟨e, he, hnew⟩ := h.live i hi
  exact ⟨e, hnew, not_le.mpr (estimate_weight_pos hsize he)⟩

/-- The new weights are the shares of the samples. -/
theorem Refits.weight_eq (hs : p.Estimable support s)
    (hsupport : ∀ i, i ∈ support ↔ HasWeight s.components i) {components : List (Component ℝ)}
    (h : p.Refits s components) (i : Nat) :
    (weightsOf components).getD i 0 = (column s.responsibilities i).sum / p.size := by
  by_cases hweight : HasWeight s.components i
  · obtain ⟨e, he, hnew⟩ := h.live i hweight
    rw [getD_weightsOf_of_getElem? hnew, (estimate_eq_some he).2.1]
  · rw [h.dead i hweight, mass_eq_zero hs.row (mt (hsupport i).mp hweight), zero_div]

theorem Refits.isShare (hsize : 0 < p.size) (hs : p.Estimable support s)
    (hsupport : ∀ i, i ∈ support ↔ HasWeight s.components i) {components : List (Component ℝ)}
    (h : p.Refits s components) : IsShare p.count support (weightsOf components) where
  length_eq := (List.length_map _).trans h.length_eq
  nonNegative w hw := by
    obtain ⟨i, hi, rfl⟩ := List.mem_iff_getElem.mp hw
    rw [← List.getD_eq_getElem _ 0 hi, h.weight_eq hs hsupport]
    have hcolumn := nonNegative_column (fun row hrow => (hs.row row hrow).nonNegative) i
    exact div_nonneg (List.sum_nonneg hcolumn) (Nat.cast_nonneg _)
  outside i hi := h.dead i (mt (hsupport i).mpr hi)
  sum_eq := by
    have hlength : (weightsOf components).length = p.count := (List.length_map _).trans h.length_eq
    rw [Exact.sum_eq_sum_range hlength]
    simp only [h.weight_eq hs hsupport]
    rw [← Finset.sum_div, sum_mass_eq hs.row, hs.rowCount, div_self (Nat.cast_pos.mpr hsize).ne']

/-- **A maximization step** in which no component collapses that has weight estimates all of these
anew, and resets nothing. -/
theorem maximize_refits (hsize : 0 < p.size) (hs : p.Estimable support s)
    (hsupport : ∀ i, i ∈ support ↔ HasWeight s.components i)
    (henough : p.count ≤ p.size → ∀ i < p.count, HasWeight s.components i)
    (h : ∀ i ∈ collapsed (p.estimates s.responsibilities), ¬HasWeight s.components i) :
    ∃ s', p.maximize s = .done () s' ∧ s'.resets = s.resets ∧ p.Refits s s'.components := by
  obtain ⟨s', hrecover, hresets, hrefits⟩ := recover_refits hs hsupport henough h
  refine ⟨s', ?_, hresets, hrefits⟩
  rw [maximize_eq, hrecover, Outcome.andThen,
    normalizeWeights_of_sum_eq (hrefits.isShare hsize hs hsupport).sum_eq]

end Refits

end Problem

end Mixtures.Em
