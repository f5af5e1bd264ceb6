import Mathlib
import Mixtures.Proofs.Em.Factoring
import Mixtures.Proofs.Em.Responsibilities

/-!
# Shares of weight

In exact arithmetic the steps of training turn responsibilities that are shares into weights that
are shares, and back. The positions to which weights can go are fixed from the start,
`Problem.Hosts`: no more of them than there are samples, and all of them if there are enough
samples.

* `maximize_done`, `maximize_gaveUp`: a maximization step makes weights from responsibilities. Some
  component gets a whole sample, so dividing by the sum of the weights is never skipped.
* `expect_balanced`, `expect_estimable`: an expectation step keeps the weights shares, takes the
  weight from no component, and makes responsibilities from them.
-/

namespace Mixtures.Em

variable {F : Type}

/-- The weights of components. -/
def weightsOf (components : List (Component ℝ)) : List ℝ := components.map (·.weight)

theorem getD_weightsOf_of_getElem? {components : List (Component ℝ)} {i : Nat} {c : Component ℝ}
    (h : components[i]? = some c) : (weightsOf components).getD i 0 = c.weight := by
  rw [weightsOf, List.getD_eq_getElem?_getD, List.getElem?_map, h]
  rfl

theorem hasWeight_iff {components : List (Component ℝ)} {i : Nat} :
    HasWeight components i ↔ 0 < (weightsOf components).getD i 0 := by
  unfold HasWeight
  cases hc : components[i]? with
  | none => simp [weightsOf, List.getD_eq_getElem?_getD, hc]
  | some c =>
    rw [getD_weightsOf_of_getElem? hc]
    simp

theorem pos_of_hasWeight {count : Nat} {components : List (Component ℝ)}
    (hlength : (weightsOf components).length = count) (h : ∀ i < count, HasWeight components i) :
    ∀ w ∈ weightsOf components, 0 < w := by
  intro w hw
  obtain ⟨i, hi, rfl⟩ := List.mem_iff_getElem.mp hw
  rw [← List.getD_eq_getElem _ 0 hi]
  exact hasWeight_iff.mp (h i (hlength ▸ hi))

/-! ## Making shares -/

section Shares

variable {count : Nat} {support : Finset Nat} {row : List ℝ}

theorem IsPart.sum_pos (h : IsPart count support row) {i : Nat} (hi : 0 < row.getD i 0) :
    0 < row.sum := by
  have hmem : row.getD i 0 ∈ row := by
    by_cases hlt : i < row.length
    · exact getD_mem hlt 0
    · rw [List.getD_eq_default row 0 (Nat.not_lt.mp hlt)] at hi
      exact absurd hi (lt_irrefl 0)
  exact hi.trans_le (List.single_le_sum h.nonNegative _ hmem)

/-- Numbers that are not all zero are shares of their sum. -/
theorem IsPart.div_sum (h : IsPart count support row) (hpos : 0 < row.sum) :
    IsShare count support (row.map (· / row.sum)) where
  length_eq := (List.length_map _).trans h.length_eq
  nonNegative r hr := by
    obtain ⟨old, hold, rfl⟩ := List.mem_map.mp hr
    exact div_nonneg (h.nonNegative old hold) hpos.le
  sum_eq := by rw [Exact.sum_map_div, div_self hpos.ne']
  outside i hi := by rw [Exact.getD_map_div, h.outside i hi, zero_div]

theorem getD_set (row : List ℝ) (i : Nat) (r : ℝ) (j : Nat) :
    (row.set i r).getD j 0 = if i = j ∧ i < row.length then r else row.getD j 0 := by
  rw [List.getD_eq_getElem?_getD, List.getElem?_set, List.getD_eq_getElem?_getD]
  by_cases hij : i = j
  · subst hij
    by_cases hlt : i < row.length <;> simp [hlt]
  · rw [if_neg hij, if_neg fun h => hij h.1]

theorem IsPart.set (h : IsPart count support row) {r : ℝ} (hr : 0 ≤ r) {i : Nat}
    (hi : i ∉ support → r = 0) : IsPart count support (row.set i r) where
  length_eq := (List.length_set ..).trans h.length_eq
  nonNegative v hv := by
    rcases List.mem_or_eq_of_mem_set hv with hold | rfl
    · exact h.nonNegative v hold
    · exact hr
  outside j hj := by
    rw [getD_set]
    split
    next hij => exact hi (hij.1 ▸ hj)
    next => exact h.outside j hj

/-- Some share is not zero. -/
theorem IsShare.exists_pos (h : IsShare count support row) : ∃ i, 0 < row.getD i 0 := by
  by_contra hnone
  have hle : ∀ r ∈ row, r ≤ 0 := by
    intro r hr
    obtain ⟨i, hi, rfl⟩ := List.mem_iff_getElem.mp hr
    rw [← List.getD_eq_getElem row 0 hi]
    exact not_lt.mp fun hpos => hnone ⟨i, hpos⟩
  have hsum := List.sum_le_card_nsmul row 0 hle
  rw [smul_zero, h.sum_eq] at hsum
  exact absurd hsum (not_le.mpr one_pos)

end Shares

/-! ## Weights that are divided by their sum -/

theorem weightsOf_normalizeWeights {components : List (Component ℝ)}
    (h : 0 < (weightsOf components).sum) :
    weightsOf (normalizeWeights components) =
      (weightsOf components).map (· / (weightsOf components).sum) := by
  have htotal : Scalar.sum (components.map (·.weight)) = (weightsOf components).sum :=
    Exact.sum_eq _
  unfold normalizeWeights
  dsimp only
  rw [htotal, if_pos (by simp [h]), weightsOf, List.map_map, weightsOf, List.map_map]
  rfl

/-- Division by the sum makes shares of weights that are not all zero. -/
theorem isShare_normalizeWeights {count : Nat} {support : Finset Nat}
    {components : List (Component ℝ)} (h : IsPart count support (weightsOf components)) {i : Nat}
    (hi : HasWeight components i) :
    IsShare count support (weightsOf (normalizeWeights components)) := by
  have hpos := h.sum_pos (hasWeight_iff.mp hi)
  rw [weightsOf_normalizeWeights hpos]
  exact h.div_sum hpos

/-- Weights that add up to one are not changed by dividing by their sum. -/
theorem normalizeWeights_of_sum_eq {components : List (Component ℝ)}
    (h : (weightsOf components).sum = 1) : normalizeWeights components = components := by
  have hsum : Scalar.sum (components.map (·.weight)) = (1 : ℝ) := (Exact.sum_eq _).trans h
  unfold normalizeWeights
  dsimp only
  rw [hsum]
  simp

/-- Division by the sum takes the weight from no component. -/
theorem hasWeight_normalizeWeights {components : List (Component ℝ)} {i : Nat}
    (h : HasWeight components i) : HasWeight (normalizeWeights components) i := by
  by_cases hpos : 0 < (weightsOf components).sum
  · rw [hasWeight_iff] at h ⊢
    rw [weightsOf_normalizeWeights hpos, Exact.getD_map_div]
    exact div_pos h hpos
  · have hsame : normalizeWeights components = components := by
      unfold normalizeWeights
      dsimp only
      rw [Exact.sum_eq, if_neg]
      simpa [weightsOf] using hpos
    rw [hsame]
    exact h

namespace Problem

variable {p : Problem ℝ F} {support : Finset Nat}

/-- The positions to which weights can go: no more than there are samples, and all of them if there
are enough samples. -/
structure Hosts (p : Problem ℝ F) (support : Finset Nat) : Prop where
  subset : support ⊆ Finset.range p.count
  nonempty : support.Nonempty
  card_le : support.card ≤ p.size
  eq_range : p.count ≤ p.size → support = Finset.range p.count

namespace Hosts

theorem size_pos (h : p.Hosts support) : 0 < p.size := h.nonempty.card_pos.trans_le h.card_le

theorem lt (h : p.Hosts support) {i : Nat} (hi : i ∈ support) : i < p.count :=
  Finset.mem_range.mp (h.subset hi)

end Hosts

/-! ## Resets -/

theorem resetComponent_weight_pos (h : p.Hosts support) (sample : Nat) :
    0 < (p.resetComponent sample).weight :=
  one_div_pos.mpr (Nat.cast_pos.mpr h.size_pos)

theorem weightsOf_set (components : List (Component ℝ)) (i : Nat) (c : Component ℝ) :
    weightsOf (components.set i c) = (weightsOf components).set i c.weight :=
  List.map_set

/-- A reset gives weight to one component and takes it from none. -/
theorem reset_hasWeight (h : p.Hosts support) {component : Nat} {s s' : State ℝ}
    (hdone : p.reset component s = .done () s') {i : Nat}
    (hi : HasWeight s.components i ∨ i = component ∧ component < s.components.length) :
    HasWeight s'.components i := by
  rw [reset_done hdone]
  apply hasWeight_normalizeWeights
  rw [hasWeight_iff, weightsOf_set, getD_set]
  split
  · exact resetComponent_weight_pos h _
  next hne =>
    rcases hi with hi | ⟨rfl, hlt⟩
    · exact hasWeight_iff.mp hi
    · exact absurd ⟨rfl, by simpa [weightsOf] using hlt⟩ hne

theorem reset_isShare (h : p.Hosts support) {component : Nat} {s s' : State ℝ}
    (hdone : p.reset component s = .done () s') (hmem : component ∈ support)
    (hpart : IsPart p.count support (weightsOf s.components)) :
    IsShare p.count support (weightsOf s'.components) := by
  have hpos := resetComponent_weight_pos h (p.outlier s.components component)
  have hset := hpart.set hpos.le fun hnot => absurd hmem hnot
  rw [reset_done hdone]
  rw [← weightsOf_set] at hset
  refine isShare_normalizeWeights (i := component) hset ?_
  rw [hasWeight_iff, weightsOf_set, getD_set, if_pos ⟨rfl, hpart.length_eq ▸ h.lt hmem⟩]
  exact hpos

/-- Resets leave at most the given positions with weight, also when one of them is refused. -/
theorem resetAll_state (h : p.Hosts support) {components : List Nat}
    (hmem : ∀ i ∈ components, i ∈ support) {s : State ℝ}
    (hpart : IsPart p.count support (weightsOf s.components)) :
    IsPart p.count support (weightsOf (p.resetAll components s).state.components) ∧
      ∀ i, HasWeight s.components i → HasWeight (p.resetAll components s).state.components i := by
  induction components generalizing s with
  | nil => exact ⟨hpart, fun _ hi => hi⟩
  | cons component components ih =>
    rw [resetAll]
    cases hreset : p.reset component s with
    | gaveUp s' =>
      show IsPart p.count support (weightsOf s'.components) ∧
        ∀ i, HasWeight s.components i → HasWeight s'.components i
      rw [reset_gaveUp hreset]
      exact ⟨hpart, fun _ hi => hi⟩
    | done _ s' =>
      have hshare := reset_isShare h hreset (hmem component List.mem_cons_self) hpart
      obtain ⟨hlater, hkeeps⟩ := ih (fun i hi => hmem i (List.mem_cons_of_mem _ hi)) hshare.toIsPart
      exact ⟨hlater, fun i hi => hkeeps i (reset_hasWeight h hreset (.inl hi))⟩

/-- Completed resets leave weight at all the positions that have been reset. -/
theorem resetAll_done (h : p.Hosts support) {components : List Nat}
    (hmem : ∀ i ∈ components, i ∈ support) {s s' : State ℝ}
    (hpart : IsPart p.count support (weightsOf s.components))
    (hdone : p.resetAll components s = .done () s') :
    ∀ i ∈ components, HasWeight s'.components i := by
  induction components generalizing s with
  | nil => nofun
  | cons component components ih =>
    rw [resetAll] at hdone
    cases hreset : p.reset component s with
    | gaveUp s₁ =>
      rw [hreset] at hdone
      cases hdone
    | done _ s₁ =>
      rw [hreset, Outcome.andThen] at hdone
      have hlater : ∀ i ∈ components, i ∈ support := fun i hi => hmem i (List.mem_cons_of_mem _ hi)
      have hshare := reset_isShare h hreset (hmem component List.mem_cons_self) hpart
      intro i hi
      rcases List.mem_cons.mp hi with rfl | hi
      · have hlength : i < s.components.length := by
          have hlt := h.lt (hmem i List.mem_cons_self)
          rwa [← hpart.length_eq, weightsOf, List.length_map] at hlt
        have hkeeps := (resetAll_state h hlater hshare.toIsPart).2 i
          (reset_hasWeight h hreset (.inr ⟨rfl, hlength⟩))
        rw [hdone] at hkeeps
        exact hkeeps
      · exact ih hlater hshare.toIsPart hdone i hi

/-! ## The maximization step -/

/-- A component has an estimate exactly if it has not collapsed, and then the estimate
has weight. -/
theorem estimate_of_lt (column : List ℝ) (h : collapseBound < column.sum) (hsize : 0 < p.size) :
    ∃ c, p.estimate column = some c ∧ 0 < c.weight := by
  have hmass :
      Scalar.isFinite (Scalar.sum column) && decide (collapseBound < Scalar.sum column) := by
    simpa using h
  unfold estimate
  dsimp only
  rw [if_pos hmass]
  have hbound : (0 : ℝ) ≤ collapseBound := div_nonneg zero_le_one (Nat.cast_nonneg _)
  refine ⟨_, rfl, ?_⟩
  show 0 < Scalar.sum column / Scalar.ofNat p.size
  rw [Exact.sum_eq]
  exact div_pos (hbound.trans_lt h) (Nat.cast_pos.mpr hsize)

theorem estimate_of_le (column : List ℝ) (h : column.sum ≤ collapseBound) :
    p.estimate column = none := by
  have hmass :
      ¬(Scalar.isFinite (Scalar.sum column) && decide (collapseBound < Scalar.sum column)) := by
    simpa using h
  unfold estimate
  dsimp only
  rw [if_neg hmass]

/-- The components with their new estimates, before anything is done about those that collapsed. -/
noncomputable def estimated (p : Problem ℝ F) (s : State ℝ) : List (Component ℝ) :=
  s.components.zipWith (fun c e => e.getD c) (p.estimates s.responsibilities)

theorem getElem?_estimates (p : Problem ℝ F) (rows : List (List ℝ)) {i : Nat} (hi : i < p.count) :
    (p.estimates rows)[i]? = some (p.estimate (column rows i)) := by
  simp [estimates, hi]

/-- A state from which components can be estimated: responsibilities that are shares, and weights
that are not negative, at the given positions only. -/
structure Estimable (p : Problem ℝ F) (support : Finset Nat) (s : State ℝ) : Prop where
  rowCount : s.responsibilities.length = p.size
  row : ∀ row ∈ s.responsibilities, IsShare p.count support row
  weights : IsPart p.count support (weightsOf s.components)

section Estimable

variable {s : State ℝ}

theorem Estimable.record (hs : p.Estimable support s) (event : GroupEvent ℝ) :
    p.Estimable support (s.record event) :=
  ⟨hs.rowCount, hs.row, hs.weights⟩

theorem getElem?_estimated (hs : p.Estimable support s) {i : Nat} (hi : i < p.count) :
    ∃ c, s.components[i]? = some c ∧
      (p.estimated s)[i]? = some ((p.estimate (column s.responsibilities i)).getD c) := by
  have hlength : i < s.components.length := by
    rwa [← hs.weights.length_eq, weightsOf, List.length_map] at hi
  refine ⟨s.components[i], List.getElem?_eq_getElem hlength, ?_⟩
  rw [estimated, List.getElem?_zipWith, List.getElem?_eq_getElem hlength,
    getElem?_estimates p _ hi]

/-- Components that have not collapsed have weight. -/
theorem estimated_hasWeight (h : p.Hosts support) (hs : p.Estimable support s) {i : Nat}
    (hi : i < p.count) (hlive : i ∉ collapsed (p.estimates s.responsibilities)) :
    HasWeight (p.estimated s) i := by
  obtain ⟨c, -, hnew⟩ := getElem?_estimated hs hi
  rw [mem_collapsed, getElem?_estimates p _ hi] at hlive
  have hmass : collapseBound < (column s.responsibilities i).sum := by
    by_contra hle
    exact hlive (congrArg some (estimate_of_le _ (not_lt.mp hle)))
  obtain ⟨e, he, hpos⟩ := estimate_of_lt (p := p) _ hmass h.size_pos
  rw [he] at hnew
  exact ⟨e, hnew, not_le.mpr hpos⟩

/-- Some component has not collapsed: one of them gets a whole sample. -/
theorem exists_not_collapsed (h : p.Hosts support) (hs : p.Estimable support s) :
    ∃ i < p.count, i ∉ collapsed (p.estimates s.responsibilities) := by
  obtain ⟨i, hi, hmass⟩ := exists_one_le_mass hs.row h.subset h.nonempty
    (hs.rowCount ▸ h.card_le)
  have hbound : (collapseBound : ℝ) < 1 := by
    rw [collapseBound, Exact.ofNat_eq]
    norm_num
  obtain ⟨e, he, -⟩ := estimate_of_lt (p := p) _ (hbound.trans_le hmass) h.size_pos
  refine ⟨i, h.lt hi, fun hcollapsed => ?_⟩
  rw [mem_collapsed, getElem?_estimates p _ (h.lt hi), he] at hcollapsed
  cases hcollapsed

theorem isPart_estimated (h : p.Hosts support) (hs : p.Estimable support s) :
    IsPart p.count support (weightsOf (p.estimated s)) where
  length_eq := by
    have hlength := hs.weights.length_eq
    rw [weightsOf, List.length_map] at hlength
    simp [weightsOf, estimated, estimates, hlength]
  nonNegative w hw := by
    obtain ⟨new, hnew, rfl⟩ := List.mem_map.mp hw
    obtain ⟨i, hi⟩ := List.mem_iff_getElem?.mp hnew
    obtain ⟨c, e, hc, he, rfl⟩ := List.getElem?_zipWith_eq_some.mp hi
    obtain ⟨j, -, rfl⟩ := List.mem_map.mp (List.mem_of_getElem? he)
    by_cases hmass : collapseBound < (column s.responsibilities j).sum
    · obtain ⟨new, hnew, hpos⟩ := estimate_of_lt (p := p) _ hmass h.size_pos
      rw [hnew]
      exact hpos.le
    · rw [estimate_of_le _ (not_lt.mp hmass)]
      exact hs.weights.nonNegative _ (List.mem_map_of_mem (List.mem_of_getElem? hc))
  outside i hi := by
    by_cases hlt : i < p.count
    · -- outside there are no responsibilities, so there is no estimate
      obtain ⟨c, hc, hnew⟩ := getElem?_estimated hs hlt
      have hzero : (column s.responsibilities i).sum ≤ collapseBound := by
        rw [mass_eq_zero hs.row hi]
        exact div_nonneg zero_le_one (Nat.cast_nonneg _)
      rw [estimate_of_le _ hzero] at hnew
      rw [getD_weightsOf_of_getElem? hnew, Option.getD_none, ← getD_weightsOf_of_getElem? hc]
      exact hs.weights.outside i hi
    · rw [List.getD_eq_default]
      simp [weightsOf, estimated, estimates]
      omega

end Estimable

/-! ## Silencing -/

theorem weightsOf_silence_step (p : Problem ℝ F) (position : Nat)
    (components : List (Component ℝ)) :
    weightsOf (components.modify position fun c =>
        { Component.placeholder p.dim p.settings.floor with mean := c.mean }) =
      (weightsOf components).set position 0 := by
  refine List.ext_getElem? fun i => ?_
  rw [weightsOf, weightsOf, List.getElem?_map, List.getElem?_modify, List.getElem?_set,
    List.getElem?_map, List.length_map]
  by_cases hi : position = i
  · subst hi
    by_cases hlt : position < components.length
    · simp [hlt, Component.placeholder]
    · simp [hlt]
  · cases components[i]? <;> simp [hi]

/-- Silencing leaves the weights elsewhere alone. -/
theorem silence_isPart (p : Problem ℝ F) {count : Nat} (positions : List Nat)
    {components : List (Component ℝ)} (h : IsPart count support (weightsOf components)) :
    IsPart count support (weightsOf (p.silence positions components)) ∧
      ∀ i ∉ positions, HasWeight components i → HasWeight (p.silence positions components) i := by
  induction positions generalizing components with
  | nil => exact ⟨h, fun _ _ hi => hi⟩
  | cons position positions ih =>
    have hstep := h.set (r := 0) le_rfl (i := position) fun _ => rfl
    rw [← weightsOf_silence_step p] at hstep
    obtain ⟨hpart, hkeeps⟩ := ih hstep
    refine ⟨hpart, fun i hi hweight => ?_⟩
    rw [List.mem_cons, not_or] at hi
    refine hkeeps i hi.2 ?_
    rw [hasWeight_iff, weightsOf_silence_step, getD_set, if_neg fun h => hi.1 h.1.symm]
    exact hasWeight_iff.mp hweight

/-! ## The maximization step -/

/-- Weights that are shares, and all positive if there are enough samples. -/
structure Balanced (p : Problem ℝ F) (support : Finset Nat) (components : List (Component ℝ)) :
    Prop where
  isShare : IsShare p.count support (weightsOf components)
  hasWeight : p.count ≤ p.size → ∀ i < p.count, HasWeight components i

/-- What is done about collapsed components: they are reset, or silenced if there are too few
samples. -/
noncomputable def recover (p : Problem ℝ F) (lost : List Nat) (s : State ℝ) :
    Outcome (State ℝ) Unit :=
  if p.count ≤ p.size then p.resetAll lost s
  else .done () { s with components := p.silence lost s.components }

/-- The maximization step, with its parts named. -/
theorem maximize_eq (p : Problem ℝ F) (s : State ℝ) :
    p.maximize s =
      (p.recover (collapsed (p.estimates s.responsibilities))
        { s with components := p.estimated s }).andThen
        fun _ s => .done () { s with components := normalizeWeights s.components } := rfl

/-- A maximization step that has an estimate for every component, with weights that need not be
divided by their sum, is completed with these estimates. -/
theorem maximize_of_estimates {s : State ℝ} {components : List (Component ℝ)}
    (hlength : s.components.length = components.length)
    (hestimates : p.estimates s.responsibilities = components.map some)
    (hweights : normalizeWeights components = components) :
    p.maximize s = .done () { s with components } := by
  have hlost : collapsed (p.estimates s.responsibilities) = [] := by
    refine List.eq_nil_iff_forall_not_mem.mpr fun i hi => ?_
    rw [mem_collapsed, hestimates, List.getElem?_map, Option.map_eq_some_iff] at hi
    obtain ⟨_, -, h⟩ := hi
    cases h
  have hestimated : p.estimated s = components := by
    rw [estimated, hestimates]
    refine List.ext_getElem (by simp [hlength]) fun i _ _ => ?_
    simp
  have hrecover : p.recover [] { s with components } = .done () { s with components } := by
    unfold recover
    split <;> rfl
  rw [maximize_eq, hlost, hestimated, hrecover, Outcome.andThen, hweights]

theorem mem_support_of_mem_collapsed (h : p.Hosts support) (henough : p.count ≤ p.size)
    {rows : List (List ℝ)} : ∀ i ∈ collapsed (p.estimates rows), i ∈ support := by
  intro i hi
  rw [mem_collapsed] at hi
  have hlt := (List.getElem?_eq_some_iff.mp hi).1
  rw [estimates, List.length_map, List.length_range] at hlt
  rw [h.eq_range henough]
  exact Finset.mem_range.mpr hlt

/-- Recovery leaves some component with weight, also when a reset is refused. -/
theorem recover_state (h : p.Hosts support) {s : State ℝ} (hs : p.Estimable support s) :
    IsPart p.count support (weightsOf (p.recover (collapsed (p.estimates s.responsibilities))
        { s with components := p.estimated s }).state.components) ∧
      ∃ i, HasWeight (p.recover (collapsed (p.estimates s.responsibilities))
        { s with components := p.estimated s }).state.components i := by
  have hpart := isPart_estimated h hs
  obtain ⟨i, hi, hlive⟩ := exists_not_collapsed h hs
  have hweight := estimated_hasWeight h hs hi hlive
  unfold recover
  split
  next henough =>
    obtain ⟨hrecovered, hkeeps⟩ := resetAll_state (s := { s with components := p.estimated s }) h
      (mem_support_of_mem_collapsed h henough) hpart
    exact ⟨hrecovered, i, hkeeps i hweight⟩
  next =>
    obtain ⟨hrecovered, hkeeps⟩ :=
      silence_isPart p (collapsed (p.estimates s.responsibilities)) hpart
    exact ⟨hrecovered, i, hkeeps i hlive hweight⟩

/-- With enough samples, completed recovery leaves all components with weight. -/
theorem recover_done (h : p.Hosts support) (henough : p.count ≤ p.size) {s s' : State ℝ}
    (hs : p.Estimable support s)
    (hdone : p.recover (collapsed (p.estimates s.responsibilities))
      { s with components := p.estimated s } = .done () s') :
    ∀ i < p.count, HasWeight s'.components i := by
  have hpart := isPart_estimated h hs
  have hmem : ∀ i ∈ collapsed (p.estimates s.responsibilities), i ∈ support :=
    mem_support_of_mem_collapsed h henough
  rw [recover, if_pos henough] at hdone
  intro i hi
  by_cases hcollapsed : i ∈ collapsed (p.estimates s.responsibilities)
  · exact resetAll_done h hmem hpart hdone i hcollapsed
  · have hkept := (resetAll_state (s := { s with components := p.estimated s }) h hmem hpart).2 i
      (estimated_hasWeight h hs hi hcollapsed)
    rwa [hdone] at hkept

/-- **A completed maximization step** leaves weights that are shares. -/
theorem maximize_done (h : p.Hosts support) {s s' : State ℝ} (hs : p.Estimable support s)
    (hdone : p.maximize s = .done () s') : p.Balanced support s'.components := by
  obtain ⟨hpart, i, hi⟩ := recover_state h hs
  rw [maximize_eq] at hdone
  cases hrecover : p.recover (collapsed (p.estimates s.responsibilities))
      { s with components := p.estimated s } with
  | gaveUp s₁ =>
    rw [hrecover] at hdone
    cases hdone
  | done _ s₁ =>
    rw [hrecover] at hdone hpart hi
    cases hdone
    exact ⟨isShare_normalizeWeights hpart hi, fun henough j hj =>
      hasWeight_normalizeWeights (recover_done h henough hs hrecover j hj)⟩

/-- A maximization step that gives up leaves some component with weight. -/
theorem maximize_gaveUp (h : p.Hosts support) {s s' : State ℝ} (hs : p.Estimable support s)
    (hfailed : p.maximize s = .gaveUp s') :
    IsPart p.count support (weightsOf s'.components) ∧ ∃ i, HasWeight s'.components i := by
  have hstate := recover_state h hs
  rw [maximize_eq] at hfailed
  cases hrecover : p.recover (collapsed (p.estimates s.responsibilities))
      { s with components := p.estimated s } with
  | gaveUp s₁ =>
    rw [hrecover] at hfailed hstate
    cases hfailed
    exact hstate
  | done _ s₁ =>
    rw [hrecover] at hfailed
    cases hfailed

/-! ## The expectation step -/

theorem weightsOf_prepareAt (p : Problem ℝ F) (component : Nat) (s : State ℝ) :
    weightsOf (p.prepareAt component s).2.components = weightsOf s.components := by
  unfold prepareAt
  split
  · rfl
  · unfold weightsOf setCovariance
    refine List.ext_getElem? fun i => ?_
    dsimp only
    rw [List.getElem?_map, List.getElem?_map, List.getElem?_modify]
    cases s.components[i]? with
    | none => rfl
    | some c => by_cases hi : component = i <;> simp [hi]

/-- No component loses its weight in an expectation step. -/
theorem tracks_hasWeight (h : p.Hosts support) :
    p.Tracks fun before after => ∀ i, HasWeight before i → HasWeight after i where
  refl _ _ hi := hi
  trans h₁ h₂ i hi := h₂ i (h₁ i hi)
  prepared component s i hi := (hasWeight_prepareAt p component).mpr hi
  reset component s _ i hi := by
    cases hreset : p.reset component s with
    | gaveUp s' =>
      show HasWeight s'.components i
      rwa [reset_gaveUp hreset]
    | done _ s' => exact reset_hasWeight h hreset (.inl hi)

/-- Weights stay shares in an expectation step. -/
theorem tracks_isShare (h : p.Hosts support) :
    p.Tracks fun before after => IsShare p.count support (weightsOf before) →
      IsShare p.count support (weightsOf after) where
  refl _ hshare := hshare
  trans h₁ h₂ hshare := h₂ (h₁ hshare)
  prepared component s hshare := by
    rw [weightsOf_prepareAt]
    exact hshare
  reset component s hweight hshare := by
    cases hreset : p.reset component s with
    | gaveUp s' =>
      show IsShare p.count support (weightsOf s'.components)
      rwa [reset_gaveUp hreset]
    | done _ s' =>
      refine reset_isShare h hreset ?_ hshare.toIsPart
      by_contra hnot
      have hpos := hasWeight_iff.mp hweight
      rw [hshare.outside component hnot] at hpos
      exact lt_irrefl 0 hpos

/-- An expectation step keeps the weights shares, also when it gives up. -/
theorem expect_balanced (h : p.Hosts support) {s : State ℝ} (hs : p.Balanced support s.components) :
    p.Balanced support (p.expect s).state.components where
  isShare := expect_tracks (tracks_isShare h) s hs.isShare
  hasWeight henough i hi := expect_tracks (tracks_hasWeight h) s i (hs.hasWeight henough i hi)

/-- The nearest component with weight has weight. -/
theorem hasWeight_nearestLive {components : List (Component ℝ)} (x : Point ℝ)
    (h : ∃ i, HasWeight components i) : HasWeight components (nearestLive components x) := by
  obtain ⟨i, c, hc, hlive⟩ := h
  have hkey : liveDistance x c ∈ components.map (liveDistance x) :=
    List.mem_map_of_mem (List.mem_of_getElem? hc)
  have hadmissible : (liveDistance x c).any Point.isBelowInfinity := by
    rw [liveDistance, if_neg hlive]
    rfl
  unfold nearestLive
  cases hfound : firstBest _ _ (components.map (liveDistance x)) with
  | none => exact absurd hfound (firstBest_ne_none hkey hadmissible)
  | some found =>
    obtain ⟨j, key⟩ := found
    -- only distances to components with weight are admissible, or less than another one
    have hsome : key.isSome := by
      refine of_firstBest (P := fun key => key.isSome = true) ?_ ?_ hfound
      · rintro (- | d) hany
        · cases hany
        · rfl
      · rintro (- | d) kept hless
        · cases hless
        · rfl
    have hj := getElem?_of_firstBest hfound
    rw [List.getElem?_map] at hj
    obtain ⟨c', hc', rfl⟩ := Option.map_eq_some_iff.mp hj
    refine ⟨c', hc', fun hdead => ?_⟩
    rw [liveDistance, if_pos hdead] at hsome
    cases hsome

/-- A sample is shared out among components that have weight. -/
theorem isShare_explain (h : p.Hosts support) {components : List (Component ℝ)}
    (hshare : IsShare p.count support (weightsOf components)) {factors : List (Option F)}
    (hlength : factors.length = p.count)
    (hfactors : ∀ i f, factors[i]? = some (some f) → i ∈ support) (x : Point ℝ) :
    IsShare p.count support (p.explain components factors x).1 := by
  have hcount := hshare.length_eq
  rw [weightsOf, List.length_map] at hcount
  unfold explain
  dsimp only
  split
  next norm hnorm =>
    refine isShare_massAbove ?_ (fun i v hterm => ?_) hnorm
    · exact (length_logTerms p (hlength.trans hcount.symm) x).trans hcount
    · obtain ⟨c, f, -, hf, hterm⟩ := List.getElem?_zipWith_eq_some.mp hterm
      cases f with
      | none => cases hterm
      | some f => exact hfactors i f hf
  next =>
    have hmem : nearestLive components x ∈ support := by
      by_contra hnot
      obtain ⟨i, hi⟩ := hshare.exists_pos
      have hpos := hasWeight_iff.mp (hasWeight_nearestLive x ⟨i, hasWeight_iff.mpr hi⟩)
      rw [hshare.outside _ hnot] at hpos
      exact lt_irrefl 0 hpos
    exact isShare_oneHot (h.lt hmem) hmem

/-- After a completed expectation step, components can be estimated again. -/
theorem expect_estimable (h : p.Hosts support) {s s' : State ℝ} {total : ℝ}
    (hs : p.Balanced support s.components) (hdone : p.expect s = .done total s') :
    p.Estimable support s' := by
  have hbalanced := expect_balanced h hs
  rw [hdone] at hbalanced
  obtain ⟨factors, hexplains⟩ := expect_done hdone
  have hrows := hexplains.responsibilities_eq
  refine ⟨by rw [hrows, List.length_map, size], fun row hrow => ?_, hbalanced.isShare.toIsPart⟩
  rw [hrows] at hrow
  obtain ⟨x, -, rfl⟩ := List.mem_map.mp hrow
  refine isShare_explain h hbalanced.isShare hexplains.factorCount (fun i f hf => ?_) x
  by_contra hnot
  have hpos := hasWeight_iff.mp (hexplains.hasWeight i f hf)
  rw [hs.isShare.outside i hnot] at hpos
  exact lt_irrefl 0 hpos

end Problem

end Mixtures.Em
