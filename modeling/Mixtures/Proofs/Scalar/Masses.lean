import Mathlib
import Mixtures.LogMass
import Mixtures.Proofs.Scalar.Exact

/-!
# Masses of exact numbers

In exact arithmetic the masses relative to their sum are shares: none is negative, and they add up
to one, as soon as the sum has a finite logarithm. It has one as soon as some mass is not zero, and
then it is the logarithm of the sum of the masses.

* `sum_massAbove_eq_one`: the shares.
* `sum_eq_log`, `mass_sum`: the sum.
* `sum_perm`: its terms in another order.
-/

namespace Mixtures.LogMass

theorem massAbove_nonneg (shift : ℝ) (term : LogMass ℝ) : 0 ≤ term.massAbove shift := by
  cases term with
  | zero => exact le_rfl
  | of x => exact (Real.exp_pos _).le

/-- Moving the shift divides every mass by the same number. -/
theorem massAbove_add_log (shift : ℝ) {total : ℝ} (htotal : 0 < total) (term : LogMass ℝ) :
    term.massAbove (shift + Real.log total) = term.massAbove shift / total := by
  cases term with
  | zero => exact (zero_div total).symm
  | of x =>
    show Real.exp (x - (shift + Real.log total)) = Real.exp (x - shift) / total
    rw [← sub_sub, Real.exp_sub, Real.exp_log htotal]

/-- A largest logarithm belongs to a term. -/
theorem exists_of_top_eq_some {terms : List (LogMass ℝ)} {top : ℝ}
    (h : LogMass.top terms = some top) : ∃ x, .of x ∈ terms := by
  by_contra hnone
  have hzero : ∀ term ∈ terms, term = .zero := by
    intro term hterm
    cases term with
    | zero => rfl
    | of x => exact absurd ⟨x, hterm⟩ hnone
  have htop : LogMass.top terms = none := by
    refine List.foldlRecOn (motive := fun top => top = none) terms _ rfl ?_
    intro top htop term hterm
    rw [hzero term hterm]
    exact htop
  rw [h] at htop
  cases htop

theorem sum_massAbove_pos {terms : List (LogMass ℝ)} {x : ℝ} (h : .of x ∈ terms) (shift : ℝ) :
    0 < (terms.map (massAbove shift)).sum := by
  have hmem : massAbove shift (.of x) ∈ terms.map (massAbove shift) := List.mem_map_of_mem h
  have hnonneg : ∀ v ∈ terms.map (massAbove shift), 0 ≤ v := by
    intro v hv
    obtain ⟨term, -, rfl⟩ := List.mem_map.mp hv
    exact massAbove_nonneg shift term
  exact (Real.exp_pos _).trans_le (List.single_le_sum hnonneg _ hmem)

/-- **Shares add up to one.** -/
theorem sum_massAbove_eq_one {terms : List (LogMass ℝ)} {norm : ℝ}
    (h : (LogMass.sum terms).finite? = some norm) : (terms.map (massAbove norm)).sum = 1 := by
  unfold LogMass.sum at h
  cases htop : LogMass.top terms with
  | none =>
    rw [htop] at h
    cases h
  | some top =>
    obtain ⟨x, hx⟩ := exists_of_top_eq_some htop
    have hpos := sum_massAbove_pos hx top
    simp only [htop, Exact.isFinite_eq, if_true, finite?, Exact.ln_eq, Exact.sum_eq,
      Option.some.injEq] at h
    have hdivided : terms.map (massAbove norm) =
        (terms.map (massAbove top)).map (· / (terms.map (massAbove top)).sum) := by
      rw [List.map_map, ← h]
      exact List.map_congr_left fun term _ => massAbove_add_log top hpos term
    rw [hdivided, Exact.sum_map_div, div_self hpos.ne']

theorem mass_nonneg (term : LogMass ℝ) : 0 ≤ term.mass := by
  cases term with
  | zero => exact le_rfl
  | of x => exact (Real.exp_pos x).le

theorem massAbove_eq (shift : ℝ) (term : LogMass ℝ) :
    term.massAbove shift = term.mass / Real.exp shift := by
  cases term with
  | zero => exact (zero_div _).symm
  | of x => exact Real.exp_sub x shift

/-- Masses of which one is not zero add up to a positive number. -/
theorem sum_mass_pos {terms : List (LogMass ℝ)} {x : ℝ} (h : .of x ∈ terms) :
    0 < (terms.map mass).sum := by
  have hnonneg : ∀ v ∈ terms.map mass, 0 ≤ v := by
    intro v hv
    obtain ⟨term, -, rfl⟩ := List.mem_map.mp hv
    exact mass_nonneg term
  exact (Real.exp_pos x).trans_le (List.single_le_sum hnonneg _ (List.mem_map_of_mem h))

/-- A mass that is not zero has a logarithm, so there is a largest one. -/
theorem exists_top {terms : List (LogMass ℝ)} {x : ℝ} (h : .of x ∈ terms) :
    ∃ top, LogMass.top terms = some top := by
  obtain ⟨before, after, rfl⟩ := List.append_of_mem h
  have hraised : ∀ top : Option ℝ, (raise top (.of x)).isSome := by
    intro top
    cases top <;> simp [raise]
  have hkept : ∀ (top : Option ℝ) (term : LogMass ℝ), top.isSome → (raise top term).isSome := by
    intro top term htop
    cases term with
    | zero => exact htop
    | of y =>
      obtain ⟨m, rfl⟩ := Option.isSome_iff_exists.mp htop
      simp [raise]
  rw [LogMass.top, List.foldl_append, List.foldl_cons, ← Option.isSome_iff_exists]
  exact List.foldlRecOn (motive := fun top : Option ℝ => top.isSome = true) after _
    (hraised _) fun top htop term _ => hkept top term htop

/-- **The sum of masses** of which one is not zero is the logarithm of their sum. -/
theorem sum_eq_log {terms : List (LogMass ℝ)} {x : ℝ} (h : .of x ∈ terms) :
    LogMass.sum terms = .of (Real.log (terms.map mass).sum) := by
  obtain ⟨top, htop⟩ := exists_top h
  have hdivided : (terms.map (massAbove top)).sum = (terms.map mass).sum / Real.exp top := by
    rw [← Exact.sum_map_div, List.map_map]
    exact congrArg List.sum (List.map_congr_left fun term _ => massAbove_eq top term)
  rw [LogMass.sum, htop]
  simp only [Exact.isFinite_eq, if_true, Exact.ln_eq, Exact.sum_eq]
  rw [hdivided, Real.log_div (sum_mass_pos h).ne' (Real.exp_pos top).ne', Real.log_exp,
    add_sub_cancel]

/-- Without a mass that is not zero, the sum is zero. -/
theorem sum_eq_zero {terms : List (LogMass ℝ)} (h : ∀ term ∈ terms, term = zero) :
    LogMass.sum terms = zero := by
  cases htop : LogMass.top terms with
  | none => rw [LogMass.sum, htop]
  | some top =>
    obtain ⟨x, hx⟩ := exists_of_top_eq_some htop
    cases h _ hx

/-- Some mass is not zero, or all are. -/
theorem exists_of_or_eq_zero (terms : List (LogMass ℝ)) :
    (∃ x, of x ∈ terms) ∨ ∀ term ∈ terms, term = zero := by
  by_cases hsome : ∃ x, of x ∈ terms
  · exact .inl hsome
  · refine .inr fun term hterm => ?_
    cases term with
    | zero => rfl
    | of x => exact absurd ⟨x, hterm⟩ hsome

/-- Outside of the logarithms, a sum is a sum. -/
theorem mass_sum (terms : List (LogMass ℝ)) :
    (LogMass.sum terms).mass = (terms.map mass).sum := by
  rcases exists_of_or_eq_zero terms with ⟨x, hx⟩ | hzero
  · rw [sum_eq_log hx]
    exact Real.exp_log (sum_mass_pos hx)
  · rw [sum_eq_zero hzero, List.map_congr_left fun term hterm => congrArg mass (hzero term hterm)]
    simp [mass]

/-- Only masses that are all zero have the sum zero. -/
theorem sum_eq_zero_iff {terms : List (LogMass ℝ)} :
    LogMass.sum terms = zero ↔ ∀ term ∈ terms, term = zero := by
  refine ⟨fun hsum => ?_, sum_eq_zero⟩
  rcases exists_of_or_eq_zero terms with ⟨x, hx⟩ | hzero
  · rw [sum_eq_log hx] at hsum
    cases hsum
  · exact hzero

/-- The order of the masses does not matter. -/
theorem sum_perm {terms terms' : List (LogMass ℝ)} (h : terms.Perm terms') :
    LogMass.sum terms = LogMass.sum terms' := by
  rcases exists_of_or_eq_zero terms with ⟨x, hx⟩ | hzero
  · rw [sum_eq_log hx, sum_eq_log (h.mem_iff.mp hx), (h.map mass).sum_eq]
  · rw [sum_eq_zero hzero, sum_eq_zero fun term hterm => hzero term (h.mem_iff.mpr hterm)]

/-- One mass is its own sum. -/
theorem sum_singleton (x : ℝ) : LogMass.sum [of x] = of x := by
  simp [LogMass.sum, LogMass.top, raise, massAbove]

end Mixtures.LogMass
