import Mathlib

/-!
# Divergence of covariances

Of all covariances, a positive definite matrix is the best for samples that have it as theirs: the
divergence of another covariance `A` from it is not negative.

* `log_det_le_trace_sub`: the eigenvalues one by one, as no logarithm is above its tangent at one.
* `log_det_add_le`: two matrices, of which the one is the product of a factor with its transpose.
-/

namespace Mixtures

open Matrix

variable {n : Nat} {B L M : Matrix (Fin n) (Fin n) ℝ}

theorem log_det_le_trace_sub (hM : M.PosDef) : Real.log M.det ≤ M.trace - n := by
  have hpos := hM.eigenvalues_pos
  have hdet : M.det = ∏ i, hM.1.eigenvalues i := by
    simpa using hM.1.det_eq_prod_eigenvalues
  have htrace : M.trace = ∑ i, hM.1.eigenvalues i := by
    simpa using hM.1.trace_eq_sum_eigenvalues
  calc Real.log M.det = ∑ i, Real.log (hM.1.eigenvalues i) := by
        rw [hdet, Real.log_prod fun i _ => (hpos i).ne']
    _ ≤ ∑ i, (hM.1.eigenvalues i - 1) :=
        Finset.sum_le_sum fun i _ => Real.log_le_sub_one_of_pos (hpos i)
    _ = M.trace - n := by simp [htrace]

/-- **The divergence is not negative**: among all `A = L Lᵀ`, `log det A + tr (A⁻¹ B)` is least at
`B`. -/
theorem log_det_add_le (hL : L.det ≠ 0) (hB : B.PosDef) :
    Real.log B.det + n ≤ Real.log (L * Lᵀ).det + ((L * Lᵀ)⁻¹ * B).trace := by
  have hunit : IsUnit L.det := hL.isUnit
  -- in the coordinates of the factor, the other matrix is the identity
  have hM : (L⁻¹ * B * L⁻¹ᵀ).PosDef := by
    have hsame := hB.mul_mul_conjTranspose_same (B := L⁻¹) (vecMul_injective_of_isUnit
      ((isUnit_iff_isUnit_det _).mpr (isUnit_nonsing_inv_det L hunit)))
    rwa [conjTranspose_eq_transpose_of_trivial] at hsame
  have htrace : (L⁻¹ * B * L⁻¹ᵀ).trace = ((L * Lᵀ)⁻¹ * B).trace := by
    rw [trace_mul_comm, Matrix.mul_inv_rev, transpose_nonsing_inv, Matrix.mul_assoc]
  have hproduct : (L * Lᵀ).det ≠ 0 := by
    rw [det_mul, det_transpose]
    exact mul_ne_zero hL hL
  have hdet : (L⁻¹ * B * L⁻¹ᵀ).det * (L * Lᵀ).det = B.det := by
    rw [det_mul, det_mul, det_transpose, det_mul, det_transpose, det_nonsing_inv,
      Ring.inverse_eq_inv']
    field_simp
  have hlog : Real.log B.det = Real.log (L⁻¹ * B * L⁻¹ᵀ).det + Real.log (L * Lᵀ).det := by
    rw [← hdet, Real.log_mul hM.det_pos.ne' hproduct]
  have hbound := log_det_le_trace_sub hM
  rw [htrace] at hbound
  linarith only [hbound, hlog]

end Mixtures
