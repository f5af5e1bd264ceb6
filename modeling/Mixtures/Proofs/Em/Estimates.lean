import Mathlib
import Mixtures.Proofs.Em.Floor
import Mixtures.Proofs.Em.Symmetry
import Mixtures.Proofs.Linear.Divergence
import Mixtures.Proofs.Linear.Factor
import Mixtures.Proofs.Means

/-!
# Estimates of normal distributions

In exact arithmetic and without a floor, an estimate is the best normal distribution for its
responsibilities: under no other one, with a covariance of the same form, do the samples have a
higher log-density on the average. The mean is where the squared distances are least, however they
are measured, and the covariance is the one with the least divergence.

* `deviation_mean_le`: the mean.
* `trace_mul_gram_centered`: the covariance in the given form stands for the weighted squares.
* `sum_logDensity_le`: the estimate against any other normal distribution.
-/

namespace Mixtures.Em.Problem

open Matrix

/-! ## Squared distances -/

section Deviation

variable {dim : Nat} {B : Matrix (Fin dim) (Fin dim) ℝ} {entries : List (ℝ × Point ℝ)}

/-- The weighted sum of the squared distances from a point, measured by a matrix. -/
noncomputable def deviation (B : Matrix (Fin dim) (Fin dim) ℝ) (entries : List (ℝ × Point ℝ))
    (m : Fin dim → ℝ) : ℝ :=
  (entries.map fun e =>
    e.1 * ((coordinates dim e.2 - m) ⬝ᵥ (B *ᵥ (coordinates dim e.2 - m)))).sum

theorem dotProduct_mulVec_comm (hB : B.IsSymm) (v w : Fin dim → ℝ) :
    v ⬝ᵥ (B *ᵥ w) = w ⬝ᵥ (B *ᵥ v) := by
  rw [dotProduct_mulVec, ← mulVec_transpose, hB.eq, dotProduct_comm]

/-- The squared distances from a point by those from the origin. -/
theorem deviation_eq (hB : B.IsSymm) (entries : List (ℝ × Point ℝ)) (m : Fin dim → ℝ) :
    deviation B entries m =
      deviation B entries 0 -
        2 * ((entries.map fun e => e.1 • coordinates dim e.2).sum ⬝ᵥ (B *ᵥ m)) +
        (entries.map (·.1)).sum * (m ⬝ᵥ (B *ᵥ m)) := by
  induction entries with
  | nil => simp [deviation]
  | cons e entries ih =>
    have hsquare : (coordinates dim e.2 - m) ⬝ᵥ (B *ᵥ (coordinates dim e.2 - m)) =
        coordinates dim e.2 ⬝ᵥ (B *ᵥ coordinates dim e.2) -
          2 * (coordinates dim e.2 ⬝ᵥ (B *ᵥ m)) + m ⬝ᵥ (B *ᵥ m) := by
      rw [mulVec_sub, sub_dotProduct, dotProduct_sub, dotProduct_sub,
        dotProduct_mulVec_comm hB m (coordinates dim e.2)]
      ring
    simp only [deviation, List.map_cons, List.sum_cons, sub_zero, add_dotProduct, smul_dotProduct,
      smul_eq_mul] at ih ⊢
    rw [hsquare, ih]
    ring

/-- **The mean** is where the squared distances are least, however they are measured. -/
theorem deviation_mean_le (hB : B.PosSemidef) {mass : ℝ} (hmass : 0 ≤ mass)
    (hsum : (entries.map (·.1)).sum = mass) {mean : Fin dim → ℝ}
    (hmean : (entries.map fun e => e.1 • coordinates dim e.2).sum = mass • mean) (m : Fin dim → ℝ) :
    deviation B entries mean ≤ deviation B entries m := by
  have hsymm : B.IsSymm := by
    have hhermitian := hB.isHermitian
    rwa [IsHermitian, conjTranspose_eq_transpose_of_trivial] at hhermitian
  have hnonneg := hB.dotProduct_mulVec_nonneg (m - mean)
  have hapart : (m - mean) ⬝ᵥ (B *ᵥ (m - mean)) =
      m ⬝ᵥ (B *ᵥ m) - 2 * (mean ⬝ᵥ (B *ᵥ m)) + mean ⬝ᵥ (B *ᵥ mean) := by
    rw [mulVec_sub, sub_dotProduct, dotProduct_sub, dotProduct_sub,
      dotProduct_mulVec_comm hsymm m mean]
    ring
  rw [star_trivial, hapart] at hnonneg
  rw [deviation_eq hsymm, deviation_eq hsymm entries m, hmean, hsum, smul_dotProduct,
    smul_dotProduct, smul_eq_mul, smul_eq_mul]
  linarith only [mul_nonneg hmass hnonneg]

/-- The squared distances from the origin, by the products of the coordinates. -/
theorem trace_mul_gram (B : Matrix (Fin dim) (Fin dim) ℝ) (entries : List (ℝ × Point ℝ)) :
    (B * gram dim entries).trace = deviation B entries 0 := by
  induction entries with
  | nil => simp [gram, deviation]
  | cons e entries ih =>
    simp only [gram, deviation, List.map_cons, List.sum_cons, sub_zero] at ih ⊢
    rw [Matrix.mul_add, trace_add, ih, mul_smul_comm, trace_smul, mul_vecMulVec, trace_vecMulVec,
      dotProduct_comm, smul_eq_mul]

/-- The squared distances from a point, by the products of the centered coordinates. -/
theorem deviation_eq_trace (B : Matrix (Fin dim) (Fin dim) ℝ)
    (hlength : ∀ e ∈ entries, e.2.length = dim) {mean : Point ℝ} (hmean : mean.length = dim) :
    deviation B entries (coordinates dim mean) =
      (B * gram dim (entries.map fun e => (e.1, e.2.zipWith (· - ·) mean))).trace := by
  rw [trace_mul_gram, deviation, deviation, List.map_map]
  refine congrArg List.sum (List.map_congr_left fun e he => ?_)
  have hcentered : coordinates dim (e.2.zipWith (· - ·) mean) =
      coordinates dim e.2 - coordinates dim mean :=
    funext fun i => Cholesky.getD_zipWith 0 (i.isLt.trans_eq (hlength e he).symm)
      (i.isLt.trans_eq hmean.symm)
  rw [Function.comp_apply, hcentered, sub_zero]

end Deviation

/-! ## Forms of covariances -/

section Form

variable {dim : Nat} {A B : Matrix (Fin dim) (Fin dim) ℝ}

theorem trace_mul_of_isDiag (hB : B.IsDiag) (A : Matrix (Fin dim) (Fin dim) ℝ) :
    (B * A).trace = (B * diagonal fun i => A i i).trace := by
  rw [← hB.diagonal_diag, diagonal_mul_diagonal, trace_diagonal]
  simp only [trace, diag_apply, diagonal_mul]

theorem isDiag_inv (hA : A.IsDiag) : A⁻¹.IsDiag := by
  rw [← hA.diagonal_diag, inv_diagonal]
  exact isDiag_diagonal _

/-- **The covariance in the given form** stands for the weighted squares, as far as a matrix of this
form can tell. -/
theorem trace_mul_gram_centered {form : CovarianceForm} {mass : ℝ} (hmass : mass ≠ 0)
    (hB : form = .diagonal → B.IsDiag) (centered : List (ℝ × Point ℝ)) :
    (B * gram dim centered).trace =
      mass * (B * Square.matrix dim (weightedCovariance dim form 0 mass centered)).trace := by
  have hmatrix := matrix_weightedCovariance dim form 0 mass centered
  rw [zero_smul, sub_zero] at hmatrix
  rw [hmatrix]
  cases form with
  | full => rw [mul_smul_comm, trace_smul, smul_eq_mul, mul_inv_cancel_left₀ hmass]
  | diagonal =>
    dsimp only
    rw [← trace_mul_of_isDiag (hB rfl), mul_smul_comm, trace_smul, smul_eq_mul,
      mul_inv_cancel_left₀ hmass]

end Form

/-! ## Estimates -/

variable {F : Type} {p : Problem ℝ F}

/-- A weighted sum whose weights are a function of the samples. -/
theorem sum_map_weighted_map (r g : Point ℝ → ℝ) :
    ((p.weighted (p.points.map r)).map fun e => e.1 * g e.2).sum =
      (p.points.map fun x => r x * g x).sum := by
  rw [sum_map_weighted, ← List.map_prod_right_eq_zip, List.map_map]
  rfl

/-- What an exact estimate consists of. -/
theorem estimate_eq_some {column : List ℝ} {e : Component ℝ} (h : p.estimate column = some e) :
    0 < column.sum ∧ e.weight = column.sum / p.size ∧
      e.mean = weightedMean p.dim column.sum (p.weighted column) ∧
      e.covariance = weightedCovariance p.dim p.settings.form p.settings.floor column.sum
        ((p.weighted column).map fun entry => (entry.1, entry.2.zipWith (· - ·) e.mean)) := by
  have hparts := estimate_spec h
  rw [Exact.sum_eq] at hparts
  exact ⟨pos_of_collapseBound_lt hparts.1.2, hparts.2⟩

theorem estimate_weight_pos (hsize : 0 < p.size) {column : List ℝ} {e : Component ℝ}
    (h : p.estimate column = some e) : 0 < e.weight := by
  obtain ⟨hmass, hweight, -⟩ := estimate_eq_some h
  rw [hweight]
  exact div_pos hmass (Nat.cast_pos.mpr hsize)

section Density

variable {dim : Nat} {entries : List (ℝ × Point ℝ)}

/-- The log-densities of samples by their squared distances from the mean. -/
theorem sum_logDensity_eq (hlength : ∀ e ∈ entries, e.2.length = dim) {c : Component ℝ}
    (hmean : c.mean.length = dim) (hsymm : (Square.matrix dim c.covariance).IsSymm) {f : Cholesky ℝ}
    (hf : Cholesky.factor dim c.covariance = some f) :
    (entries.map fun e => e.1 * f.logDensity c.mean e.2).sum =
      -(1 / 2) * ((entries.map (·.1)).sum *
          (dim * Real.log (2 * Real.pi) + Real.log (Square.matrix dim c.covariance).det) +
        deviation (Square.matrix dim c.covariance)⁻¹ entries (coordinates dim c.mean)) := by
  induction entries with
  | nil => simp [deviation]
  | cons e entries ih =>
    obtain ⟨he, hrest⟩ := List.forall_mem_cons.mp hlength
    have hdensity := Cholesky.logDensity_eq hf hsymm hmean he
    have hdistance : (fun i : Fin dim => e.2.getD i 0 - c.mean.getD i 0) =
        coordinates dim e.2 - coordinates dim c.mean := rfl
    rw [hdistance] at hdensity
    simp only [deviation, List.map_cons, List.sum_cons] at ih ⊢
    rw [ih hrest, hdensity]
    ring

end Density

/-- **No normal distribution is better than the estimate**: in exact arithmetic and without a floor,
among all means and all covariances of the form that is asked for. -/
theorem sum_logDensity_le (hfloor : p.settings.floor = 0)
    (hpoints : ∀ x ∈ p.points, x.length = p.dim) {r : Point ℝ → ℝ} {e : Component ℝ}
    (he : p.estimate (p.points.map r) = some e) {f f' : Cholesky ℝ}
    (hf' : Cholesky.factor p.dim e.covariance = some f') {c : Component ℝ}
    (hmean : c.mean.length = p.dim) (hsymm : (Square.matrix p.dim c.covariance).IsSymm)
    (hdiag : p.settings.form = .diagonal → (Square.matrix p.dim c.covariance).IsDiag)
    (hf : Cholesky.factor p.dim c.covariance = some f) :
    (p.points.map fun x => r x * f.logDensity c.mean x).sum ≤
      (p.points.map fun x => r x * f'.logDensity e.mean x).sum := by
  obtain ⟨hmass, -, hmean', hcovariance⟩ := estimate_eq_some he
  rw [hfloor] at hcovariance
  rw [← sum_map_weighted_map, ← sum_map_weighted_map]
  have hsum : ((p.weighted (p.points.map r)).map (·.1)).sum = (p.points.map r).sum := by
    simpa using sum_map_weighted_map (p := p) r fun _ => 1
  have hlength : ∀ entry ∈ p.weighted (p.points.map r), entry.2.length = p.dim :=
    fun entry hentry => hpoints _ (mem_points_of_mem_weighted hentry)
  generalize (p.points.map r).sum = mass at hmass hmean' hcovariance hsum
  generalize p.weighted (p.points.map r) = entries at hmean' hcovariance hsum hlength
  have hmeanLength : e.mean.length = p.dim := hmean' ▸ length_weightedMean hlength
  have hform : HasForm p.dim p.settings.form e.covariance :=
    hcovariance ▸ hasForm_weightedCovariance _ _ _ hmass rfl _
  have hsymm' := hform.isSymm
  have hpos := Cholesky.posDef_of_factor hf hsymm
  have hpos' := Cholesky.posDef_of_factor hf' hsymm'
  -- measured by either inverse, the squares from the new mean are those of the new covariance
  have hsquares : ∀ B : Matrix (Fin p.dim) (Fin p.dim) ℝ, (p.settings.form = .diagonal → B.IsDiag) →
      deviation B entries (coordinates p.dim e.mean) =
        mass * (B * Square.matrix p.dim e.covariance).trace := by
    intro B hB
    rw [deviation_eq_trace B hlength hmeanLength, trace_mul_gram_centered hmass.ne' hB,
      ← hcovariance]
  have hcenter : (entries.map fun entry => entry.1 • coordinates p.dim entry.2).sum =
      mass • coordinates p.dim e.mean := by
    ext i
    rw [Pi.smul_apply, smul_eq_mul, coordinates, hmean', getD_weightedMean hlength i.isLt,
      mul_div_cancel₀ _ hmass.ne', Pi.list_sum_apply, List.map_map]
    rfl
  have hnearer := deviation_mean_le hpos.inv.posSemidef hmass.le hsum hcenter
    (coordinates p.dim c.mean)
  have hdivergence := log_det_add_le (Cholesky.det_lower_pos hf).ne' hpos'
  rw [Cholesky.lower_mul_transpose hf hsymm] at hdivergence
  have hself : ((Square.matrix p.dim e.covariance)⁻¹ * Square.matrix p.dim e.covariance).trace =
      p.dim := by
    rw [nonsing_inv_mul _ hpos'.det_pos.ne'.isUnit, trace_one, Fintype.card_fin]
  rw [sum_logDensity_eq hlength hmean hsymm hf, sum_logDensity_eq hlength hmeanLength hsymm' hf',
    hsum, hsquares _ fun hdiagonal => isDiag_inv (hform.isDiag hdiagonal), hself]
  rw [hsquares _ fun hform => isDiag_inv (hdiag hform)] at hnearer
  linarith only [hnearer, mul_le_mul_of_nonneg_left hdivergence hmass.le]

end Mixtures.Em.Problem
