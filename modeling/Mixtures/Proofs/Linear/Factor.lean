import Mathlib
import Mixtures.Proofs.Linear.Matrix
import Mixtures.Proofs.Linear.Triangle

/-!
# Cholesky factors in exact arithmetic

In exact arithmetic the factor of a symmetric matrix is what it is meant to be: a lower triangular
matrix with positive diagonal whose product with its transpose is the matrix. So only positive
definite matrices have one, the logarithm that comes with it is that of the determinant, forward
substitution solves the equations of the triangle, and the density is that of the normal
distribution.

* `eliminate_spec`: elimination, column by column.
* `lower_mul_transpose`, `posDef_of_factor`, `logDet_eq`: the factor of a matrix.
* `solve_spec`, `squaredNorm_eq`, `mahalanobis_eq`: distances.
* `logDensity_eq`: the density.
-/

namespace Mixtures

open Finset (range)
open Matrix

namespace Cholesky

/-! ## Entries of triangles -/

section Entries

variable {α : Type} [Scalar α] (column : List α) (columns : List (List α))

@[simp] theorem entry_cons_zero (row : Nat) :
    entry (column :: columns) row 0 = column.getD row 0 := rfl

@[simp] theorem entry_cons_zero_succ (j : Nat) : entry (column :: columns) 0 (j + 1) = 0 := rfl

@[simp] theorem entry_cons_succ_succ (i j : Nat) :
    entry (column :: columns) (i + 1) (j + 1) = entry columns i j := rfl

theorem entry_of_lt {i j : Nat} (h : i < j) : entry columns i j = 0 := by
  rw [entry, List.getD_eq_getElem?_getD, List.getElem?_append_left (by simpa using h),
    List.getElem?_replicate, if_pos h, Option.getD_some]

theorem entry_self (i : Nat) : entry columns i i = (columns.getD i []).headD 0 := by
  rw [entry, List.getD_eq_getElem?_getD, List.getElem?_append_right (by simp),
    List.length_replicate, Nat.sub_self]
  cases columns.getD i [] <;> rfl

variable {columns}

theorem entry_lowerTriangle {dim : Nat} (a : List α) {i j : Nat} (hij : j ≤ i) (hi : i < dim) :
    entry (lowerTriangle dim a) i j = Square.entry dim a i j := by
  obtain ⟨k, rfl⟩ := Nat.exists_eq_add_of_le hij
  have hj : j < dim := (Nat.le_add_right j k).trans_lt hi
  have hk : k < dim - j := by omega
  simp [entry, lowerTriangle, List.getD_eq_getElem?_getD, hj, hk]

/-- What reducing a triangle takes from its entries. -/
theorem entry_reduceTriangle {n : Nat} {l : List α} (h : IsTriangle n columns) (hl : l.length = n)
    {i j : Nat} (hij : j ≤ i) (hi : i < n) :
    entry (reduceTriangle l columns) i j = -l.getD j 0 * l.getD i 0 + entry columns i j := by
  induction h generalizing l i j with
  | nil => exact absurd hi (Nat.not_lt_zero i)
  | @cons n column columns hlength _ ih =>
    obtain ⟨f, l, rfl⟩ := List.exists_cons_of_length_eq_add_one hl
    rw [reduceTriangle]
    cases j with
    | zero =>
      rw [entry_cons_zero, entry_cons_zero, getD_zipWith 0 (hl ▸ hi) (hlength ▸ hi),
        List.getD_cons_zero]
    | succ j =>
      obtain ⟨i, rfl⟩ := Nat.exists_eq_add_of_lt (Nat.zero_lt_of_lt hij)
      rw [Nat.zero_add, entry_cons_succ_succ, entry_cons_succ_succ,
        ih (Nat.succ.inj hl) (by omega) (by omega), List.getD_cons_succ, List.getD_cons_succ]

end Entries

/-! ## Elimination -/

/-- **Elimination** of a triangle leaves a triangle with positive diagonal, and the triangle is that
of its product with its transpose. -/
theorem eliminate_spec {n : Nat} {triangle columns : List (List ℝ)} (h : IsTriangle n triangle)
    (hcolumns : eliminate n triangle = some columns) :
    (∀ i < n, 0 < entry columns i i) ∧
      ∀ i < n, ∀ j ≤ i,
        entry triangle i j = ∑ k ∈ range n, entry columns i k * entry columns j k := by
  induction n generalizing triangle columns with
  | zero =>
    exact ⟨fun i hi => absurd hi (Nat.not_lt_zero i), fun i hi => absurd hi (Nat.not_lt_zero i)⟩
  | succ n ih =>
    cases h with
    | @cons _ column rest hlength hrest =>
      obtain ⟨p, b, rfl⟩ := List.exists_cons_of_length_eq_add_one hlength
      rw [eliminate] at hcolumns
      split_ifs at hcolumns with hpivot
      obtain ⟨later, hlater, rfl⟩ := Option.map_eq_some_iff.mp hcolumns
      have hp : 0 < p := by
        rw [Exact.beq_zero_eq, Bool.or_eq_true, decide_eq_true_eq, Bool.not_eq_true',
          decide_eq_false_iff_not, not_or, not_not] at hpivot
        exact hpivot.2.lt_of_ne' hpivot.1
      have hroot : (0 : ℝ) < Scalar.sqrt p := Real.sqrt_pos.mpr hp
      have hl : (b.map (· / Scalar.sqrt p)).length = n := by
        rw [List.length_map]
        exact Nat.succ.inj hlength
      obtain ⟨hdiagonal, hproduct⟩ := ih (hrest.reduceTriangle hl) hlater
      constructor
      · rintro (- | i) hi
        · exact hroot
        · exact hdiagonal i (Nat.lt_of_succ_lt_succ hi)
      · rintro (- | i) hi (- | j) hij
        · -- the pivot
          simp [Finset.sum_range_succ', Real.mul_self_sqrt hp.le]
        · exact absurd hij (Nat.not_succ_le_zero j)
        · -- the first column
          simp only [Finset.sum_range_succ', entry_cons_zero, entry_cons_zero_succ, mul_zero,
            Finset.sum_const_zero, zero_add, List.getD_cons_succ, List.getD_cons_zero,
            Exact.getD_map_div, div_mul_cancel₀ _ hroot.ne']
        · -- what is left is what was reduced by the first column
          have hreduced := hproduct i (Nat.lt_of_succ_lt_succ hi) j (Nat.le_of_succ_le_succ hij)
          rw [entry_reduceTriangle hrest hl (Nat.le_of_succ_le_succ hij)
            (Nat.lt_of_succ_lt_succ hi)] at hreduced
          rw [Finset.sum_range_succ', entry_cons_succ_succ]
          simp only [entry_cons_succ_succ, entry_cons_zero, List.getD_cons_succ, ← hreduced]
          ring

/-! ## The factor of a matrix -/

/-- The lower triangular matrix whose columns these are. -/
noncomputable def lower (dim : Nat) (columns : List (List ℝ)) : Matrix (Fin dim) (Fin dim) ℝ :=
  .of fun i j => entry columns i j

theorem lower_isLowerTriangular (dim : Nat) (columns : List (List ℝ)) :
    (lower dim columns).IsLowerTriangular := fun _ _ hij => entry_of_lt columns hij

/-- What is found of a matrix that has a factor. -/
theorem exists_of_factor {dim : Nat} {a : List ℝ} {f : Cholesky ℝ} (h : factor dim a = some f) :
    eliminate dim (lowerTriangle dim a) = some f.columns ∧
      f.logDet = 2 * ((diagonalOf f.columns).map Real.log).sum := by
  rw [factor] at h
  split_ifs at h
  cases heliminate : eliminate dim (lowerTriangle dim a) with
  | none =>
    rw [heliminate] at h
    cases h
  | some columns =>
    rw [heliminate] at h
    dsimp only at h
    split_ifs at h
    cases h
    exact ⟨rfl, congrArg₂ (· * ·) Nat.cast_ofNat (Exact.sum_eq _)⟩

section Factor

variable {dim : Nat} {a : List ℝ} {f : Cholesky ℝ} (h : factor dim a = some f)

include h

theorem lower_diagonal_pos (i : Fin dim) : 0 < lower dim f.columns i i :=
  (eliminate_spec (.lowerTriangle dim a) (exists_of_factor h).1).1 i i.isLt

/-- **The factor of a symmetric matrix**: the product with its transpose is the matrix. -/
theorem lower_mul_transpose (hsymm : (Square.matrix dim a).IsSymm) :
    lower dim f.columns * (lower dim f.columns)ᵀ = Square.matrix dim a := by
  have hproduct := (eliminate_spec (.lowerTriangle dim a) (exists_of_factor h).1).2
  have hlower : ∀ i j : Fin dim, j ≤ i →
      (lower dim f.columns * (lower dim f.columns)ᵀ) i j = Square.matrix dim a i j := by
    intro i j hij
    have hentry := hproduct i i.isLt j hij
    rw [entry_lowerTriangle a hij i.isLt, Finset.sum_range] at hentry
    exact hentry.symm
  ext i j
  rcases le_total j i with hij | hji
  · exact hlower i j hij
  · rw [← (isSymm_mul_transpose_self (lower dim f.columns)).apply, hlower j i hji, hsymm.apply]

theorem det_lower_pos : 0 < (lower dim f.columns).det := by
  rw [det_of_isLowerTriangular _ (lower_isLowerTriangular dim f.columns)]
  exact Finset.prod_pos fun i _ => lower_diagonal_pos h i

theorem logDet_eq_det_lower : f.logDet = 2 * Real.log (lower dim f.columns).det := by
  have htriangle := factor_isTriangle h
  have hdiagonal : (diagonalOf f.columns).length = dim :=
    (List.length_map _).trans htriangle.length_eq
  rw [(exists_of_factor h).2, det_of_isLowerTriangular _ (lower_isLowerTriangular dim f.columns),
    Real.log_prod fun i _ => (lower_diagonal_pos h i).ne',
    Exact.sum_eq_sum_range ((List.length_map _).trans hdiagonal), Finset.sum_range]
  congr 1
  refine Finset.sum_congr rfl fun i _ => ?_
  have hi : (i : Nat) < f.columns.length := htriangle.length_eq ▸ i.isLt
  simp [diagonalOf, lower, entry_self, List.getD_eq_getElem?_getD, hi]

section Symmetric

variable (hsymm : (Square.matrix dim a).IsSymm)

include hsymm

/-- A symmetric matrix that has a factor is positive definite. -/
theorem posDef_of_factor : (Square.matrix dim a).PosDef := by
  rw [← lower_mul_transpose h hsymm, ← conjTranspose_eq_transpose_of_trivial]
  exact .mul_conjTranspose_self _
    (vecMul_injective_of_isUnit ((isUnit_iff_isUnit_det _).mpr (det_lower_pos h).ne'.isUnit))

/-- **The logarithm of the determinant.** -/
theorem logDet_eq : f.logDet = Real.log (Square.matrix dim a).det := by
  have hpos := (det_lower_pos h).ne'
  rw [logDet_eq_det_lower h, ← lower_mul_transpose h hsymm, det_mul, det_transpose,
    Real.log_mul hpos hpos, two_mul]

end Symmetric

end Factor

/-! ## Solving -/

theorem length_solve {n : Nat} {columns : List (List ℝ)} (h : IsTriangle n columns) {b : List ℝ}
    (hb : b.length = n) : (solve columns b).length = n := by
  induction h generalizing b with
  | nil =>
    obtain rfl := List.eq_nil_of_length_eq_zero hb
    rfl
  | @cons n column columns hlength _ ih =>
    obtain ⟨d, l, rfl⟩ := List.exists_cons_of_length_eq_add_one hlength
    obtain ⟨b₀, b, rfl⟩ := List.exists_cons_of_length_eq_add_one hb
    rw [solve, List.length_cons, ih]
    rw [List.length_zipWith, Nat.succ.inj hlength, Nat.succ.inj hb, Nat.min_self]

/-- **Forward substitution** solves the equations of a triangle. -/
theorem solve_spec {n : Nat} {columns : List (List ℝ)} (h : IsTriangle n columns)
    (hdiagonal : ∀ i < n, entry columns i i ≠ 0) {b : List ℝ} (hb : b.length = n) :
    ∀ i < n, ∑ k ∈ range n, entry columns i k * (solve columns b).getD k 0 = b.getD i 0 := by
  induction h generalizing b with
  | nil => exact fun i hi => absurd hi (Nat.not_lt_zero i)
  | @cons n column columns hlength hlater ih =>
    obtain ⟨d, l, rfl⟩ := List.exists_cons_of_length_eq_add_one hlength
    obtain ⟨b₀, b, rfl⟩ := List.exists_cons_of_length_eq_add_one hb
    have hd : d ≠ 0 := hdiagonal 0 (Nat.succ_pos n)
    have hl : l.length = n := Nat.succ.inj hlength
    have hrest : (l.zipWith (fun li r => -(b₀ / d) * li + r) b).length = n := by
      rw [List.length_zipWith, hl, Nat.succ.inj hb, Nat.min_self]
    have hsolved := ih (fun i hi => hdiagonal (i + 1) (Nat.succ_lt_succ hi)) hrest
    rw [solve]
    rintro (- | i) hi
    · simp only [Finset.sum_range_succ', entry_cons_zero, entry_cons_zero_succ, zero_mul,
        Finset.sum_const_zero, zero_add, List.getD_cons_zero, mul_div_cancel₀ _ hd]
    · have hi := Nat.lt_of_succ_lt_succ hi
      simp only [Finset.sum_range_succ', entry_cons_zero, entry_cons_succ_succ, List.getD_cons_succ,
        List.getD_cons_zero, hsolved i hi]
      rw [getD_zipWith 0 (hl.symm ▸ hi) ((Nat.succ.inj hb).symm ▸ hi)]
      ring

/-! ## Squared norms -/

/-- What blocks of eight leave of a sum of squares. -/
theorem addBlocks_spec (sums z : List ℝ) (h : sums.length = 8) :
    (addBlocks sums z).1.length = 8 ∧
      (addBlocks sums z).1.sum + ((addBlocks sums z).2.map fun v => v * v).sum =
        sums.sum + (z.map fun v => v * v).sum := by
  fun_induction addBlocks sums z with
  | case1 sums a b c d e f g k rest ih =>
    have hlength : (sums.zipWith (fun s v => s + v * v) [a, b, c, d, e, f, g, k]).length = 8 := by
      rw [List.length_zipWith, h]
      rfl
    obtain ⟨hnext, hsum⟩ := ih hlength
    refine ⟨hnext, hsum.trans ?_⟩
    match sums, h with
    | [s₀, s₁, s₂, s₃, s₄, s₅, s₆, s₇], _ =>
      simp only [List.zipWith_cons_cons, List.zipWith_nil_left, List.sum_cons, List.sum_nil,
        List.map_cons]
      ring
  | case2 => exact ⟨h, rfl⟩

/-- **The squared norm** is the sum of the squares. -/
theorem squaredNorm_eq (z : List ℝ) : squaredNorm z = (z.map fun v => v * v).sum := by
  obtain ⟨hlength, hsum⟩ := addBlocks_spec (List.replicate 8 0) z List.length_replicate
  unfold squaredNorm
  generalize addBlocks (List.replicate 8 0) z = blocks at hlength hsum
  obtain ⟨sums, rest⟩ := blocks
  dsimp only at hlength hsum ⊢
  have hrest : ∀ (vs : List ℝ) (total : ℝ),
      vs.foldl (fun s v => s + v * v) total = total + (vs.map fun v => v * v).sum := by
    intro vs
    induction vs with
    | nil => simp
    | cons v vs ih => simp [ih, add_assoc]
  match sums, hlength with
  | [s₀, s₁, s₂, s₃, s₄, s₅, s₆, s₇], _ =>
    rw [hrest]
    simp only [List.sum_replicate, smul_zero, zero_add] at hsum
    rw [← hsum]
    simp only [List.take_succ_cons, List.take_zero, List.drop_succ_cons, List.drop_zero,
      List.zipWith_cons_cons, List.zipWith_nil_left, List.foldl_cons, List.foldl_nil, List.sum_cons,
      List.sum_nil]
    ring

/-! ## Densities -/

section Density

variable {dim : Nat} {a : List ℝ} {f : Cholesky ℝ} (h : factor dim a = some f)
  (hsymm : (Square.matrix dim a).IsSymm)

include h hsymm

/-- **The squared Mahalanobis norm** is the form of the inverse matrix. -/
theorem mahalanobis_eq {diff : List ℝ} (hdiff : diff.length = dim) :
    f.mahalanobis diff =
      (fun i : Fin dim => diff.getD i 0) ⬝ᵥ
        ((Square.matrix dim a)⁻¹ *ᵥ fun i : Fin dim => diff.getD i 0) := by
  have hunit : IsUnit (lower dim f.columns).det := (det_lower_pos h).ne'.isUnit
  have hunit' : IsUnit (lower dim f.columns)ᵀ.det := by rwa [det_transpose]
  have hlength := length_solve (factor_isTriangle h) hdiff
  let z : Fin dim → ℝ := fun i => (solve f.columns diff).getD i 0
  have hsolved : lower dim f.columns *ᵥ z = fun i : Fin dim => diff.getD i 0 := by
    ext i
    have hrow := solve_spec (factor_isTriangle h)
      (fun i hi => (lower_diagonal_pos h ⟨i, hi⟩).ne') hdiff i i.isLt
    rw [Finset.sum_range] at hrow
    exact hrow
  have hnorm : f.mahalanobis diff = z ⬝ᵥ z := by
    rw [mahalanobis, squaredNorm_eq, Exact.sum_eq_sum_range ((List.length_map _).trans hlength),
      Finset.sum_range]
    refine Finset.sum_congr rfl fun i _ => ?_
    have hi : (i : Nat) < (solve f.columns diff).length := hlength ▸ i.isLt
    simp [z, hi]
  have hinverse : (Square.matrix dim a)⁻¹ *ᵥ (lower dim f.columns *ᵥ z) =
      (lower dim f.columns)ᵀ⁻¹ *ᵥ z := by
    rw [← lower_mul_transpose h hsymm, Matrix.mul_inv_rev, mulVec_mulVec, Matrix.mul_assoc,
      nonsing_inv_mul _ hunit, Matrix.mul_one]
  rw [hnorm, ← hsolved, hinverse, ← vecMul_transpose, ← dotProduct_mulVec, mulVec_mulVec,
    mul_nonsing_inv _ hunit', one_mulVec]

/-- **The logarithm of the normal density.** -/
theorem logDensity_eq {mean x : List ℝ} (hmean : mean.length = dim) (hx : x.length = dim) :
    f.logDensity mean x =
      -(1 / 2) * (dim * Real.log (2 * Real.pi) + Real.log (Square.matrix dim a).det +
        (fun i : Fin dim => x.getD i 0 - mean.getD i 0) ⬝ᵥ
          ((Square.matrix dim a)⁻¹ *ᵥ fun i : Fin dim => x.getD i 0 - mean.getD i 0)) := by
  have hdiff : (x.zipWith (· - ·) mean).length = dim := by
    rw [List.length_zipWith, hx, hmean, Nat.min_self]
  have hcoordinates : (fun i : Fin dim => (x.zipWith (· - ·) mean).getD i 0) =
      fun i : Fin dim => x.getD i 0 - mean.getD i 0 :=
    funext fun i => getD_zipWith 0 (hx ▸ i.isLt) (hmean ▸ i.isLt)
  rw [logDensity, mahalanobis_eq h hsymm hdiff, hcoordinates, logDet_eq h hsymm, hmean,
    Exact.half_eq]
  rfl

end Density

/-! ## One dimension -/

theorem exists_factor_singleton {v : ℝ} (hv : 0 < v) : ∃ f, factor 1 [v] = some f := by
  have hpos : 0 < Real.sqrt v := Real.sqrt_pos.mpr hv
  simp [factor, lowerTriangle, Square.entry, Square.position, eliminate, hv.ne', hv.le,
    reduceTriangle, diagonalOf, hpos]

theorem isSymm_singleton (a : List ℝ) : (Square.matrix 1 a).IsSymm := by
  ext i j
  rw [Subsingleton.elim i j]
  rfl

theorem logDensity_singleton {v : ℝ} {f : Cholesky ℝ} (hf : factor 1 [v] = some f) (m x : ℝ) :
    f.logDensity [m] [x] =
      -(1 / 2) * (Real.log (2 * Real.pi) + Real.log v + (x - m) * (x - m) / v) := by
  rw [logDensity_eq hf (isSymm_singleton [v]) rfl rfl, det_unique, inv_subsingleton]
  simp [dotProduct, Square.matrix, Square.entry, Square.position]
  ring

end Cholesky

end Mixtures
