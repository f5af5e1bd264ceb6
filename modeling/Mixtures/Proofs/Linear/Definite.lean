import Mathlib
import Mixtures.Proofs.Linear.Factor

/-!
# Positive definite matrices have a factor

In exact arithmetic elimination does not fail on a positive definite matrix. Its pivot is a diagonal
entry and so is positive; and what is left of the triangle after a step is positive definite again:
the form of a vector under it is the form of a longer vector under the triangle before, with the
first coordinate chosen to make the form least.

* `form_cons`: the form of a triangle by its first column.
* `posDef_reduceTriangle`: one step of elimination.
* `isSome_factor_iff`: exactly the positive definite ones among the symmetric matrices have a
  factor.
-/

namespace Mixtures

open Matrix

namespace Cholesky

/-- The symmetric matrix with this lower triangle. -/
noncomputable def symmetric (n : Nat) (columns : List (List ℝ)) : Matrix (Fin n) (Fin n) ℝ :=
  .of fun i j => entry columns (max i.val j.val) (min i.val j.val)

variable {n : Nat}

theorem symmetric_isSymm (n : Nat) (columns : List (List ℝ)) : (symmetric n columns).IsSymm := by
  ext i j
  simp only [symmetric, transpose_apply, of_apply, max_comm, min_comm]

theorem symmetric_zero_zero (column : List ℝ) (columns : List (List ℝ)) :
    symmetric (n + 1) (column :: columns) 0 0 = column.getD 0 0 := rfl

theorem symmetric_zero_succ (column : List ℝ) (columns : List (List ℝ)) (j : Fin n) :
    symmetric (n + 1) (column :: columns) 0 j.succ = column.getD (j + 1) 0 := by
  simp [symmetric]

theorem symmetric_succ_zero (column : List ℝ) (columns : List (List ℝ)) (i : Fin n) :
    symmetric (n + 1) (column :: columns) i.succ 0 = column.getD (i + 1) 0 := by
  simp [symmetric]

theorem symmetric_succ_succ (column : List ℝ) (columns : List (List ℝ)) (i j : Fin n) :
    symmetric (n + 1) (column :: columns) i.succ j.succ = symmetric n columns i j := by
  simp only [symmetric, of_apply, Fin.val_succ, Nat.succ_max_succ, Nat.succ_min_succ,
    entry_cons_succ_succ]

theorem symmetric_lowerTriangle {dim : Nat} {a : List ℝ} (hsymm : (Square.matrix dim a).IsSymm) :
    symmetric dim (lowerTriangle dim a) = Square.matrix dim a := by
  ext i j
  rw [symmetric, of_apply, entry_lowerTriangle a (min_le_max) (max_lt i.isLt j.isLt)]
  rcases le_total i j with hij | hji
  · rw [max_eq_right (Fin.le_def.mp hij), min_eq_left (Fin.le_def.mp hij), ← hsymm.apply]
    rfl
  · rw [max_eq_left (Fin.le_def.mp hji), min_eq_right (Fin.le_def.mp hji)]
    rfl

/-- The form of a triangle, by its first column. -/
theorem form_cons (p : ℝ) (b : List ℝ) (columns : List (List ℝ)) (t : ℝ) (v : Fin n → ℝ) :
    vecCons t v ⬝ᵥ (symmetric (n + 1) ((p :: b) :: columns) *ᵥ vecCons t v) =
      p * t ^ 2 + 2 * t * ((fun i : Fin n => b.getD i 0) ⬝ᵥ v) +
        v ⬝ᵥ (symmetric n columns *ᵥ v) := by
  simp only [mulVec, dotProduct, Fin.sum_univ_succ, cons_val_zero, cons_val_succ,
    symmetric_zero_zero, symmetric_zero_succ, symmetric_succ_zero, symmetric_succ_succ,
    List.getD_cons_zero, List.getD_cons_succ, mul_add, Finset.sum_add_distrib]
  have hcolumn : ∑ i : Fin n, v i * (b.getD i 0 * t) = t * ∑ i : Fin n, b.getD i 0 * v i := by
    rw [Finset.mul_sum]
    exact Finset.sum_congr rfl fun i _ => by ring
  rw [hcolumn]
  ring

theorem form_vecMulVec (l v : Fin n → ℝ) : v ⬝ᵥ (vecMulVec l l *ᵥ v) = (l ⬝ᵥ v) ^ 2 := by
  rw [vecMulVec_mulVec, dotProduct_smul, dotProduct_comm v l, MulOpposite.smul_eq_mul_unop,
    MulOpposite.unop_op, sq]

/-- What is left of a triangle is less by the products of the entries of the column. -/
theorem symmetric_reduceTriangle {columns : List (List ℝ)} {l : List ℝ} (h : IsTriangle n columns)
    (hl : l.length = n) :
    symmetric n (reduceTriangle l columns) =
      symmetric n columns -
        vecMulVec (fun i : Fin n => l.getD i 0) fun i : Fin n => l.getD i 0 := by
  ext i j
  rw [Matrix.sub_apply, vecMulVec_apply, symmetric, symmetric, of_apply, of_apply,
    entry_reduceTriangle h hl min_le_max (max_lt i.isLt j.isLt)]
  rcases le_total i.val j.val with hij | hji
  · rw [max_eq_right hij, min_eq_left hij]
    ring
  · rw [max_eq_left hji, min_eq_right hji]
    ring

/-- **One step of elimination** of a positive definite triangle: the pivot is positive, and what is
left is positive definite. -/
theorem posDef_reduceTriangle {p : ℝ} {b : List ℝ} {columns : List (List ℝ)}
    (h : IsTriangle n columns) (hb : b.length = n)
    (hdefinite : (symmetric (n + 1) ((p :: b) :: columns)).PosDef) :
    0 < p ∧ (symmetric n (reduceTriangle (b.map (· / Real.sqrt p)) columns)).PosDef := by
  have hp : 0 < p := hdefinite.diag_pos (i := 0)
  have hroot : Real.sqrt p * Real.sqrt p = p := Real.mul_self_sqrt hp.le
  refine ⟨hp, .of_dotProduct_mulVec_pos ?_ fun v hv => ?_⟩
  · rw [IsHermitian, conjTranspose_eq_transpose_of_trivial]
    exact symmetric_isSymm n _
  -- the form of the longer vector whose first coordinate makes it least
  let c : ℝ := (fun i : Fin n => b.getD i 0) ⬝ᵥ v
  have hlonger : vecCons (-c / p) v ≠ 0 := by
    intro hzero
    exact hv (funext fun i => by simpa using congrFun hzero i.succ)
  have hform := hdefinite.dotProduct_mulVec_pos hlonger
  rw [star_trivial, form_cons] at hform
  have hcolumn : (fun i : Fin n => (b.map (· / Real.sqrt p)).getD i 0) ⬝ᵥ v = c / Real.sqrt p := by
    simp only [Exact.getD_map_div, dotProduct, c, Finset.sum_div]
    exact Finset.sum_congr rfl fun i _ => by ring
  have hreduced : v ⬝ᵥ (symmetric n (reduceTriangle (b.map (· / Real.sqrt p)) columns) *ᵥ v) =
      v ⬝ᵥ (symmetric n columns *ᵥ v) - c ^ 2 / p := by
    rw [symmetric_reduceTriangle h ((List.length_map _).trans hb), sub_mulVec, dotProduct_sub,
      form_vecMulVec, hcolumn, div_pow, sq (Real.sqrt p), hroot]
  rw [star_trivial, hreduced]
  calc 0 < p * (-c / p) ^ 2 + 2 * (-c / p) * c + v ⬝ᵥ (symmetric n columns *ᵥ v) := hform
    _ = v ⬝ᵥ (symmetric n columns *ᵥ v) - c ^ 2 / p := by
      field_simp
      ring

/-- **Elimination** does not fail on a positive definite triangle. -/
theorem exists_eliminate {triangle : List (List ℝ)} (h : IsTriangle n triangle)
    (hdefinite : (symmetric n triangle).PosDef) :
    ∃ columns, eliminate n triangle = some columns := by
  induction n generalizing triangle with
  | zero =>
    cases h
    exact ⟨[], rfl⟩
  | succ n ih =>
    cases h with
    | @cons _ column rest hlength hrest =>
      obtain ⟨p, b, rfl⟩ := List.exists_cons_of_length_eq_add_one hlength
      have hb : b.length = n := Nat.succ.inj hlength
      obtain ⟨hp, hreduced⟩ := posDef_reduceTriangle hrest hb hdefinite
      obtain ⟨columns, hcolumns⟩ :=
        ih (hrest.reduceTriangle ((List.length_map _).trans hb)) hreduced
      refine ⟨(Real.sqrt p :: b.map (· / Real.sqrt p)) :: columns, ?_⟩
      have hpivot : ((p == 0) || !decide (0 ≤ p)) = false := by
        simp [hp.ne', hp.le]
      rw [eliminate, hpivot]
      simp only [Bool.false_eq_true, if_false, Exact.sqrt_eq]
      rw [hcolumns]
      rfl

/-- **Exactly the positive definite matrices** among the symmetric ones have a factor. -/
theorem isSome_factor_iff {dim : Nat} {a : List ℝ} (ha : a.length = dim * dim)
    (hsymm : (Square.matrix dim a).IsSymm) :
    (factor dim a).isSome = true ↔ (Square.matrix dim a).PosDef := by
  constructor
  · intro h
    obtain ⟨f, hf⟩ := Option.isSome_iff_exists.mp h
    exact posDef_of_factor hf hsymm
  · intro hdefinite
    rw [← symmetric_lowerTriangle hsymm] at hdefinite
    have htriangle := IsTriangle.lowerTriangle dim a
    obtain ⟨columns, hcolumns⟩ := exists_eliminate htriangle hdefinite
    have hdiagonal : ∀ d ∈ diagonalOf columns, 0 < d := by
      intro d hd
      obtain ⟨i, hi, rfl⟩ := List.getElem_of_mem hd
      rw [diagonalOf, List.length_map] at hi
      have hpos := (eliminate_spec htriangle hcolumns).1 i
        ((htriangle.eliminate hcolumns).length_eq ▸ hi)
      rw [entry_self, List.getD_eq_getElem _ _ hi] at hpos
      simpa only [diagonalOf, List.getElem_map] using hpos
    rw [factor, hcolumns]
    simpa [ha] using hdiagonal

end Cholesky

end Mixtures
