import Mathlib
import Mixtures.Linear.Jitter
import Mixtures.Proofs.Scalar.Exact

/-!
# Matrices of exact numbers

A list of `dim * dim` exact numbers stands for a matrix. `Square.AtLeast` says that such a matrix is
at least a multiple of the identity, in the order of symmetric matrices: what is left after taking
the multiple away is positive semidefinite.

* `AtLeast.factorWithJitter`: jitter only adds to the diagonal, so it keeps this, whether it
  succeeds or not and whatever is meant by factoring.
* `AtLeast.le_dotProduct`, `AtLeast.le_entry`, `AtLeast.posDef`: what it means for vectors, for the
  diagonal, and for a positive multiple.
-/

namespace Mixtures.Square

open Matrix

/-- The matrix that a list of entries stands for. -/
noncomputable def matrix (dim : Nat) (a : List ℝ) : Matrix (Fin dim) (Fin dim) ℝ :=
  Matrix.of fun i j => entry dim a i j

theorem matrix_tabulate (dim : Nat) (f : Nat → Nat → ℝ) :
    matrix dim (tabulate dim f) = Matrix.of fun i j : Fin dim => f i j := by
  ext i j
  exact entry_tabulate f i.isLt j.isLt

theorem matrix_diagonal (d : List ℝ) :
    matrix d.length (diagonal d) = Matrix.diagonal fun i : Fin d.length => d[i] := by
  rw [diagonal, matrix_tabulate]
  ext i j
  rw [of_apply, diagonal_apply, List.getD_eq_getElem d 0 i.isLt]
  simp only [Fin.val_inj, Fin.getElem_fin]

theorem matrix_addToDiagonal {dim : Nat} {a : List ℝ} (ha : a.length = dim * dim) (delta : ℝ) :
    matrix dim (addToDiagonal dim delta a) = matrix dim a + delta • (1 : Matrix _ _ ℝ) := by
  ext i j
  rw [Matrix.add_apply, Matrix.smul_apply, one_apply, smul_eq_mul, matrix, matrix, of_apply,
    of_apply, entry_addToDiagonal ha delta i.isLt j.isLt]
  simp only [Fin.val_inj]
  split_ifs <;> simp

/-- A square matrix that is at least `floor` times the identity. -/
structure AtLeast (dim : Nat) (floor : ℝ) (a : List ℝ) : Prop where
  length_eq : a.length = dim * dim
  posSemidef : (matrix dim a - floor • (1 : Matrix _ _ ℝ)).PosSemidef

namespace AtLeast

variable {dim : Nat} {floor : ℝ} {a : List ℝ}

/-! ## What keeps a matrix above the floor -/

theorem diagonal {d : List ℝ} (hlength : d.length = dim) (hd : ∀ v ∈ d, floor ≤ v) :
    AtLeast dim floor (Square.diagonal d) := by
  subst hlength
  refine ⟨length_diagonal d, ?_⟩
  rw [matrix_diagonal, smul_one_eq_diagonal, diagonal_sub]
  exact .diagonal fun i => sub_nonneg.mpr (hd _ (List.getElem_mem _))

theorem addToDiagonal (h : AtLeast dim floor a) {delta : ℝ} (hdelta : 0 ≤ delta) :
    AtLeast dim floor (Square.addToDiagonal dim delta a) where
  length_eq := (length_addToDiagonal dim delta a).trans h.length_eq
  posSemidef := by
    rw [matrix_addToDiagonal h.length_eq, add_sub_right_comm]
    exact h.posSemidef.add (PosSemidef.one.smul hdelta)

variable {F : Type}

/-- Amounts that do not decrease are reached by adding what is not negative. -/
theorem escalate (factor : List ℝ → Option F) {base : ℝ} (hbase : 0 ≤ base) {steps : List Nat}
    (hsteps : steps.Pairwise (· ≤ ·)) {added : ℝ}
    (hadded : ∀ step ∈ steps, added ≤ base * (Nat.pow 10 step : Nat)) (h : AtLeast dim floor a) :
    AtLeast dim floor (Mixtures.escalate factor dim base steps added a).2 := by
  induction steps generalizing added a with
  | nil => exact h
  | cons step steps ih =>
    have hraised := h.addToDiagonal (sub_nonneg.mpr (hadded step List.mem_cons_self))
    obtain ⟨hfirst, hlater⟩ := List.pairwise_cons.mp hsteps
    rw [Mixtures.escalate]
    split
    · exact hraised
    · refine ih hlater (fun later hmem => ?_) hraised
      have hpow : Nat.pow 10 step ≤ Nat.pow 10 later :=
        Nat.pow_le_pow_right (by decide) (hfirst later hmem)
      exact mul_le_mul_of_nonneg_left (Nat.cast_le.mpr hpow) hbase

theorem jitterBase_nonneg (floor : ℝ) : 0 ≤ jitterBase floor := by
  unfold jitterBase
  split
  next hpos => exact hpos.le
  next => exact div_nonneg zero_le_one (Nat.cast_nonneg _)

/-- Jitter keeps a matrix above the floor, whether it succeeds or not. -/
theorem factorWithJitter (factor : List ℝ → Option F) (amount : ℝ) (h : AtLeast dim floor a) :
    AtLeast dim floor (Mixtures.factorWithJitter factor dim amount a).2 := by
  unfold Mixtures.factorWithJitter
  split
  · exact h
  · exact h.escalate factor (jitterBase_nonneg amount) List.pairwise_le_range fun step _ =>
      mul_nonneg (jitterBase_nonneg amount) (Nat.cast_nonneg _)

/-! ## What it means to be above the floor -/

theorem le_dotProduct (h : AtLeast dim floor a) (v : Fin dim → ℝ) :
    floor * (v ⬝ᵥ v) ≤ v ⬝ᵥ (matrix dim a *ᵥ v) := by
  have hnonneg := h.posSemidef.dotProduct_mulVec_nonneg v
  rw [star_trivial, sub_mulVec, dotProduct_sub, smul_mulVec, one_mulVec, dotProduct_smul,
    smul_eq_mul] at hnonneg
  exact sub_nonneg.mp hnonneg

/-- The diagonal entries are at least the floor. -/
theorem le_entry (h : AtLeast dim floor a) {i : Nat} (hi : i < dim) : floor ≤ entry dim a i i := by
  have hdiag := h.posSemidef.diag_nonneg (i := ⟨i, hi⟩)
  rw [Matrix.sub_apply, Matrix.smul_apply, one_apply_eq, smul_eq_mul, mul_one] at hdiag
  exact sub_nonneg.mp hdiag

/-- Above a positive floor a matrix is positive definite. -/
theorem posDef (h : AtLeast dim floor a) (hfloor : 0 < floor) : (matrix dim a).PosDef := by
  rw [← sub_add_cancel (matrix dim a) (floor • 1)]
  exact .posSemidef_add h.posSemidef (PosDef.one.smul hfloor)

end AtLeast

end Mixtures.Square
