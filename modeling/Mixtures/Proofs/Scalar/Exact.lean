import Mathlib
import Mixtures.Proofs.Scalar.Doubles

/-!
# Exact scalars

The real numbers are scalars whose operations do not round: every one is finite, and square root,
exponential and logarithm are the real functions. Statements about exact arithmetic are made at this
instance. It does not compute; nothing that runs uses it.
-/

namespace Mixtures

/-- Real numbers, with exact operations. -/
noncomputable instance instScalarReal : Scalar ℝ where
  toZero := inferInstance
  toOne := inferInstance
  toAdd := inferInstance
  toSub := inferInstance
  toMul := inferInstance
  toDiv := inferInstance
  toNeg := inferInstance
  toLT := inferInstance
  toLE := inferInstance
  toBEq := ⟨fun x y => decide (x = y)⟩
  decidableLT := inferInstance
  decidableLE := inferInstance
  ofNat n := n
  isFinite _ := true
  sqrt := Real.sqrt
  exp := Real.exp
  ln := Real.log
  lnTwoPi := Real.log (2 * Real.pi)

namespace Exact

@[simp] theorem isFinite_eq (x : ℝ) : Scalar.isFinite x = true := rfl

@[simp] theorem ofNat_eq (n : Nat) : (Scalar.ofNat n : ℝ) = n := rfl

@[simp] theorem sqrt_eq (x : ℝ) : Scalar.sqrt x = Real.sqrt x := rfl

@[simp] theorem exp_eq (x : ℝ) : Scalar.exp x = Real.exp x := rfl

@[simp] theorem ln_eq (x : ℝ) : Scalar.ln x = Real.log x := rfl

@[simp] theorem half_eq : (Scalar.half : ℝ) = 1 / 2 := congrArg (1 / ·) Nat.cast_ofNat

@[simp] theorem isNaN_eq (x : ℝ) : Scalar.isNaN x = false := by
  have hself : (x == x) = true := decide_eq_true rfl
  rw [Scalar.isNaN, hself, Bool.not_true]

@[simp] theorem beq_zero_eq (x : ℝ) : (x == 0) = decide (x = 0) := rfl

@[simp] theorem sum_eq (xs : List ℝ) : Scalar.sum xs = xs.sum := by
  rw [Scalar.sum, List.sum_eq_foldl, neg_zero]

/-- A list of numbers is summed by its positions. -/
theorem sum_eq_sum_range {row : List ℝ} {count : Nat} (h : row.length = count) :
    row.sum = ∑ i ∈ Finset.range count, row.getD i 0 := by
  subst h
  rw [← Fin.sum_univ_getElem row, Finset.sum_range]
  exact Finset.sum_congr rfl fun i _ => (List.getD_eq_getElem row 0 i.isLt).symm

theorem sum_map_div (xs : List ℝ) (total : ℝ) : (xs.map (· / total)).sum = xs.sum / total := by
  simp only [div_eq_mul_inv, List.sum_map_mul_right, List.map_id']

theorem getD_map_div (xs : List ℝ) (total : ℝ) (i : Nat) :
    (xs.map (· / total)).getD i 0 = xs.getD i 0 / total := by
  rw [List.getD_eq_getElem?_getD, List.getD_eq_getElem?_getD, List.getElem?_map]
  cases xs[i]? with
  | none => exact (zero_div total).symm
  | some x => rfl

end Exact

/-- Exact numbers keep the laws that rounding keeps. -/
instance instLawfulReal : Scalar.Lawful ℝ where
  lt_of_lt_of_le := fun hab hbc => lt_of_lt_of_le hab hbc
  div_nonpos := fun hx hpos _ => div_nonpos_of_nonpos_of_nonneg hx hpos.le

/-- So do exact sums. -/
instance instLawfulSumsReal : Scalar.LawfulSums ℝ where
  lt_of_le_of_lt := fun hab hbc => lt_of_le_of_lt hab hbc
  lt_of_not_le := fun _ _ h => not_le.mp h
  beq_zero_iff := fun h => by
    rw [Exact.beq_zero_eq, decide_eq_true_iff, not_lt]
    exact ⟨fun hzero => hzero.le, fun hle => le_antisymm hle h⟩
  add_spec := fun {a b} ha hb => by
    refine ⟨add_nonneg ha hb, fun hpos => ?_, fun hpos => ?_⟩
    · by_contra hnone
      obtain ⟨hna, hnb⟩ := not_or.mp hnone
      exact hpos.not_ge (add_nonpos (not_lt.mp hna) (not_lt.mp hnb))
    · exact hpos.elim (add_pos_of_pos_of_nonneg · hb) (add_pos_of_nonneg_of_pos ha)
  pos_of_lt_add := fun _ _ h => (lt_add_iff_pos_right _).mp h

end Mixtures
