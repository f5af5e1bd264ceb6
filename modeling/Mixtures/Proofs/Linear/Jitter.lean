import Mathlib
import Mixtures.Linear.Cholesky
import Mixtures.Linear.Jitter
import Mixtures.Proofs.Scalar.Exact

/-!
# What jitter does to a matrix

Jitter reaches every amount from the one before by adding the difference. In exact arithmetic the
differences telescope: what has been added after a step is the amount of that step, whatever was
tried before. So the matrix that is kept is the given one with one amount on its diagonal, and the
amount is the least of those tried with which the matrix can be factored.

Whether a factor comes with the matrix that was factored does not need exact arithmetic, nor does it
matter what is meant by factoring.

* `escalate_eq`: all steps together, by the first one that succeeds.
* `factorWithJitter_outcome`: what is found, and what is kept.
-/

namespace Mixtures

/-- Arithmetic in which a sum can be changed to another one by adding a difference. -/
class Scalar.ExactDifferences (α : Type) [Scalar α] : Prop where
  /-- Adding nothing. -/
  add_zero : ∀ x : α, x + 0 = x
  /-- Differences telescope. -/
  add_add_sub : ∀ x a b : α, x + a + (b - a) = x + b

instance instExactDifferencesReal : Scalar.ExactDifferences ℝ where
  add_zero x := add_zero x
  add_add_sub x a b := by ring

variable {α F : Type} [Scalar α]

/-! ## The matrix that is kept -/

/-- The matrix that comes back with a factor is the one that was factored. -/
theorem factor_of_escalate {factor : List α → Option F} {dim : Nat} {base : α} {steps : List Nat}
    {added : α} {a b : List α} {f : F} (h : escalate factor dim base steps added a = (some f, b)) :
    factor b = some f := by
  induction steps generalizing added a with
  | nil => cases h
  | cons step steps ih =>
    rw [escalate] at h
    split at h
    next hfactor =>
      cases h
      exact hfactor
    next => exact ih h

theorem factor_of_factorWithJitter {factor : List α → Option F} {dim : Nat} {floor : α}
    {a b : List α} {f : F} (h : factorWithJitter factor dim floor a = (some f, b)) :
    factor b = some f := by
  rw [factorWithJitter] at h
  split at h
  next hfactor =>
    cases h
    exact hfactor
  next => exact factor_of_escalate h

/-- A matrix that can be factored is kept as it is. -/
theorem factorWithJitter_of_some {factor : List α → Option F} {a : List α} {f : F}
    (h : factor a = some f) (dim : Nat) (floor : α) :
    factorWithJitter factor dim floor a = (some f, a) := by
  rw [factorWithJitter, h]

/-! ## The amounts -/

section Amounts

variable [Scalar.ExactDifferences α]

namespace Square

theorem addToDiagonal_zero (dim : Nat) (a : List α) : addToDiagonal dim 0 a = a := by
  refine List.ext_getElem (length_addToDiagonal dim 0 a) fun n _ _ => ?_
  simp only [addToDiagonal, List.getElem_mapIdx, Scalar.ExactDifferences.add_zero, ite_self]

/-- An amount that is reached by its difference from another one. -/
theorem addToDiagonal_sub (dim : Nat) (first second : α) (a : List α) :
    addToDiagonal dim (second - first) (addToDiagonal dim first a) =
      addToDiagonal dim second a := by
  refine List.ext_getElem (by simp) fun n _ _ => ?_
  simp only [addToDiagonal, List.getElem_mapIdx]
  split
  · exact Scalar.ExactDifferences.add_add_sub _ _ _
  · rfl

end Square

/-- The matrix with the amount of a step on its diagonal: a power of ten of the floor or, without a
floor, of the spacing of doubles at one. -/
def jittered (dim : Nat) (floor : α) (a : List α) (step : Nat) : List α :=
  Square.addToDiagonal dim
    ((if 0 < floor then floor else Scalar.epsilon) * Scalar.ofNat (10 ^ step)) a

/-- **The steps** end with the first amount that makes a matrix that can be factored, or with the
last one. -/
theorem escalate_eq (factor : List α → Option F) (dim : Nat) (floor : α) (a : List α)
    (steps : List Nat) (added : α) :
    escalate factor dim (jitterBase floor) steps added (Square.addToDiagonal dim added a) =
      match steps.find? fun step => (factor (jittered dim floor a step)).isSome with
      | some step => (factor (jittered dim floor a step), jittered dim floor a step)
      | none =>
        (none, (steps.getLast?.map (jittered dim floor a)).getD
          (Square.addToDiagonal dim added a)) := by
  induction steps generalizing added with
  | nil => rfl
  | cons step steps ih =>
    have hreached : Square.addToDiagonal dim
        (jitterBase floor * Scalar.ofNat (Nat.pow 10 step) - added)
        (Square.addToDiagonal dim added a) = jittered dim floor a step :=
      Square.addToDiagonal_sub dim added _ a
    rw [escalate, hreached]
    cases hfactor : factor (jittered dim floor a step) with
    | some f => simp [hfactor]
    | none =>
      rw [List.find?_cons_of_neg (by simp [hfactor])]
      refine (ih (jitterBase floor * Scalar.ofNat (10 ^ step))).trans ?_
      cases steps.find? fun step => (factor (jittered dim floor a step)).isSome with
      | some found => rfl
      | none =>
        dsimp only
        rw [List.getLast?_cons]
        cases steps.getLast? with
        | none => rfl
        | some last => rfl

variable {factor : List α → Option F} {dim : Nat} {a : List α}

/-- The steps for a matrix that cannot be factored as it is. -/
theorem factorWithJitter_of_none (h : factor a = none) (floor : α) :
    factorWithJitter factor dim floor a =
      match (List.range 8).find? fun step => (factor (jittered dim floor a step)).isSome with
      | some step => (factor (jittered dim floor a step), jittered dim floor a step)
      | none => (none, jittered dim floor a 7) := by
  have hsteps := escalate_eq factor dim floor a (List.range 8) 0
  rw [Square.addToDiagonal_zero] at hsteps
  rw [factorWithJitter, h]
  exact hsteps

/-- The matrix that is kept is the given one with one amount on its diagonal. -/
theorem exists_amount (factor : List α → Option F) (dim : Nat) (floor : α) (a : List α) :
    ∃ amount, (factorWithJitter factor dim floor a).2 = Square.addToDiagonal dim amount a := by
  cases h : factor a with
  | some f =>
    rw [factorWithJitter_of_some h]
    exact ⟨0, (Square.addToDiagonal_zero dim a).symm⟩
  | none =>
    rw [factorWithJitter_of_none h]
    split
    next step _ => exact ⟨_, rfl⟩
    next => exact ⟨_, rfl⟩

/-- Jitter succeeds exactly if one of the steps does. -/
theorem isSome_factorWithJitter (h : factor a = none) (floor : α) :
    (factorWithJitter factor dim floor a).1.isSome ↔
      ∃ step < 8, (factor (jittered dim floor a step)).isSome := by
  rw [factorWithJitter_of_none h]
  split
  next step hfind =>
    obtain ⟨hsome, hmem, -⟩ := List.find?_range_eq_some.mp hfind
    exact iff_of_true hsome ⟨step, List.mem_range.mp hmem, hsome⟩
  next hfind =>
    refine iff_of_false Bool.false_ne_true ?_
    rintro ⟨step, hstep, hsome⟩
    have hnone := List.find?_range_eq_none.mp hfind step hstep
    rw [hsome] at hnone
    exact absurd hnone (by decide)

/-- The first step that succeeds. -/
theorem factorWithJitter_of_first (h : factor a = none) {floor : α} {step : Nat} (hstep : step < 8)
    {f : F} (hf : factor (jittered dim floor a step) = some f)
    (hfirst : ∀ earlier < step, factor (jittered dim floor a earlier) = none) :
    factorWithJitter factor dim floor a = (some f, jittered dim floor a step) := by
  have hfind : ((List.range 8).find? fun step => (factor (jittered dim floor a step)).isSome) =
      some step := by
    rw [List.find?_range_eq_some]
    refine ⟨by rw [hf]; rfl, List.mem_range.mpr hstep, fun earlier hearlier => ?_⟩
    rw [hfirst earlier hearlier]
    rfl
  rw [factorWithJitter_of_none h, hfind, ← hf]

/-- No step succeeds. -/
theorem factorWithJitter_of_all_none (h : factor a = none) {floor : α}
    (hnone : ∀ step < 8, factor (jittered dim floor a step) = none) :
    factorWithJitter factor dim floor a = (none, jittered dim floor a 7) := by
  have hfind : ((List.range 8).find? fun step => (factor (jittered dim floor a step)).isSome) =
      none := by
    rw [List.find?_range_eq_none]
    intro step hstep
    rw [hnone step hstep]
    rfl
  rw [factorWithJitter_of_none h, hfind]

/-- **What jitter finds and keeps**, in exact arithmetic and for any meaning of factoring.

* The matrix that is kept is the given one with one amount on its diagonal.
* A matrix that can be factored is kept as it is.
* Otherwise jitter succeeds exactly if one of eight amounts makes a matrix that can be factored; it
  keeps the matrix with the least of them, and the last one if all fail.
* What comes with a factor is the matrix that has it, which is not changed again. -/
theorem factorWithJitter_outcome (factor : List α → Option F) {dim : Nat} (floor : α) {a : List α}
    (ha : a.length = dim * dim) :
    (∃ amount, (factorWithJitter factor dim floor a).2.length = dim * dim ∧
      ∀ i < dim, ∀ j < dim, Square.entry dim (factorWithJitter factor dim floor a).2 i j =
        if i = j then Square.entry dim a i j + amount else Square.entry dim a i j) ∧
    (∀ f, factor a = some f → factorWithJitter factor dim floor a = (some f, a)) ∧
    (factor a = none →
      ((factorWithJitter factor dim floor a).1.isSome ↔
        ∃ step < 8, (factor (jittered dim floor a step)).isSome) ∧
      (∀ step < 8, ∀ f, factor (jittered dim floor a step) = some f →
        (∀ earlier < step, factor (jittered dim floor a earlier) = none) →
        factorWithJitter factor dim floor a = (some f, jittered dim floor a step)) ∧
      ((∀ step < 8, factor (jittered dim floor a step) = none) →
        factorWithJitter factor dim floor a = (none, jittered dim floor a 7))) ∧
    ∀ f b, factorWithJitter factor dim floor a = (some f, b) →
      factor b = some f ∧ factorWithJitter factor dim floor b = (some f, b) := by
  refine ⟨?_, fun f hf => factorWithJitter_of_some hf dim floor, fun hnone => ⟨?_, ?_, ?_⟩, ?_⟩
  · obtain ⟨amount, hamount⟩ := exists_amount factor dim floor a
    refine ⟨amount, (length_factorWithJitter factor dim floor a).trans ha, fun i hi j hj => ?_⟩
    rw [hamount, Square.entry_addToDiagonal ha amount hi hj]
  · exact isSome_factorWithJitter hnone floor
  · intro step hstep f hf hfirst
    exact factorWithJitter_of_first hnone hstep hf hfirst
  · exact factorWithJitter_of_all_none hnone
  · intro f b h
    have hb := factor_of_factorWithJitter h
    exact ⟨hb, factorWithJitter_of_some hb dim floor⟩

end Amounts

/-! ## A matrix that is repaired in the second step -/

/-- A symmetric matrix of two rows with a positive corner has a factor exactly if its determinant is
positive. -/
theorem Cholesky.isSome_factor_two {p b q : ℝ} (hp : 0 < p) :
    (Cholesky.factor 2 [p, b, b, q]).isSome ↔ b * b < p * q := by
  have hroot : 0 < Real.sqrt p := Real.sqrt_pos.mpr hp
  have htriangle : lowerTriangle 2 [p, b, b, q] = [[p, b], [q]] := rfl
  have hpivot : -(b / Real.sqrt p) * (b / Real.sqrt p) + q = (p * q - b * b) / p := by
    rw [neg_mul, div_mul_div_comm, Real.mul_self_sqrt hp.le]
    field_simp
    ring
  have hsign : 0 < (p * q - b * b) / p ↔ b * b < p * q := by
    rw [div_pos_iff_of_pos_right hp, sub_pos]
  rw [← hsign, Cholesky.factor, htriangle]
  simp only [eliminate, reduceTriangle, List.map_cons, List.map_nil, List.zipWith_cons_cons,
    List.zipWith_nil_left, Exact.sqrt_eq, hpivot]
  generalize (p * q - b * b) / p = pivot
  by_cases hpos : 0 < pivot
  · simp [hp.ne', hp.le, hpos, hpos.ne', hpos.le, hroot, Cholesky.diagonalOf]
  · rcases (not_lt.mp hpos).lt_or_eq with hneg | hzero
    · simp [hp.ne', hp.le, hpos, hneg.not_ge]
    · simp [hp.ne', hp.le, hzero]

/-- With a floor of one fifth, the first amount is too small for this matrix and the second
is not. -/
theorem factorWithJitter_outcome_secondStep :
    ∃ f, factorWithJitter (Cholesky.factor 2) 2 (1 / 5) ([1, 2, 2, 1] : List ℝ) =
        (some f, [3, 2, 2, 3]) ∧
      Cholesky.factor 2 ([3, 2, 2, 3] : List ℝ) = some f := by
  obtain ⟨-, -, hsteps, hagain⟩ :=
    factorWithJitter_outcome (Cholesky.factor 2) (1 / 5)
      (show ([1, 2, 2, 1] : List ℝ).length = 2 * 2 from rfl)
  have hfloor : (0 : ℝ) < 1 / 5 := by norm_num
  have hjittered (step : Nat) : jittered 2 (1 / 5) ([1, 2, 2, 1] : List ℝ) step =
      [1 + 1 / 5 * 10 ^ step, 2, 2, 1 + 1 / 5 * 10 ^ step] := by
    rw [jittered, if_pos hfloor]
    simp [Square.addToDiagonal, Square.isDiagonal]
  have hgiven : Cholesky.factor 2 ([1, 2, 2, 1] : List ℝ) = none := by
    rw [← Option.not_isSome_iff_eq_none, Cholesky.isSome_factor_two one_pos]
    norm_num
  have hfirst : Cholesky.factor 2 (jittered 2 (1 / 5) ([1, 2, 2, 1] : List ℝ) 0) = none := by
    rw [hjittered, ← Option.not_isSome_iff_eq_none, Cholesky.isSome_factor_two (by norm_num)]
    norm_num
  have hsecond : jittered 2 (1 / 5) ([1, 2, 2, 1] : List ℝ) 1 = [3, 2, 2, 3] := by
    rw [hjittered]
    norm_num
  obtain ⟨f, hf⟩ := Option.isSome_iff_exists.mp
    ((Cholesky.isSome_factor_two (p := 3) (b := 2) (q := 3) (by norm_num)).mpr (by norm_num))
  have hresult := (hsteps hgiven).2.1 1 (by decide) f (hsecond ▸ hf) fun earlier hearlier => by
    obtain rfl : earlier = 0 := by omega
    exact hfirst
  rw [hsecond] at hresult
  exact ⟨f, hresult, (hagain f _ hresult).1⟩

end Mixtures
