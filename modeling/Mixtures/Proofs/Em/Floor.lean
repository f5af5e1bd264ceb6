import Mathlib
import Mixtures.Proofs.Em.Responsibilities
import Mixtures.Proofs.Linear.Matrix
import Mixtures.Proofs.Pipeline.Training

/-!
# Covariances above the floor

In exact arithmetic every covariance that training returns is at least the floor times the identity.
An estimate is a weighted sum of squares of centered samples, which is positive semidefinite as long
as no responsibility is negative, plus the floor; a reset gives the diagonal of the coordinate
variances plus the floor; a placeholder has the floor itself; and jitter only adds to the diagonal.
Which densities the components have does not matter.

* `keeps_atLeast`: the covariances as an invariant of training, together with the sign of the
  responsibilities.
* `covariance_atLeast_floor`: the covariances of all mixtures of a run.
-/

namespace Mixtures.Em

open Matrix

variable {F : Type}

/-! ## Estimates -/

namespace Problem

/-- The coordinates of a point as a vector, zero where it has none. -/
def coordinates (dim : Nat) (x : Point ℝ) : Fin dim → ℝ := fun i => x.getD i 0

/-- The weighted sum of the products of coordinates. -/
def gram (dim : Nat) (entries : List (ℝ × Point ℝ)) : Matrix (Fin dim) (Fin dim) ℝ :=
  (entries.map fun e => e.1 • vecMulVec (coordinates dim e.2) (coordinates dim e.2)).sum

theorem posSemidef_gram (dim : Nat) {entries : List (ℝ × Point ℝ)} (h : ∀ e ∈ entries, 0 ≤ e.1) :
    (gram dim entries).PosSemidef := by
  induction entries with
  | nil => exact .zero
  | cons e entries ih =>
    have hsquare := posSemidef_vecMulVec_self_star (coordinates dim e.2)
    rw [star_trivial] at hsquare
    rw [gram, List.map_cons, List.sum_cons]
    exact (hsquare.smul (h e List.mem_cons_self)).add
      (ih fun e he => h e (List.mem_cons_of_mem _ he))

theorem gram_apply (dim : Nat) (entries : List (ℝ × Point ℝ)) (i j : Fin dim) :
    gram dim entries i j = (entries.map fun e => e.1 * e.2.getD i 0 * e.2.getD j 0).sum := by
  induction entries with
  | nil => rfl
  | cons e entries ih =>
    rw [List.map_cons, List.sum_cons, ← ih, gram, List.map_cons, List.sum_cons, Matrix.add_apply,
      Matrix.smul_apply, vecMulVec_apply, smul_eq_mul, mul_assoc]
    rfl

theorem weightedProduct_eq_sum (mass : ℝ) (entries : List (ℝ × Point ℝ)) (i j : Nat) :
    weightedProduct mass entries i j =
      (entries.map fun e => e.1 * e.2.getD i 0 * e.2.getD j 0).sum / mass := by
  rw [weightedProduct, List.sum_eq_foldl, List.foldl_map]

theorem weightedProduct_eq (mass : ℝ) (entries : List (ℝ × Point ℝ)) {dim : Nat} (i j : Fin dim) :
    weightedProduct mass entries i j = (mass⁻¹ • gram dim entries) i j := by
  rw [weightedProduct_eq_sum, Matrix.smul_apply, gram_apply, smul_eq_mul, div_eq_inv_mul]

/-- The order of the two coordinates does not matter. -/
theorem weightedProduct_max_min (mass : ℝ) (entries : List (ℝ × Point ℝ)) (i j : Nat) :
    weightedProduct mass entries (max i j) (min i j) = weightedProduct mass entries i j := by
  rcases le_total i j with hij | hji
  · rw [max_eq_right hij, min_eq_left hij]
    simp only [weightedProduct, mul_right_comm]
  · rw [max_eq_left hji, min_eq_right hji]

/-- What a weighted covariance has above the floor is a weighted sum of squares, or the diagonal of
one. -/
theorem matrix_weightedCovariance (dim : Nat) (form : CovarianceForm) (floor mass : ℝ)
    (centered : List (ℝ × Point ℝ)) :
    Square.matrix dim (weightedCovariance dim form floor mass centered) - floor • 1 =
      match form with
      | .full => mass⁻¹ • gram dim centered
      | .diagonal => diagonal fun i => (mass⁻¹ • gram dim centered) i i := by
  rw [weightedCovariance, Square.matrix_tabulate]
  ext i j
  rw [Matrix.sub_apply, Matrix.smul_apply, one_apply, of_apply, smul_eq_mul]
  by_cases hij : i = j
  · subst hij
    rw [if_pos rfl, if_pos rfl, mul_one, add_sub_cancel_right, weightedProduct_eq]
    cases form with
    | full => rfl
    | diagonal => exact (diagonal_apply_eq _ i).symm
  · rw [if_neg (Fin.val_ne_iff.mpr hij), if_neg hij, mul_zero, sub_zero]
    cases form with
    | full => exact (weightedProduct_max_min mass centered i j).trans (weightedProduct_eq ..)
    | diagonal => exact (zero_div mass).trans (diagonal_apply_ne _ hij).symm

/-- A weighted covariance is at least the floor. -/
theorem weightedCovariance_atLeast (dim : Nat) (form : CovarianceForm) (floor : ℝ) {mass : ℝ}
    (hmass : 0 ≤ mass) {centered : List (ℝ × Point ℝ)} (h : ∀ e ∈ centered, 0 ≤ e.1) :
    Square.AtLeast dim floor (weightedCovariance dim form floor mass centered) where
  length_eq := Square.length_tabulate dim _
  posSemidef := by
    have hgram : (mass⁻¹ • gram dim centered).PosSemidef :=
      (posSemidef_gram dim h).smul (inv_nonneg.mpr hmass)
    rw [matrix_weightedCovariance]
    cases form with
    | full => exact hgram
    | diagonal => exact .diagonal fun i => hgram.diag_nonneg

variable {p : Problem ℝ F}

/-- The coordinate variances are not negative. -/
theorem spread_nonneg (p : Problem ℝ F) : ∀ v ∈ p.spread, 0 ≤ v := by
  intro v hv
  unfold spread at hv
  obtain ⟨total, htotal, rfl⟩ := List.mem_map.mp hv
  clear hv
  refine div_nonneg ?_ (Nat.cast_nonneg _)
  -- a sum of squares in each coordinate
  revert total
  refine List.foldlRecOn (motive := fun s : List ℝ => ∀ total ∈ s, 0 ≤ total) p.points _ ?_ ?_
  · intro total htotal
    exact (List.eq_of_mem_replicate htotal).ge
  · intro s hs x _ total htotal
    obtain ⟨i, hi⟩ := List.mem_iff_getElem?.mp htotal
    obtain ⟨before, square, hbefore, hsquare, rfl⟩ := List.getElem?_zipWith_eq_some.mp hi
    obtain ⟨a, b, -, -, rfl⟩ := List.getElem?_zipWith_eq_some.mp hsquare
    exact add_nonneg (hs before (List.mem_of_getElem? hbefore)) (mul_self_nonneg _)

/-! ## The invariant -/

/-- Training keeps covariances above the floor, as it does not make responsibilities negative. -/
theorem keeps_atLeast (hpoints : ∀ x ∈ p.points, x.length = p.dim) :
    p.Keeps (fun c => Square.AtLeast p.dim p.settings.floor c.covariance) NonNegative := by
  have hplaceholder : Square.AtLeast p.dim p.settings.floor
      (Component.placeholder p.dim p.settings.floor).covariance :=
    .diagonal List.length_replicate fun v hv => (List.eq_of_mem_replicate hv).ge
  refine {
    placeholder := hplaceholder
    oneHot := nonNegative_oneHot p.count
    explained := fun components factors x _ _ _ => nonNegative_explain p components factors x
    estimated := ?estimated
    silenced := fun c _ => hplaceholder
    moved := ?moved
    prepared := fun c hc => hc.factorWithJitter _ _
    normalized := fun c total _ _ hc => hc }
  case estimated =>
    intro rows _ hrows component c hc
    obtain ⟨⟨-, hmass⟩, -, -, hcovariance⟩ := estimate_spec hc
    rw [hcovariance]
    refine weightedCovariance_atLeast p.dim _ _ ?_ fun e he => ?_
    · exact (div_nonneg zero_le_one (Nat.cast_nonneg _)).trans hmass.le
    · obtain ⟨entry, hentry, rfl⟩ := List.mem_map.mp he
      exact nonNegative_weighted hrows component entry hentry
  case moved =>
    intro sample _
    refine .diagonal ((List.length_map _).trans (length_spread hpoints)) fun v hv => ?_
    obtain ⟨variance, hvariance, rfl⟩ := List.mem_map.mp hv
    exact le_add_of_nonneg_left (spread_nonneg p variance hvariance)

end Problem

/-! ## Runs -/

namespace Settings

variable {kernel : DensityKernel ℝ F} {samples : List (Point ℝ)} {ids : List Nat} {groupCount : Nat}

/-- **Covariances are at least the floor**, in exact arithmetic: for every run that has a result, in
every component of every mixture, whatever the status of its group, the form of the covariances and
the densities of the components. So every diagonal entry is at least the floor, and with a positive
floor every covariance is positive definite. -/
theorem covariance_atLeast_floor {s : Settings ℝ} {t : Training ℝ}
    (h : s.Yields kernel samples ids groupCount t) {m : Mixture ℝ} (hm : m ∈ t.models.mixtures)
    {c : Component ℝ} (hc : c ∈ m.components) :
    c.covariance.length = t.models.dim * t.models.dim ∧
      (Square.matrix t.models.dim c.covariance - s.floor • 1).PosSemidef ∧
      (∀ v, s.floor * (v ⬝ᵥ v) ≤ v ⬝ᵥ (Square.matrix t.models.dim c.covariance *ᵥ v)) ∧
      (∀ i < t.models.dim, s.floor ≤ Square.entry t.models.dim c.covariance i i) ∧
      (0 < s.floor → (Square.matrix t.models.dim c.covariance).PosDef) := by
  obtain ⟨group, r, hgives⟩ := h.exists_gives hm
  obtain ⟨own, hown, -, rfl, -⟩ := h.exists_labels hgives
  have hpoints : ∀ x ∈ (s.groupProblem kernel samples ids t.models.dim group).points,
      x.length = t.models.dim :=
    length_eq_of_mem_groupProblem h.fittable group
  have hatLeast : Square.AtLeast t.models.dim s.floor c.covariance :=
    (Problem.train_good (Problem.keeps_atLeast hpoints) hown).2 c hc
  exact ⟨hatLeast.length_eq, hatLeast.posSemidef, hatLeast.le_dotProduct,
    fun i => hatLeast.le_entry, hatLeast.posDef⟩

/-- Two samples in the plane. -/
def inPlane : List (Point ℝ) := [[0, 0], [0, 1]]

theorem fittable_inPlane : Fittable inPlane [0, 2] 3 2 where
  aligned := rfl
  nonempty := List.cons_ne_nil _ _
  dim_pos := Nat.zero_lt_two
  length_eq := by simp [inPlane]
  finite := by simp [inPlane]
  id_lt := by simp
  sorted := by simp

theorem validate_ofCount_two : (ofCount 2 : Settings ℝ).validate = .ok () := by
  simp [validate_eq_ok_iff, isFiniteNonNegative, ofCount]

/-- Two groups of one sample each, with a group without samples between them: all six covariances
are positive definite. -/
theorem covariance_atLeast_floor_inPlane :
    ∃ t, (ofCount 2 : Settings ℝ).Yields .gaussian inPlane [0, 2] 3 t ∧ t.models.groupCount = 3 ∧
      ∀ m ∈ t.models.mixtures, m.components.length = 2 ∧
        ∀ c ∈ m.components, (Square.matrix 2 c.covariance).PosDef := by
  have hstart : (ofCount 2 : Settings ℝ).startLabels 2 (some [1, 0]) = .ok (some [1, 0]) := rfl
  obtain ⟨t, ht, hcollects⟩ :=
    train_outcome fittable_inPlane .gaussian 0 .sequential hstart validate_ofCount_two
  have hyields : (ofCount 2 : Settings ℝ).Yields .gaussian inPlane [0, 2] 3 t := .train ht
  refine ⟨t, hyields, hcollects.groupCount_eq, fun m hm => ⟨(hcollects.hasShape m hm).1, ?_⟩⟩
  intro c hc
  obtain ⟨-, -, -, -, hposDef⟩ := covariance_atLeast_floor hyields hm hc
  rw [hcollects.dim_eq] at hposDef
  exact hposDef (by norm_num [ofCount])

end Settings

end Mixtures.Em
