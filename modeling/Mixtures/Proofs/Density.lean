import Mathlib
import Mixtures.Model.Mixture
import Mixtures.Point
import Mixtures.Proofs.Linear.Definite
import Mixtures.Proofs.Scalar.Masses

/-!
# The density of a mixture

In exact arithmetic the density of a mixture is the one of the textbook: a sum of normal densities,
each times its weight, over the components that have a positive weight and a positive definite
covariance. The others have no density and count for nothing. If there are no such components at
all, the logarithm is that of zero; and since the sum does not depend on the order of the
components, neither does it.

* `mass_term`: the share of one component.
* `density_eq_sum_normalMass`: the density.
-/

namespace Mixtures

open Matrix

namespace Component

/-- A component with a density: its weight is positive and its covariance positive definite. -/
def IsNormal (dim : Nat) (c : Component ℝ) : Prop :=
  0 < c.weight ∧ (Square.matrix dim c.covariance).PosDef

/-- The weighted density at a point of the normal distribution with the mean and the covariance of a
component. -/
noncomputable def normalMass (dim : Nat) (x : Point ℝ) (c : Component ℝ) : ℝ :=
  let covariance := Square.matrix dim c.covariance
  let difference : Fin dim → ℝ := fun i => x.getD i 0 - c.mean.getD i 0
  c.weight * ((2 : ℕ) * Real.pi) ^ (-(dim : ℝ) / (2 : ℕ)) *
    covariance.det ^ (-(1 : ℝ) / (2 : ℕ)) *
    Real.exp (-(difference ⬝ᵥ (covariance⁻¹ *ᵥ difference)) / (2 : ℕ))

/-- The formula of the textbook. -/
theorem normalMass_eq (dim : Nat) (x : Point ℝ) (c : Component ℝ) :
    c.normalMass dim x =
      c.weight * (2 * Real.pi) ^ (-(dim : ℝ) / 2) *
        (Square.matrix dim c.covariance).det ^ (-(1 : ℝ) / 2) *
        Real.exp (-((fun i : Fin dim => x.getD i 0 - c.mean.getD i 0) ⬝ᵥ
          ((Square.matrix dim c.covariance)⁻¹ *ᵥ
            fun i : Fin dim => x.getD i 0 - c.mean.getD i 0)) / 2) := by
  simp only [normalMass, Nat.cast_ofNat]

end Component

namespace Mixture

variable {dim : Nat} {x : Point ℝ} {c : Component ℝ} {m : Mixture ℝ}

/-- The logarithm of the textbook is the one that is computed. -/
theorem exp_logDensity (hc : c.HasShape dim) (hsymm : (Square.matrix dim c.covariance).IsSymm)
    (hx : x.length = dim) (hweight : 0 < c.weight) {f : Cholesky ℝ}
    (hf : Cholesky.factor dim c.covariance = some f) :
    Real.exp (Real.log c.weight + f.logDensity c.mean x) = c.normalMass dim x := by
  have hdet := (Cholesky.posDef_of_factor hf hsymm).det_pos
  have hcircle : (0 : ℝ) < 2 * Real.pi := by positivity
  rw [Cholesky.logDensity_eq hf hsymm hc.1 hx, Component.normalMass_eq,
    Real.rpow_def_of_pos hcircle, Real.rpow_def_of_pos hdet, Real.exp_add, Real.exp_log hweight,
    mul_assoc, mul_assoc, ← Real.exp_add, ← Real.exp_add]
  congr 2
  ring

/-- A component with a density has the share of the textbook. -/
theorem term_of_isNormal (hc : c.HasShape dim) (hsymm : (Square.matrix dim c.covariance).IsSymm)
    (hx : x.length = dim) (h : c.IsNormal dim) :
    ∃ v, term .gaussian dim x c = .of v ∧ Real.exp v = c.normalMass dim x := by
  obtain ⟨hweight, hdefinite⟩ := h
  obtain ⟨f, hf⟩ := Option.isSome_iff_exists.mp
    ((Cholesky.isSome_factor_iff hc.2 hsymm).mpr hdefinite)
  have hfactor : DensityKernel.gaussian.factor dim c.covariance = some f := hf
  refine ⟨Real.log c.weight + f.logDensity c.mean x, ?_, exp_logDensity hc hsymm hx hweight hf⟩
  rw [term, if_neg hweight.not_ge, hfactor]
  rfl

/-- A component without one has none. -/
theorem term_of_not_isNormal (hc : c.HasShape dim)
    (hsymm : (Square.matrix dim c.covariance).IsSymm) (h : ¬c.IsNormal dim) :
    term .gaussian dim x c = .zero := by
  rw [term]
  split
  next => rfl
  next hweight =>
    have hnone : DensityKernel.gaussian.factor dim c.covariance = none := by
      rw [← Option.not_isSome_iff_eq_none]
      intro hsome
      exact h ⟨not_le.mp hweight, (Cholesky.isSome_factor_iff hc.2 hsymm).mp hsome⟩
    rw [hnone]

theorem term_eq_zero_iff (hc : c.HasShape dim) (hsymm : (Square.matrix dim c.covariance).IsSymm)
    (hx : x.length = dim) : term .gaussian dim x c = .zero ↔ ¬c.IsNormal dim := by
  refine ⟨fun hzero h => ?_, term_of_not_isNormal hc hsymm⟩
  obtain ⟨v, hv, -⟩ := term_of_isNormal hc hsymm hx h
  rw [hzero] at hv
  cases hv

open Classical in
/-- The mass of a component is the weighted normal density, or nothing. -/
theorem mass_term (hc : c.HasShape dim) (hsymm : (Square.matrix dim c.covariance).IsSymm)
    (hx : x.length = dim) :
    (term .gaussian dim x c).mass = if c.IsNormal dim then c.normalMass dim x else 0 := by
  split
  next h =>
    obtain ⟨v, hv, hexp⟩ := term_of_isNormal hc hsymm hx h
    rw [hv, ← hexp]
    rfl
  next h =>
    rw [term_of_not_isNormal hc hsymm h]
    rfl

/-- The dimension does not depend on the order of components that share it. -/
theorem dim_perm {m' : Mixture ℝ} (hshape : ∀ c ∈ m.components, c.HasShape m.dim)
    (h : m'.components.Perm m.components) : m'.dim = m.dim := by
  cases hcomponents : m'.components with
  | nil =>
    rw [hcomponents] at h
    rw [dim, dim, hcomponents, h.nil_eq]
  | cons first rest =>
    have hfirst : first ∈ m.components :=
      h.mem_iff.mp (hcomponents ▸ List.mem_cons_self)
    rw [← (hshape first hfirst).1, dim, hcomponents]
    rfl

open Classical in
/-- **The density of a mixture**: it is the sum of the weighted normal densities of the components
that have one, its logarithm is that of zero exactly if there are none, and the order of the
components does not matter. -/
theorem density_eq_sum_normalMass (hshape : ∀ c ∈ m.components, c.HasShape m.dim)
    (hsymm : ∀ c ∈ m.components, (Square.matrix m.dim c.covariance).IsSymm)
    (hx : x.length = m.dim) :
    m.density x =
        .ok ((m.components.filter (·.IsNormal m.dim)).map (·.normalMass m.dim x)).sum ∧
      (m.logDensity x = .ok .zero ↔ ∀ c ∈ m.components, ¬c.IsNormal m.dim) ∧
      ∀ m' : Mixture ℝ, m'.components.Perm m.components → m'.logDensity x = m.logDensity x := by
  have hlog : m.logDensity x = .ok (LogMass.sum (m.components.map (term .gaussian m.dim x))) := by
    rw [logDensity, logDensityWith, if_pos hx]
  refine ⟨?_, ?_, fun m' hperm => ?_⟩
  · have hmasses : (m.components.map (term .gaussian m.dim x)).map LogMass.mass =
        m.components.map fun c => if c.IsNormal m.dim then c.normalMass m.dim x else 0 := by
      rw [List.map_map]
      exact List.map_congr_left fun c hc => mass_term (hshape c hc) (hsymm c hc) hx
    have hsum : (LogMass.sum (m.components.map (term .gaussian m.dim x))).mass =
        ((m.components.filter (·.IsNormal m.dim)).map (·.normalMass m.dim x)).sum := by
      rw [LogMass.mass_sum, hmasses, List.sum_map_ite]
      simp
    rw [density, hlog, ← hsum]
    rfl
  · rw [hlog, Except.ok.injEq, LogMass.sum_eq_zero_iff, List.forall_mem_map]
    exact forall₂_congr fun c hc => term_eq_zero_iff (hshape c hc) (hsymm c hc) hx
  · rw [logDensity, logDensityWith, dim_perm hshape hperm, if_pos hx, hlog,
      LogMass.sum_perm (hperm.map _)]

/-- Two standard normal components of a line, the second without weight, and between them one whose
covariance is singular. -/
noncomputable def halfSingular : Mixture ℝ := ⟨[⟨1, [0], [1]⟩, ⟨1, [0], [0]⟩, ⟨0, [1], [1]⟩]⟩

/-- At zero, the density is that of the one component that has one. -/
theorem density_eq_sum_normalMass_halfSingular :
    halfSingular.density [0] = .ok ((2 * Real.pi) ^ (-(1 : ℝ) / 2)) := by
  have hdim : halfSingular.dim = 1 := rfl
  have hshape : ∀ c ∈ halfSingular.components, c.HasShape halfSingular.dim := by
    simp [halfSingular, Component.HasShape, dim, Component.dim]
  have hsymm : ∀ c ∈ halfSingular.components,
      (Square.matrix halfSingular.dim c.covariance).IsSymm :=
    fun c _ => hdim ▸ Cholesky.isSymm_singleton c.covariance
  obtain ⟨hdensity, -, -⟩ := density_eq_sum_normalMass hshape hsymm (x := [0]) rfl
  have hfirst : Component.IsNormal 1 ⟨1, [0], [1]⟩ := by
    obtain ⟨f, hf⟩ := Cholesky.exists_factor_singleton one_pos
    exact ⟨one_pos, Cholesky.posDef_of_factor hf (Cholesky.isSymm_singleton [1])⟩
  have hsecond : ¬Component.IsNormal 1 ⟨1, [0], [0]⟩ :=
    fun h => lt_irrefl (0 : ℝ) (h.2.diag_pos (i := 0))
  have hthird : ¬Component.IsNormal 1 ⟨0, [1], [1]⟩ := fun h => lt_irrefl (0 : ℝ) h.1
  rw [hdensity, hdim, halfSingular]
  simp [hfirst, hsecond, hthird, Component.normalMass_eq, Square.matrix, Square.entry,
    Square.position]

end Mixture

end Mixtures
