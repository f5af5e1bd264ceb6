import Mathlib
import Mixtures.Proofs.Em.Agreement
import Mixtures.Proofs.Em.Weights

/-!
# The log-likelihood in exact arithmetic

In exact arithmetic every sample has a positive density as long as some component has weight. So an
expectation step leaves out no sample: its value is the sum of the log-densities of all samples
under the components that it leaves behind, and the responsibilities for a sample are the shares of
these components in its density.

* `total_eq_sum_log`, `responsibilities_eq_shares`: what a completed step has found.
* `logDensityWith_eq`: evaluation finds the same log-densities.
-/

namespace Mixtures

variable {F : Type}

namespace Mixture

/-- The densities of components at a point, each times the weight. -/
noncomputable def massesAt (kernel : DensityKernel ℝ F) (dim : Nat)
    (components : List (Component ℝ))
    (x : Point ℝ) : List ℝ :=
  (components.map (term kernel dim x)).map LogMass.mass

/-- The density of components at a point. -/
noncomputable def densityAt (kernel : DensityKernel ℝ F) (dim : Nat)
    (components : List (Component ℝ))
    (x : Point ℝ) : ℝ :=
  (massesAt kernel dim components x).sum

variable {kernel : DensityKernel ℝ F} {dim : Nat} {components : List (Component ℝ)} {i : Nat}
  {c : Component ℝ}

theorem getD_massesAt (hc : components[i]? = some c) (x : Point ℝ) :
    (massesAt kernel dim components x).getD i 0 = (term kernel dim x c).mass := by
  rw [massesAt, List.getD_eq_getElem?_getD, List.getElem?_map, List.getElem?_map, hc]
  rfl

theorem getD_massesAt_of_factor (hc : components[i]? = some c) (hlive : ¬c.weight ≤ 0) {f : F}
    (hf : kernel.factor dim c.covariance = some f) (x : Point ℝ) :
    (massesAt kernel dim components x).getD i 0 =
      Real.exp (Real.log c.weight + kernel.logDensity f c.mean x) := by
  rw [getD_massesAt hc, term, if_neg hlive, hf]
  rfl

theorem getD_massesAt_of_not_hasWeight (h : ¬Em.HasWeight components i) (x : Point ℝ) :
    (massesAt kernel dim components x).getD i 0 = 0 := by
  cases hc : components[i]? with
  | none => rw [massesAt, List.getD_eq_getElem?_getD, List.getElem?_map, List.getElem?_map, hc]; rfl
  | some c =>
    have hdead : c.weight ≤ 0 := by
      by_contra hlive
      exact h ⟨c, hc, hlive⟩
    rw [getD_massesAt hc, term, if_pos hdead]
    rfl

theorem length_massesAt (kernel : DensityKernel ℝ F) (dim : Nat) (components : List (Component ℝ))
    (x : Point ℝ) : (massesAt kernel dim components x).length = components.length := by
  rw [massesAt, List.length_map, List.length_map]

theorem nonNegative_massesAt (kernel : DensityKernel ℝ F) (dim : Nat)
    (components : List (Component ℝ))
    (x : Point ℝ) : Em.NonNegative (massesAt kernel dim components x) := by
  intro m hm
  obtain ⟨term, -, rfl⟩ := List.mem_map.mp hm
  exact term.mass_nonneg

end Mixture

namespace Em.Problem

variable {p : Problem ℝ F} {s s' : State ℝ} {total : ℝ}

/-- The part of a component in the density of a sample. -/
noncomputable def share (p : Problem ℝ F) (components : List (Component ℝ)) (i : Nat)
    (x : Point ℝ) : ℝ :=
  (Mixture.massesAt p.kernel p.dim components x).getD i 0 /
    Mixture.densityAt p.kernel p.dim components x

/-- No component loses its weight in an expectation step. -/
theorem hasWeight_of_expect_done (hcount : 0 < p.count) (hsize : 0 < p.size)
    (h : p.expect s = .done total s') {i : Nat} (hi : HasWeight s.components i) :
    HasWeight s'.components i := by
  have hlabels : ∀ label ∈ List.replicate p.size 0, label < p.count := by
    intro label hlabel
    rwa [List.eq_of_mem_replicate hlabel]
  obtain ⟨support, hhosts, -⟩ := exists_hosts hsize List.length_replicate hlabels
  have hkept := expect_tracks (tracks_hasWeight hhosts) s i hi
  rwa [h] at hkept

section Explained

variable (hlength : s.components.length = p.count) (h : p.expect s = .done total s')
  (hlive : ∃ i, HasWeight s'.components i)

include hlength h hlive

/-- Some component has a positive density at every point. -/
theorem exists_term (x : Point ℝ) :
    ∃ v, .of v ∈ s'.components.map (Mixture.term p.kernel p.dim x) := by
  obtain ⟨factors, hexplains⟩ := expect_done h
  obtain ⟨i, c, hc, hweight⟩ := hlive
  obtain ⟨f, hf⟩ := hexplains.exists_factor hlength hc hweight
  have hterm : Mixture.term p.kernel p.dim x c =
      .of (Scalar.ln c.weight + p.kernel.logDensity f c.mean x) := by
    rw [Mixture.term, if_neg hweight, hf]
  exact ⟨_, List.mem_map.mpr ⟨c, List.mem_of_getElem? hc, hterm⟩⟩

theorem densityAt_pos (x : Point ℝ) : 0 < Mixture.densityAt p.kernel p.dim s'.components x := by
  obtain ⟨v, hv⟩ := exists_term hlength h hlive x
  exact LogMass.sum_mass_pos hv

/-- Evaluation gives every sample the same log-density. -/
theorem logDensityWith_eq (hdim : Mixture.dim ⟨s'.components⟩ = p.dim) {x : Point ℝ}
    (hx : x.length = p.dim) :
    Mixture.logDensityWith p.kernel ⟨s'.components⟩ x =
      .ok (.of (Real.log (Mixture.densityAt p.kernel p.dim s'.components x))) := by
  obtain ⟨v, hv⟩ := exists_term hlength h hlive x
  rw [Mixture.logDensityWith, hdim, if_pos hx, LogMass.sum_eq_log hv]
  rfl

variable (hcount : 0 < p.count) (hsize : 0 < p.size)

include hcount hsize

/-- What an expectation step finds, in terms of the components that it leaves behind. -/
theorem explain_eq {factors : List (Option F)} (hexplains : p.Explains s total s' factors)
    (x : Point ℝ) :
    p.explain s'.components factors x =
      ((Mixture.massesAt p.kernel p.dim s'.components x).map
          (· / Mixture.densityAt p.kernel p.dim s'.components x),
        some (Real.log (Mixture.densityAt p.kernel p.dim s'.components x))) := by
  have hterms : p.logTerms s'.components factors x =
      s'.components.map (Mixture.term p.kernel p.dim x) :=
    logTerms_eq_map_term (hexplains.factorCount.trans (hexplains.length_eq.trans hlength).symm)
      (fun i f hf => hasWeight_of_expect_done hcount hsize h (hexplains.hasWeight i f hf))
      hexplains.finds x
  obtain ⟨v, hv⟩ := exists_term hlength h hlive x
  have hsum : LogMass.sum (s'.components.map (Mixture.term p.kernel p.dim x)) =
      .of (Real.log (Mixture.densityAt p.kernel p.dim s'.components x)) := LogMass.sum_eq_log hv
  have hpos := densityAt_pos hlength h hlive x
  have hshares : LogMass.massAbove (Real.log (Mixture.densityAt p.kernel p.dim s'.components x)) =
      fun term => term.mass / Mixture.densityAt p.kernel p.dim s'.components x := by
    funext term
    rw [LogMass.massAbove_eq, Real.exp_log hpos]
  rw [explain, hterms, hsum, Mixture.massesAt, List.map_map]
  simp only [LogMass.finite?, Exact.isFinite_eq, if_true, hshares]
  rfl

/-- **The log-likelihood** of an expectation step is the sum of the log-densities of the samples. -/
theorem total_eq_sum_log :
    total = (p.points.map fun x =>
      Real.log (Mixture.densityAt p.kernel p.dim s'.components x)).sum := by
  obtain ⟨factors, hexplains⟩ := expect_done h
  rw [hexplains.total_eq]
  simp only [explain_eq hlength h hlive hcount hsize hexplains]
  rw [List.filterMap_eq_map', ← List.sum_eq_foldl]

/-- **The responsibilities** for a sample are the shares of the components in its density. -/
theorem responsibilities_eq_shares :
    s'.responsibilities = p.points.map fun x =>
      (Mixture.massesAt p.kernel p.dim s'.components x).map
        (· / Mixture.densityAt p.kernel p.dim s'.components x) := by
  obtain ⟨factors, hexplains⟩ := expect_done h
  rw [hexplains.responsibilities_eq]
  simp only [explain_eq hlength h hlive hcount hsize hexplains]

theorem column_eq_share (i : Nat) :
    column s'.responsibilities i = p.points.map (p.share s'.components i) := by
  rw [responsibilities_eq_shares hlength h hlive hcount hsize, column, List.map_map]
  exact List.map_congr_left fun x _ => Exact.getD_map_div _ _ i

end Explained

end Em.Problem

end Mixtures
