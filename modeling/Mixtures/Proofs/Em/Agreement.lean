import Mathlib
import Mixtures.Proofs.Em.Course
import Mixtures.Proofs.Em.Shares
import Mixtures.Proofs.Pipeline.Training
import Mixtures.Sampler

/-!
# Training and evaluation agree

A density is computed in two places. The expectation step factors the covariances of a group with
jitter and resets, and adds up the log-likelihood with the factors; the evaluation of a mixture
factors the stored covariances anew, as they are. The two give the same numbers, rounding included:
the covariance that is stored is the one that was factored, and the components that have a factor
are those with weight.

* `expect_evaluable`, `expect_hasLogLikelihood`: an expectation step against evaluation.
* `training_agrees_with_evaluation`: also for the groups of a run that have converged, and for
  drawing samples from their mixtures.
-/

namespace Mixtures

variable {α F : Type} [Scalar α]

/-! ## Mixtures as they are stored -/

theorem Cholesky.isFinite_of_factor {dim : Nat} {a : List α} {f : Cholesky α}
    (h : Cholesky.factor dim a = some f) : ∀ v ∈ a, Scalar.isFinite v := by
  unfold factor at h
  split at h
  next hfinite =>
    rw [Bool.and_eq_true, List.all_eq_true] at hfinite
    exact hfinite.2
  next => cases h

namespace Mixture

/-- Every component with weight is stored with a finite covariance that can be factored as it is. -/
def Evaluable (dim : Nat) (m : Mixture α) : Prop :=
  ∀ c ∈ m.components, ¬c.weight ≤ 0 →
    (∃ f, Cholesky.factor dim c.covariance = some f) ∧ ∀ v ∈ c.covariance, Scalar.isFinite v

/-- A number is the log-likelihood of points: they all have a log-density, and the finite ones are
added up in the order of the points. -/
def HasLogLikelihood (m : Mixture α) (points : List (Point α)) (total : α) : Prop :=
  ∃ values : List (LogMass α), points.map m.logDensity = values.map .ok ∧
    total = (values.filterMap LogMass.finite?).foldl (· + ·) 0

omit [Scalar α] in
/-- A mixture of components of one dimension has that dimension. -/
theorem dim_of_hasShape {size dim : Nat} {m : Mixture α} (h : m.HasShape size dim)
    (hsize : size ≠ 0) : m.dim = dim := by
  have hpos : 0 < m.components.length := h.1.symm.subst (Nat.pos_of_ne_zero hsize)
  obtain ⟨c, cs, hcs⟩ := List.exists_cons_of_length_pos hpos
  simp only [Mixture.dim, hcs]
  exact (h.2 c (hcs ▸ List.mem_cons_self)).1

/-- A component that can be factored has a term in every density. -/
theorem Evaluable.term_ne_zero {dim : Nat} {m : Mixture α} (h : m.Evaluable dim)
    {c : Component α} (hc : c ∈ m.components) (hlive : ¬c.weight ≤ 0) (x : Point α) :
    term .gaussian dim x c ≠ .zero := by
  obtain ⟨⟨f, hf⟩, -⟩ := h c hc hlive
  have hfactor : DensityKernel.gaussian.factor dim c.covariance = some f := hf
  rw [term, if_neg hlive, hfactor]
  nofun

/-- The sampler adds no jitter to a covariance that can be factored. -/
theorem Evaluable.factorWithJitter_eq {dim : Nat} {m : Mixture α} (h : m.Evaluable dim)
    {c : Component α} (hc : c ∈ m.components) (hlive : ¬c.weight ≤ 0) (floor : α) :
    factorWithJitter (Cholesky.factor dim) dim floor c.covariance =
      (Cholesky.factor dim c.covariance, c.covariance) := by
  obtain ⟨⟨f, hf⟩, -⟩ := h c hc hlive
  rw [factorWithJitter, hf]

/-- The sampler finds the factors of all components with weight. -/
theorem Evaluable.factors_eq {dim : Nat} {components : List (Component α)}
    (h : Evaluable dim ⟨components⟩) :
    PreparedGroup.factors dim components =
      some (components.map fun c =>
        if c.weight ≤ 0 then none else Cholesky.factor dim c.covariance) := by
  induction components with
  | nil => rfl
  | cons c cs ih =>
    have hrest : Evaluable dim ⟨cs⟩ := fun c' hc' => h c' (List.mem_cons_of_mem c hc')
    rw [PreparedGroup.factors, ih hrest, List.map_cons]
    by_cases hdead : c.weight ≤ 0
    · rw [if_pos hdead, if_pos hdead]
      rfl
    · obtain ⟨⟨f, hf⟩, -⟩ := h c List.mem_cons_self hdead
      rw [if_neg hdead, if_neg hdead, h.factorWithJitter_eq List.mem_cons_self hdead, hf]
      rfl

end Mixture

namespace Em.Problem

variable {p : Problem α F}

/-! ## An expectation step -/

/-- With the factors of the components that have weight, the terms are those of evaluation. -/
theorem logTerms_eq_map_term {components : List (Component α)} {factors : List (Option F)}
    (hlength : factors.length = components.length)
    (hlive : ∀ i f, factors[i]? = some (some f) → HasWeight components i)
    (hfinds : ∀ i f, factors[i]? = some f → p.Finds components i f) (x : Point α) :
    p.logTerms components factors x = components.map (Mixture.term p.kernel p.dim x) := by
  refine List.ext_getElem? fun i => ?_
  rw [logTerms, List.getElem?_zipWith, List.getElem?_map]
  cases hc : components[i]? with
  | none => rfl
  | some c =>
    have hi : i < factors.length := hlength ▸ (List.getElem?_eq_some_iff.mp hc).1
    have hf := List.getElem?_eq_getElem hi
    rw [hf]
    cases hfactor : factors[i] with
    | none =>
      rw [hfactor] at hf
      have hdead : c.weight ≤ 0 := by
        by_contra hlive
        exact hfinds i none hf ⟨c, hc, hlive⟩
      simp only [Option.map_some, Mixture.term, if_pos hdead]
    | some f =>
      rw [hfactor] at hf
      obtain ⟨c', hc', hweight⟩ := hlive i f hf
      cases hc.symm.trans hc'
      simp only [Option.map_some, Mixture.term, if_neg hweight, hfinds i (some f) hf c hc, logTerm]

theorem explain_snd (p : Problem α F) (components : List (Component α)) (factors : List (Option F))
    (x : Point α) :
    (p.explain components factors x).2 =
      (LogMass.sum (p.logTerms components factors x)).finite? := by
  unfold explain
  dsimp only
  split
  next norm hnorm => rw [hnorm]
  next hnone => rw [hnone]

variable {p : Problem α (Cholesky α)}

/-- After an expectation step, every component with weight can be factored as it is stored. -/
theorem expect_evaluable [Scalar.Lawful α] (hkernel : p.kernel = .gaussian) {s s' : State α}
    {total : α}
    (hcount : s.components.length = p.count) (h : p.expect s = .done total s') :
    Mixture.Evaluable p.dim ⟨s'.components⟩ := by
  obtain ⟨factors, hexplains⟩ := expect_done h
  intro c hc hlive
  obtain ⟨i, hi⟩ := List.mem_iff_getElem?.mp hc
  obtain ⟨f, hfactor⟩ := hexplains.exists_factor hcount hi hlive
  rw [hkernel] at hfactor
  exact ⟨⟨f, hfactor⟩, Cholesky.isFinite_of_factor hfactor⟩

/-- The log-likelihood of an expectation step is that of evaluation, as long as no component loses
its weight to underflow. -/
theorem expect_hasLogLikelihood [Scalar.Lawful α] (hkernel : p.kernel = .gaussian)
    (hcount : p.count ≠ 0) (hpoints : ∀ x ∈ p.points, x.length = p.dim) {s s' : State α} {total : α}
    (hgood : p.Good (Component.HasShape p.dim) s'.components)
    (hkeeps : ∀ i, HasWeight s.components i → HasWeight s'.components i)
    (h : p.expect s = .done total s') :
    Mixture.HasLogLikelihood ⟨s'.components⟩ p.points total := by
  obtain ⟨factors, hexplains⟩ := expect_done h
  have hdim : (⟨s'.components⟩ : Mixture α).dim = p.dim := Mixture.dim_of_hasShape hgood hcount
  refine ⟨p.points.map fun x => LogMass.sum (p.logTerms s'.components factors x), ?_, ?_⟩
  · rw [List.map_map]
    refine List.map_congr_left fun x hx => ?_
    have hterms := logTerms_eq_map_term (hexplains.factorCount.trans hgood.1.symm)
      (fun i f hf => hkeeps i (hexplains.hasWeight i f hf)) hexplains.finds x
    rw [Mixture.logDensity, Mixture.logDensityWith, hdim, if_pos (hpoints x hx),
      Function.comp_apply, hterms, hkernel]
  · rw [hexplains.total_eq, List.filterMap_map]
    simp only [explain_snd]
    rfl

/-! ## Training that converges -/

/-- In no expectation step of the training from these labels does a component lose its weight:
dividing a positive weight by the sum of the weights does not give zero. -/
def KeepsWeight (p : Problem α F) (labels : List Nat) : Prop :=
  ∀ {trace : List α} {valid : Option (List (Component α))} {s s' : State α} {total : α},
    p.Reaches (p.initialState (labels.map (oneHot p.count))) trace valid s →
    p.expect s = .done total s' → ∀ i, HasWeight s.components i → HasWeight s'.components i

/-- The mixture of a group that has converged can be evaluated as it is stored, and its last
log-likelihood is that of evaluation. -/
theorem train_agrees [Scalar.Lawful α] (hkernel : p.kernel = .gaussian) (hcount : p.count ≠ 0)
    (hpoints : ∀ x ∈ p.points, x.length = p.dim) {labels : List Nat}
    (hlabels : labels.length = p.size) (hstatus : (p.train labels).report.status = .converged) :
    (p.train labels).mixture.Evaluable p.dim ∧
      (p.KeepsWeight labels → ∃ total, (p.train labels).report.final? = some total ∧
        (p.train labels).mixture.HasLogLikelihood p.points total) := by
  unfold train at hstatus ⊢
  split at hstatus
  · cases hstatus
  next hempty =>
    have hne : p.points ≠ [] := by simpa using hempty
    rw [if_neg hempty]
    obtain ⟨trace, valid, s, explained, total, hreaches, hexpect, hlast, hcomponents⟩ :=
      (ending_ends p _).exists_settled hstatus
    have hstart := initialState_holds (keeps_hasShape hpoints) hlabels
    have hbefore := reaches_holds (keeps_hasShape hpoints) hne hstart hreaches
    have hafter := expect_holds (keeps_hasShape hpoints) hne hbefore
    rw [hexpect] at hafter
    simp only [hcomponents, Diagnostics.final?, report, hlast]
    refine ⟨expect_evaluable hkernel hbefore.good.1 hexpect, fun hkeeps => ⟨total, rfl, ?_⟩⟩
    exact expect_hasLogLikelihood hkernel hcount hpoints hafter.good
      (hkeeps hreaches hexpect) hexpect

/-- Exact numbers do not underflow. -/
theorem keepsWeight_of_hosts {p : Problem ℝ F} {support : Finset Nat} (h : p.Hosts support)
    (labels : List Nat) : p.KeepsWeight labels := by
  intro trace valid s s' total _ hexpect i hi
  have hkept := expect_tracks (tracks_hasWeight h) s i hi
  rwa [hexpect] at hkept

end Em.Problem

namespace Em

/-! ## Runs -/

/-- **Training and evaluation agree**, in any arithmetic that keeps the order and the sign of
quotients, so that of doubles and of exact numbers.

* After an expectation step, every component with weight has a finite covariance that can be
  factored as it is stored. If no component has lost its weight to underflow in the step, its
  log-likelihood is the sum of the finite log-densities of the samples, in their order.
* So for every group of a run that has converged: every component with weight has a term in every
  density of its mixture, the sampler factors its covariance without jitter, and the last
  log-likelihood is that of evaluation, unless a component lost its weight to underflow. -/
theorem training_agrees_with_evaluation [Scalar.Lawful α] :
    (∀ (p : Problem α (Cholesky α)) (s s' : State α) (total : α),
      p.kernel = .gaussian → p.count ≠ 0 → p.points ≠ [] → (∀ x ∈ p.points, x.length = p.dim) →
      p.Holds (Component.HasShape p.dim) (fun _ => True) s → p.expect s = .done total s' →
      Mixture.Evaluable p.dim ⟨s'.components⟩ ∧
        ((∀ i, HasWeight s.components i → HasWeight s'.components i) →
          Mixture.HasLogLikelihood ⟨s'.components⟩ p.points total)) ∧
    (∀ (s : Settings α) (samples : List (Point α)) (ids : List Nat) (groupCount : Nat)
      (t : Training α), s.Yields .gaussian samples ids groupCount t →
      ∀ group m r, t.Gives group m r → r.status = .converged →
        m.Evaluable t.models.dim ∧
        (∀ c ∈ m.components, ¬c.weight ≤ 0 →
          (∀ x, Mixture.term .gaussian m.dim x c ≠ .zero) ∧
          factorWithJitter (Cholesky.factor t.models.dim) t.models.dim Scalar.epsilon c.covariance =
            (Cholesky.factor t.models.dim c.covariance, c.covariance)) ∧
        PreparedGroup.factors t.models.dim m.components =
          some (m.components.map fun c =>
            if c.weight ≤ 0 then none else Cholesky.factor t.models.dim c.covariance) ∧
        (∃ own, (s.groupProblem .gaussian samples ids t.models.dim group).TrainsTo own m r) ∧
        ∀ own, (s.groupProblem .gaussian samples ids t.models.dim group).TrainsTo own m r →
          (s.groupProblem .gaussian samples ids t.models.dim group).KeepsWeight own →
          ∃ total, r.final? = some total ∧
            m.HasLogLikelihood (Layout.owned group ids samples) total) := by
  constructor
  · intro p s s' total hkernel hcount hne hpoints hs hexpect
    have hafter := Problem.expect_holds (Problem.keeps_hasShape hpoints) hne hs
    rw [hexpect] at hafter
    exact ⟨Problem.expect_evaluable hkernel hs.good.1 hexpect, fun hkeeps =>
      Problem.expect_hasLogLikelihood hkernel hcount hpoints hafter.good hkeeps hexpect⟩
  · intro s samples ids groupCount t h group m r hgives hstatus
    have hcount : s.componentCount ≠ 0 := (Settings.validate_eq_ok_iff.mp h.validate).1
    have hpoints : ∀ x ∈ (s.groupProblem .gaussian samples ids t.models.dim group).points,
        x.length = t.models.dim :=
      Settings.length_eq_of_mem_groupProblem h.fittable group
    have hagrees (own : List Nat)
        (hown : (s.groupProblem .gaussian samples ids t.models.dim group).TrainsTo own m r) :
        m.Evaluable t.models.dim ∧
          ((s.groupProblem .gaussian samples ids t.models.dim group).KeepsWeight own →
            ∃ total, r.final? = some total ∧
              m.HasLogLikelihood (Layout.owned group ids samples) total) := by
      obtain ⟨hlength, -, rfl, rfl⟩ := hown
      exact Problem.train_agrees (p := s.groupProblem .gaussian samples ids t.models.dim group) rfl
        hcount hpoints hlength hstatus
    obtain ⟨own, hown⟩ := h.exists_labels hgives
    have hevaluable := (hagrees own hown).1
    have hdim : m.dim = t.models.dim := by
      rw [hown.mixture_eq]
      exact Mixture.dim_of_hasShape (Problem.train_hasShape hpoints hown.length_eq) hcount
    refine ⟨hevaluable, fun c hc hlive => ⟨fun x => ?_, ?_⟩, hevaluable.factors_eq, ⟨own, hown⟩,
      fun own hown => (hagrees own hown).2⟩
    · rw [hdim]
      exact hevaluable.term_ne_zero hc hlive x
    · exact hevaluable.factorWithJitter_eq hc hlive _

/-! ## One component on one sample -/

section OnePoint

open Problem

/-- One component, at most two iterations, and a floor of one. -/
def Settings.unitFloor (α : Type) [Scalar α] : Settings α :=
  { Settings.ofCount 1 with maxIterations := 2, floor := 1 }

/-- One sample, at zero. -/
def onePoint (α : Type) [Scalar α] : Problem α (Cholesky α) :=
  { settings := Settings.unitFloor α, points := [[0]], dim := 1, kernel := .gaussian }

/-- The standard normal distribution. -/
def standardNormal (α : Type) [Scalar α] : Component α :=
  { weight := 1, mean := [0], covariance := [1] }

/-- The state in which the sample belongs to the standard normal distribution. -/
def standardState (history : List (GroupEvent α)) : State α :=
  { components := [standardNormal α], responsibilities := [[1]], resets := 0, history }

/-- In doubles, a step from the standard normal distribution is completed and leaves it as it is,
whatever the logarithm of the machine. -/
theorem expect_onePoint_double : ∃ total s', (onePoint Float).expect (standardState []) =
    .done total s' ∧ s'.components = [standardNormal Float] := by
  have hmiddle : ((onePoint Float).factorAll (List.range 1) (standardState [])).state.components =
      [standardNormal Float] := by
    decide +kernel
  cases hexpect : (onePoint Float).expect (standardState []) with
  | gaveUp s' =>
    have hdone : (match (onePoint Float).expect (standardState []) with
        | .done _ _ => true
        | .gaveUp _ => false) = true := by
      decide +kernel
    rw [hexpect] at hdone
    cases hdone
  | done total s' =>
    have hcomponents := components_expect (onePoint Float) (standardState [])
    rw [hexpect] at hcomponents
    exact ⟨total, s', rfl, hcomponents.trans hmiddle⟩

/-- The log-density of the sample. -/
noncomputable def onePointLogDensity : ℝ :=
  (onePoint ℝ).logTerm [0] (standardNormal ℝ) { columns := [[1]], logDet := 0 }

theorem factor_standardNormal :
    Cholesky.factor 1 (standardNormal ℝ).covariance = some { columns := [[1]], logDet := 0 } := by
  norm_num [standardNormal, Cholesky.factor, lowerTriangle, eliminate, Square.entry,
    Square.position, reduceTriangle, Cholesky.diagonalOf, List.range_succ, List.range'_succ]

theorem maximize_onePoint (c : Component ℝ) (history : List (GroupEvent ℝ)) :
    (onePoint ℝ).maximize { components := [c], responsibilities := [[1]], resets := 0, history } =
      .done () (standardState history) := by
  norm_num [maximize, estimates, collapsed, estimate, column, oneHot, Problem.count, Problem.size,
    onePoint, Settings.unitFloor, Settings.ofCount, collapseBound, List.range_succ, Outcome.andThen,
    resetAll, normalizeWeights, weightedMean, weightedCovariance, Square.tabulate, weightedProduct,
    weighted, standardNormal, standardState]

theorem expect_onePoint (history : List (GroupEvent ℝ)) :
    (onePoint ℝ).expect (standardState history) =
      .done onePointLogDensity (standardState history) := by
  have hfactors : (onePoint ℝ).factorAll (List.range (onePoint ℝ).count) (standardState history) =
      .done [some { columns := [[1]], logDet := 0 }] (standardState history) := by
    have hrange : List.range (onePoint ℝ).count = [0] := rfl
    have hlive : ¬(standardNormal ℝ).weight ≤ 0 := not_le.mpr one_pos
    have hprepare : (onePoint ℝ).prepare (standardNormal ℝ).covariance =
        (some { columns := [[1]], logDet := 0 }, (standardNormal ℝ).covariance) := by
      have hfactor : (onePoint ℝ).kernel.factor (onePoint ℝ).dim (standardNormal ℝ).covariance =
          some { columns := [[1]], logDet := 0 } := factor_standardNormal
      rw [prepare, factorWithJitter, hfactor]
    simp [hrange, factorAll, factorAt, prepareAt, hlive, setCovariance, standardState,
      Outcome.andThen, hprepare]
  rw [expect, hfactors]
  simp [Outcome.andThen, distribute, explain, logTerms, onePoint, standardState,
    LogMass.sum_singleton, LogMass.finite?, LogMass.massAbove, onePointLogDensity]

theorem status_onePoint : ((onePoint ℝ).train [0]).report.status = .converged := by
  have hstart : (onePoint ℝ).initialState ([0].map (oneHot (onePoint ℝ).count)) =
      { components := [Component.placeholder 1 1], responsibilities := [[1]], resets := 0
        history := [] } := by
    simp [initialState, oneHot, onePoint, Problem.count, Settings.unitFloor, Settings.ofCount]
  have hbefore : (onePoint ℝ).hasSettled none onePointLogDensity = false := rfl
  have hsettled : (onePoint ℝ).hasSettled (some onePointLogDensity) onePointLogDensity = true := by
    simp [hasSettled, relativeChange, Scalar.abs, onePoint, Settings.unitFloor, Settings.ofCount]
  -- the second expectation step finds the same log-likelihood as the first
  have hsecond (valid : Option (List (Component ℝ))) (history : List (GroupEvent ℝ)) :
      ((onePoint ℝ).iterate 1 1 (some onePointLogDensity) valid (standardState history)).status =
        .converged := by
    rw [iterate, expect_onePoint]
    dsimp only
    rw [if_pos hsettled]
  have hfirst : ((onePoint ℝ).iterate 2 0 none none (standardState [])).status = .converged := by
    rw [iterate, expect_onePoint]
    dsimp only
    rw [hbefore, if_neg Bool.false_ne_true, State.record, standardState, maximize_onePoint]
    exact hsecond _ _
  have hpoints : ¬(onePoint ℝ).points.isEmpty := Bool.false_ne_true
  rw [Problem.train, if_neg hpoints]
  show ((onePoint ℝ).ending _).status = _
  rw [hstart, ending, maximize_onePoint]
  exact hfirst

theorem fittable_onePoint : Fittable ([[0]] : List (Point ℝ)) [0] 1 1 where
  aligned := rfl
  nonempty := List.cons_ne_nil _ _
  dim_pos := Nat.one_pos
  length_eq := by simp
  finite := by simp
  id_lt := by simp
  sorted := by simp

/-- A step in doubles from the standard normal distribution, and an exact run that converges
to it. -/
theorem training_agrees_with_evaluation_onePoint :
    (∃ total s', (onePoint Float).expect (standardState []) = .done total s' ∧
      Mixture.Evaluable 1 ⟨s'.components⟩ ∧
      Mixture.HasLogLikelihood ⟨s'.components⟩ [[0]] total) ∧
    ∃ t m r total, (Settings.unitFloor ℝ).Yields .gaussian [[0]] [0] 1 t ∧ t.Gives 0 m r ∧
      r.status = .converged ∧ r.final? = some total ∧ m.HasLogLikelihood [[0]] total := by
  constructor
  · obtain ⟨hstep, -⟩ := training_agrees_with_evaluation (α := Float)
    obtain ⟨total, s', hexpect, hcomponents⟩ := expect_onePoint_double
    have hpoints : ∀ x ∈ (onePoint Float).points, x.length = (onePoint Float).dim := by
      simp [onePoint]
    have hstate : (onePoint Float).Holds (Component.HasShape (onePoint Float).dim) (fun _ => True)
        (standardState []) :=
      ⟨⟨rfl, by simp [standardState, standardNormal, Component.HasShape, onePoint]⟩, rfl,
        fun _ _ => trivial⟩
    obtain ⟨hevaluable, hlogLikelihood⟩ := hstep (onePoint Float) _ s' total rfl one_ne_zero
      (List.cons_ne_nil _ _) hpoints hstate hexpect
    refine ⟨total, s', hexpect, hevaluable, hlogLikelihood fun i hi => ?_⟩
    rw [hcomponents]
    exact hi
  · obtain ⟨-, hrun⟩ := training_agrees_with_evaluation (α := ℝ)
    have hvalid : (Settings.unitFloor ℝ).validate = .ok () := by
      simp [Settings.validate_eq_ok_iff, Settings.isFiniteNonNegative, Settings.unitFloor,
        Settings.ofCount]
    have hstart : (Settings.unitFloor ℝ).startLabels 1 (some [0]) = .ok (some [0]) := rfl
    obtain ⟨t, ht, hcollects⟩ :=
      Settings.train_outcome fittable_onePoint .gaussian 0 .sequential hstart hvalid
    have hgives := (Settings.gives_iff hcollects).mpr ⟨Nat.one_pos, rfl, rfl⟩
    obtain ⟨-, -, -, ⟨own, hown⟩, hagrees⟩ :=
      hrun _ _ _ _ t (.train ht) 0 _ _ hgives status_onePoint
    have hhosts : ((Settings.unitFloor ℝ).groupProblem DensityKernel.gaussian [[0]] [0] t.models.dim
        0).Hosts {0} :=
      ⟨Finset.singleton_subset_iff.mpr (Finset.mem_range.mpr Nat.one_pos),
        Finset.singleton_nonempty 0, le_rfl, fun _ => rfl⟩
    obtain ⟨total, hfinal, htotal⟩ := hagrees own hown (keepsWeight_of_hosts hhosts own)
    exact ⟨t, _, _, total, .train ht, hgives, status_onePoint, hfinal, htotal⟩

end OnePoint

end Em

end Mixtures
