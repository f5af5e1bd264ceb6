import Mathlib
import Mixtures.Proofs.Em.Likelihood
import Mixtures.Proofs.Linear.Factor

/-!
# Giving up

A step that fails has changed components before it fails: some have new estimates, some have been
moved, some covariances have been repaired. None of this is seen in the result. A group that is
given up after an expectation step gets the components that the last completed one has left behind,
with their weights divided by the sum once more. In exact arithmetic this division changes nothing,
so the last log-likelihood of the trace is that of the mixture.

* `train_failsAfter`: which components are returned, in any arithmetic.
* `train_hasLogDensities`: the log-densities of the samples under them, in exact arithmetic.
* `giving_up_restores`: both for the groups of a run.
-/

namespace Mixtures.Em

/-! ## What is returned -/

section Returned

variable {α F : Type} [Scalar α]

@[simp] theorem map_mean_normalizeWeights (components : List (Component α)) :
    (normalizeWeights components).map (·.mean) = components.map (·.mean) := by
  unfold normalizeWeights
  dsimp only
  split
  · rw [List.map_map]
    rfl
  · rfl

@[simp] theorem map_covariance_normalizeWeights (components : List (Component α)) :
    (normalizeWeights components).map (·.covariance) = components.map (·.covariance) := by
  unfold normalizeWeights
  dsimp only
  split
  · rw [List.map_map]
    rfl
  · rfl

namespace Problem

variable {p : Problem α F}

/-- Training from these labels comes to an expectation step that finds the last log-likelihood of
the report and leaves these components behind, and after it to a step that gives up. -/
inductive FailsAfter (p : Problem α F) (labels : List Nat) (r : Diagnostics α)
    (components : List (Component α)) : Prop
  | intro {trace : List α} {valid : Option (List (Component α))} {s explained : State α}
      {total : α} :
      p.Reaches (p.initialState (labels.map (oneHot p.count))) trace valid s →
      p.expect s = .done total explained → explained.components = components →
      r.trace = trace ++ [total] → p.Fails (explained.record (.iteration trace.length total)) →
      FailsAfter p labels r components

/-- A group that is given up after an expectation step gets the components that the last one has
left behind, with their weights divided by the sum once more. -/
theorem train_failsAfter {labels : List Nat}
    (hstatus : (p.train labels).report.status = .degenerate)
    (htrace : (p.train labels).report.trace ≠ []) :
    ∃ components, p.FailsAfter labels (p.train labels).report components ∧
      (p.train labels).mixture.components = normalizeWeights components := by
  unfold train at hstatus htrace ⊢
  split at hstatus
  · cases hstatus
  next hempty =>
    rw [if_neg hempty] at htrace ⊢
    -- Here the status of the group is that of its iterations.
    have hgaveUp : (p.ending (p.initialState (labels.map (oneHot p.count)))).status =
        .degenerate := hstatus
    obtain ⟨trace, valid, s, explained, total, hreaches, hexpect, hlast, hvalid, hfails⟩ :=
      (ending_ends p _).exists_failed hgaveUp htrace
    refine ⟨explained.components, .intro hreaches hexpect rfl hlast hfails, ?_⟩
    show Ending.components _ = _
    rw [Ending.components, if_pos hgaveUp, hvalid, Option.getD_some]

end Problem

end Returned

/-! ## In exact arithmetic -/

variable {F : Type}

namespace Problem

variable {p : Problem ℝ F}

/-- A maximization step that has lost a component gives up once no further reset is allowed. -/
theorem exists_maximize_gaveUp {s : State ℝ} (henough : p.count ≤ p.size)
    (hspent : p.settings.maxResets ≤ s.resets)
    (hlost : collapsed (p.estimates s.responsibilities) ≠ []) :
    ∃ failed, p.maximize s = .gaveUp failed := by
  obtain ⟨first, rest, hcons⟩ := List.exists_cons_of_ne_nil hlost
  have hrefused : p.reset first { s with components := p.estimated s } =
      .gaveUp { s with components := p.estimated s, resets := s.resets + 1 } := by
    unfold reset
    dsimp only
    rw [if_pos (Nat.lt_succ_of_le hspent)]
  exact ⟨_, by rw [maximize_eq, recover, if_pos henough, hcons, resetAll, hrefused,
    Outcome.andThen, Outcome.andThen]⟩

/-- The components that are returned give the samples the log-densities of the last expectation
step. -/
theorem train_hasLogDensities (hcount : 0 < p.count) (hpoints : ∀ x ∈ p.points, x.length = p.dim)
    {labels : List Nat} (hlength : labels.length = p.size) (hlt : ∀ label ∈ labels, label < p.count)
    (hstatus : (p.train labels).report.status = .degenerate)
    (htrace : (p.train labels).report.trace ≠ []) :
    ∃ values : List ℝ,
      p.points.map ((p.train labels).mixture.logDensityWith p.kernel) =
          values.map (fun v => .ok (.of v)) ∧
        (p.train labels).report.trace.getLast? = some values.sum := by
  have hsize : 0 < p.size := by
    refine List.length_pos_of_ne_nil fun hnil => ?_
    rw [train, hnil] at hstatus
    cases hstatus
  have hne : p.points ≠ [] := List.ne_nil_of_length_pos hsize
  obtain ⟨_, hfails, hmixture⟩ := train_failsAfter hstatus htrace
  obtain @⟨trace, _, s, explained, total, hreaches, hexpect, rfl, hlast, -⟩ := hfails
  obtain ⟨support, hhosts, hmem⟩ := exists_hosts hsize hlength hlt
  have hbefore :=
    (reaches_balanced hhosts (initialState_estimable hhosts hlength hmem) hreaches).1
  have hafter := expect_balanced hhosts hbefore
  rw [hexpect] at hafter
  obtain ⟨i, hi⟩ := hafter.isShare.exists_pos
  have hlive : ∃ i, HasWeight explained.components i := ⟨i, hasWeight_iff.mpr hi⟩
  have hstart := initialState_holds (keeps_hasShape hpoints) hlength
  have hshape := reaches_holds (keeps_hasShape hpoints) hne hstart hreaches
  have hexplained := expect_holds (keeps_hasShape hpoints) hne hshape
  rw [hexpect] at hexplained
  have hdim : Mixture.dim ⟨explained.components⟩ = p.dim :=
    Mixture.dim_of_hasShape hexplained.good hcount.ne'
  have hreturned : (p.train labels).mixture = ⟨explained.components⟩ :=
    congrArg Mixture.mk (hmixture.trans (normalizeWeights_of_sum_eq hafter.isShare.sum_eq))
  refine ⟨p.points.map fun x => Real.log (Mixture.densityAt p.kernel p.dim explained.components x),
    ?_, ?_⟩
  · rw [List.map_map, hreturned]
    exact List.map_congr_left fun x hx =>
      logDensityWith_eq hshape.good.1 hexpect hlive hdim (hpoints x hx)
  · rw [hlast, List.getLast?_concat, total_eq_sum_log hshape.good.1 hexpect hlive hcount hsize]

end Problem

namespace Settings

/-- **Giving up leaks nothing.** If a group of a run is given up after an expectation step, its
mixture has the means and the covariances of the components that the last completed expectation step
left behind, and their weights divided by the sum once more, in any arithmetic and for any
densities: what the step that failed has done to components is not seen. In exact arithmetic every
sample has a finite log-density under the mixture, and the last log-likelihood of the trace is their
sum. -/
theorem giving_up_restores :
    (∀ {α F : Type} [Scalar α] (s : Settings α) (kernel : DensityKernel α F)
      (samples : List (Point α)) (ids : List Nat) (groupCount : Nat) (t : Training α),
      s.Yields kernel samples ids groupCount t →
      ∀ group m r, t.Gives group m r → r.status = .degenerate → r.trace ≠ [] →
        ∃ own components,
          (s.groupProblem kernel samples ids t.models.dim group).TrainsTo own m r ∧
          (s.groupProblem kernel samples ids t.models.dim group).FailsAfter own r components ∧
          m.components.map (·.mean) = components.map (·.mean) ∧
          m.components.map (·.covariance) = components.map (·.covariance) ∧
          m.components = normalizeWeights components) ∧
    ∀ {F : Type} (s : Settings ℝ) (kernel : DensityKernel ℝ F) (samples : List (Point ℝ))
      (ids : List Nat) (groupCount : Nat) (t : Training ℝ),
      s.Yields kernel samples ids groupCount t →
      ∀ group m r, t.Gives group m r → r.status = .degenerate → r.trace ≠ [] →
        ∃ values : List ℝ,
          (Layout.owned group ids samples).map (m.logDensityWith kernel) =
              values.map (fun v => .ok (.of v)) ∧
            r.trace.getLast? = some values.sum := by
  constructor
  · intro α F _ s kernel samples ids groupCount t h group m r hgives hstatus htrace
    obtain ⟨own, hown⟩ := h.exists_labels hgives
    rw [hown.report_eq] at hstatus htrace
    obtain ⟨components, hfails, hcomponents⟩ := Problem.train_failsAfter hstatus htrace
    rw [← hown.report_eq] at hfails
    rw [← hown.mixture_eq] at hcomponents
    refine ⟨own, components, hown, hfails, ?_, ?_, hcomponents⟩
    · rw [hcomponents, map_mean_normalizeWeights]
    · rw [hcomponents, map_covariance_normalizeWeights]
  · intro F s kernel samples ids groupCount t h group m r hgives hstatus htrace
    obtain ⟨own, hlength, hlt, rfl, rfl⟩ := h.exists_labels hgives
    exact Problem.train_hasLogDensities (componentCount_pos h.validate)
      (length_eq_of_mem_groupProblem h.fittable group) hlength hlt hstatus htrace

/-- Three components, of which none may be reset, and next to no floor. -/
noncomputable def noReset : Settings ℝ :=
  { (ofCount 3 : Settings ℝ) with floor := 1 / 10 ^ 24, maxResets := 0 }

/-- Three samples each at two places. -/
def atTwoPlaces : List (Point ℝ) := [[-1], [-1], [-1], [1], [1], [1]]

/-- The problem of their only group. -/
noncomputable def placesProblem : Problem ℝ (Cholesky ℝ) :=
  noReset.groupProblem .gaussian atTwoPlaces [0, 0, 0, 0, 0, 0] 1 0

/-- A narrow component at each place, and a broad one between them. -/
noncomputable def narrowAndBroad : List (Component ℝ) :=
  [⟨1 / 3, [-1], [1 / 10 ^ 24]⟩, ⟨1 / 3, [0], [1 + 1 / 10 ^ 24]⟩, ⟨1 / 3, [1], [1 / 10 ^ 24]⟩]

/-- The state in which its training starts from labels that give each component two samples. -/
noncomputable def placesStart : State ℝ :=
  placesProblem.initialState ([0, 0, 1, 1, 2, 2].map (oneHot 3))

/-- The state in which the components have been estimated from these labels. -/
noncomputable def placesEstimated : State ℝ :=
  { placesStart with components := narrowAndBroad }

theorem estimates_placesProblem :
    placesProblem.estimates ([0, 0, 1, 1, 2, 2].map (oneHot 3)) = narrowAndBroad.map some := by
  have howned : Layout.owned 0 [0, 0, 0, 0, 0, 0] atTwoPlaces =
      [[-1], [-1], [-1], [1], [1], [1]] := rfl
  norm_num [Problem.estimates, Problem.estimate, column, oneHot, Problem.count, Problem.size,
    placesProblem, groupProblem, howned, noReset, ofCount, collapseBound, List.range_succ,
    narrowAndBroad, Problem.weighted, Problem.weightedMean, Problem.weightedCovariance,
    Problem.weightedProduct, Square.tabulate]

theorem maximize_placesProblem :
    placesProblem.maximize placesStart = .done () placesEstimated :=
  Problem.maximize_of_estimates rfl estimates_placesProblem
    (normalizeWeights_of_sum_eq (by norm_num [weightsOf, narrowAndBroad]))

/-- At the place of a narrow component next to nothing is left for the broad one. -/
theorem share_broad_le {i : Nat} {a : ℝ}
    (hi : narrowAndBroad[i]? = some ⟨1 / 3, [a], [1 / 10 ^ 24]⟩) :
    placesProblem.share narrowAndBroad 1 [a] ≤ 1 / 10 ^ 12 := by
  obtain ⟨f, hf⟩ := Cholesky.exists_factor_singleton (v := 1 / 10 ^ 24) (by positivity)
  obtain ⟨f', hf'⟩ := Cholesky.exists_factor_singleton (v := 1 + 1 / 10 ^ 24) (by positivity)
  have hnarrow : (Mixture.massesAt .gaussian 1 narrowAndBroad [a]).getD i 0 =
      Real.exp (Real.log (1 / 3) + f.logDensity [a] [a]) :=
    Mixture.getD_massesAt_of_factor hi (by norm_num) hf [a]
  have hmiddle : narrowAndBroad[1]? = some ⟨1 / 3, [0], [1 + 1 / 10 ^ 24]⟩ := rfl
  have hbroad : (Mixture.massesAt .gaussian 1 narrowAndBroad [a]).getD 1 0 =
      Real.exp (Real.log (1 / 3) + f'.logDensity [0] [a]) :=
    Mixture.getD_massesAt_of_factor hmiddle (by norm_num) hf' [a]
  have hdensity : (Mixture.massesAt .gaussian 1 narrowAndBroad [a]).getD i 0 ≤
      Mixture.densityAt .gaussian 1 narrowAndBroad [a] := by
    have hlt : i < (Mixture.massesAt .gaussian 1 narrowAndBroad [a]).length := by
      rw [Mixture.length_massesAt]
      exact (List.getElem?_eq_some_iff.mp hi).1
    exact List.single_le_sum (Mixture.nonNegative_massesAt _ _ _ _) _ (getD_mem hlt 0)
  have hpos : 0 < (Mixture.massesAt .gaussian 1 narrowAndBroad [a]).getD i 0 := by
    rw [hnarrow]
    exact Real.exp_pos _
  refine (div_le_iff₀ (hpos.trans_le hdensity)).mpr ?_
  refine le_trans ?_ (mul_le_mul_of_nonneg_left hdensity (by positivity))
  have hbound : (1 : ℝ) / 10 ^ 12 = Real.exp (1 / 2 * Real.log (1 / 10 ^ 24)) := by
    rw [show (1 / 10 ^ 24 : ℝ) = (1 / 10 ^ 12) ^ 2 by norm_num, Real.log_pow, Nat.cast_ofNat,
      ← mul_assoc, one_div_mul_cancel (two_ne_zero' ℝ), one_mul, Real.exp_log (by positivity)]
  show (Mixture.massesAt .gaussian 1 narrowAndBroad [a]).getD 1 0 ≤ _
  rw [hnarrow, hbroad, hbound, ← Real.exp_add, Real.exp_le_exp, Cholesky.logDensity_singleton hf,
    Cholesky.logDensity_singleton hf', sub_self, mul_zero, zero_div]
  have hdistance : 0 ≤ (a - 0) * (a - 0) / (1 + 1 / 10 ^ 24) :=
    div_nonneg (mul_self_nonneg _) (by positivity)
  have hspread : 0 ≤ Real.log (1 + 1 / 10 ^ 24) :=
    Real.log_nonneg (le_add_of_nonneg_right (by positivity))
  linarith only [hdistance, hspread]

/-- So the samples together leave it no more than a collapsed component has. -/
theorem sum_share_broad_le :
    (placesProblem.points.map (placesProblem.share narrowAndBroad 1)).sum ≤ collapseBound := by
  have hleft := share_broad_le (i := 0) (a := -1) rfl
  have hright := share_broad_le (i := 2) (a := 1) rfl
  have hpoints : placesProblem.points = atTwoPlaces := rfl
  have hsum : ((placesProblem.points.map (placesProblem.share narrowAndBroad 1)).sum : ℝ) =
      3 * placesProblem.share narrowAndBroad 1 [-1] +
        3 * placesProblem.share narrowAndBroad 1 [1] := by
    rw [hpoints, atTwoPlaces]
    simp only [List.map_cons, List.map_nil, List.sum_cons, List.sum_nil]
    ring
  rw [hsum, collapseBound, Exact.ofNat_eq]
  norm_num at hleft hright ⊢
  linarith only [hleft, hright]

/-- The broad component collapses, and as no reset is allowed, the group is given up. -/
theorem ending_placesProblem :
    ∃ total s, placesProblem.ending placesStart =
      { trace := [total], status := .degenerate, state := s, valid := some narrowAndBroad } := by
  have hfactors : placesProblem.Factors narrowAndBroad := by
    intro c hc _
    simp only [narrowAndBroad, List.mem_cons, List.not_mem_nil, or_false] at hc
    rcases hc with rfl | rfl | rfl <;> exact Cholesky.exists_factor_singleton (by positivity)
  obtain ⟨total, s, hexpect, hcomponents, hresets⟩ :=
    Problem.expect_of_factors (s := placesEstimated) hfactors
  have hlive : ∃ i, HasWeight s.components i := by
    rw [hcomponents]
    exact ⟨0, _, rfl, by norm_num⟩
  have hmass : (column s.responsibilities 1).sum ≤ collapseBound := by
    rw [Problem.column_eq_share rfl hexpect hlive (by decide) (by decide) 1, hcomponents]
    exact sum_share_broad_le
  have hlost : 1 ∈ Problem.collapsed (placesProblem.estimates s.responsibilities) := by
    rw [Problem.mem_collapsed, Problem.getElem?_estimates _ _ (by decide),
      Problem.estimate_of_le _ hmass]
  obtain ⟨failed, hfailed⟩ := Problem.exists_maximize_gaveUp (p := placesProblem)
    (s := s.record (.iteration 0 total)) (by decide) (Nat.zero_le s.resets)
    (List.ne_nil_of_mem hlost)
  refine ⟨total, failed, ?_⟩
  rw [Problem.ending, maximize_placesProblem]
  show placesProblem.iterate (99 + 1) 0 none none placesEstimated = _
  rw [Problem.iterate, hexpect]
  dsimp only
  rw [Problem.hasSettled, if_neg Bool.false_ne_true, hfailed, hcomponents]
  rfl

theorem fittable_atTwoPlaces : Fittable atTwoPlaces [0, 0, 0, 0, 0, 0] 1 1 where
  aligned := rfl
  nonempty := List.cons_ne_nil _ _
  dim_pos := Nat.one_pos
  length_eq := by simp [atTwoPlaces]
  finite := by simp [atTwoPlaces]
  id_lt := by simp
  sorted := by simp

/-- What that group gives. -/
noncomputable def placesResult : GroupResult ℝ :=
  noReset.groupResult .gaussian 0 atTwoPlaces [0, 0, 0, 0, 0, 0] 1 (some [0, 0, 1, 1, 2, 2]) 0

/-- The means are those from before the broad component collapsed, and the last log-likelihood is
that of the mixture. -/
theorem giving_up_restores_atTwoPlaces :
    ∃ t m r, noReset.Yields .gaussian atTwoPlaces [0, 0, 0, 0, 0, 0] 1 t ∧ t.Gives 0 m r ∧
      r.status = .degenerate ∧ r.trace.length = 1 ∧
      (∃ own components,
        (noReset.groupProblem .gaussian atTwoPlaces [0, 0, 0, 0, 0, 0] t.models.dim 0).FailsAfter
          own r components ∧ components.map (·.mean) = [[-1], [0], [1]]) ∧
      ∃ values : List ℝ,
        atTwoPlaces.map (m.logDensityWith .gaussian) = values.map (fun v => .ok (.of v)) ∧
          r.trace.getLast? = some values.sum := by
  have hvalid : noReset.validate = .ok () := by
    simp [validate_eq_ok_iff, isFiniteNonNegative, noReset, ofCount]
  have hstart : noReset.startLabels 6 (some [0, 0, 1, 1, 2, 2]) =
      .ok (some [0, 0, 1, 1, 2, 2]) := rfl
  obtain ⟨t, ht, hgives⟩ :=
    exists_train_gives fittable_atTwoPlaces .gaussian 0 .sequential hstart hvalid
  have hyields : noReset.Yields .gaussian atTwoPlaces [0, 0, 0, 0, 0, 0] 1 t := .train ht
  have hgroup : t.Gives 0 placesResult.mixture placesResult.report := hgives 0 Nat.one_pos
  obtain ⟨total, failed, hending⟩ := ending_placesProblem
  have hstatus : placesResult.report.status = .degenerate := congrArg Ending.status hending
  have htrace : placesResult.report.trace = [total] := congrArg Ending.trace hending
  have hcomponents : placesResult.mixture.components = normalizeWeights narrowAndBroad :=
    congrArg Problem.Ending.components hending
  have hne : placesResult.report.trace ≠ [] := by
    rw [htrace]
    exact List.cons_ne_nil _ _
  obtain ⟨own, components, -, hfails, hmeans, -, -⟩ := giving_up_restores.1 noReset .gaussian
    atTwoPlaces [0, 0, 0, 0, 0, 0] 1 t hyields 0 _ _ hgroup hstatus hne
  refine ⟨t, _, _, hyields, hgroup, hstatus, by rw [htrace]; rfl, ⟨own, components, hfails, ?_⟩,
    giving_up_restores.2 noReset .gaussian atTwoPlaces [0, 0, 0, 0, 0, 0] 1 t hyields 0 _ _
      hgroup hstatus hne⟩
  rw [← hmeans, hcomponents, map_mean_normalizeWeights]
  rfl

end Settings

end Mixtures.Em
