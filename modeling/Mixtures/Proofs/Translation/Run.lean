import Mixtures.Proofs.Em.Floor
import Mixtures.Proofs.Pipeline.Training
import Mixtures.Proofs.Translation.Clusters
import Mixtures.Proofs.Translation.Steps

/-!
# Fitting translated samples

A run on translated samples is a run in which only places have moved: it takes the same number of
steps, resets the same components onto the same samples and ends for the same reason. This is proved
for exact arithmetic, by going through both runs side by side.

* `train_follows`: training one group.
* `fitting_translates`: clustering and training of all groups.
-/

namespace Mixtures

namespace Em

namespace Problem

variable {F : Type} {p : Problem ℝ F} {t : Point ℝ}

/-! ## The iterations of a group -/

theorem StateFollows.record {s s' : State ℝ} (hs : p.StateFollows t s s') (event : GroupEvent ℝ) :
    p.StateFollows t (s.record event) (s'.record event) :=
  ⟨hs.components, hs.rowCount, hs.responsibilities_eq, hs.resets_eq,
    congrArg (event :: ·) hs.history_eq⟩

/-- The end of the iterations, and their end on translated samples. -/
structure EndingFollows (p : Problem ℝ F) (t : Point ℝ) (e e' : Ending ℝ) : Prop where
  trace_eq : e'.trace = e.trace
  status_eq : e'.status = e.status
  state : p.StateFollows t e.state e'.state
  valid : Option.Rel (List.Forall₂ (Follows t)) e.valid e'.valid

theorem EndingFollows.components_follow {e e' : Ending ℝ} (h : p.EndingFollows t e e') :
    List.Forall₂ (Follows t) (Ending.components e) (Ending.components e') := by
  unfold Ending.components
  rw [h.status_eq]
  split
  · apply Translatable.normalizeWeights_follows
    have hvalid := h.valid
    revert hvalid
    generalize e.valid = valid
    generalize e'.valid = valid'
    rintro (@⟨_, _, hvalid⟩ | _)
    · exact hvalid
    · exact h.state.components
  · exact h.state.components

namespace Translatable

variable (h : p.Translatable t) {support : Finset Nat} (hosts : p.Hosts support)

include h hosts

/-- **Iterations on translated samples** take the same course. -/
theorem iterate_follows (budget index : Nat) (before : Option ℝ)
    {valid valid' : Option (List (Component ℝ))}
    (hvalid : Option.Rel (List.Forall₂ (Follows t)) valid valid') {s s' : State ℝ}
    (hs : p.StateFollows t s s') :
    p.EndingFollows t (p.iterate budget index before valid s)
      ((p.translate t).iterate budget index before valid' s') := by
  induction budget generalizing index before valid valid' s s' with
  | zero => exact ⟨rfl, rfl, hs, hvalid⟩
  | succ budget ih =>
    rw [iterate, iterate]
    have hexpect := h.expect_agree hosts hs
    revert hexpect
    generalize p.expect s = explained
    generalize (p.translate t).expect s' = explained'
    rintro (@⟨total, s₁, s₁', hs₁⟩ | @⟨s₁, s₁', hs₁⟩)
    · have hsettled : (p.translate t).hasSettled = p.hasSettled := rfl
      have hrecord := hs₁.record (.iteration index total)
      dsimp only
      rw [hsettled]
      split
      · exact ⟨rfl, rfl, hrecord, .some hs₁.components⟩
      · have hmaximize := h.maximize_agree hrecord
        revert hmaximize
        generalize p.maximize (s₁.record (.iteration index total)) = estimated
        generalize (p.translate t).maximize (s₁'.record (.iteration index total)) = estimated'
        rintro (@⟨_, s₂, s₂', hs₂⟩ | @⟨s₂, s₂', hs₂⟩)
        · have hlater := ih (index + 1) (some total) (.some hs₁.components) hs₂
          exact ⟨congrArg (total :: ·) hlater.trace_eq, hlater.status_eq, hlater.state,
            hlater.valid⟩
        · exact ⟨rfl, rfl, hs₂, .some hs₁.components⟩
    · exact ⟨rfl, rfl, hs₁, hvalid⟩

theorem ending_follows {s s' : State ℝ} (hs : p.StateFollows t s s') :
    p.EndingFollows t (p.ending s) ((p.translate t).ending s') := by
  unfold ending
  have hmaximize := h.maximize_agree hs
  revert hmaximize
  generalize p.maximize s = estimated
  generalize (p.translate t).maximize s' = estimated'
  rintro (@⟨_, s₁, s₁', hs₁⟩ | @⟨s₁, s₁', hs₁⟩)
  · exact h.iterate_follows hosts _ _ _ .none hs₁
  · exact ⟨rfl, rfl, hs₁, .none⟩

end Translatable

end Problem

/-- The result of a group, and its result when all samples are translated. -/
structure GroupResult.Follows (t : Point ℝ) (r r' : GroupResult ℝ) : Prop where
  components : List.Forall₂ (Em.Follows t) r.mixture.components r'.mixture.components
  report_eq : r'.report = r.report
  events_eq : r'.events = r.events

namespace Problem

variable {F : Type} {p : Problem ℝ F} {t : Point ℝ}

/-- A placeholder has no weight, so it may stay where it is. -/
theorem placeholders_follow (hdim : p.dim = t.length) :
    List.Forall₂ (Follows t) (p.initialState []).components (p.initialState []).components := by
  refine List.forall₂_same.mpr fun c hc => ?_
  obtain rfl := List.eq_of_mem_replicate hc
  exact ⟨rfl, rfl, List.length_replicate.trans hdim, fun hlive => absurd le_rfl hlive⟩

theorem initialState_follows (hdim : p.dim = t.length) {labels : List Nat}
    (hlength : labels.length = p.size) :
    p.StateFollows t (p.initialState (labels.map (oneHot p.count)))
      ((p.translate t).initialState (labels.map (oneHot p.count))) :=
  ⟨placeholders_follow hdim, (List.length_map _).trans hlength, rfl, rfl, rfl⟩

/-- Without labels, the same samples are drawn and every sample has the same label. -/
theorem randomLabels_translate {ρ : Type} [RandomSource ρ]
    (hlength : ∀ x ∈ p.points, x.length = t.length)
    (source : ρ) : (p.translate t).randomLabels source = p.randomLabels source := by
  unfold randomLabels
  rw [size_translate]
  have hcount : (p.translate t).count = p.count := rfl
  rw [hcount]
  rcases distinctIndices p.size (min p.count p.size) source with ⟨drawn, rest⟩
  dsimp only
  have hcenters : (drawn.map fun i => (p.translate t).points.getD i []) =
      (drawn.map fun i => p.points.getD i []).map (Point.translate t) := by
    rw [List.map_map]
    exact List.map_congr_left fun i _ => Point.getD_translate p.points i
  rw [hcenters, translate, List.map_map]
  exact List.map_congr_left fun x hx => Point.nearestIndex_translate _ (hlength x hx).le

/-- **Training a group on translated samples** gives the same report and the same events, and
components that follow. -/
theorem train_follows (hdim : p.dim = t.length) (hlength : ∀ x ∈ p.points, x.length = t.length)
    (hkernel : p.kernel.IgnoresOrigin) {labels : List Nat} (hlabels : labels.length = p.size)
    (hlt : ∀ label ∈ labels, label < p.count) :
    GroupResult.Follows t (p.train labels) ((p.translate t).train labels) := by
  unfold train
  rw [translate, List.isEmpty_map, ← translate]
  split
  · exact ⟨placeholders_follow hdim, rfl, rfl⟩
  next hpoints =>
    have h : p.Translatable t := ⟨hdim, hlength, by simpa using hpoints, hkernel⟩
    obtain ⟨support, hosts, -⟩ := exists_hosts h.size_pos hlabels hlt
    have hending := h.ending_follows hosts (initialState_follows hdim hlabels)
    have hreport : (p.translate t).report ((p.translate t).ending
        ((p.translate t).initialState (labels.map (oneHot p.count)))) =
        p.report (p.ending (p.initialState (labels.map (oneHot p.count)))) := by
      unfold report
      rw [size_translate, hending.trace_eq, hending.status_eq, hending.state.resets_eq]
    refine ⟨hending.components_follow, hreport, ?_⟩
    dsimp only
    have hcount : (p.translate t).count = p.count := rfl
    rw [hcount, hreport, hending.state.history_eq]

end Problem

/-! ## All groups -/

namespace Settings

variable {F : Type} {s : Settings ℝ} {kernel : DensityKernel ℝ F} {samples : List (Point ℝ)}
  {ids : List Nat} {groupCount : Nat} {t : Point ℝ}

theorem groupProblem_translate (s : Settings ℝ) (kernel : DensityKernel ℝ F)
    (samples : List (Point ℝ)) (ids : List Nat) (dim group : Nat) :
    s.groupProblem kernel (samples.map (Point.translate t)) ids dim group =
      (s.groupProblem kernel samples ids dim group).translate t := by
  unfold groupProblem Problem.translate
  rw [Layout.owned_map]

theorem groupResult_follows (h : Fittable samples ids groupCount t.length)
    (hkernel : kernel.IgnoresOrigin) (hvalid : s.validate = .ok ()) (seed : UInt64)
    {labels start : Option (List Nat)} (hstart : s.startLabels samples.length labels = .ok start)
    (group : Nat) :
    GroupResult.Follows t (s.groupResult kernel seed samples ids t.length start group)
      (s.groupResult kernel seed (samples.map (Point.translate t)) ids t.length start group) := by
  have hlength : ∀ x ∈ (s.groupProblem kernel samples ids t.length group).points,
      x.length = t.length := length_eq_of_mem_groupProblem h group
  have hlabels :
      s.groupLabels kernel seed (samples.map (Point.translate t)) ids t.length start group =
      s.groupLabels kernel seed samples ids t.length start group := by
    unfold groupLabels
    cases start with
    | some given => rfl
    | none =>
      dsimp only
      rw [groupProblem_translate, Problem.randomLabels_translate hlength]
  rw [groupResult_eq_train, groupResult_eq_train, hlabels, groupProblem_translate]
  exact Problem.train_follows rfl hlength hkernel (length_groupLabels h seed hstart group)
    (groupLabels_lt hvalid seed hstart group)

/-- The events of a run are made from the events and the reports of its groups. -/
theorem eventsOf_congr {results results' : List (GroupResult ℝ)}
    (h : List.Forall₂ (GroupResult.Follows t) results results') (n dim : Nat) :
    s.eventsOf results' n dim = s.eventsOf results n dim := by
  have hreports : results.map (·.report) = results'.map (·.report) :=
    map_eq_map_of_forall₂ h fun _ _ hr => hr.report_eq.symm
  have hconverged : ∀ rs : List (GroupResult ℝ), rs.countP (fun r => r.report.status = .converged) =
      (rs.map (·.report)).countP fun r => r.status = .converged := by
    intro rs
    rw [List.countP_map]
    rfl
  have hevents : (results.zipIdx.map fun (r, g) => r.events.map (Event.group g)) =
      results'.zipIdx.map fun (r, g) => r.events.map (Event.group g) := by
    refine map_eq_map_of_forall₂ (forall₂_zipIdx h 0) ?_
    rintro ⟨r, g⟩ ⟨r', g'⟩ ⟨hr, rfl⟩
    dsimp only at hr ⊢
    rw [hr.events_eq]
  unfold eventsOf
  dsimp only
  rw [List.flatMap_def, List.flatMap_def, hevents, hconverged, hconverged, hreports, h.length_eq]

end Settings

/-- A run, and the run on translated samples: the same reports and events, and mixtures whose
components follow. -/
structure Training.Follows (t : Point ℝ) (r r' : Training ℝ) : Prop where
  mixtures : List.Forall₂ (fun m m' => List.Forall₂ (Em.Follows t) m.components m'.components)
    r.models.mixtures r'.models.mixtures
  reports_eq : r'.reports = r.reports
  events_eq : r'.events = r.events

/-- **Training on translated samples.** -/
theorem Settings.train_follows {F : Type} {s : Settings ℝ} {kernel : DensityKernel ℝ F}
    {samples : List (Point ℝ)} {ids : List Nat} {groupCount : Nat} {t : Point ℝ}
    (h : Fittable samples ids groupCount t.length) (hkernel : kernel.IgnoresOrigin)
    (hvalid : s.validate = .ok ()) {labels start : Option (List Nat)}
    (hstart : s.startLabels samples.length labels = .ok start) (entropy : UInt64)
    (executor : Executor) :
    ∃ r r', s.train kernel entropy executor samples ids groupCount labels = .ok r ∧
      s.train kernel entropy executor (samples.map (Point.translate t)) ids groupCount labels =
        .ok r' ∧ r.Follows t r' := by
  have hstart' : s.startLabels (samples.map (Point.translate t)).length labels = .ok start := by
    rwa [List.length_map]
  obtain ⟨r, hr, hcollects⟩ := train_outcome h kernel entropy executor hstart hvalid
  obtain ⟨r', hr', hcollects'⟩ := train_outcome h.translate kernel entropy executor hstart' hvalid
  have hresults : List.Forall₂ (GroupResult.Follows t)
      (s.groupResults kernel (s.seed.getD entropy) samples ids groupCount t.length start)
      (s.groupResults kernel (s.seed.getD entropy) (samples.map (Point.translate t)) ids groupCount
        t.length start) :=
    List.forall₂_map_left_iff.mpr (List.forall₂_map_right_iff.mpr (List.forall₂_same.mpr
      fun group _ => groupResult_follows h hkernel hvalid _ hstart group))
  refine ⟨r, r', hr, hr', ?_, ?_, ?_⟩
  · rw [hcollects.mixtures_eq, hcollects'.mixtures_eq]
    exact List.forall₂_map_left_iff.mpr (List.forall₂_map_right_iff.mpr
      (hresults.imp fun _ _ hresult => hresult.components))
  · rw [hcollects.reports_eq, hcollects'.reports_eq]
    exact (map_eq_map_of_forall₂ hresults fun _ _ hresult => hresult.report_eq.symm).symm
  · rw [hcollects.events_eq, hcollects'.events_eq, List.length_map, eventsOf_congr hresults]

end Em

/-- **Fitting is translation equivariant** in exact arithmetic. With a seed, adding a vector to
every sample leaves the labels and the number of steps of clustering, the reports, the events and
the weights and covariances of all components as they are, and adds the vector to every centroid and
to the mean of every component with weight; and neither run fails. -/
theorem Config.fitting_translates {c : Config ℝ} {seed : UInt64} (hseed : c.seed = some seed)
    (hvalid : c.validate = .ok ()) {samples : List (Point ℝ)} {ids : List Nat} {groupCount : Nat}
    {t : Point ℝ} (h : Fittable samples ids groupCount t.length) (entropy entropy' : UInt64)
    (executor executor' : Executor) :
    (∃ clusters, c.clustering.fit entropy executor samples ids groupCount = .ok clusters ∧
      c.clustering.fit entropy' executor' (samples.map (Point.translate t)) ids groupCount =
        .ok (clusters.translate t)) ∧
    ∃ r r', c.fit entropy executor samples ids groupCount = .ok r ∧
      c.fit entropy' executor' (samples.map (Point.translate t)) ids groupCount = .ok r' ∧
      r.Follows t r' := by
  have hk : c.clustering.clusterCount ≠ 0 := componentCount_ne_zero hvalid
  have hclusters : ∀ (entropy : UInt64) (executor : Executor) (samples : List (Point ℝ)),
      Fittable samples ids groupCount t.length →
      c.clustering.fit entropy executor samples ids groupCount =
        c.clustering.fit 0 .sequential samples ids groupCount := by
    intro entropy executor samples h
    have hsame : c.clustering.seed.getD entropy = c.clustering.seed.getD 0 := by
      simp [clustering, hseed]
    rw [KMeans.fit_eq_of_fittable _ _ _ h, KMeans.fit_eq_of_fittable _ _ _ h,
      KMeans.fitLayout_congr c.clustering hsame executor .sequential]
  obtain ⟨clusters, hfit⟩ : ∃ clusters,
      c.clustering.fit 0 .sequential samples ids groupCount = .ok clusters := by
    rw [KMeans.fit_eq_of_fittable _ _ _ h]
    rcases KMeans.fitLayout_outcome c.clustering 0 .sequential h hk with ⟨hoverflow, -⟩ | ⟨-, hfit⟩
    · exact absurd hoverflow (KMeans.not_meetsInfinity_exact _ _)
    · exact hfit
  have hfit' : c.clustering.fit 0 .sequential (samples.map (Point.translate t)) ids groupCount =
      .ok (clusters.translate t) := by
    rw [KMeans.fit_translate c.clustering hk 0 .sequential h, hfit]
    rfl
  refine ⟨⟨clusters, (hclusters _ _ _ h).trans hfit, (hclusters _ _ _ h.translate).trans hfit'⟩, ?_⟩
  unfold fit
  rw [fitWith_eq_steps c .gaussian entropy executor hvalid hseed samples ids groupCount 0 0
      .sequential .sequential none,
    fitWith_eq_steps c .gaussian entropy' executor' hvalid hseed _ ids groupCount 0 0
      .sequential .sequential none, hfit, hfit']
  have htraining : c.training.validate = .ok () := hvalid
  cases hstart : c.start with
  | labels =>
    have hchecked : c.training.startLabels samples.length (some clusters.labels) =
        .ok (some clusters.labels) := by
      rw [KMeans.fit_eq_of_fittable _ _ _ h] at hfit
      exact Em.Settings.startLabels_eq_ok_iff.mpr (.inl ⟨hstart, clusters.labels,
        checkLabels_of_fitLayout c 0 .sequential hk h hfit, rfl⟩)
    exact Em.Settings.train_follows h DensityKernel.gaussian_ignoresOrigin htraining hchecked 0
      .sequential
  | randomSamples =>
    have hnone := Em.Settings.startLabels_of_randomSamples (show c.training.start = _ from hstart)
      samples.length none
    exact Em.Settings.train_follows h DensityKernel.gaussian_ignoresOrigin htraining hnone 0
      .sequential

/-- Two components for each group, with a seed. -/
noncomputable def Config.twoComponents : Config ℝ := { ofCount 2 with seed := some 7 }

/-- Two samples in the plane, and the same samples far away. -/
theorem Config.fitting_translates_inPlane :
    twoComponents.validate = .ok () ∧ Fittable Em.Settings.inPlane [0, 2] 3 2 ∧
    ∃ r r', twoComponents.fit 0 .sequential Em.Settings.inPlane [0, 2] 3 = .ok r ∧
      twoComponents.fit 1 .parallel (Em.Settings.inPlane.map (Point.translate [100, -100]))
          [0, 2] 3 =
        .ok r' ∧
      r'.reports = r.reports := by
  have hvalid : twoComponents.validate = .ok () := Em.Settings.validate_ofCount_two
  have hseed : twoComponents.seed = some 7 := rfl
  have hfittable : Fittable Em.Settings.inPlane [0, 2] 3 ([100, -100] : Point ℝ).length :=
    Em.Settings.fittable_inPlane
  obtain ⟨-, r, r', hr, hr', hfollows⟩ :=
    fitting_translates hseed hvalid hfittable 0 1 .sequential .parallel
  exact ⟨hvalid, hfittable, r, r', hr, hr', hfollows.reports_eq⟩

end Mixtures
