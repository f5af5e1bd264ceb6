import Mixtures.Em.Trainer
import Mixtures.Proofs.Em.Shape
import Mixtures.Proofs.Group.Samples

/-!
# Training all groups

A training run on input that passes the checks is the list of the results of its groups: each group
is trained on its own samples, from its own labels or with its own random stream. The mixtures fit
into one collection, so such a run never fails.
-/

namespace Mixtures.Em

variable {α F : Type} [Scalar α]

namespace Settings

/-- The result of training one group: that of its own samples, from its own labels or with the
random stream of the group. -/
def groupResult (s : Settings α) (kernel : DensityKernel α F) (seed : UInt64)
    (samples : List (Point α)) (ids : List Nat) (dim : Nat) (start : Option (List Nat))
    (group : Nat) : GroupResult α :=
  let p : Problem α F :=
    { settings := s, points := Layout.owned group ids samples, dim, kernel }
  match start with
  | some labels => p.train (Layout.owned group ids labels)
  | none => p.train (p.randomLabels (Stage.em.source seed group))

/-- The results of all groups. -/
def groupResults (s : Settings α) (kernel : DensityKernel α F) (seed : UInt64)
    (samples : List (Point α)) (ids : List Nat) (groupCount dim : Nat)
    (start : Option (List Nat)) : List (GroupResult α) :=
  (List.range groupCount).map (s.groupResult kernel seed samples ids dim start)

/-- A training run is made up from the results of the groups. -/
structure Collects (s : Settings α) (sampleCount dim : Nat) (results : List (GroupResult α))
    (t : Training α) : Prop where
  size_eq : t.models.size = s.componentCount
  dim_eq : t.models.dim = dim
  mixtures_eq : t.models.mixtures = results.map (·.mixture)
  reports_eq : t.reports = results.map (·.report)
  events_eq : t.events = (s.eventsOf results sampleCount dim).filter (Event.isShownAt s.verbosity)

variable {s : Settings α} {kernel : DensityKernel α F} {samples : List (Point α)}
  {ids : List Nat} {groupCount dim : Nat}

section Collects

variable {seed : UInt64} {start : Option (List Nat)} {t : Training α} {n : Nat}

theorem Collects.groupCount_eq
    (h : s.Collects n dim (s.groupResults kernel seed samples ids groupCount dim start) t) :
    t.models.groupCount = groupCount := by
  rw [Collection.groupCount, h.mixtures_eq, groupResults, List.length_map, List.length_map,
    List.length_range]

theorem Collects.length_reports
    (h : s.Collects n dim (s.groupResults kernel seed samples ids groupCount dim start) t) :
    t.reports.length = groupCount := by
  rw [h.reports_eq, groupResults, List.length_map, List.length_map, List.length_range]

omit [Scalar α] in
theorem Collects.hasShape {results : List (GroupResult α)} (h : s.Collects n dim results t) :
    ∀ m ∈ t.models.mixtures, m.HasShape s.componentCount dim := by
  intro m hm
  have hshape := t.models.hasShape m hm
  rw [h.size_eq, h.dim_eq] at hshape
  exact hshape

end Collects

omit [Scalar α] in
/-- Labels are accepted if there is one for each sample and all are below the number of
components. -/
theorem checkLabels_eq_ok_iff {count : Nat} {labels : Option (List Nat)} {start : List Nat} :
    s.checkLabels count labels = .ok start ↔
      labels = some start ∧ start.length = count ∧ ∀ label ∈ start, label < s.componentCount := by
  cases labels with
  | none => simp [checkLabels]
  | some labels =>
    rw [checkLabels]
    by_cases hlen : labels.length = count
    · rw [if_neg (not_not_intro hlen)]
      cases hfind : labels.findIdx? fun label => decide (s.componentCount ≤ label) with
      | some i =>
        simp only [reduceCtorEq, Option.some.injEq, false_iff]
        rintro ⟨rfl, -, hlt⟩
        obtain ⟨hi, hle, -⟩ := List.findIdx?_eq_some_iff_getElem.mp hfind
        have := hlt labels[i] (List.getElem_mem hi)
        simp only [decide_eq_true_eq] at hle
        omega
      | none =>
        rw [List.findIdx?_eq_none_iff] at hfind
        simp only [Except.ok.injEq, Option.some.injEq]
        constructor
        · rintro rfl
          exact ⟨rfl, hlen, fun label hlabel => by simpa using hfind label hlabel⟩
        · rintro ⟨rfl, -, -⟩
          rfl
    · rw [if_pos hlen]
      simp only [reduceCtorEq, Option.some.injEq, false_iff]
      rintro ⟨rfl, hcount, -⟩
      exact hlen hcount

omit [Scalar α] in
/-- Training starts from accepted labels or, not looking at any, from none. -/
theorem startLabels_eq_ok_iff {count : Nat} {labels start : Option (List Nat)} :
    s.startLabels count labels = .ok start ↔
      (s.start = .labels ∧ ∃ given, s.checkLabels count labels = .ok given ∧ start = some given) ∨
        (s.start = .randomSamples ∧ start = none) := by
  rw [startLabels]
  cases s.start with
  | randomSamples => simp [eq_comm]
  | labels => cases s.checkLabels count labels <;>
    simp [bind, Except.bind, pure, Except.pure, eq_comm]

omit [Scalar α] in
/-- Labels from which training starts are aligned with the samples. -/
theorem length_of_startLabels {count : Nat} {labels start : Option (List Nat)}
    (h : s.startLabels count labels = .ok start) : ∀ given ∈ start, given.length = count := by
  rcases startLabels_eq_ok_iff.mp h with ⟨-, given, hgiven, rfl⟩ | ⟨-, rfl⟩
  · rintro _ ⟨⟩
    exact (checkLabels_eq_ok_iff.mp hgiven).2.1
  · exact nofun

omit [Scalar α] in
/-- Training that starts from labels starts from those that are given. -/
theorem eq_of_startLabels_of_labels (hstart : s.start = .labels) {count : Nat}
    {labels : List Nat} {start : Option (List Nat)}
    (h : s.startLabels count (some labels) = .ok start) : start = some labels := by
  rcases startLabels_eq_ok_iff.mp h with ⟨-, given, hgiven, rfl⟩ | ⟨hrandom, -⟩
  · exact (checkLabels_eq_ok_iff.mp hgiven).1.symm
  · rw [hstart] at hrandom
    cases hrandom

omit [Scalar α] in
/-- Training that starts from random samples does not look at labels. -/
theorem startLabels_of_randomSamples (hstart : s.start = .randomSamples) (count : Nat)
    (labels : Option (List Nat)) : s.startLabels count labels = .ok none :=
  startLabels_eq_ok_iff.mpr (.inr ⟨hstart, rfl⟩)

theorem trainGroup_eq (h : Fittable samples ids groupCount dim) (seed : UInt64)
    (start : Option (List Nat)) (group : Nat) :
    s.trainGroup kernel seed samples (Layout.ofSorted ids groupCount) dim start group =
      s.groupResult kernel seed samples ids dim start group := by
  unfold trainGroup groupResult
  dsimp only
  rw [h.slice_eq]
  cases start with
  | none => rfl
  | some labels => simp only [h.slice_eq]

theorem groupResult_hasShape (h : Fittable samples ids groupCount dim) (seed : UInt64)
    {start : Option (List Nat)} (hstart : ∀ labels ∈ start, labels.length = samples.length)
    (group : Nat) :
    (s.groupResult kernel seed samples ids dim start group).mixture.HasShape
      s.componentCount dim := by
  have hdim : ∀ x ∈ Layout.owned group ids samples, x.length = dim :=
    fun x hx => h.length_eq x (Layout.mem_of_mem_owned hx)
  unfold groupResult
  dsimp only
  cases start with
  | none => exact Problem.train_hasShape hdim (Problem.length_randomLabels _)
  | some labels =>
    refine Problem.train_hasShape hdim ?_
    have hlabels : labels.length = ids.length := (hstart labels rfl).trans h.aligned
    exact (Layout.length_owned hlabels).trans (Layout.length_owned h.aligned).symm

/-- **Training accepted input never fails** once the settings and the labels have been checked: the
trained mixtures fit into one collection. -/
theorem trainLayout_outcome (h : Fittable samples ids groupCount dim)
    (kernel : DensityKernel α F) (entropy : UInt64) (executor : Executor)
    {labels start : Option (List Nat)}
    (hstart : s.startLabels samples.length labels = .ok start) (hvalid : s.validate = .ok ()) :
    ∃ t, s.trainLayout kernel entropy executor samples (Layout.ofSorted ids groupCount) dim
        labels = .ok t ∧
      s.Collects samples.length dim
        (s.groupResults kernel (s.seed.getD entropy) samples ids groupCount dim start) t := by
  have htask : s.trainGroup kernel (s.seed.getD entropy) samples (Layout.ofSorted ids groupCount)
      dim start = s.groupResult kernel (s.seed.getD entropy) samples ids dim start :=
    funext (trainGroup_eq h _ start)
  obtain ⟨results, hresults⟩ : ∃ results,
      results = s.groupResults kernel (s.seed.getD entropy) samples ids groupCount dim start :=
    ⟨_, rfl⟩
  -- the collection is made from mixtures that all have its shape
  have hshape : ∀ m ∈ results.map (·.mixture), m.HasShape s.componentCount dim := by
    intro m hm
    obtain ⟨result, hresult, rfl⟩ := List.mem_map.mp hm
    rw [hresults] at hresult
    obtain ⟨group, -, rfl⟩ := List.mem_map.mp hresult
    exact groupResult_hasShape h _ (length_of_startLabels hstart) group
  have hmodels : Collection.ofMixtures s.componentCount dim (results.map (·.mixture)) =
      .ok ⟨s.componentCount, dim, results.map (·.mixture), hshape⟩ :=
    Collection.ofMixtures_eq_ok_iff.mpr ⟨rfl, rfl, rfl⟩
  rw [← hresults]
  refine ⟨{
    models := ⟨s.componentCount, dim, results.map (·.mixture), hshape⟩
    reports := results.map (·.report)
    events := (s.eventsOf results samples.length dim).filter (Event.isShownAt s.verbosity) },
    ?_, rfl, rfl, rfl, rfl, rfl⟩
  unfold trainLayout
  rw [hvalid, hstart]
  dsimp only [bind, Except.bind]
  rw [Layout.groupCount_ofSorted, htask, executor.mapGroups_eq, ← groupResults, ← hresults, hmodels]
  rfl

/-- Only the seed and the groups matter: not how the tasks are run, and not the entropy once a seed
is fixed. -/
theorem trainLayout_congr {entropy₁ entropy₂ : UInt64}
    (hseed : s.seed.getD entropy₁ = s.seed.getD entropy₂) (executor₁ executor₂ : Executor)
    (samples : List (Point α)) (layout : Layout) (dim : Nat) (labels : Option (List Nat)) :
    s.trainLayout kernel entropy₁ executor₁ samples layout dim labels =
      s.trainLayout kernel entropy₂ executor₂ samples layout dim labels := by
  unfold trainLayout
  simp only [executor₁.mapGroups_eq, executor₂.mapGroups_eq, hseed]

theorem trainLayout_of_randomSamples (hstart : s.start = .randomSamples) (entropy : UInt64)
    (executor : Executor) (samples : List (Point α)) (layout : Layout) (dim : Nat)
    (labels : Option (List Nat)) :
    s.trainLayout kernel entropy executor samples layout dim labels =
      s.trainLayout kernel entropy executor samples layout dim none := by
  simp only [trainLayout, startLabels_of_randomSamples hstart]

/-- A training run that succeeds has passed the checks of the settings and of the labels. -/
theorem checks_of_trainLayout_eq_ok {entropy : UInt64} {executor : Executor} {layout : Layout}
    {labels : Option (List Nat)} {t : Training α}
    (h : s.trainLayout kernel entropy executor samples layout dim labels = .ok t) :
    s.validate = .ok () ∧ ∃ start, s.startLabels samples.length labels = .ok start := by
  unfold trainLayout at h
  cases hvalid : s.validate with
  | error e =>
    rw [hvalid] at h
    cases h
  | ok =>
    refine ⟨rfl, ?_⟩
    cases hstart : s.startLabels samples.length labels with
    | error e =>
      rw [hvalid, hstart] at h
      cases h
    | ok start => exact ⟨start, rfl⟩

/-- Training on samples and ids ends with the first thing that is wrong with them, or is the
training of their groups. -/
theorem train_eq (s : Settings α) (kernel : DensityKernel α F) (entropy : UInt64)
    (executor : Executor) (samples : List (Point α)) (ids : List Nat) (groupCount : Nat)
    (labels : Option (List Nat)) :
    s.train kernel entropy executor samples ids groupCount labels =
      match inputRejection samples ids groupCount with
      | some e => .error e
      | none =>
        s.trainLayout kernel entropy executor samples (Layout.ofSorted ids groupCount)
          (samples.headD []).length labels :=
  checks_bind samples ids groupCount fun dim layout =>
    s.trainLayout kernel entropy executor samples layout dim labels

theorem train_eq_of_fittable (h : Fittable samples ids groupCount dim)
    (kernel : DensityKernel α F) (entropy : UInt64) (executor : Executor)
    (labels : Option (List Nat)) :
    s.train kernel entropy executor samples ids groupCount labels =
      s.trainLayout kernel entropy executor samples (Layout.ofSorted ids groupCount) dim
        labels := by
  obtain ⟨hreject, rfl⟩ := fittable_iff.mp h
  rw [train_eq, hreject]

/-- Training on fittable input, with valid settings and accepted labels, never fails. -/
theorem train_outcome (h : Fittable samples ids groupCount dim) (kernel : DensityKernel α F)
    (entropy : UInt64) (executor : Executor) {labels start : Option (List Nat)}
    (hstart : s.startLabels samples.length labels = .ok start) (hvalid : s.validate = .ok ()) :
    ∃ t, s.train kernel entropy executor samples ids groupCount labels = .ok t ∧
      s.Collects samples.length dim
        (s.groupResults kernel (s.seed.getD entropy) samples ids groupCount dim start) t := by
  rw [train_eq_of_fittable h]
  exact trainLayout_outcome h kernel entropy executor hstart hvalid

/-- A training run that succeeds has passed the checks of the samples, of the ids and of the labels,
and collects the results of its groups. -/
theorem collects_of_train_eq_ok {entropy : UInt64} {executor : Executor}
    {labels : Option (List Nat)} {t : Training α}
    (h : s.train kernel entropy executor samples ids groupCount labels = .ok t) :
    Fittable samples ids groupCount t.models.dim ∧
      ∃ start, s.startLabels samples.length labels = .ok start ∧
        s.Collects samples.length t.models.dim
          (s.groupResults kernel (s.seed.getD entropy) samples ids groupCount t.models.dim start)
          t := by
  have hlayout := h
  rw [train_eq] at hlayout
  cases hreject : inputRejection samples ids groupCount with
  | some e =>
    rw [hreject] at hlayout
    cases hlayout
  | none =>
    rw [hreject] at hlayout
    have hfittable := fittable_iff.mpr ⟨hreject, rfl⟩
    obtain ⟨hvalid, start, hstart⟩ := checks_of_trainLayout_eq_ok hlayout
    -- the run is the one that cannot fail, so it collects the same results
    obtain ⟨t', ht', hcollects⟩ := train_outcome hfittable kernel entropy executor hstart hvalid
    rw [h] at ht'
    cases ht'
    rw [hcollects.dim_eq]
    exact ⟨hfittable, start, hstart, hcollects⟩

end Settings

end Mixtures.Em
