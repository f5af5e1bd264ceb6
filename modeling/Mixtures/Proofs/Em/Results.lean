import Mixtures.Proofs.Em.Groups
import Mixtures.Proofs.Random.Distinct

/-!
# What a run finds out about a group

A training run gives every group a mixture and a report. They are those of the group trained by
itself, as a problem of its own, from labels that are aligned with its samples and below the number
of components, whether the labels are given or drawn.

* `gives_iff`: what a training run gives a group.
* `exists_labels_of_train_eq_ok`: so whatever holds of every training of a problem holds of every
  group of a run.
-/

namespace Mixtures.Em

variable {α F : Type} [Scalar α]

/-- A training run gives a group this mixture and this report. -/
def Training.Gives {α : Type} (t : Training α) (group : Nat) (m : Mixture α)
    (r : Diagnostics α) : Prop :=
  t.models.get? group = some m ∧ t.reports[group]? = some r

namespace Problem

/-- Training from these labels, which are aligned with the samples and below the number of
components, ends with this mixture and this report. -/
structure TrainsTo (p : Problem α F) (labels : List Nat) (m : Mixture α) (r : Diagnostics α) :
    Prop where
  length_eq : labels.length = p.size
  lt_count : ∀ label ∈ labels, label < p.count
  mixture_eq : m = (p.train labels).mixture
  report_eq : r = (p.train labels).report

variable {p : Problem α F}

/-- Drawn labels are below the number of components. -/
theorem randomLabels_lt {ρ : Type} [RandomSource ρ] (hcount : 0 < p.count) (source : ρ) :
    ∀ label ∈ p.randomLabels source, label < p.count := by
  intro label hlabel
  have hdrawn := (distinctIndices_spec (min_le_right p.count p.size) source).length_eq
  unfold randomLabels at hlabel
  rcases hd : distinctIndices p.size (min p.count p.size) source with ⟨drawn, rest⟩
  rw [hd] at hlabel hdrawn
  obtain ⟨x, -, rfl⟩ := List.mem_map.mp hlabel
  cases drawn with
  | nil => exact hcount
  | cons i drawn =>
    have hcenters : (i :: drawn).map (fun i => p.points.getD i []) ≠ [] := by simp
    have hlt := Point.nearestIndex_lt x hcenters
    rw [List.length_map] at hlt
    dsimp only at hdrawn
    omega

end Problem

namespace Settings

variable {s : Settings α} {kernel : DensityKernel α F} {samples : List (Point α)}
  {ids : List Nat} {groupCount dim : Nat} {start : Option (List Nat)}

/-- The problem of a group. -/
def groupProblem (s : Settings α) (kernel : DensityKernel α F) (samples : List (Point α))
    (ids : List Nat) (dim group : Nat) : Problem α F :=
  { settings := s, points := Layout.owned group ids samples, dim, kernel }

/-- The labels with which a group starts: its own among the given ones, or drawn from the random
stream of the group. -/
def groupLabels (s : Settings α) (kernel : DensityKernel α F) (seed : UInt64)
    (samples : List (Point α)) (ids : List Nat) (dim : Nat) (start : Option (List Nat))
    (group : Nat) : List Nat :=
  match start with
  | some labels => Layout.owned group ids labels
  | none => (s.groupProblem kernel samples ids dim group).randomLabels (Stage.em.source seed group)

theorem groupResult_eq_train (seed : UInt64) (group : Nat) :
    s.groupResult kernel seed samples ids dim start group =
      (s.groupProblem kernel samples ids dim group).train
        (s.groupLabels kernel seed samples ids dim start group) := by
  cases start <;> rfl

/-- What a run gives a group is the result of the group trained by itself. -/
theorem gives_iff {seed : UInt64} {n : Nat} {t : Training α}
    (h : s.Collects n dim (s.groupResults kernel seed samples ids groupCount dim start) t)
    {group : Nat} {m : Mixture α} {r : Diagnostics α} :
    t.Gives group m r ↔ group < groupCount ∧
      m = (s.groupResult kernel seed samples ids dim start group).mixture ∧
      r = (s.groupResult kernel seed samples ids dim start group).report := by
  unfold Training.Gives Collection.get?
  rw [h.mixtures_eq, h.reports_eq, groupResults]
  by_cases hgroup : group < groupCount
  · simp [hgroup, eq_comm]
  · simp [hgroup]

omit [Scalar α] in
/-- Labels from which training starts are below the number of components. -/
theorem lt_of_startLabels {count : Nat} {labels : Option (List Nat)}
    (h : s.startLabels count labels = .ok start) :
    ∀ given ∈ start, ∀ label ∈ given, label < s.componentCount := by
  rcases startLabels_eq_ok_iff.mp h with ⟨-, given, hgiven, rfl⟩ | ⟨-, rfl⟩
  · rintro _ ⟨⟩
    exact (checkLabels_eq_ok_iff.mp hgiven).2.2
  · exact nofun

theorem validate_eq_ok_iff :
    s.validate = .ok () ↔ s.componentCount ≠ 0 ∧ isFiniteNonNegative s.tolerance ∧
      isFiniteNonNegative s.floor := by
  rw [validate, check]
  split_ifs <;> simp_all

theorem componentCount_pos (h : s.validate = .ok ()) : 0 < s.componentCount :=
  Nat.pos_of_ne_zero (validate_eq_ok_iff.mp h).1

theorem length_groupLabels (h : Fittable samples ids groupCount dim) (seed : UInt64)
    {labels : Option (List Nat)} (hstart : s.startLabels samples.length labels = .ok start)
    (group : Nat) :
    (s.groupLabels kernel seed samples ids dim start group).length =
      (s.groupProblem kernel samples ids dim group).size := by
  cases start with
  | none => exact Problem.length_randomLabels _
  | some given =>
    have hlength : given.length = ids.length :=
      (length_of_startLabels hstart given rfl).trans h.aligned
    exact (Layout.length_owned hlength).trans (Layout.length_owned h.aligned).symm

theorem groupLabels_lt (hvalid : s.validate = .ok ()) (seed : UInt64)
    {count : Nat} {labels : Option (List Nat)} (hstart : s.startLabels count labels = .ok start)
    (group : Nat) :
    ∀ label ∈ s.groupLabels kernel seed samples ids dim start group, label < s.componentCount := by
  cases start with
  | none => exact Problem.randomLabels_lt (componentCount_pos hvalid) _
  | some given =>
    exact fun label hlabel =>
      lt_of_startLabels hstart given rfl label (Layout.mem_of_mem_owned hlabel)

theorem length_eq_of_mem_groupProblem (h : Fittable samples ids groupCount dim) (group : Nat) :
    ∀ x ∈ (s.groupProblem kernel samples ids dim group).points,
      x.length = (s.groupProblem kernel samples ids dim group).dim :=
  fun x hx => h.length_eq x (Layout.mem_of_mem_owned hx)

theorem validate_of_train_eq_ok {entropy : UInt64} {executor : Executor}
    {labels : Option (List Nat)} {t : Training α}
    (h : s.train kernel entropy executor samples ids groupCount labels = .ok t) :
    s.validate = .ok () := by
  rw [train_eq] at h
  cases hreject : inputRejection samples ids groupCount with
  | some e =>
    rw [hreject] at h
    cases h
  | none =>
    rw [hreject] at h
    exact (checks_of_trainLayout_eq_ok h).1

/-- Training fittable input, with valid settings and accepted labels, gives every group the result
of its problem. -/
theorem exists_train_gives (h : Fittable samples ids groupCount dim) (kernel : DensityKernel α F)
    (entropy : UInt64) (executor : Executor) {labels : Option (List Nat)}
    (hstart : s.startLabels samples.length labels = .ok start) (hvalid : s.validate = .ok ()) :
    ∃ t, s.train kernel entropy executor samples ids groupCount labels = .ok t ∧
      ∀ group < groupCount, t.Gives group
        (s.groupResult kernel (s.seed.getD entropy) samples ids dim start group).mixture
        (s.groupResult kernel (s.seed.getD entropy) samples ids dim start group).report := by
  obtain ⟨t, ht, hcollects⟩ := train_outcome h kernel entropy executor hstart hvalid
  exact ⟨t, ht, fun group hgroup => (gives_iff hcollects).mpr ⟨hgroup, rfl, rfl⟩⟩

/-- **Every group of a run is a problem of its own**, trained from labels that are aligned with its
samples and below the number of components. -/
theorem exists_labels_of_train_eq_ok {entropy : UInt64} {executor : Executor}
    {labels : Option (List Nat)} {t : Training α}
    (h : s.train kernel entropy executor samples ids groupCount labels = .ok t) {group : Nat}
    {m : Mixture α} {r : Diagnostics α} (hgives : t.Gives group m r) :
    ∃ own, (s.groupProblem kernel samples ids t.models.dim group).TrainsTo own m r := by
  obtain ⟨hfittable, start, hstart, hcollects⟩ := collects_of_train_eq_ok h
  obtain ⟨-, hm, hr⟩ := (gives_iff hcollects).mp hgives
  rw [groupResult_eq_train] at hm hr
  exact ⟨_, length_groupLabels hfittable _ hstart group,
    groupLabels_lt (validate_of_train_eq_ok h) _ hstart group, hm, hr⟩

/-- Settings that agree on the number of components, the start and the seed train the same groups
from the same labels. -/
theorem exists_train_of_sameStart {s : Settings α} {entropy : UInt64} {executor : Executor}
    {labels : Option (List Nat)} {t : Training α}
    (h : s.train kernel entropy executor samples ids groupCount labels = .ok t)
    (s' : Settings α) (hcount : s'.componentCount = s.componentCount)
    (hstart : s'.start = s.start) (hseed : s'.seed = s.seed) (hvalid : s'.validate = .ok ()) :
    ∃ t', s'.train kernel entropy executor samples ids groupCount labels = .ok t' ∧
      ∀ group m r, t.Gives group m r → ∃ (dim : Nat) (own : List Nat),
        m = ((s.groupProblem kernel samples ids dim group).train own).mixture ∧
        r = ((s.groupProblem kernel samples ids dim group).train own).report ∧
        t'.Gives group ((s'.groupProblem kernel samples ids dim group).train own).mixture
          ((s'.groupProblem kernel samples ids dim group).train own).report := by
  obtain ⟨hfittable, start, haccepted, hcollects⟩ := collects_of_train_eq_ok h
  have haccepted' : s'.startLabels samples.length labels = .ok start := by
    rw [startLabels_eq_ok_iff] at haccepted ⊢
    simpa only [checkLabels_eq_ok_iff, hstart, hcount] using haccepted
  obtain ⟨t', ht', hcollects'⟩ :=
    train_outcome hfittable kernel entropy executor haccepted' hvalid
  refine ⟨t', ht', fun group m r hgives => ?_⟩
  obtain ⟨hgroup, rfl, rfl⟩ := (gives_iff hcollects).mp hgives
  have hlabels : s'.groupLabels kernel (s'.seed.getD entropy) samples ids t.models.dim start group =
      s.groupLabels kernel (s.seed.getD entropy) samples ids t.models.dim start group := by
    cases start with
    | some given => rfl
    | none =>
      unfold groupLabels
      dsimp only
      unfold Problem.randomLabels Problem.count groupProblem
      dsimp only [Problem.size]
      rw [hcount, hseed]
  refine ⟨t.models.dim,
    s.groupLabels kernel (s.seed.getD entropy) samples ids t.models.dim start group,
    by rw [groupResult_eq_train], by rw [groupResult_eq_train], ?_⟩
  rw [← hlabels, gives_iff hcollects']
  exact ⟨hgroup, by rw [groupResult_eq_train], by rw [groupResult_eq_train]⟩

end Settings

end Mixtures.Em
