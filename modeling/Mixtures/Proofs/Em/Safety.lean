import Mixtures.Proofs.Em.Course
import Mixtures.Proofs.Em.Results

/-!
# What training reads is there

Training reads labels as positions of components, a responsibility of each component for each
sample, the factor found for each component, and the samples onto which components are moved; it
compares coordinates of samples, means and the center of the group. `Problem.InRange` says of a
group with samples that all of these are there, whatever the numbers are and however training ends.

* `keeps_sound`, from the shape of components: every change that training makes keeps its states
  sound.
* `inRange_groupLabels`: so it is from the labels with which a group of a run starts.
-/

namespace Mixtures.Em

variable {α F : Type} [Scalar α]

namespace Problem

/-- What training from these labels reads is in range. -/
structure InRange (p : Problem α F) (labels : List Nat) : Prop where
  /-- The first responsibilities: one label for each sample, the position of a component. -/
  length_labels : labels.length = p.size
  label_lt : ∀ label ∈ labels, label < p.count
  /-- The states before the first step, in the course of training, and at its end. -/
  start : p.Sound (p.initialState (labels.map (oneHot p.count)))
  reached : ∀ trace valid s,
    p.Reaches (p.initialState (labels.map (oneHot p.count))) trace valid s →
    p.Sound s ∧ p.Sound (p.expect s).state
  ended : p.Sound (p.ending (p.initialState (labels.map (oneHot p.count)))).state
  /-- The states within a step, between one component and the next. -/
  prepareAt : ∀ s component, p.Sound s → p.Sound (p.prepareAt component s).2
  reset : ∀ s component, p.Sound s → p.Sound (p.reset component s).state
  /-- The positions that a step looks up. -/
  length_factors : ∀ s factors s', p.factorAll (List.range p.count) s = .done factors s' →
    factors.length = p.count
  collapsed_lt : ∀ rows, ∀ component ∈ collapsed (p.estimates rows), component < p.count
  nearestLive_lt : ∀ components : List (Component α), components.length = p.count →
    ∀ x, nearestLive components x < p.count
  outlier_lt : ∀ components skip, p.outlier components skip < p.size
  /-- What samples are compared with, besides the means of components. -/
  length_center : p.center.length = p.dim
  length_spread : p.spread.length = p.dim

variable {p : Problem α F}

/-- **Training reads what is there**, in a group with samples and from labels of components. -/
theorem inRange (hpoints : p.points ≠ []) (hdim : ∀ x ∈ p.points, x.length = p.dim)
    (hcount : p.count ≠ 0) {labels : List Nat} (hlength : labels.length = p.size)
    (hlt : ∀ label ∈ labels, label < p.count) : p.InRange labels := by
  have k := keeps_sound hdim
  have hstart := initialState_holds k hlength
  exact
    { length_labels := hlength
      label_lt := hlt
      start := hstart
      reached := fun _ _ _ hreaches =>
        have hsound := reaches_holds k hpoints hstart hreaches
        ⟨hsound, expect_holds k hpoints hsound⟩
      ended := (ending_good k hpoints hstart).1
      prepareAt := fun _ component hsound => prepareAt_holds k component hsound
      reset := fun _ component hsound => reset_holds k hpoints component hsound
      length_factors := fun _ _ _ hdone => (length_factorAll hdone).trans List.length_range
      collapsed_lt := fun rows _ hcollapsed =>
        (List.getElem?_eq_some_iff.mp (mem_collapsed.mp hcollapsed)).1.trans_eq
          (length_estimates p rows)
      nearestLive_lt := fun _ hlength x => Em.nearestLive_lt hlength hcount x
      outlier_lt := Problem.outlier_lt hpoints
      length_center := Problem.length_center hdim
      length_spread := Problem.length_spread hdim }

end Problem

/-- So does the training of a group of a run, from its given labels or from drawn ones. -/
theorem Settings.inRange_groupLabels {s : Settings α} {kernel : DensityKernel α F}
    {samples : List (Point α)} {ids : List Nat} {groupCount dim : Nat}
    (h : Fittable samples ids groupCount dim) (hvalid : s.validate = .ok ()) (seed : UInt64)
    {labels start : Option (List Nat)} (hstart : s.startLabels samples.length labels = .ok start)
    {group : Nat} (hgroup : group ∈ ids) :
    (s.groupProblem kernel samples ids dim group).InRange
      (s.groupLabels kernel seed samples ids dim start group) :=
  Problem.inRange (h.owned_ne_nil hgroup) (length_eq_of_mem_groupProblem h group)
    (componentCount_pos hvalid).ne' (length_groupLabels h seed hstart group)
    (groupLabels_lt hvalid seed hstart group)

end Mixtures.Em
