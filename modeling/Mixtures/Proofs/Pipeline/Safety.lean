import Mixtures.Proofs.Em.Safety
import Mixtures.Proofs.Pipeline.Outcome

/-!
# How runs on accepted input end

Once samples and ids have passed their checks, what clustering and fitting look up is there: spans
lie within the samples, drawn positions are those of samples, labels are positions of centroids and
of components, and points that are compared have one dimension. A run ends with a result, with the
check of its settings, or where the squared distances that weight a seed add up to infinity.

* `group_sound`: what clustering looks up in a group; for training, `Problem.InRange` says it.
* `fitting_ends`: how a run on accepted input ends.
* `fit_farApart`: finite samples for which it ends without a result.
-/

namespace Mixtures

variable {α F : Type} [Scalar α] {samples : List (Point α)} {ids : List Nat}
  {groupCount dim : Nat}

/-- The span of a group lies within the samples. -/
theorem Fittable.stop_span_le (h : Fittable samples ids groupCount dim) (group : Nat) :
    ((Layout.ofSorted ids groupCount).span group).stop ≤ samples.length := by
  rw [Layout.span_ofSorted h.id_lt, h.aligned]
  exact (Layout.spanOf_bounds ids group).2

/-- In a group with samples, what is drawn, compared and labelled is there. -/
theorem Fittable.group_sound (h : Fittable samples ids groupCount dim) {ρ : Type} [RandomSource ρ]
    {group : Nat} (hgroup : group ∈ ids) (source : ρ) :
    (∀ chosen distances rest,
      KMeans.Course (Layout.owned group ids samples) source chosen distances rest →
        distances.length = (Layout.owned group ids samples).length ∧
          ∀ i ∈ chosen, i < (Layout.owned group ids samples).length) ∧
      ∀ k > 0, ∀ centroids,
        KMeans.seeds (Layout.owned group ids samples)
            (min k (Layout.owned group ids samples).length) source = .ok centroids →
          ∀ budget, (KMeans.refine (Layout.owned group ids samples) budget
            ⟨centroids, KMeans.assign (Layout.owned group ids samples) centroids⟩).1.Sound
              (Layout.owned group ids samples) dim
              (min k (Layout.owned group ids samples).length) := by
  have hpos : 0 < (Layout.owned group ids samples).length :=
    List.length_pos_of_ne_nil (h.owned_ne_nil hgroup)
  refine ⟨fun chosen distances rest hcourse =>
    ⟨hcourse.length_distances, hcourse.lt_length hpos⟩, fun k hk centroids hseeds budget => ?_⟩
  have hmin : 0 < min k (Layout.owned group ids samples).length := Nat.lt_min.mpr ⟨hk, hpos⟩
  have hdim : ∀ x ∈ Layout.owned group ids samples, x.length = dim := fun x hx =>
    h.length_eq x (Layout.mem_of_mem_owned hx)
  exact KMeans.refine_sound hmin budget (KMeans.seeds_sound hdim hpos hmin hseeds)

/-- **How runs on accepted input end.** Clustering ends with the labels of all samples, each of them
the position of a cluster; fitting ends with a mixture of the right shape for every group. Otherwise
a run has refused its settings, or in some group the squared distances to the seeds chosen so far
add up to infinity.

What is looked up on the way is there. The spans of groups lie within the samples. In a group with
samples, clustering draws positions of points, and in every refinement step there is a label for
each point, which is the position of a centroid, and centroids have the dimension of the samples.
Training draws different positions of samples to start from, and from the labels of its start on
everything it looks up is in range. -/
theorem fitting_ends (kernel : DensityKernel α F) (method : KMeans) (c : Config α)
    (entropy : UInt64) (executor : Executor) (h : Fittable samples ids groupCount dim) :
    (if method.clusterCount = 0 then
        method.fit entropy executor samples ids groupCount =
          .error (.invalidParameter .clusterCount)
      else
        (method.MeetsInfinity entropy samples ids groupCount →
          method.fit entropy executor samples ids groupCount = .error .infiniteWeight) ∧
        (¬method.MeetsInfinity entropy samples ids groupCount →
          ∃ fit, method.fit entropy executor samples ids groupCount = .ok fit ∧
            fit.labels.length = samples.length ∧
            ∀ label ∈ fit.labels, label < method.clusterCount)) ∧
    (match c.fault with
      | some fault => c.fitWith kernel entropy executor samples ids groupCount = .error fault
      | none =>
        (c.start = .labels ∧ c.clustering.MeetsInfinity entropy samples ids groupCount →
          c.fitWith kernel entropy executor samples ids groupCount = .error .infiniteWeight) ∧
        (¬(c.start = .labels ∧ c.clustering.MeetsInfinity entropy samples ids groupCount) →
          ∃ t, c.fitWith kernel entropy executor samples ids groupCount = .ok t ∧
            t.models.groupCount = groupCount ∧
            ∀ m ∈ t.models.mixtures, m.HasShape c.componentCount dim)) ∧
    ∀ group, ((Layout.ofSorted ids groupCount).span group).stop ≤ samples.length ∧
      (group ∈ ids → ∀ seed,
        (let points := Layout.owned group ids samples
          let source := Stage.init.source seed group
          (∀ chosen distances rest, KMeans.Course points source chosen distances rest →
            distances.length = points.length ∧ ∀ i ∈ chosen, i < points.length) ∧
          ∀ k > 0, ∀ centroids, KMeans.seeds points (min k points.length) source = .ok centroids →
            ∀ budget,
              (KMeans.refine points budget ⟨centroids, KMeans.assign points centroids⟩).1.Sound
                points dim (min k points.length)) ∧
        let p := c.training.groupProblem kernel samples ids dim group
        Distinct (min p.count p.size) p.size
            (distinctIndices p.size (min p.count p.size) (Stage.em.source seed group)).1 ∧
          (c.fault = none → ∀ labels start,
            c.training.startLabels samples.length labels = .ok start →
              p.InRange (c.training.groupLabels kernel seed samples ids dim start group))) := by
  refine ⟨?clustering, ?fitting, fun group => ⟨h.stop_span_le group, fun hgroup seed =>
    ⟨h.group_sound hgroup (Stage.init.source seed group), distinctIndices_spec (min_le_right _ _) _,
      fun hfault labels start hstart => ?training⟩⟩⟩
  case training =>
    have hvalid : c.training.validate = .ok () := (Config.validate_eq c).trans (by rw [hfault])
    exact Em.Settings.inRange_groupLabels h hvalid seed hstart hgroup
  case clustering =>
    rw [KMeans.fit_eq_of_fittable method entropy executor h]
    split
    next hk => rw [KMeans.fitLayout, if_pos hk]
    next hk =>
      rcases KMeans.fitLayout_outcome method entropy executor h hk with
        ⟨hoverflow, herror⟩ | ⟨hoverflow, fit, hfit⟩
      · exact ⟨fun _ => herror, fun hnot => absurd hoverflow hnot⟩
      · exact ⟨fun hyes => absurd hyes hoverflow, fun _ => ⟨fit, hfit,
          KMeans.length_labels h hk hfit, fun _ => KMeans.label_lt h hk hfit⟩⟩
  case fitting =>
    cases hfault : c.fault with
    | some fault =>
      refine Config.fitWith_of_rejection c kernel entropy executor ?_
      rw [Config.rejection, hfault, Option.some_or]
    | none =>
      have hvalid : c.validate = .ok () := by rw [Config.validate_eq, hfault]
      rcases Config.fitWith_of_accepted c kernel entropy executor hvalid h with
        ⟨hoverflow, herror⟩ | ⟨hoverflow, t, start, ht, hcollects⟩
      · exact ⟨fun _ => herror, fun hnot => absurd hoverflow hnot⟩
      · exact ⟨fun hyes => absurd hyes hoverflow,
          fun _ => ⟨t, ht, hcollects.groupCount_eq, hcollects.hasShape⟩⟩

/-- Three samples in two of three groups: clustering and fitting succeed, and training the last
group from one label reads what is there. -/
theorem fitting_ends_onLine :
    Fittable Config.onLine [0, 2, 2] 3 1 ∧
      (∃ fit, ({ clusterCount := 1 } : KMeans).fit 0 .sequential Config.onLine [0, 2, 2] 3 =
        .ok fit ∧ fit.labels.length = 3) ∧
      (∃ t, Config.oneComponent.fit 0 .sequential Config.onLine [0, 2, 2] 3 = .ok t ∧
        t.models.groupCount = 3) ∧
      ((Layout.ofSorted [0, 2, 2] 3).span 2).stop ≤ 3 ∧
      (Config.oneComponent.training.groupProblem .gaussian Config.onLine [0, 2, 2] 1 2).InRange
        [0, 0] := by
  have hreject : Config.oneComponent.rejection Config.onLine [0, 2, 2] 3 = none := by
    decide +kernel
  have hfittable := (Config.rejection_eq_none_iff.mp hreject).2
  have hnot : ∀ method : KMeans, method.clusterCount = 1 →
      ¬method.MeetsInfinity 0 Config.onLine [0, 2, 2] 3 :=
    fun method hk => KMeans.not_meetsInfinity_of_one method 0 hk
  have hstart : Config.oneComponent.training.startLabels 3 (some [0, 0, 0]) =
    .ok (some [0, 0, 0]) := rfl
  obtain ⟨hcluster, hfit, hgroups⟩ := fitting_ends DensityKernel.gaussian { clusterCount := 1 }
    Config.oneComponent 0 .sequential hfittable
  obtain ⟨fit, hok, hlength, -⟩ := hcluster.2 (hnot _ rfl)
  obtain ⟨t, ht, hcount, -⟩ := hfit.2 fun hboth => hnot _ rfl hboth.2
  obtain ⟨hspan, hgroup⟩ := hgroups 2
  obtain ⟨-, -, htraining⟩ := hgroup (by decide) 7
  exact ⟨hfittable, ⟨fit, hok, hlength⟩, ⟨t, ht, hcount⟩, hspan,
    htraining (by decide +kernel) _ _ hstart⟩

/-- Two samples whose squared distance is larger than the largest double. -/
def farApart : List (Point Float) := [[0], [1e200]]

/-- Whichever sample is drawn first, the second seed cannot be drawn. -/
theorem fit_farApart :
    Fittable farApart [0, 0] 1 1 ∧ ∀ seed entropy executor,
      ({ clusterCount := 2, seed } : KMeans).fit entropy executor farApart [0, 0] 1 =
        .error .infiniteWeight := by
  have hreject : inputRejection farApart [0, 0] 1 = none := by decide +kernel
  have hfittable : Fittable farApart [0, 0] 1 1 := fittable_iff.mpr ⟨hreject, rfl⟩
  refine ⟨hfittable, fun seed entropy executor => ?_⟩
  have howned : Layout.owned 0 [0, 0] farApart = farApart := rfl
  have hdistances : ∀ i < 2, WeightedChoice.fault?
      (farApart.map fun p => Point.squaredDistance p (farApart.getD i [])) =
        some .infiniteTotal := by
    decide +kernel
  set method : KMeans := { clusterCount := 2, seed }
  have hmeets : method.MeetsInfinity entropy farApart [0, 0] 1 := by
    refine ⟨0, Nat.one_pos, _, _, _, .first, ?_, ?_⟩
    · exact (by decide : 1 < min 2 (Layout.owned 0 [0, 0] farApart).length)
    · rw [howned, ← WeightedChoice.fault?_eq_infiniteTotal_iff]
      exact hdistances _ (uniformBelow_lt (by decide) _)
  rw [KMeans.fit_eq_of_fittable method entropy executor hfittable]
  rcases KMeans.fitLayout_outcome method entropy executor hfittable (Nat.succ_ne_zero 1) with
    ⟨-, herror⟩ | ⟨hoverflow, -⟩
  · exact herror
  · exact absurd hmeets hoverflow

end Mixtures
