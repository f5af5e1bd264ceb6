import Mixtures.Proofs.KMeans.Groups
import Mixtures.Proofs.KMeans.Seeding

/-!
# The labels that belong to the centroids

A refinement step moves the centroids first and labels the points afterwards, so the labels are at
all times those of the centroids they stand beside. This holds where refinement begins and is kept
by every step, so it does not matter whether labels that repeat or the budget ended it.

* `refine_assigned`: labels and centroids belong together after any number of steps.
* `fitGroup_partitions`: the clusters of one group, whatever was drawn.
* `labels_nearest`: the labels of all samples, cut by group.
-/

namespace Mixtures.KMeans

variable {α ρ : Type} [Scalar α] [RandomSource ρ] {points : List (Point α)}

/-- The labels of a clustering belong to its centroids: each point has that of the nearest one. -/
def Clustering.Assigned (points : List (Point α)) (c : Clustering α) : Prop :=
  c.labels = assign points c.centroids

/-- Whatever the labels were, a step leaves those of the centroids that it moved. -/
theorem step_assigned (points : List (Point α)) (c : Clustering α) :
    (step points c).Assigned points := rfl

/-- Refinement ends with labels that belong to the centroids, even where it takes no step. -/
theorem refine_assigned (budget : Nat) {c : Clustering α} (h : c.Assigned points) :
    (refine points budget c).1.Assigned points :=
  refine_preserves (Clustering.Assigned points) (fun c _ => step_assigned points c) budget h

/-- A computation of which something is seen has succeeded. -/
theorem exists_ok_of_toOption {ε β γ : Type} {result : Except ε β} {f : β → γ} {y : γ}
    (h : result.toOption.map f = some y) : ∃ value, result = .ok value ∧ f value = y := by
  cases result with
  | error e => cases h
  | ok value => exact ⟨value, rfl, Option.some.inj h⟩

/-- What the clusters of points are, for up to `k` clusters: one centroid for each cluster, or for
each point if there are fewer, and for each point the label of the nearest of them. -/
structure GroupFit.Partitions (points : List (Point α)) (k dim : Nat) (fit : GroupFit α) :
    Prop where
  centroidCount : fit.centroids.length = min k points.length
  length_eq : ∀ centroid ∈ fit.centroids, centroid.length = dim
  label_lt : ∀ label ∈ fit.labels, label < min k points.length
  labels_eq : fit.labels = points.map fun x => Point.nearestIndex x fit.centroids

/-- The clusters of a group, from any source of random words and with any budget. -/
theorem fitGroup_partitions {k budget dim : Nat} {source : ρ} {fit : GroupFit α} (hk : 0 < k)
    (hdim : ∀ x ∈ points, x.length = dim) (h : fitGroup points k budget source = .ok fit) :
    fit.Partitions points k dim := by
  by_cases hpoints : points = []
  · subst hpoints
    obtain rfl : ⟨[], [], 0⟩ = fit := Except.ok.inj h
    exact ⟨by simp, by simp, by simp, rfl⟩
  · obtain ⟨centroids, hseeds, rfl⟩ := (fitGroup_eq_ok_iff hpoints).mp h
    have hpos : 0 < points.length := List.length_pos_of_ne_nil hpoints
    have hcount : 0 < min k points.length := by omega
    have hsound := refine_sound hcount budget (seeds_sound hdim hpos hcount hseeds)
    exact ⟨hsound.fits.centroidCount, hsound.length_eq, hsound.fits.label_lt,
      refine_assigned budget rfl⟩

/-- **Labels are those of the nearest centroids.** There is one label for each sample. Cut at the
span of a group they are the labels that the group was given by itself, and these belong to the
centroids of the group: as many as asked for, or as the group has samples. For the clusters of one
group all this holds whatever words are drawn. -/
theorem labels_nearest :
    (∀ (method : KMeans) (entropy : UInt64) (executor : Executor) (samples : List (Point α))
        (ids : List Nat) (groupCount : Nat) (fit : Fit α),
      method.fit entropy executor samples ids groupCount = .ok fit →
        fit.labels.length = samples.length ∧ fit.groups.length = groupCount ∧
          ∃ layout dim, Layout.ofIds ids groupCount = .ok layout ∧
            (∀ x ∈ samples, x.length = dim) ∧
            ∀ (group : Nat) (hgroup : group < fit.groups.length),
              layout.slice group fit.labels = fit.groups[group].labels ∧
                fit.groups[group].Partitions (layout.slice group samples) method.clusterCount
                  dim) ∧
      ∀ (ρ : Type) [RandomSource ρ] (points : List (Point α)) (k budget dim : Nat) (source : ρ)
        (fit : GroupFit α), 0 < k → (∀ x ∈ points, x.length = dim) →
          fitGroup points k budget source = .ok fit → fit.Partitions points k dim := by
  refine ⟨?_, fun ρ _ points k budget dim source fit hk hdim => fitGroup_partitions hk hdim⟩
  intro method entropy executor samples ids groupCount fit hfit
  obtain ⟨dim, h, hk, hlayout⟩ := checks_of_fit_eq_ok hfit
  refine ⟨length_labels h hk hlayout, length_groups h hk hlayout, .ofSorted ids groupCount, dim,
    Layout.ofIds_eq_ok_iff.mpr ⟨⟨h.id_lt, h.sorted⟩, rfl⟩, h.length_eq, ?_⟩
  intro group hgroup
  rw [h.slice_eq, h.slice_eq]
  have howned : ∀ x ∈ Layout.owned group ids samples, x.length = dim := fun x hx =>
    h.length_eq x (Layout.mem_of_mem_owned hx)
  exact ⟨owned_labels h hk hlayout hgroup,
    fitGroup_partitions (Nat.pos_of_ne_zero hk) howned (groupFit_eq_ok h hk hlayout hgroup)⟩

/-- Two samples on a line and one far away from them. -/
def pairAndOutlier : List (Point Float) := [[0], [1], [9]]

theorem labels_nearest_pairAndOutlier :
    (∃ fit layout, ({ clusterCount := 2, seed := some 7 } : KMeans).fit 0 .sequential
          ([5] :: pairAndOutlier) [0, 2, 2, 2] 3 = .ok fit ∧ fit.labels = [0, 1, 1, 0] ∧
        Layout.ofIds [0, 2, 2, 2] 3 = .ok layout ∧
        ∀ (group : Nat) (hgroup : group < fit.groups.length),
          layout.slice group fit.labels = fit.groups[group].labels ∧
            fit.groups[group].Partitions (layout.slice group ([5] :: pairAndOutlier)) 2 1) ∧
      ∃ fit, fitGroup pairAndOutlier 2 0 ({ words := [3] } : WordList) = .ok fit ∧
        fit.labels = [0, 1, 1] ∧ fit.Partitions pairAndOutlier 2 1 := by
  constructor
  · have hrun : (({ clusterCount := 2, seed := some 7 } : KMeans).fit 0 .sequential
        ([5] :: pairAndOutlier) [0, 2, 2, 2] 3).toOption.map (·.labels) = some [0, 1, 1, 0] := by
      decide +kernel
    obtain ⟨fit, hfit, hlabels⟩ := exists_ok_of_toOption hrun
    obtain ⟨-, -, layout, dim, hlayout, hdim, hgroups⟩ := labels_nearest.1 _ _ _ _ _ _ _ hfit
    obtain rfl := hdim [5] List.mem_cons_self
    exact ⟨fit, layout, hfit, hlabels, hlayout, hgroups⟩
  · have hrun : (fitGroup pairAndOutlier 2 0 ({ words := [3] } : WordList)).toOption.map
        (·.labels) = some [0, 1, 1] := by
      decide +kernel
    obtain ⟨fit, hfit, hlabels⟩ := exists_ok_of_toOption hrun
    refine ⟨fit, hfit, hlabels, ?_⟩
    exact labels_nearest.2 _ _ _ _ _ _ _ (by decide) (by simp [pairAndOutlier]) hfit

end Mixtures.KMeans
