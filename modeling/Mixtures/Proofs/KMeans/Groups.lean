import Mixtures.Proofs.Group.Samples
import Mixtures.Proofs.KMeans.Seeding

/-!
# Clustering all groups

Groups are clustered one by one, and the labels of all groups are put together in group order. On
input that passes the checks they are aligned with the samples, so that cutting them by group gives
the labels of each group back.

* `fitLayout_eq_ok_iff`: what a clustering consists of.
* `owned_labels`: the labels of a group are found again among the labels of all samples.
-/

namespace Mixtures.KMeans

variable {α : Type} [Scalar α]

section Tasks

variable {β ε : Type}

/-- Results in order are all there, or one of them is an error and the first error is
the outcome. -/
theorem mapM_id_outcome (results : List (Except ε β)) :
    (∃ values, results = values.map .ok ∧ results.mapM id = .ok values) ∨
      ∃ e, .error e ∈ results ∧ results.mapM id = .error e := by
  induction results with
  | nil => exact .inl ⟨[], rfl, rfl⟩
  | cons result results ih =>
    rw [List.mapM_cons]
    cases result with
    | error e => exact .inr ⟨e, List.mem_cons_self, rfl⟩
    | ok value =>
      rcases ih with ⟨values, hvalues, hok⟩ | ⟨e, hmem, herror⟩
      · refine .inl ⟨value :: values, by rw [hvalues, List.map_cons], ?_⟩
        rw [hok]
        rfl
      · refine .inr ⟨e, List.mem_cons_of_mem _ hmem, ?_⟩
        rw [herror]
        rfl

/-- Results in order are all there exactly if every one of them is. -/
theorem mapM_id_eq_ok_iff {results : List (Except ε β)} {values : List β} :
    results.mapM id = .ok values ↔ results = values.map .ok := by
  rcases mapM_id_outcome results with ⟨found, hfound, hok⟩ | ⟨e, hmem, herror⟩
  · rw [hok, hfound, List.map_inj_right fun _ _ => Except.ok.inj]
    exact ⟨Except.ok.inj, congrArg _⟩
  · rw [herror]
    refine ⟨nofun, fun h => ?_⟩
    rw [h] at hmem
    obtain ⟨value, -, hvalue⟩ := List.mem_map.mp hmem
    cases hvalue

/-- Results in order fail with one of them. -/
theorem mem_of_mapM_id_eq_error {results : List (Except ε β)} {e : ε}
    (h : results.mapM id = .error e) : .error e ∈ results := by
  rcases mapM_id_outcome results with ⟨found, -, hok⟩ | ⟨first, hmem, herror⟩
  · rw [h] at hok
    cases hok
  · rw [h] at herror
    cases herror
    exact hmem

end Tasks

variable (method : KMeans) (entropy : UInt64) (executor : Executor) {samples : List (Point α)}
  {ids : List Nat} {groupCount dim : Nat}

/-- The clustering of one group: that of its own samples, with the random stream of the group. -/
def groupFit (method : KMeans) (entropy : UInt64) (samples : List (Point α)) (ids : List Nat)
    (group : Nat) : Except Error (GroupFit α) :=
  fitGroup (Layout.owned group ids samples) method.clusterCount method.maxIterations
    (Stage.init.source (method.seed.getD entropy) group)

/-- In some group, squared distances add up to infinity before there are enough seeds. -/
def MeetsInfinity (method : KMeans) (entropy : UInt64) (samples : List (Point α)) (ids : List Nat)
    (groupCount : Nat) : Prop :=
  ∃ group < groupCount, ∃ chosen distances rest,
    Course (Layout.owned group ids samples)
        (Stage.init.source (method.seed.getD entropy) group) chosen distances rest ∧
      chosen.length < min method.clusterCount (Layout.owned group ids samples).length ∧
      WeightedChoice.AddUpToInfinity distances

/-- This is where the seeding of a group fails. -/
theorem meetsInfinity_iff :
    method.MeetsInfinity entropy samples ids groupCount ↔ ∃ group < groupCount,
      seeds (Layout.owned group ids samples)
          (min method.clusterCount (Layout.owned group ids samples).length)
          (Stage.init.source (method.seed.getD entropy) group) =
        .error .infiniteWeight := by
  simp only [MeetsInfinity, seeds_eq_error_iff, WeightedChoice.fault?_eq_infiniteTotal_iff]

theorem not_meetsInfinity_of_one (hk : method.clusterCount = 1) :
    ¬method.MeetsInfinity entropy samples ids groupCount := by
  rintro ⟨group, -, chosen, distances, rest, hcourse, hlt, -⟩
  have hpos := hcourse.length_pos
  omega

/-- Only the seed and the groups matter: not how the tasks are run, and not the entropy once a seed
is fixed. -/
theorem fitLayout_congr {entropy₁ entropy₂ : UInt64}
    (hseed : method.seed.getD entropy₁ = method.seed.getD entropy₂)
    (executor₁ executor₂ : Executor) (samples : List (Point α)) (layout : Layout) :
    method.fitLayout entropy₁ executor₁ samples layout =
      method.fitLayout entropy₂ executor₂ samples layout := by
  unfold fitLayout
  simp only [executor₁.mapGroups_eq, executor₂.mapGroups_eq, hseed]

/-- Groups are clustered each by itself, on its own samples, whatever the executor. -/
theorem fitLayout_eq (h : Fittable samples ids groupCount dim) (hk : method.clusterCount ≠ 0) :
    method.fitLayout entropy executor samples (Layout.ofSorted ids groupCount) =
      (((List.range groupCount).map (method.groupFit entropy samples ids)).mapM id).map
        fun groups => { labels := groups.flatMap (·.labels), groups } := by
  have htask : (fun group => fitGroup ((Layout.ofSorted ids groupCount).slice group samples)
      method.clusterCount method.maxIterations
        (Stage.init.source (method.seed.getD entropy) group)) =
      method.groupFit entropy samples ids := by
    funext group
    rw [h.slice_eq, groupFit]
  rw [fitLayout, if_neg hk]
  dsimp only
  rw [htask, Layout.groupCount_ofSorted, executor.mapGroups_eq]
  cases ((List.range groupCount).map (method.groupFit entropy samples ids)).mapM id <;> rfl

/-- The clusters of all groups are those of each group, with the labels in group order. -/
theorem fitLayout_eq_ok_iff (h : Fittable samples ids groupCount dim)
    (hk : method.clusterCount ≠ 0) {fit : Fit α} :
    method.fitLayout entropy executor samples (Layout.ofSorted ids groupCount) = .ok fit ↔
      (List.range groupCount).map (method.groupFit entropy samples ids) = fit.groups.map .ok ∧
        fit.labels = fit.groups.flatMap (·.labels) := by
  rw [fitLayout_eq method entropy executor h hk, ← mapM_id_eq_ok_iff]
  cases ((List.range groupCount).map (method.groupFit entropy samples ids)).mapM id with
  | error e => simp [Except.map]
  | ok groups =>
    obtain ⟨labels, groups'⟩ := fit
    simp only [Except.map, Except.ok.injEq, Fit.mk.injEq]
    constructor
    · rintro ⟨rfl, rfl⟩
      exact ⟨rfl, rfl⟩
    · rintro ⟨rfl, rfl⟩
      exact ⟨rfl, rfl⟩

/-- Clustering accepted input fails exactly where squared distances add up to infinity. -/
theorem fitLayout_outcome (h : Fittable samples ids groupCount dim)
    (hk : method.clusterCount ≠ 0) :
    (method.MeetsInfinity entropy samples ids groupCount ∧
        method.fitLayout entropy executor samples (Layout.ofSorted ids groupCount) =
          .error .infiniteWeight) ∨
      (¬method.MeetsInfinity entropy samples ids groupCount ∧
        ∃ fit, method.fitLayout entropy executor samples (Layout.ofSorted ids groupCount) =
          .ok fit) := by
  have hpos : 0 < method.clusterCount := Nat.pos_of_ne_zero hk
  have hgroup := fun group => fitGroup_outcome (Layout.owned group ids samples) hpos
    method.maxIterations (Stage.init.source (method.seed.getD entropy) group)
  rw [fitLayout_eq method entropy executor h hk, meetsInfinity_iff]
  cases hall : ((List.range groupCount).map (method.groupFit entropy samples ids)).mapM id with
  | error e =>
    obtain ⟨group, hmem, hfit⟩ := List.mem_map.mp (mem_of_mapM_id_eq_error hall)
    rcases hgroup group with ⟨hseeds, herror⟩ | ⟨-, fit, hok, -⟩
    · left
      refine ⟨⟨group, List.mem_range.mp hmem, hseeds⟩, ?_⟩
      rw [groupFit, herror] at hfit
      cases hfit
      rfl
    · rw [groupFit, hok] at hfit
      cases hfit
  | ok groups =>
    right
    refine ⟨?_, _, rfl⟩
    rintro ⟨group, hlt, hseeds⟩
    -- a group whose seeding fails has no fit among those that were found
    rcases hgroup group with ⟨-, herror⟩ | ⟨hne, -⟩
    · have hmem : method.groupFit entropy samples ids group ∈ groups.map .ok := by
        rw [← mapM_id_eq_ok_iff.mp hall]
        exact List.mem_map_of_mem (List.mem_range.mpr hlt)
      obtain ⟨fit, -, hfit⟩ := List.mem_map.mp hmem
      rw [groupFit, herror] at hfit
      cases hfit
    · exact hne hseeds

/-- Clustering samples and ids ends with the first thing that is wrong with them, or is the
clustering of their groups. -/
theorem fit_eq (samples : List (Point α)) (ids : List Nat) (groupCount : Nat) :
    method.fit entropy executor samples ids groupCount =
      match inputRejection samples ids groupCount with
      | some e => .error e
      | none => method.fitLayout entropy executor samples (Layout.ofSorted ids groupCount) :=
  checks_bind samples ids groupCount fun _ layout =>
    method.fitLayout entropy executor samples layout

theorem fit_eq_of_fittable (h : Fittable samples ids groupCount dim) :
    method.fit entropy executor samples ids groupCount =
      method.fitLayout entropy executor samples (Layout.ofSorted ids groupCount) := by
  rw [fit_eq, (fittable_iff.mp h).1]

/-- Clustering fittable input into one cluster for each group never fails. -/
theorem exists_fit_of_one (h : Fittable samples ids groupCount dim) (hk : method.clusterCount = 1) :
    ∃ fit, method.fit entropy executor samples ids groupCount = .ok fit := by
  rw [fit_eq_of_fittable method entropy executor h]
  rcases fitLayout_outcome method entropy executor h (by omega) with ⟨hoverflow, -⟩ | ⟨-, hfit⟩
  · exact absurd hoverflow (not_meetsInfinity_of_one method entropy hk)
  · exact hfit

/-- A clustering that succeeds has passed the checks of the samples, of the ids and of the number of
clusters. -/
theorem checks_of_fit_eq_ok {method : KMeans} {entropy : UInt64} {executor : Executor}
    {fit : Fit α} (h : method.fit entropy executor samples ids groupCount = .ok fit) :
    ∃ dim, Fittable samples ids groupCount dim ∧ method.clusterCount ≠ 0 ∧
      method.fitLayout entropy executor samples (Layout.ofSorted ids groupCount) = .ok fit := by
  rw [fit_eq] at h
  cases hreject : inputRejection samples ids groupCount with
  | some e =>
    rw [hreject] at h
    cases h
  | none =>
    rw [hreject] at h
    refine ⟨_, fittable_iff.mpr ⟨hreject, rfl⟩, fun hk => ?_, h⟩
    rw [fitLayout, if_pos hk] at h
    cases h

section Fits

variable {method entropy executor} {fit : Fit α} (h : Fittable samples ids groupCount dim)
  (hk : method.clusterCount ≠ 0)
  (hfit : method.fitLayout entropy executor samples (Layout.ofSorted ids groupCount) = .ok fit)

include h hk hfit

theorem length_groups : fit.groups.length = groupCount := by
  have hgroups := ((fitLayout_eq_ok_iff method entropy executor h hk).mp hfit).1
  simpa using (congrArg List.length hgroups).symm

/-- The fit of a group is that of its own samples. -/
theorem groupFit_eq_ok {group : Nat} (hgroup : group < fit.groups.length) :
    method.groupFit entropy samples ids group = .ok fit.groups[group] := by
  have hlen := length_groups h hk hfit
  have hgroups := ((fitLayout_eq_ok_iff method entropy executor h hk).mp hfit).1
  have hget := congrArg (fun results => results[group]?) hgroups
  rw [List.getElem?_map, List.getElem?_map, List.getElem?_range (by omega),
    List.getElem?_eq_getElem hgroup] at hget
  exact Option.some.inj hget

/-- The clustering of a group has the right form. -/
theorem group_fits {group : Nat} (hgroup : group < fit.groups.length) :
    Clustering.Fits (Layout.owned group ids samples)
      (min method.clusterCount (Layout.owned group ids samples).length)
      ⟨fit.groups[group].centroids, fit.groups[group].labels⟩ := by
  have hok := groupFit_eq_ok h hk hfit hgroup
  rcases fitGroup_outcome (Layout.owned group ids samples) (Nat.pos_of_ne_zero hk)
    method.maxIterations (Stage.init.source (method.seed.getD entropy) group) with
    ⟨-, herror⟩ | ⟨-, found, hfound, hfits⟩
  · rw [groupFit, herror] at hok
    cases hok
  · rw [groupFit, hfound] at hok
    cases hok
    exact hfits

/-- Each group has as many labels as samples. -/
theorem length_group_labels :
    (fit.groups.map (·.labels)).map List.length =
      (List.range groupCount).map fun group => ids.count group := by
  have hlen := length_groups h hk hfit
  apply List.ext_getElem (by simp [hlen])
  intro group hleft hright
  have hgroup : group < fit.groups.length := by simpa using hleft
  have hlabels := (group_fits h hk hfit hgroup).labelCount
  rw [Layout.length_owned h.aligned] at hlabels
  simpa using hlabels

/-- **Realignment**: the labels of all samples, cut by group, are the labels of each group. -/
theorem owned_labels {group : Nat} (hgroup : group < fit.groups.length) :
    Layout.owned group ids fit.labels = fit.groups[group].labels := by
  have hlabels := ((fitLayout_eq_ok_iff method entropy executor h hk).mp hfit).2
  have hpart : group < (fit.groups.map (·.labels)).length := by simpa using hgroup
  have hcut := Layout.owned_flatten h.sorted (length_group_labels h hk hfit) hpart
  rw [hlabels, List.flatMap_def, hcut, List.getElem_map]

/-- There is one label for each sample. -/
theorem length_labels : fit.labels.length = samples.length := by
  have hlabels := ((fitLayout_eq_ok_iff method entropy executor h hk).mp hfit).2
  rw [hlabels, List.flatMap_def, h.aligned]
  exact Layout.length_flatten h.id_lt (length_group_labels h hk hfit)

/-- All labels are below the number of clusters. -/
theorem label_lt {label : Nat} (hlabel : label ∈ fit.labels) : label < method.clusterCount := by
  rw [((fitLayout_eq_ok_iff method entropy executor h hk).mp hfit).2] at hlabel
  obtain ⟨groupFit, hmem, hlabel⟩ := List.mem_flatMap.mp hlabel
  obtain ⟨group, hgroup, rfl⟩ := List.mem_iff_getElem.mp hmem
  exact Nat.lt_of_lt_of_le ((group_fits h hk hfit hgroup).label_lt label hlabel)
    (Nat.min_le_left _ _)

end Fits

end Mixtures.KMeans
