import Mixtures.Group.Sort
import Mixtures.Proofs.Group.Layout

/-!
# Sorting by group is stable grouping

Sorting brings samples into an order that a layout accepts, and it does nothing else to them: what
belongs to a group stays together, complete and in order. The samples of the groups, one group
after the other, are therefore all that the sorted lists depend on.

* `filter_sortedPairs`: the entries of one id come out as they went in.
* `eq_of_filter_eq`: lists that are sorted by id and have the same entries of each id are equal.
* `sortByGroup_groups`: sorting followed by reading the layout cuts out the samples of each group,
  forgets how the groups were interleaved, and changes nothing when it is repeated.
-/

namespace Mixtures

variable {β : Type}

/-! ## Pairs in the order of their ids -/

/-- The pairs of id and sample in the order of their ids, as sorting by group arranges them. -/
def sortedPairs (ids : List Nat) (samples : List β) : List (Nat × β) :=
  (ids.zip samples).mergeSort fun p q => decide (p.1 ≤ q.1)

private theorem idLE_trans (p q r : Nat × β) :
    decide (p.1 ≤ q.1) = true → decide (q.1 ≤ r.1) = true → decide (p.1 ≤ r.1) = true := by
  simp only [decide_eq_true_eq]
  exact Nat.le_trans

private theorem idLE_total (p q : Nat × β) :
    (decide (p.1 ≤ q.1) || decide (q.1 ≤ p.1)) = true := by
  simpa using Nat.le_total p.1 q.1

theorem sortByGroup_eq_sortedPairs {samples : List β} {ids : List Nat}
    (h : samples.length = ids.length) :
    sortByGroup samples ids =
      .ok ((sortedPairs ids samples).map (·.2), (sortedPairs ids samples).map (·.1)) := by
  rw [sortByGroup, if_pos h, sortedPairs]

theorem sortedPairs_perm (ids : List Nat) (samples : List β) :
    (sortedPairs ids samples).Perm (ids.zip samples) :=
  List.mergeSort_perm _ _

theorem pairwise_sortedPairs (ids : List Nat) (samples : List β) :
    (sortedPairs ids samples).Pairwise fun p q => p.1 ≤ q.1 := by
  have h := List.pairwise_mergeSort idLE_trans idLE_total (ids.zip samples)
  rw [sortedPairs]
  simpa only [decide_eq_true_eq] using h

/-- **Stability**: the entries of one id keep their order. They are sorted by id as they stand, so
they are found again, in this order, among the sorted pairs; and there are no others. -/
theorem filter_sortedPairs (ids : List Nat) (samples : List β) (group : Nat) :
    (sortedPairs ids samples).filter (·.1 == group) = (ids.zip samples).filter (·.1 == group) := by
  have hsorted : ((ids.zip samples).filter (·.1 == group)).Pairwise
      fun p q => decide (p.1 ≤ q.1) = true := by
    rw [List.pairwise_filter]
    refine List.pairwise_of_forall fun p q hp hq => ?_
    simp_all
  have hfound : ((ids.zip samples).filter (·.1 == group)).Sublist (sortedPairs ids samples) :=
    List.sublist_mergeSort idLE_trans idLE_total hsorted List.filter_sublist
  have hkept := hfound.filter (·.1 == group)
  rw [List.filter_filter] at hkept
  simp only [Bool.and_self] at hkept
  have hlength := ((sortedPairs_perm ids samples).filter (·.1 == group)).length_eq
  exact (hkept.eq_of_length hlength.symm).symm

private theorem mem_iff_of_filter_eq {l₁ l₂ : List (Nat × β)}
    (h : ∀ group, l₁.filter (·.1 == group) = l₂.filter (·.1 == group)) (p : Nat × β) :
    p ∈ l₁ ↔ p ∈ l₂ := by
  have hp : p ∈ l₁.filter (·.1 == p.1) ↔ p ∈ l₂.filter (·.1 == p.1) := by rw [h]
  simpa using hp

/-- Two lists that are sorted by id and have the same entries of each id are equal. -/
theorem eq_of_filter_eq {l₁ l₂ : List (Nat × β)} (h₁ : l₁.Pairwise fun p q => p.1 ≤ q.1)
    (h₂ : l₂.Pairwise fun p q => p.1 ≤ q.1)
    (h : ∀ group, l₁.filter (·.1 == group) = l₂.filter (·.1 == group)) : l₁ = l₂ := by
  induction l₁ generalizing l₂ with
  | nil =>
    cases l₂ with
    | nil => rfl
    | cons q l₂ =>
      exact absurd ((mem_iff_of_filter_eq h q).mpr List.mem_cons_self) List.not_mem_nil
  | cons p l₁ ih =>
    cases l₂ with
    | nil => exact absurd ((mem_iff_of_filter_eq h p).mp List.mem_cons_self) List.not_mem_nil
    | cons q l₂ =>
      obtain ⟨hp, htail₁⟩ := List.pairwise_cons.mp h₁
      obtain ⟨hq, htail₂⟩ := List.pairwise_cons.mp h₂
      -- each head is an entry of the other list, and no entry there has a smaller id than its head
      have hpq : p.1 ≤ q.1 := by
        rcases List.mem_cons.mp ((mem_iff_of_filter_eq h q).mpr List.mem_cons_self) with rfl | hmem
        · exact Nat.le_refl _
        · exact hp q hmem
      have hqp : q.1 ≤ p.1 := by
        rcases List.mem_cons.mp ((mem_iff_of_filter_eq h p).mp List.mem_cons_self) with rfl | hmem
        · exact Nat.le_refl _
        · exact hq p hmem
      have hheads := h p.1
      rw [List.filter_cons_of_pos (by simp),
        List.filter_cons_of_pos (by simpa using Nat.le_antisymm hqp hpq)] at hheads
      obtain ⟨rfl, -⟩ := List.cons.inj hheads
      congr 1
      refine ih htail₁ htail₂ fun group => ?_
      have hgroup := h group
      rw [List.filter_cons, List.filter_cons] at hgroup
      split at hgroup
      · exact (List.cons.inj hgroup).2
      · exact hgroup

/-! ## Sorted samples and their groups -/

theorem zip_sortedPairs (ids : List Nat) (samples : List β) :
    ((sortedPairs ids samples).map (·.1)).zip ((sortedPairs ids samples).map (·.2)) =
      sortedPairs ids samples := by
  have h := List.zip_unzip (sortedPairs ids samples)
  rwa [List.unzip_eq_map] at h

theorem pairwise_ids_sortedPairs (ids : List Nat) (samples : List β) :
    ((sortedPairs ids samples).map (·.1)).Pairwise (· ≤ ·) :=
  List.pairwise_map.mpr (pairwise_sortedPairs ids samples)

/-- Sorting keeps what belongs to a group. -/
theorem owned_sortedPairs (ids : List Nat) (samples : List β) (group : Nat) :
    Layout.owned group ((sortedPairs ids samples).map (·.1)) ((sortedPairs ids samples).map (·.2)) =
      Layout.owned group ids samples := by
  rw [Layout.owned, zip_sortedPairs, filter_sortedPairs, Layout.owned]

theorem mem_ids_sortedPairs {samples : List β} {ids : List Nat} (h : samples.length = ids.length)
    {id : Nat} : id ∈ (sortedPairs ids samples).map (·.1) ↔ id ∈ ids := by
  rw [((sortedPairs_perm ids samples).map (·.1)).mem_iff, List.map_fst_zip (by omega)]

/-- An entry of a group is a pair of its id and one of its samples. -/
theorem filter_zip_eq_map_owned (group : Nat) (ids : List Nat) (samples : List β) :
    (ids.zip samples).filter (·.1 == group) =
      (Layout.owned group ids samples).map fun x => (group, x) := by
  have hentry : ∀ entry ∈ (ids.zip samples).filter (·.1 == group), entry = (group, entry.2) := by
    intro entry hmem
    have hid : entry.1 = group := by simpa using (List.mem_filter.mp hmem).2
    rw [← hid]
  rw [Layout.owned, List.map_map]
  exact (List.map_id _).symm.trans (List.map_congr_left hentry)

/-- The sorted pairs depend on the samples of each group only. -/
theorem sortedPairs_congr {ids₁ ids₂ : List Nat} {samples₁ samples₂ : List β}
    (h : ∀ group, Layout.owned group ids₁ samples₁ = Layout.owned group ids₂ samples₂) :
    sortedPairs ids₁ samples₁ = sortedPairs ids₂ samples₂ := by
  apply eq_of_filter_eq (pairwise_sortedPairs ids₁ samples₁) (pairwise_sortedPairs ids₂ samples₂)
  intro group
  rw [filter_sortedPairs, filter_sortedPairs, filter_zip_eq_map_owned, filter_zip_eq_map_owned, h]

/-- The ids of sorted samples have a layout exactly if none of the ids is too large. -/
theorem exists_layout_iff {samples : List β} {ids : List Nat} (h : samples.length = ids.length)
    (groupCount : Nat) :
    (∃ layout, Layout.ofIds ((sortedPairs ids samples).map (·.1)) groupCount = .ok layout) ↔
      ∀ id ∈ ids, id < groupCount := by
  have hsorted := pairwise_ids_sortedPairs ids samples
  have hnone : Layout.rejection groupCount ((sortedPairs ids samples).map (·.1)) = none ↔
      ∀ id ∈ ids, id < groupCount := by
    simp only [Layout.rejection_eq_none_iff, mem_ids_sortedPairs h, hsorted, and_true]
  rw [← hnone, Layout.ofIds_eq]
  cases Layout.rejection groupCount ((sortedPairs ids samples).map (·.1)) <;> simp

/-- The layout of sorted samples cuts out what belongs to each group, as it was before sorting. -/
theorem slice_sortedPairs {ids : List Nat} {samples : List β} {groupCount : Nat} {layout : Layout}
    (h : Layout.ofIds ((sortedPairs ids samples).map (·.1)) groupCount = .ok layout)
    (group : Nat) :
    layout.slice group ((sortedPairs ids samples).map (·.2)) = Layout.owned group ids samples := by
  rw [Layout.ofIds_eq] at h
  cases hreject : Layout.rejection groupCount ((sortedPairs ids samples).map (·.1)) with
  | some e =>
    rw [hreject] at h
    cases h
  | none =>
    rw [hreject] at h
    cases h
    obtain ⟨hlt, hsorted⟩ := Layout.rejection_eq_none_iff.mp hreject
    rw [Layout.slice_ofSorted hlt hsorted, owned_sortedPairs]

/-- **Sorting by group is stable grouping.** Samples that are aligned with their ids are sorted: the
pairs are a permutation of the given ones, in the order of their ids. Their ids have a layout
exactly if none is too large, and then the span of each group holds the samples of that group, in
the order in which they were given. Nothing else of the input matters: samples that are interleaved
otherwise, with the same samples in every group, come out the same, and so do the sorted ones. -/
theorem sortByGroup_groups (samples : List β) (ids : List Nat)
    (haligned : samples.length = ids.length) :
    ∃ sorted sortedIds, sortByGroup samples ids = .ok (sorted, sortedIds) ∧
      sorted.length = sortedIds.length ∧
      (sortedIds.zip sorted).Perm (ids.zip samples) ∧
      sortedIds.Pairwise (· ≤ ·) ∧
      (∀ groupCount,
        ((∃ layout, Layout.ofIds sortedIds groupCount = .ok layout) ↔
          ∀ id ∈ ids, id < groupCount) ∧
        ∀ layout, Layout.ofIds sortedIds groupCount = .ok layout →
          ∀ group, layout.slice group sorted = Layout.owned group ids samples) ∧
      (∀ (otherSamples : List β) (otherIds : List Nat), otherSamples.length = otherIds.length →
        (∀ group, Layout.owned group otherIds otherSamples = Layout.owned group ids samples) →
        sortByGroup otherSamples otherIds = .ok (sorted, sortedIds)) ∧
      sortByGroup sorted sortedIds = .ok (sorted, sortedIds) := by
  have hlength : ((sortedPairs ids samples).map (·.2)).length =
      ((sortedPairs ids samples).map (·.1)).length := by
    rw [List.length_map, List.length_map]
  have hsame : ∀ (otherSamples : List β) (otherIds : List Nat),
      otherSamples.length = otherIds.length →
      (∀ group, Layout.owned group otherIds otherSamples = Layout.owned group ids samples) →
      sortByGroup otherSamples otherIds =
        .ok ((sortedPairs ids samples).map (·.2), (sortedPairs ids samples).map (·.1)) := by
    intro otherSamples otherIds hother howned
    rw [sortByGroup_eq_sortedPairs hother, sortedPairs_congr howned]
  refine ⟨_, _, sortByGroup_eq_sortedPairs haligned, hlength, ?perm,
    pairwise_ids_sortedPairs ids samples, fun groupCount =>
      ⟨exists_layout_iff haligned groupCount, fun layout hlayout => slice_sortedPairs hlayout⟩,
    hsame, hsame _ _ hlength (owned_sortedPairs ids samples)⟩
  case perm =>
    rw [zip_sortedPairs]
    exact sortedPairs_perm ids samples

/-- Five samples of groups `0`, `1` and `3`, among them groups that are interrupted; another order
in which the same groups are interleaved comes out the same. -/
theorem sortByGroup_groups_interleaved :
    ["a", "b", "c", "d", "e"].length = [3, 0, 3, 1, 0].length ∧
      ∃ sorted sortedIds,
        sortByGroup ["a", "b", "c", "d", "e"] [3, 0, 3, 1, 0] = .ok (sorted, sortedIds) ∧
        sortByGroup ["d", "a", "b", "c", "e"] [1, 3, 0, 3, 0] = .ok (sorted, sortedIds) ∧
        ∃ layout, Layout.ofIds sortedIds 4 = .ok layout ∧
          layout.slice 0 sorted = ["b", "e"] ∧ layout.slice 1 sorted = ["d"] ∧
          layout.slice 2 sorted = [] ∧ layout.slice 3 sorted = ["a", "c"] := by
  obtain ⟨sorted, sortedIds, hsort, -, -, -, hlayout, hsame, -⟩ :=
    sortByGroup_groups ["a", "b", "c", "d", "e"] [3, 0, 3, 1, 0] rfl
  obtain ⟨hexists, hslice⟩ := hlayout 4
  obtain ⟨layout, hok⟩ := hexists.mpr (by decide)
  have howned : ∀ group, Layout.owned group [1, 3, 0, 3, 0] ["d", "a", "b", "c", "e"] =
      Layout.owned group [3, 0, 3, 1, 0] ["a", "b", "c", "d", "e"] := by
    intro group
    rcases group with _ | _ | _ | _ | group <;> rfl
  exact ⟨rfl, sorted, sortedIds, hsort, hsame _ _ rfl howned, layout, hok, hslice layout hok 0,
    hslice layout hok 1, hslice layout hok 2, hslice layout hok 3⟩

end Mixtures
