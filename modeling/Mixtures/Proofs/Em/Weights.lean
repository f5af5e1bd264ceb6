import Mathlib
import Mixtures.Proofs.Em.Course
import Mixtures.Proofs.Em.Shares
import Mixtures.Proofs.Pipeline.Training

/-!
# Weights in exact arithmetic

In exact arithmetic the weights of a group with samples are shares: they add up to one whatever the
status of the group, also when a step has failed midway, and they go to at most as many components
as the group has samples.

* `reaches_balanced`, `components_of_ends`: the weights in the course of training and at its end.
* `weights_outcome`: the weights of all mixtures of a run.
-/

namespace Mixtures.Em

variable {F : Type}

/-- At most as many entries have a property as there are positions where it can hold. -/
theorem countP_le_card {α : Type} {P : α → Bool} {xs : List α} {positions : Finset Nat}
    (h : ∀ i x, xs[i]? = some x → P x → i ∈ positions) : xs.countP P ≤ positions.card := by
  have hcount : xs.countP P = ((xs.zipIdx.filter (P ·.1)).map (·.2)).length := by
    rw [List.length_map, ← List.countP_eq_length_filter]
    conv_lhs => rw [← List.zipIdx_map_fst 0 xs, List.countP_map]
    rfl
  have hnodup : ((xs.zipIdx.filter (P ·.1)).map (·.2)).Nodup := by
    refine List.Nodup.sublist (List.filter_sublist.map _) ?_
    rw [List.zipIdx_map_snd]
    exact List.nodup_range'
  rw [hcount, ← List.toFinset_card_of_nodup hnodup]
  refine Finset.card_le_card fun i hi => ?_
  obtain ⟨⟨x, j⟩, hentry, rfl⟩ := List.mem_map.mp (List.mem_toFinset.mp hi)
  obtain ⟨hmem, hP⟩ := List.mem_filter.mp hentry
  exact h j x (List.mk_mem_zipIdx_iff_getElem?.mp hmem) hP

namespace Problem

variable {p : Problem ℝ F} {support : Finset Nat} {start : State ℝ}

/-! ## A whole run -/

/-- **Every state that training reaches** has weights that are shares, and so have the components
kept for the case that a step gives up. -/
theorem reaches_balanced (h : p.Hosts support) (hstart : p.Estimable support start)
    {trace : List ℝ} {valid : Option (List (Component ℝ))} {s : State ℝ}
    (hreaches : p.Reaches start trace valid s) :
    p.Balanced support s.components ∧
      ∀ components ∈ valid, p.Balanced support components := by
  induction hreaches with
  | first hdone => exact ⟨maximize_done h hstart hdone, nofun⟩
  | next _ _ hexpect _ hmaximize ih =>
    have hbalanced := expect_balanced h ih.1
    rw [hexpect] at hbalanced
    have hestimable := expect_estimable h ih.1 hexpect
    refine ⟨maximize_done h (hestimable.record _) hmaximize, ?_⟩
    rintro components ⟨⟩
    exact hbalanced

/-- **However training ends**, the weights that are returned are shares. If it does not give up and
there are enough samples, all of them are positive. -/
theorem components_of_ends (h : p.Hosts support) (hstart : p.Estimable support start)
    {e : Ending ℝ} (hends : p.Ends start e) :
    IsShare p.count support (weightsOf (Ending.components e)) ∧
      (p.count ≤ p.size → e.status ≠ .degenerate →
        ∀ i < p.count, HasWeight (Ending.components e) i) := by
  -- the components to fall back on, or those of the failed step, when there are none
  have hgaveUp : ∀ {valid : Option (List (Component ℝ))} {s : State ℝ},
      (∀ components ∈ valid, p.Balanced support components) →
      IsPart p.count support (weightsOf s.components) → (∃ i, HasWeight s.components i) →
      IsShare p.count support (weightsOf (normalizeWeights (valid.getD s.components))) := by
    intro valid s hvalid hpart hlive
    cases valid with
    | none =>
      obtain ⟨i, hi⟩ := hlive
      exact isShare_normalizeWeights hpart hi
    | some components =>
      have hshare := (hvalid components rfl).isShare
      obtain ⟨i, hi⟩ := hshare.exists_pos
      exact isShare_normalizeWeights hshare.toIsPart (hasWeight_iff.mpr hi)
  cases hends with
  | unstarted hfailed =>
    obtain ⟨hpart, hlive⟩ := maximize_gaveUp h hstart hfailed
    exact ⟨hgaveUp nofun hpart hlive, fun _ hstatus => absurd rfl hstatus⟩
  | unexplained hreaches _ hfailed =>
    obtain ⟨hbalanced, hvalid⟩ := reaches_balanced h hstart hreaches
    have hshare := (expect_balanced h hbalanced).isShare
    rw [hfailed] at hshare
    obtain ⟨i, hi⟩ := hshare.exists_pos
    exact ⟨hgaveUp hvalid hshare.toIsPart ⟨i, hasWeight_iff.mpr hi⟩,
      fun _ hstatus => absurd rfl hstatus⟩
  | settled hreaches _ hexpect _ =>
    have hbalanced := expect_balanced h (reaches_balanced h hstart hreaches).1
    rw [hexpect] at hbalanced
    exact ⟨hbalanced.isShare, fun henough _ => hbalanced.hasWeight henough⟩
  | unestimated hreaches _ hexpect _ hfailed =>
    have hbalanced := expect_balanced h (reaches_balanced h hstart hreaches).1
    rw [hexpect] at hbalanced
    have hestimable := expect_estimable h (reaches_balanced h hstart hreaches).1 hexpect
    obtain ⟨hpart, hlive⟩ := maximize_gaveUp h (hestimable.record _) hfailed
    refine ⟨hgaveUp ?_ hpart hlive, fun _ hstatus => absurd rfl hstatus⟩
    rintro components ⟨⟩
    exact hbalanced
  | spent hreaches _ =>
    have hbalanced := (reaches_balanced h hstart hreaches).1
    exact ⟨hbalanced.isShare, fun henough _ => hbalanced.hasWeight henough⟩

/-- Labels determine where weights can go: anywhere if there are enough samples, and otherwise to
the labels. -/
theorem exists_hosts {labels : List Nat} (hsize : 0 < p.size) (hlength : labels.length = p.size)
    (hlt : ∀ label ∈ labels, label < p.count) :
    ∃ support, p.Hosts support ∧ ∀ label ∈ labels, label ∈ support := by
  obtain ⟨first, hfirst⟩ := List.exists_mem_of_length_pos (hlength ▸ hsize)
  by_cases henough : p.count ≤ p.size
  · refine ⟨Finset.range p.count, ⟨Finset.Subset.refl _, ?_, ?_, fun _ => rfl⟩,
      fun label hlabel => ?_⟩
    · exact ⟨first, Finset.mem_range.mpr (hlt first hfirst)⟩
    · rwa [Finset.card_range]
    · exact Finset.mem_range.mpr (hlt label hlabel)
  · refine ⟨labels.toFinset, ⟨fun label hlabel => ?_, ?_, ?_, fun h => absurd h henough⟩,
      fun label hlabel => ?_⟩
    · exact Finset.mem_range.mpr (hlt label (List.mem_toFinset.mp hlabel))
    · exact ⟨first, List.mem_toFinset.mpr hfirst⟩
    · exact hlength ▸ List.toFinset_card_le labels
    · exact List.mem_toFinset.mpr hlabel

/-- Components can be estimated from labels. -/
theorem initialState_estimable (h : p.Hosts support) {labels : List Nat}
    (hlength : labels.length = p.size) (hmem : ∀ label ∈ labels, label ∈ support) :
    p.Estimable support (p.initialState (labels.map (oneHot p.count))) where
  rowCount := by rw [initialState, List.length_map, hlength]
  row row hrow := by
    obtain ⟨label, hlabel, rfl⟩ := List.mem_map.mp hrow
    exact isShare_oneHot (h.lt (hmem label hlabel)) (hmem label hlabel)
  weights := by
    have hzero : ∀ w ∈ weightsOf (List.replicate p.count
        (Component.placeholder p.dim p.settings.floor)), w = 0 := by
      intro w hw
      obtain ⟨c, hc, rfl⟩ := List.mem_map.mp hw
      rw [List.eq_of_mem_replicate hc]
      rfl
    refine ⟨by simp [weightsOf, initialState], fun w hw => (hzero w hw).ge, fun i _ => ?_⟩
    rw [initialState, List.getD_eq_getElem?_getD]
    cases hw : (weightsOf (List.replicate p.count
        (Component.placeholder p.dim p.settings.floor)))[i]? with
    | none => rfl
    | some w => exact hzero w (List.mem_of_getElem? hw)

/-- The weights of a trained group with samples are shares. -/
theorem train_isShare {labels : List Nat} (hsize : 0 < p.size) (hlength : labels.length = p.size)
    (hlt : ∀ label ∈ labels, label < p.count) :
    ∃ support : Finset Nat, support.card ≤ p.size ∧
      IsShare p.count support (p.train labels).mixture.weights ∧
      (p.count ≤ p.size → (p.train labels).report.status ≠ .degenerate →
        ∀ w ∈ (p.train labels).mixture.weights, 0 < w) := by
  obtain ⟨support, hhosts, hmem⟩ := exists_hosts hsize hlength hlt
  have hstart := initialState_estimable hhosts hlength hmem
  obtain ⟨hshare, hpositive⟩ := components_of_ends hhosts hstart (ending_ends p _)
  have hpoints : ¬p.points.isEmpty := by
    rw [List.isEmpty_iff]
    exact List.ne_nil_of_length_pos hsize
  unfold train
  rw [if_neg hpoints]
  exact ⟨support, hhosts.card_le, hshare, fun henough hstatus =>
    pos_of_hasWeight hshare.length_eq (hpositive henough hstatus)⟩

theorem train_of_size_eq_zero {labels : List Nat} (hsize : p.size = 0) :
    ∀ w ∈ (p.train labels).mixture.weights, w = 0 := by
  have hpoints : p.points.isEmpty := by
    rw [List.isEmpty_iff]
    exact List.eq_nil_of_length_eq_zero hsize
  unfold train
  rw [if_pos hpoints]
  intro w hw
  obtain ⟨c, hc, rfl⟩ := List.mem_map.mp hw
  rw [List.eq_of_mem_replicate hc]
  rfl

/-- The weights of a trained group, with or without samples. -/
theorem train_weights (hpoints : ∀ x ∈ p.points, x.length = p.dim) {labels : List Nat}
    (hlength : labels.length = p.size) (hlt : ∀ label ∈ labels, label < p.count) :
    (p.train labels).mixture.weights.length = p.count ∧
      (p.size = 0 → ∀ w ∈ (p.train labels).mixture.weights, w = 0) ∧
      (0 < p.size →
        (∀ w ∈ (p.train labels).mixture.weights, 0 ≤ w ∧ w ≤ 1) ∧
        (p.train labels).mixture.weightSum = 1 ∧
        (p.train labels).mixture.weights.countP (fun w => decide (0 < w)) ≤ min p.size p.count ∧
        (p.count ≤ p.size → (p.train labels).report.status ≠ .degenerate →
          ∀ w ∈ (p.train labels).mixture.weights, 0 < w)) := by
  have hsize := (train_hasShape hpoints hlength).1
  refine ⟨(List.length_map _).trans hsize, train_of_size_eq_zero, fun hsamples => ?_⟩
  obtain ⟨support, hcard, hshare, hpositive⟩ := train_isShare hsamples hlength hlt
  refine ⟨fun w hw => ⟨hshare.nonNegative w hw, ?_⟩, ?_, ?_, hpositive⟩
  · rw [← hshare.sum_eq]
    exact List.single_le_sum hshare.nonNegative w hw
  · exact (Exact.sum_eq _).trans hshare.sum_eq
  · refine le_min ((countP_le_card fun i w hi hw => ?_).trans hcard) ?_
    · by_contra hnot
      have hzero := hshare.outside i hnot
      rw [List.getD_eq_getElem?_getD, hi, Option.getD_some] at hzero
      rw [decide_eq_true_eq, hzero] at hw
      exact lt_irrefl 0 hw
    · exact List.countP_le_length.trans hshare.length_eq.le

end Problem

namespace Settings

variable {kernel : DensityKernel ℝ F} {samples : List (Point ℝ)} {ids : List Nat} {groupCount : Nat}

/-- **The weights of a mixture**, in exact arithmetic, for every run that has a result, every group
and any densities. Without samples all weights are zero. With samples, whatever the status of the
group, every weight lies between zero and one, the weights add up to one, and no more of them are
positive than the group has samples. If it has at least as many samples as components and was not
given up, all of them are positive. -/
theorem weights_outcome {s : Settings ℝ} {t : Training ℝ}
    (h : s.Yields kernel samples ids groupCount t) {group : Nat} {m : Mixture ℝ} {r : Diagnostics ℝ}
    (hgives : t.Gives group m r) :
    m.weights.length = s.componentCount ∧
      ((Layout.owned group ids samples).length = 0 → ∀ w ∈ m.weights, w = 0) ∧
      (0 < (Layout.owned group ids samples).length →
        (∀ w ∈ m.weights, 0 ≤ w ∧ w ≤ 1) ∧ m.weightSum = 1 ∧
        m.weights.countP (fun w => decide (0 < w)) ≤
          min (Layout.owned group ids samples).length s.componentCount ∧
        (s.componentCount ≤ (Layout.owned group ids samples).length → r.status ≠ .degenerate →
          ∀ w ∈ m.weights, 0 < w)) := by
  obtain ⟨own, hown, hlt, rfl, rfl⟩ := h.exists_labels hgives
  exact Problem.train_weights (length_eq_of_mem_groupProblem h.fittable group) hown hlt

/-- Two components and no iterations. -/
noncomputable def noIteration : Settings ℝ := { (ofCount 2 : Settings ℝ) with maxIterations := 0 }

/-- Three samples on a line. -/
def onAxis : List (Point ℝ) := [[0], [1], [5]]

theorem fittable_onAxis : Fittable onAxis [0, 0, 2] 3 1 where
  aligned := rfl
  nonempty := List.cons_ne_nil _ _
  dim_pos := Nat.one_pos
  length_eq := by simp [onAxis]
  finite := by simp [onAxis]
  id_lt := by simp
  sorted := by simp

/-- With a label for each of two samples, no component collapses. -/
theorem status_onAxis :
    (noIteration.groupResult .gaussian 0 onAxis [0, 0, 2] 1 (some [0, 1, 1]) 0).report.status =
      .maxIterations := by
  have hdone : ∃ s', (noIteration.groupProblem .gaussian onAxis [0, 0, 2] 1 0).maximize
      ((noIteration.groupProblem .gaussian onAxis [0, 0, 2] 1 0).initialState
        [oneHot 2 0, oneHot 2 1]) = .done () s' := by
    have howned : Layout.owned 0 [0, 0, 2] onAxis = [[0], [1]] := rfl
    norm_num [Problem.maximize, Problem.estimates, Problem.collapsed, Problem.estimate, column,
      oneHot, Problem.count, Problem.initialState, Problem.size, groupProblem, howned, noIteration,
      ofCount, collapseBound, List.range_succ, Outcome.andThen, Problem.resetAll]
  obtain ⟨s', hs'⟩ := hdone
  have hending : ((noIteration.groupProblem .gaussian onAxis [0, 0, 2] 1 0).ending
      ((noIteration.groupProblem .gaussian onAxis [0, 0, 2] 1 0).initialState
        [oneHot 2 0, oneHot 2 1])).status = .maxIterations := by
    rw [Problem.ending, hs']
    rfl
  exact hending

/-- Two samples for two components, a group without samples, and one sample for two components. -/
theorem weights_outcome_onAxis :
    ∃ t, noIteration.Yields .gaussian onAxis [0, 0, 2] 3 t ∧
      (∃ m r, t.Gives 0 m r ∧ r.status = .maxIterations ∧ m.weightSum = 1 ∧
        ∀ w ∈ m.weights, 0 < w) ∧
      (∃ m r, t.Gives 1 m r ∧ ∀ w ∈ m.weights, w = 0) ∧
      (∃ m r, t.Gives 2 m r ∧ m.weightSum = 1 ∧
        m.weights.countP (fun w => decide (0 < w)) ≤ 1) := by
  have hvalid : noIteration.validate = .ok () := by
    simp [validate_eq_ok_iff, isFiniteNonNegative, noIteration, ofCount]
  have hstart : noIteration.startLabels 3 (some [0, 1, 1]) = .ok (some [0, 1, 1]) := rfl
  obtain ⟨t, ht, hgives⟩ :=
    exists_train_gives fittable_onAxis .gaussian 0 .sequential hstart hvalid
  have hyields : noIteration.Yields .gaussian onAxis [0, 0, 2] 3 t := .train ht
  obtain ⟨-, -, hfirst⟩ := weights_outcome hyields (hgives 0 (by decide))
  obtain ⟨-, hsecond, -⟩ := weights_outcome hyields (hgives 1 (by decide))
  obtain ⟨-, -, hthird⟩ := weights_outcome hyields (hgives 2 (by decide))
  obtain ⟨-, hsum, -, hpositive⟩ := hfirst Nat.zero_lt_two
  obtain ⟨-, hsum', hcount, -⟩ := hthird Nat.one_pos
  have hstatus : (noIteration.groupResult .gaussian 0 onAxis [0, 0, 2] 1
      (some [0, 1, 1]) 0).report.status ≠ .degenerate := by
    rw [status_onAxis]
    nofun
  exact ⟨t, hyields, ⟨_, _, hgives 0 (by decide), status_onAxis, hsum, hpositive le_rfl hstatus⟩,
    ⟨_, _, hgives 1 (by decide), hsecond rfl⟩, ⟨_, _, hgives 2 (by decide), hsum', hcount⟩⟩

end Settings

end Mixtures.Em
