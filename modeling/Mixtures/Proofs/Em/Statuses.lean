import Mathlib
import Mixtures.Proofs.Em.Agreement
import Mixtures.Proofs.Em.Stopping
import Mixtures.Proofs.Scalar.Ratios

/-!
# What a status says about the log-likelihoods

Training of a group can end in five places and reports one of three statuses. Which of them it may
be is decided by the log-likelihoods alone: convergence is only ever tested between the last two, so
the last pair has settled exactly if the status says so, and no earlier pair has.

* `reaches_isChain`: as long as training goes on, no two consecutive log-likelihoods have settled.
* `Ends.warrants`: each way to end gives a status that the log-likelihoods warrant.
* `Settings.status_outcome`: the same for every group of every run.

A relative change is not below zero, even if it is not a number, so nothing settles within a
tolerance of zero.
-/

namespace Mixtures.Em

variable {α F : Type} [Scalar α]

theorem relativeChange_not_neg [Scalar.LawfulRatios α] (before after : α) :
    ¬relativeChange before after < 0 :=
  Scalar.LawfulRatios.div_not_neg (Scalar.abs_not_neg _)
    (Scalar.max_pos Scalar.LawfulRatios.minPositive_pos)

/-- The change from one log-likelihood to the next stays below the tolerance. -/
def Settings.Settles (s : Settings α) (before after : α) : Prop :=
  relativeChange before after < s.tolerance

/-- Nothing settles within a tolerance that is not positive. -/
theorem Settings.not_settles [Scalar.Lawful α] [Scalar.LawfulRatios α] {s : Settings α}
    (htolerance : s.tolerance ≤ 0) (before after : α) : ¬s.Settles before after := fun h =>
  relativeChange_not_neg before after (Scalar.Lawful.lt_of_lt_of_le h htolerance)

/-- The log-likelihoods of a group and the status of its training belong together. -/
structure Settings.Warrants (s : Settings α) (trace : List α) (status : Status) : Prop where
  /-- The budget of iterations is kept. -/
  length_le : trace.length ≤ s.maxIterations
  /-- No two consecutive log-likelihoods have settled before the last one is found. -/
  isChain_dropLast : trace.dropLast.IsChain fun before after => ¬s.Settles before after
  /-- Training has converged exactly if the last two have settled. -/
  converged_iff : status = .converged ↔
    ∃ earlier before after, trace = earlier ++ [before, after] ∧ s.Settles before after
  /-- The budget is only spent if it is used up and no two have settled. -/
  of_maxIterations : status = .maxIterations →
    (trace.IsChain fun before after => ¬s.Settles before after) ∧ trace.length = s.maxIterations
  /-- Training is only given up if no two have settled. -/
  of_degenerate : status = .degenerate →
    trace.IsChain fun before after => ¬s.Settles before after

namespace Settings.Warrants

variable {s : Settings α} {trace : List α} {status : Status}

/-- Log-likelihoods of which no two have settled warrant every status but convergence. -/
theorem of_isChain (hchain : trace.IsChain fun before after => ¬s.Settles before after)
    (hlength : trace.length ≤ s.maxIterations) (hstatus : status ≠ .converged)
    (hspent : status = .maxIterations → trace.length = s.maxIterations) :
    s.Warrants trace status where
  length_le := hlength
  isChain_dropLast := hchain.dropLast
  converged_iff := by
    refine ⟨fun h => absurd h hstatus, ?_⟩
    rintro ⟨earlier, before, after, rfl, hsettles⟩
    exact absurd hsettles (List.isChain_pair.mp hchain.right_of_append)
  of_maxIterations h := ⟨hchain, hspent h⟩
  of_degenerate _ := hchain

/-- Without a tolerance there is no convergence. -/
theorem ne_converged_of_tolerance [Scalar.Lawful α] [Scalar.LawfulRatios α]
    (h : s.Warrants trace status) (htolerance : s.tolerance ≤ 0) : status ≠ .converged := by
  intro hstatus
  obtain ⟨-, before, after, -, hsettles⟩ := h.converged_iff.mp hstatus
  exact not_settles htolerance before after hsettles

/-- With a single iteration there is none either. -/
theorem ne_converged_of_maxIterations (h : s.Warrants trace status)
    (hbudget : s.maxIterations ≤ 1) : status ≠ .converged := by
  intro hstatus
  obtain ⟨earlier, before, after, rfl, -⟩ := h.converged_iff.mp hstatus
  have hlength := h.length_le
  rw [List.length_append, List.length_cons, List.length_singleton] at hlength
  omega

end Settings.Warrants

namespace Problem

variable {p : Problem α F} {start : State α}

theorem hasSettled_eq_false_iff {before : Option α} {total : α} :
    p.hasSettled before total = false ↔ ∀ last ∈ before, ¬p.settings.Settles last total := by
  cases before <;> simp [hasSettled, Settings.Settles]

theorem hasSettled_eq_true_iff {before : Option α} {total : α} :
    p.hasSettled before total = true ↔ ∃ last ∈ before, p.settings.Settles last total := by
  cases before <;> simp [hasSettled, Settings.Settles]

/-- A log-likelihood with which training goes on has not settled against the one before. -/
theorem isChain_concat {trace : List α} {total : α}
    (hchain : trace.IsChain fun before after => ¬p.settings.Settles before after)
    (hsettled : p.hasSettled trace.getLast? total = false) :
    (trace ++ [total]).IsChain fun before after => ¬p.settings.Settles before after := by
  refine List.isChain_append.mpr ⟨hchain, List.isChain_singleton total, ?_⟩
  intro last hlast after hafter
  obtain rfl : total = after := Option.some.inj hafter
  exact hasSettled_eq_false_iff.mp hsettled last hlast

/-- **As long as training goes on**, no two consecutive log-likelihoods have settled, and the budget
is kept. -/
theorem reaches_isChain {trace : List α} {valid : Option (List (Component α))} {s : State α}
    (h : p.Reaches start trace valid s) :
    (trace.IsChain fun before after => ¬p.settings.Settles before after) ∧
      trace.length ≤ p.settings.maxIterations := by
  induction h with
  | first _ => exact ⟨.nil, Nat.zero_le _⟩
  | next _ hlt _ hsettled _ ih =>
    rw [List.length_append, List.length_singleton]
    exact ⟨isChain_concat ih.1 hsettled, hlt⟩

/-- **Each way to end** gives a status that the log-likelihoods warrant, and none of them is that of
a group without samples. -/
theorem Ends.warrants {e : Ending α} (h : p.Ends start e) :
    p.settings.Warrants e.trace e.status ∧ e.status ≠ .empty := by
  cases h with
  | unstarted _ => exact ⟨.of_isChain .nil (Nat.zero_le _) (by simp) (by simp), by simp⟩
  | unexplained hreaches _ _ =>
    obtain ⟨hchain, hlength⟩ := reaches_isChain hreaches
    exact ⟨.of_isChain hchain hlength (by simp) (by simp), by simp⟩
  | @settled trace _ _ _ total hreaches hlt _ hsettled =>
    obtain ⟨hchain, -⟩ := reaches_isChain hreaches
    obtain ⟨last, hlast, hsettles⟩ := hasSettled_eq_true_iff.mp hsettled
    obtain ⟨earlier, rfl⟩ := List.getLast?_eq_some_iff.mp hlast
    refine ⟨⟨?_, ?_, ?_, by simp, by simp⟩, by simp⟩
    · rw [List.length_append, List.length_singleton]
      exact hlt
    · rw [List.dropLast_concat]
      exact hchain
    · exact iff_of_true rfl ⟨earlier, last, total, List.append_assoc _ _ _, hsettles⟩
  | unestimated hreaches hlt _ hsettled _ =>
    refine ⟨.of_isChain (isChain_concat (reaches_isChain hreaches).1 hsettled) ?_ (by simp)
      (by simp), by simp⟩
    rw [List.length_append, List.length_singleton]
    exact hlt
  | spent hreaches hlength =>
    obtain ⟨hchain, hle⟩ := reaches_isChain hreaches
    exact ⟨.of_isChain hchain hle (by simp) fun _ => hlength, by simp⟩

/-- The status of a trained group is warranted by its log-likelihoods. Only a group without samples
is reported empty, without log-likelihoods and resets. -/
theorem train_warrants (p : Problem α F) (labels : List Nat) :
    p.settings.Warrants (p.train labels).report.trace (p.train labels).report.status ∧
      ((p.train labels).report.status = .empty ↔ p.points = []) ∧
      ((p.train labels).report.status = .empty →
        (p.train labels).report.trace = [] ∧ (p.train labels).report.resets = 0) := by
  by_cases hempty : p.points = []
  · have htrain : (p.train labels).report = .ofNoSamples := by
      rw [train, if_pos (List.isEmpty_iff.mpr hempty)]
    rw [htrain]
    exact ⟨.of_isChain .nil (Nat.zero_le _) (by simp [Diagnostics.ofNoSamples])
      (by simp [Diagnostics.ofNoSamples]), iff_of_true rfl hempty, fun _ => ⟨rfl, rfl⟩⟩
  · have htrain : (p.train labels).report =
        p.report (p.ending (p.initialState (labels.map (oneHot p.count)))) := by
      rw [train, if_neg (mt List.isEmpty_iff.mp hempty)]
    obtain ⟨hwarrants, hstatus⟩ :=
      (ending_ends p (p.initialState (labels.map (oneHot p.count)))).warrants
    rw [htrain]
    exact ⟨hwarrants, iff_of_false hstatus hempty, fun h => absurd h hstatus⟩

end Problem

/-- **The status of a group is determined by its log-likelihoods**, in every run. A group is
reported empty exactly if it has no samples; then there is no log-likelihood and no reset. The
number of iterations is the number of log-likelihoods, and no two consecutive ones have settled
before the last one is found. Training has converged exactly if the last two have; if its budget is
spent or it is given up, they have not. So nothing converges without a tolerance, nor with a single
iteration. -/
theorem Settings.status_outcome [Scalar.Lawful α] [Scalar.LawfulRatios α] {s : Settings α}
    {kernel : DensityKernel α F} {samples : List (Point α)} {ids : List Nat} {groupCount : Nat}
    {t : Training α} (h : s.Yields kernel samples ids groupCount t) {group : Nat} {m : Mixture α}
    {r : Diagnostics α} (hgives : t.Gives group m r) :
    (r.status = .empty ↔ Layout.owned group ids samples = []) ∧
      (r.status = .empty → r.trace = [] ∧ r.resets = 0) ∧
      r.iterations = r.trace.length ∧
      s.Warrants r.trace r.status ∧
      (s.tolerance ≤ 0 → r.status ≠ .converged) ∧
      (s.maxIterations ≤ 1 → r.status ≠ .converged) := by
  obtain ⟨own, hown⟩ := h.exists_labels hgives
  obtain ⟨hwarrants, hempty, hnothing⟩ :=
    Problem.train_warrants (s.groupProblem kernel samples ids t.models.dim group) own
  rw [← hown.report_eq] at hwarrants hempty hnothing
  exact ⟨hempty, hnothing, rfl, hwarrants, Warrants.ne_converged_of_tolerance hwarrants,
    Warrants.ne_converged_of_maxIterations hwarrants⟩

theorem fittable_twoOnLine_twoGroups : Fittable twoOnLine [0, 0] 2 1 :=
  fittable_iff.mpr ⟨by decide +kernel, rfl⟩

/-- A group of doubles that is given up at once, beside one without samples; and an exact run of
which the second iteration settles. -/
theorem status_outcome_runs :
    (∃ t m r m' r', Settings.oneStep.Yields .gaussian twoOnLine [0, 0] 2 t ∧
      t.Gives 0 m r ∧ r.status = .degenerate ∧ Settings.oneStep.Warrants r.trace r.status ∧
      t.Gives 1 m' r' ∧ r'.status = .empty ∧ r'.trace = []) ∧
    ∃ t m r before after, (Settings.unitFloor ℝ).Yields .gaussian [[0]] [0] 1 t ∧ t.Gives 0 m r ∧
      r.status = .converged ∧ r.trace = [before, after] ∧
      (Settings.unitFloor ℝ).Settles before after := by
  constructor
  · have hstart : Settings.oneStep.startLabels 2 (some [0, 0]) = .ok (some [0, 0]) := rfl
    obtain ⟨t, ht, hgives⟩ := Settings.exists_train_gives fittable_twoOnLine_twoGroups .gaussian 0
      .sequential hstart (by decide +kernel)
    obtain ⟨-, -, -, hwarrants, -, -⟩ :=
      Settings.status_outcome (.train ht) (hgives 0 (by decide))
    obtain ⟨hempty, hnothing, -⟩ := Settings.status_outcome (.train ht) (hgives 1 (by decide))
    have hstatus := hempty.mpr rfl
    exact ⟨t, _, _, _, _, .train ht, hgives 0 (by decide), by decide +kernel, hwarrants,
      hgives 1 (by decide), hstatus, (hnothing hstatus).1⟩
  · have hvalid : (Settings.unitFloor ℝ).validate = .ok () := by
      simp [Settings.validate_eq_ok_iff, Settings.isFiniteNonNegative, Settings.unitFloor,
        Settings.ofCount]
    have hstart : (Settings.unitFloor ℝ).startLabels 1 (some [0]) = .ok (some [0]) := rfl
    obtain ⟨t, ht, hgives⟩ :=
      Settings.exists_train_gives fittable_onePoint .gaussian 0 .sequential hstart hvalid
    obtain ⟨-, -, -, hwarrants, -, -⟩ := Settings.status_outcome (.train ht) (hgives 0 Nat.one_pos)
    obtain ⟨earlier, before, after, htrace, hsettles⟩ := hwarrants.converged_iff.mp status_onePoint
    have hbudget : (Settings.unitFloor ℝ).maxIterations = 2 := rfl
    have hlength := hwarrants.length_le
    rw [htrace, List.length_append, List.length_cons, List.length_singleton, hbudget] at hlength
    obtain rfl : earlier = [] := List.eq_nil_of_length_eq_zero (by omega)
    exact ⟨t, _, _, before, after, .train ht, hgives 0 Nat.one_pos, status_onePoint, htrace,
      hsettles⟩

end Mixtures.Em
