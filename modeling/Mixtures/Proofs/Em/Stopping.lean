import Mathlib
import Mixtures.Proofs.Em.Results
import Mixtures.Proofs.Em.Steps
import Mixtures.Proofs.Scalar.Doubles

/-!
# When training stops

The budget of iterations, the tolerance and the bound on resets decide when the training of a group
stops, and nothing else about it.

* `Ending.CutShort`: a smaller budget, or a larger tolerance, cuts the same course short.
* `Outcome.SameWithin`: as long as no reset is refused, the bound on resets is not noticed. Every
  step counts the resets up, so the count at the end bounds it all the way.
* `stopping_cuts_short`: both, for the groups of training runs.
-/

namespace Mixtures.Em

variable {α F : Type} [Scalar α]

/-! ## Smaller budgets and larger tolerances -/

/-- An ending is another one cut short: its log-likelihoods are the first ones of the other, and
unless it has the given status, the two are the same. -/
structure Ending.CutShort {α : Type} (status : Status) (e later : Ending α) : Prop where
  trace : e.trace <+: later.trace
  eq : e.status ≠ status → later = e

namespace Ending.CutShort

variable {α : Type} {status : Status} {e later : Ending α}

theorem refl (status : Status) (e : Ending α) : e.CutShort status e :=
  ⟨List.prefix_rfl, fun _ => rfl⟩

/-- One more log-likelihood in front of both. -/
theorem cons (h : e.CutShort status later) (total : α) :
    Ending.CutShort status { e with trace := total :: e.trace }
      { later with trace := total :: later.trace } :=
  ⟨List.cons_prefix_cons.mpr ⟨rfl, h.trace⟩, fun hne => by rw [h.eq hne]⟩

end Ending.CutShort

namespace Problem

variable {p q : Problem α F}

theorem iterate_cutShort_of_budget (p : Problem α F) {budget larger : Nat} (h : budget ≤ larger)
    (index : Nat) (before : Option α) (valid : Option (List (Component α))) (s : State α) :
    (p.iterate budget index before valid s).CutShort .maxIterations
      (p.iterate larger index before valid s) := by
  induction budget generalizing larger index before valid s with
  | zero =>
    rw [iterate]
    exact ⟨List.nil_prefix, fun hne => absurd rfl hne⟩
  | succ budget ih =>
    obtain ⟨larger, rfl⟩ : ∃ n, larger = n + 1 := ⟨larger - 1, by omega⟩
    rw [iterate, iterate]
    cases p.expect s with
    | gaveUp failed => exact .refl _ _
    | done total explained =>
      dsimp only
      split
      · exact .refl _ _
      · cases p.maximize (explained.record (.iteration index total)) with
        | gaveUp failed => exact .refl _ _
        | done value estimated => exact (ih (by omega) _ _ _ _).cons total

theorem iterate_cutShort_of_tolerance (h : p.SameSteps q)
    (hsettled : ∀ before after, q.hasSettled before after → p.hasSettled before after)
    (budget index : Nat) (before : Option α) (valid : Option (List (Component α))) (s : State α) :
    (p.iterate budget index before valid s).CutShort .converged
      (q.iterate budget index before valid s) := by
  induction budget generalizing index before valid s with
  | zero => exact .refl _ _
  | succ budget ih =>
    rw [iterate, iterate, expect_congr h]
    cases q.expect s with
    | gaveUp failed => exact .refl _ _
    | done total explained =>
      dsimp only
      rw [maximize_congr h]
      by_cases hp : p.hasSettled before total
      · -- the larger tolerance stops here, and so does the smaller one or it goes on
        rw [if_pos hp]
        refine ⟨?_, fun hne => absurd rfl hne⟩
        split
        · exact List.prefix_rfl
        · cases q.maximize (explained.record (.iteration index total)) with
          | gaveUp failed => exact List.prefix_rfl
          | done value estimated => exact List.cons_prefix_cons.mpr ⟨rfl, List.nil_prefix⟩
      · rw [if_neg hp, if_neg (fun hq => hp (hsettled _ _ hq))]
        cases q.maximize (explained.record (.iteration index total)) with
        | gaveUp failed => exact .refl _ _
        | done value estimated => exact (ih _ _ _ _).cons total

/-- A smaller budget cuts the iterations of a group short. -/
theorem ending_cutShort_of_budget (h : p.SameSteps q)
    (htolerance : p.settings.tolerance = q.settings.tolerance)
    (hbudget : p.settings.maxIterations ≤ q.settings.maxIterations) (s : State α) :
    (p.ending s).CutShort .maxIterations (q.ending s) := by
  unfold ending
  rw [maximize_congr h]
  cases q.maximize s with
  | gaveUp failed => exact .refl _ _
  | done value estimated =>
    dsimp only
    rw [iterate_congr h htolerance]
    exact iterate_cutShort_of_budget q hbudget _ _ _ _

/-- A larger tolerance cuts the iterations of a group short. -/
theorem ending_cutShort_of_tolerance [Scalar.Lawful α] (h : p.SameSteps q)
    (hbudget : p.settings.maxIterations = q.settings.maxIterations)
    (htolerance : q.settings.tolerance ≤ p.settings.tolerance) (s : State α) :
    (p.ending s).CutShort .converged (q.ending s) := by
  have hsettled : ∀ before after, q.hasSettled before after → p.hasSettled before after := by
    intro before after hq
    cases before with
    | none => cases hq
    | some before =>
      rw [hasSettled, decide_eq_true_iff] at hq ⊢
      exact Scalar.Lawful.lt_of_lt_of_le hq htolerance
  unfold ending
  rw [maximize_congr h, hbudget]
  cases q.maximize s with
  | gaveUp failed => exact .refl _ _
  | done value estimated => exact iterate_cutShort_of_tolerance h hsettled _ _ _ _ _

/-- If the iterations of a group are cut short, so is what training reports, and unless they ended
with the given status the mixture and the report are the same. -/
theorem train_cutShort (h : p.SameSteps q) {status : Status}
    (hending : ∀ s, (p.ending s).CutShort status (q.ending s)) (labels : List Nat) :
    (p.train labels).report.trace <+: (q.train labels).report.trace ∧
      ((p.train labels).report.status ≠ status →
        (q.train labels).mixture = (p.train labels).mixture ∧
          (q.train labels).report = (p.train labels).report) := by
  have hcount : p.count = q.count := h.count
  have hreport : p.report = q.report := by
    rw [h.eq]
    rfl
  have hinitial : p.initialState = q.initialState := by
    rw [h.eq]
    rfl
  unfold train
  rw [h.points, h.dim, h.floor, hcount, hreport, hinitial]
  split
  · exact ⟨List.prefix_rfl, fun _ => ⟨rfl, rfl⟩⟩
  · obtain ⟨htrace, heq⟩ := hending (q.initialState (labels.map (oneHot q.count)))
    refine ⟨htrace, fun hne => ?_⟩
    rw [heq hne]
    exact ⟨rfl, rfl⟩

/-! ## Other bounds on resets -/

end Problem

/-- Two outcomes are the same unless the count of resets, which was at least `before`, goes beyond a
bound. -/
structure Outcome.SameWithin {β : Type} (bound before : Nat)
    (outcome other : Outcome (State α) β) : Prop where
  le : before ≤ outcome.state.resets
  eq : outcome.state.resets ≤ bound → other = outcome

namespace Outcome.SameWithin

variable {α β γ : Type} {bound before : Nat} {outcome other : Outcome (State α) β}

theorem refl (h : before ≤ outcome.state.resets) : outcome.SameWithin bound before outcome :=
  ⟨h, fun _ => rfl⟩

/-- Steps one after the other: the count at the end bounds the count in between. -/
theorem andThen {next next' : β → State α → Outcome (State α) γ}
    (h : outcome.SameWithin bound before other)
    (hnext : ∀ value s, (next value s).SameWithin bound s.resets (next' value s)) :
    (outcome.andThen next).SameWithin bound before (other.andThen next') := by
  cases outcome with
  | gaveUp s => exact ⟨h.le, fun hbound => by rw [h.eq hbound]; rfl⟩
  | done value s =>
    refine ⟨Nat.le_trans h.le (hnext value s).le, fun hbound => ?_⟩
    rw [h.eq (Nat.le_trans (hnext value s).le hbound)]
    exact (hnext value s).eq hbound

end Outcome.SameWithin

namespace Problem

/-- The problem with another bound on resets. -/
def withMaxResets (p : Problem α F) (maxResets : Nat) : Problem α F :=
  { p with settings := { p.settings with maxResets } }

variable (p : Problem α F) (maxResets : Nat)

theorem resets_prepareAt (component : Nat) (s : State α) :
    (p.prepareAt component s).2.resets = s.resets := by
  unfold prepareAt
  split <;> rfl

theorem resets_distribute (factors : List (Option F)) (s : State α) :
    (p.distribute factors s).2.resets = s.resets := by
  unfold distribute
  dsimp only
  split <;> rfl

theorem reset_sameWithin (component : Nat) (s : State α) :
    (p.reset component s).SameWithin (min p.settings.maxResets maxResets) s.resets
      ((p.withMaxResets maxResets).reset component s) := by
  have hresets : (p.reset component s).state.resets = s.resets + 1 := by
    unfold reset
    dsimp only
    split <;> rfl
  refine ⟨by omega, fun hbound => ?_⟩
  have hp : ¬p.settings.maxResets < s.resets + 1 := by omega
  have hq : ¬maxResets < s.resets + 1 := by omega
  unfold reset
  dsimp only
  rw [if_neg hp]
  exact if_neg hq

theorem resetAll_sameWithin (components : List Nat) (s : State α) :
    (p.resetAll components s).SameWithin (min p.settings.maxResets maxResets) s.resets
      ((p.withMaxResets maxResets).resetAll components s) := by
  induction components generalizing s with
  | nil => exact .refl (Nat.le_refl _)
  | cons component components ih =>
    exact (reset_sameWithin p maxResets component s).andThen fun _ s => ih s

theorem maximize_sameWithin (s : State α) :
    (p.maximize s).SameWithin (min p.settings.maxResets maxResets) s.resets
      ((p.withMaxResets maxResets).maximize s) := by
  have hestimates : (p.withMaxResets maxResets).estimates = p.estimates := rfl
  have hsilence : (p.withMaxResets maxResets).silence = p.silence := rfl
  have hcount : (p.withMaxResets maxResets).count = p.count := rfl
  have hsize : (p.withMaxResets maxResets).size = p.size := rfl
  unfold maximize
  rw [hestimates, hsilence, hcount, hsize]
  refine Outcome.SameWithin.andThen ?_ fun _ s => .refl (Nat.le_refl _)
  split
  · exact resetAll_sameWithin p maxResets (collapsed (p.estimates s.responsibilities)) { s with
      components := s.components.zipWith (fun c e => e.getD c) (p.estimates s.responsibilities) }
  · exact .refl (Nat.le_refl _)

theorem factorAt_sameWithin (component : Nat) (s : State α) :
    (p.factorAt component s).SameWithin (min p.settings.maxResets maxResets) s.resets
      ((p.withMaxResets maxResets).factorAt component s) := by
  have hprepare : (p.withMaxResets maxResets).prepareAt = p.prepareAt := rfl
  unfold factorAt
  rw [hprepare]
  split
  · exact .refl (Nat.le_refl _)
  split
  · exact .refl (Nat.le_refl _)
  have hprepared := resets_prepareAt p component s
  split
  next f s' hs' =>
    rw [hs'] at hprepared
    exact .refl (Nat.le_of_eq hprepared.symm)
  next s' hs' =>
    rw [hs'] at hprepared
    dsimp only at hprepared
    rw [← hprepared]
    refine (reset_sameWithin p maxResets component s').andThen fun _ s => .refl ?_
    have hagain := resets_prepareAt p component s
    split
    next heq =>
      rw [heq] at hagain
      exact Nat.le_of_eq hagain.symm
    next heq =>
      rw [heq] at hagain
      exact Nat.le_of_eq hagain.symm

theorem factorAll_sameWithin (components : List Nat) (s : State α) :
    (p.factorAll components s).SameWithin (min p.settings.maxResets maxResets) s.resets
      ((p.withMaxResets maxResets).factorAll components s) := by
  induction components generalizing s with
  | nil => exact .refl (Nat.le_refl _)
  | cons component components ih =>
    exact (factorAt_sameWithin p maxResets component s).andThen fun _ s =>
      (ih s).andThen fun _ s => .refl (Nat.le_refl _)

theorem expect_sameWithin (s : State α) :
    (p.expect s).SameWithin (min p.settings.maxResets maxResets) s.resets
      ((p.withMaxResets maxResets).expect s) :=
  (factorAll_sameWithin p maxResets (List.range p.count) s).andThen fun factors s =>
    .refl (Nat.le_of_eq (resets_distribute p factors s).symm)

/-- The iterations of a group count resets up, and are the same with another bound that they stay
within. -/
theorem iterate_sameWithin (budget index : Nat) (before : Option α)
    (valid : Option (List (Component α))) (s : State α) :
    s.resets ≤ (p.iterate budget index before valid s).state.resets ∧
      ((p.iterate budget index before valid s).state.resets ≤ min p.settings.maxResets maxResets →
        (p.withMaxResets maxResets).iterate budget index before valid s =
          p.iterate budget index before valid s) := by
  have hsettled : (p.withMaxResets maxResets).hasSettled = p.hasSettled := rfl
  induction budget generalizing index before valid s with
  | zero => exact ⟨Nat.le_refl _, fun _ => rfl⟩
  | succ budget ih =>
    have hexpect := expect_sameWithin p maxResets s
    rw [iterate, iterate, hsettled]
    cases hs : p.expect s with
    | gaveUp failed =>
      rw [hs] at hexpect
      exact ⟨hexpect.le, fun hbound => by rw [hexpect.eq hbound]⟩
    | done total explained =>
      rw [hs] at hexpect
      have hmaximize := maximize_sameWithin p maxResets
        (explained.record (.iteration index total))
      have hle : s.resets ≤ explained.resets := hexpect.le
      by_cases hdone : p.hasSettled before total
      · dsimp only
        rw [if_pos hdone]
        refine ⟨hle, fun hbound => ?_⟩
        rw [hexpect.eq hbound]
        dsimp only
        rw [if_pos hdone]
      · dsimp only
        rw [if_neg hdone]
        cases hs' : p.maximize (explained.record (.iteration index total)) with
        | gaveUp failed =>
          rw [hs'] at hmaximize
          have hle' : explained.resets ≤ failed.resets := hmaximize.le
          refine ⟨Nat.le_trans hle hle', fun hbound => ?_⟩
          rw [hexpect.eq (Nat.le_trans hle' hbound)]
          dsimp only
          rw [if_neg hdone, hmaximize.eq hbound]
        | done value estimated =>
          rw [hs'] at hmaximize
          have hle' : explained.resets ≤ estimated.resets := hmaximize.le
          obtain ⟨hlater, heq⟩ := ih (index + 1) (some total) (some explained.components) estimated
          refine ⟨Nat.le_trans hle (Nat.le_trans hle' hlater), fun hbound => ?_⟩
          dsimp only at hbound
          have hbound' : estimated.resets ≤ min p.settings.maxResets maxResets :=
            Nat.le_trans hlater hbound
          rw [hexpect.eq (Nat.le_trans hle' hbound')]
          dsimp only
          rw [if_neg hdone, hmaximize.eq hbound']
          dsimp only
          rw [heq hbound]

theorem ending_withMaxResets {s : State α}
    (h : (p.ending s).state.resets ≤ min p.settings.maxResets maxResets) :
    (p.withMaxResets maxResets).ending s = p.ending s := by
  have hmaximize := maximize_sameWithin p maxResets s
  unfold ending at h ⊢
  cases hs : p.maximize s with
  | gaveUp failed =>
    rw [hs] at hmaximize h
    rw [hmaximize.eq h]
  | done value estimated =>
    rw [hs] at hmaximize h
    obtain ⟨hle, heq⟩ :=
      iterate_sameWithin p maxResets p.settings.maxIterations 0 none none estimated
    rw [hmaximize.eq (Nat.le_trans hle h)]
    exact heq h

/-- **A bound on resets that is not exceeded is not noticed**: every other bound that the count of
resets stays within gives the same result. -/
theorem train_withMaxResets {labels : List Nat}
    (h : (p.train labels).report.resets ≤ p.settings.maxResets)
    (h' : (p.train labels).report.resets ≤ maxResets) :
    (p.withMaxResets maxResets).train labels = p.train labels := by
  have hcount : (p.withMaxResets maxResets).count = p.count := rfl
  have hreport : (p.withMaxResets maxResets).report = p.report := rfl
  have hinitial : (p.withMaxResets maxResets).initialState = p.initialState := rfl
  unfold train at h h' ⊢
  rw [hcount, hreport, hinitial]
  by_cases hempty : p.points.isEmpty
  · exact (if_pos hempty).trans (if_pos hempty).symm
  · rw [if_neg hempty] at h h' ⊢
    rw [ending_withMaxResets p maxResets (Nat.le_min.mpr ⟨h, h'⟩)]
    exact if_neg hempty

end Problem

/-! ## Training runs -/

/-- **The settings that stop training only cut one course short.** Take a training run and another
one on the same input that differs in one of these settings.

* With a larger budget of iterations, every group has the log-likelihoods that it had and perhaps
  more. Unless its budget was spent, its mixture and its report are the same.
* With a smaller tolerance, likewise. Unless it had converged, its mixture and its report are the
  same.
* With another bound on resets, a group that stayed within its own bound and stays within the other
  one has the same mixture and the same report. -/
theorem stopping_cuts_short [Scalar.Lawful α] (s : Settings α) (kernel : DensityKernel α F)
    (entropy : UInt64) (executor : Executor) (samples : List (Point α)) (ids : List Nat)
    (groupCount : Nat) (labels : Option (List Nat)) :
    (∀ (budget larger : Nat) (t : Training α), budget ≤ larger →
      { s with maxIterations := budget }.train kernel entropy executor samples ids groupCount
        labels = .ok t →
      ∃ t', { s with maxIterations := larger }.train kernel entropy executor samples ids groupCount
          labels = .ok t' ∧
        ∀ group m r, t.Gives group m r → ∃ m' r', t'.Gives group m' r' ∧ r.trace <+: r'.trace ∧
          (r.status ≠ .maxIterations → m' = m ∧ r' = r)) ∧
    (∀ (tolerance smaller : α) (t t' : Training α), smaller ≤ tolerance →
      { s with tolerance }.train kernel entropy executor samples ids groupCount labels = .ok t →
      { s with tolerance := smaller }.train kernel entropy executor samples ids groupCount
        labels = .ok t' →
      ∀ group m r, t.Gives group m r → ∃ m' r', t'.Gives group m' r' ∧ r.trace <+: r'.trace ∧
        (r.status ≠ .converged → m' = m ∧ r' = r)) ∧
    (∀ (maxResets other : Nat) (t : Training α),
      { s with maxResets }.train kernel entropy executor samples ids groupCount labels = .ok t →
      ∃ t', { s with maxResets := other }.train kernel entropy executor samples ids groupCount
          labels = .ok t' ∧
        ∀ group m r, t.Gives group m r → r.resets ≤ maxResets → r.resets ≤ other →
          t'.Gives group m r) := by
  refine ⟨?budget, ?tolerance, ?resets⟩
  case budget =>
    intro budget larger t hle h
    have hvalid := Settings.validate_of_train_eq_ok h
    obtain ⟨t', ht', hgroups⟩ := Settings.exists_train_of_sameStart h
      { s with maxIterations := larger } rfl rfl rfl hvalid
    refine ⟨t', ht', fun group m r hgives => ?_⟩
    obtain ⟨dim, own, rfl, rfl, hgives'⟩ := hgroups group m r hgives
    have hsteps : Problem.SameSteps
        ({ s with maxIterations := budget }.groupProblem kernel samples ids dim group)
        ({ s with maxIterations := larger }.groupProblem kernel samples ids dim group) :=
      ⟨rfl, rfl, rfl, rfl, rfl, rfl, rfl⟩
    exact ⟨_, _, hgives', Problem.train_cutShort hsteps
      (Problem.ending_cutShort_of_budget hsteps rfl hle) own⟩
  case tolerance =>
    intro tolerance smaller t t' hle h h' group m r hgives
    have hvalid := Settings.validate_of_train_eq_ok h'
    obtain ⟨t'', ht'', hgroups⟩ := Settings.exists_train_of_sameStart h
      { s with tolerance := smaller } rfl rfl rfl hvalid
    obtain rfl : t'' = t' := Except.ok.inj (ht''.symm.trans h')
    obtain ⟨dim, own, rfl, rfl, hgives'⟩ := hgroups group m r hgives
    have hsteps : Problem.SameSteps
        ({ s with tolerance }.groupProblem kernel samples ids dim group)
        ({ s with tolerance := smaller }.groupProblem kernel samples ids dim group) :=
      ⟨rfl, rfl, rfl, rfl, rfl, rfl, rfl⟩
    exact ⟨_, _, hgives', Problem.train_cutShort hsteps
      (Problem.ending_cutShort_of_tolerance hsteps rfl hle) own⟩
  case resets =>
    intro maxResets other t h
    have hvalid := Settings.validate_of_train_eq_ok h
    obtain ⟨t', ht', hgroups⟩ := Settings.exists_train_of_sameStart h
      { s with maxResets := other } rfl rfl rfl hvalid
    refine ⟨t', ht', fun group m r hgives hwithin hother => ?_⟩
    obtain ⟨dim, own, rfl, rfl, hgives'⟩ := hgroups group m r hgives
    have hproblem : { s with maxResets := other }.groupProblem kernel samples ids dim group =
        ({ s with maxResets }.groupProblem kernel samples ids dim group).withMaxResets other := rfl
    rw [hproblem, Problem.train_withMaxResets _ other hwithin hother] at hgives'
    exact hgives'

/-- Two components, no iterations and no reset. -/
def Settings.oneStep : Settings Float := { ofCount 2 with maxIterations := 0, maxResets := 0 }

/-- Two samples with the same label, so that one of two components has to be reset. -/
def twoOnLine : List (Point Float) := [[0], [1]]

theorem fittable_twoOnLine : Fittable twoOnLine [0, 0] 1 1 :=
  fittable_iff.mpr ⟨by decide +kernel, rfl⟩

/-- The group is given up without a reset, whatever the budget and the tolerance; with one reset
allowed it is not, and allowing more is the same. -/
theorem stopping_cuts_short_twoOnLine :
    (∃ t t', { Settings.oneStep with maxIterations := 0 }.train .gaussian 0 .sequential twoOnLine
        [0, 0] 1 (some [0, 0]) = .ok t ∧
      { Settings.oneStep with maxIterations := 5 }.train .gaussian 0 .sequential twoOnLine
        [0, 0] 1 (some [0, 0]) = .ok t' ∧
      ∃ m r, t.Gives 0 m r ∧ r.status = .degenerate ∧ t'.Gives 0 m r) ∧
    (∃ t t', { Settings.oneStep with tolerance := 0.5 }.train .gaussian 0 .sequential twoOnLine
        [0, 0] 1 (some [0, 0]) = .ok t ∧
      { Settings.oneStep with tolerance := 0.25 }.train .gaussian 0 .sequential twoOnLine
        [0, 0] 1 (some [0, 0]) = .ok t' ∧
      ∃ m r, t.Gives 0 m r ∧ r.status = .degenerate ∧ t'.Gives 0 m r) ∧
    (∃ t t', { Settings.oneStep with maxResets := 1 }.train .gaussian 0 .sequential twoOnLine
        [0, 0] 1 (some [0, 0]) = .ok t ∧
      { Settings.oneStep with maxResets := 7 }.train .gaussian 0 .sequential twoOnLine
        [0, 0] 1 (some [0, 0]) = .ok t' ∧
      ∃ m r, t.Gives 0 m r ∧ r.resets = 1 ∧ t'.Gives 0 m r) := by
  obtain ⟨hbudget, htolerance, hresets⟩ := stopping_cuts_short Settings.oneStep .gaussian 0
    .sequential twoOnLine [0, 0] 1 (some [0, 0])
  have hvalid : Settings.oneStep.validate = .ok () := by decide +kernel
  refine ⟨?budget, ?tolerance, ?resets⟩
  case budget =>
    have hstart : Settings.oneStep.startLabels 2 (some [0, 0]) = .ok (some [0, 0]) := rfl
    obtain ⟨t, ht, hgives⟩ :=
      Settings.exists_train_gives fittable_twoOnLine .gaussian 0 .sequential hstart hvalid
    obtain ⟨t', ht', hgroups⟩ := hbudget 0 5 t (by decide) ht
    obtain ⟨m', r', hgives', -, hsame⟩ := hgroups 0 _ _ (hgives 0 (by decide))
    obtain ⟨rfl, rfl⟩ := hsame (by decide +kernel)
    exact ⟨t, t', ht, ht', _, _, hgives 0 (by decide), by decide +kernel, hgives'⟩
  case tolerance =>
    have hstart : { Settings.oneStep with tolerance := 0.5 }.startLabels 2 (some [0, 0]) =
      .ok (some [0, 0]) := rfl
    have hstart' : { Settings.oneStep with tolerance := 0.25 }.startLabels 2 (some [0, 0]) =
      .ok (some [0, 0]) := rfl
    obtain ⟨t, ht, hgives⟩ := Settings.exists_train_gives fittable_twoOnLine .gaussian 0
      .sequential hstart (by decide +kernel)
    obtain ⟨t', ht', -⟩ := Settings.exists_train_gives fittable_twoOnLine .gaussian 0
      .sequential hstart' (by decide +kernel)
    obtain ⟨m', r', hgives', -, hsame⟩ :=
      htolerance 0.5 0.25 t t' (by decide +kernel) ht ht' 0 _ _ (hgives 0 (by decide))
    obtain ⟨rfl, rfl⟩ := hsame (by decide +kernel)
    exact ⟨t, t', ht, ht', _, _, hgives 0 (by decide), by decide +kernel, hgives'⟩
  case resets =>
    have hstart : { Settings.oneStep with maxResets := 1 }.startLabels 2 (some [0, 0]) =
      .ok (some [0, 0]) := rfl
    obtain ⟨t, ht, hgives⟩ := Settings.exists_train_gives fittable_twoOnLine .gaussian 0
      .sequential hstart (by decide +kernel)
    obtain ⟨t', ht', hgroups⟩ := hresets 1 7 t ht
    exact ⟨t, t', ht, ht', _, _, hgives 0 (by decide), by decide +kernel,
      hgroups 0 _ _ (hgives 0 (by decide)) (by decide +kernel) (by decide +kernel)⟩

end Mixtures.Em
