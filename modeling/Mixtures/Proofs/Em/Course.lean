import Mixtures.Proofs.Em.Invariant

/-!
# The course of training

Training is a course of states in which the components have just been estimated. `Problem.Reaches`
is the step relation of this course, with the log-likelihoods found on the way, and `Problem.Ends`
lists the five ways in which the course can end.

* `reaches_holds`: what training keeps holds in every state of the course.
* `ending_ends`: the iterations of a group end in one of these ways.

A statement about a whole run is proved from them: an induction over the course, and then one case
for each way to end.
-/

namespace Mixtures.Em.Problem

variable {α F : Type} [Scalar α]

/-- Training from a state comes to another one, in which the components have just been estimated.
The list has the log-likelihoods found so far; the components are those that the last completed
expectation step left behind. -/
inductive Reaches (p : Problem α F) (start : State α) :
    List α → Option (List (Component α)) → State α → Prop
  /-- The first maximization step has been completed. -/
  | first {s : State α} : p.maximize start = .done () s → Reaches p start [] none s
  /-- One more iteration has been completed. -/
  | next {trace : List α} {valid : Option (List (Component α))} {s explained estimated : State α}
      {total : α} :
      Reaches p start trace valid s → trace.length < p.settings.maxIterations →
      p.expect s = .done total explained → p.hasSettled trace.getLast? total = false →
      p.maximize (explained.record (.iteration trace.length total)) = .done () estimated →
      Reaches p start (trace ++ [total]) (some explained.components) estimated

/-- The ways in which training from a state ends. -/
inductive Ends (p : Problem α F) (start : State α) : Ending α → Prop
  /-- The first maximization step gives up. -/
  | unstarted {s : State α} : p.maximize start = .gaveUp s →
      Ends p start { trace := [], status := .degenerate, state := s, valid := none }
  /-- An expectation step gives up. -/
  | unexplained {trace : List α} {valid : Option (List (Component α))} {s failed : State α} :
      Reaches p start trace valid s → trace.length < p.settings.maxIterations →
      p.expect s = .gaveUp failed →
      Ends p start { trace, status := .degenerate, state := failed, valid }
  /-- The log-likelihood has settled. -/
  | settled {trace : List α} {valid : Option (List (Component α))} {s explained : State α}
      {total : α} :
      Reaches p start trace valid s → trace.length < p.settings.maxIterations →
      p.expect s = .done total explained → p.hasSettled trace.getLast? total = true →
      Ends p start
        { trace := trace ++ [total], status := .converged
          state := explained.record (.iteration trace.length total)
          valid := some explained.components }
  /-- A later maximization step gives up. -/
  | unestimated {trace : List α} {valid : Option (List (Component α))}
      {s explained failed : State α} {total : α} :
      Reaches p start trace valid s → trace.length < p.settings.maxIterations →
      p.expect s = .done total explained → p.hasSettled trace.getLast? total = false →
      p.maximize (explained.record (.iteration trace.length total)) = .gaveUp failed →
      Ends p start
        { trace := trace ++ [total], status := .degenerate, state := failed
          valid := some explained.components }
  /-- The budget is spent. -/
  | spent {trace : List α} {valid : Option (List (Component α))} {s : State α} :
      Reaches p start trace valid s → trace.length = p.settings.maxIterations →
      Ends p start { trace, status := .maxIterations, state := s, valid }

variable {p : Problem α F} {start : State α}

/-- What training keeps holds in every state that it reaches. -/
theorem reaches_holds {P : Component α → Prop} {Q : List α → Prop} (k : p.Keeps P Q)
    (hpoints : p.points ≠ []) (hstart : p.Holds P Q start) {trace : List α}
    {valid : Option (List (Component α))} {s : State α} (h : p.Reaches start trace valid s) :
    p.Holds P Q s := by
  induction h with
  | first hmaximize =>
    have hstate := maximize_holds k hpoints hstart
    rwa [hmaximize] at hstate
  | @next trace _ _ explained _ total _ _ hexpect _ hmaximize ih =>
    have hexplained := expect_holds k hpoints ih
    rw [hexpect] at hexplained
    have hstate := maximize_holds k hpoints
      (Holds.record (s := explained) hexplained (.iteration trace.length total))
    rwa [hmaximize] at hstate

/-- Iterations go on with the course that led to them, up to one of its ends. -/
theorem iterate_ends (budget : Nat) {trace : List α} {valid : Option (List (Component α))}
    {s : State α} (h : p.Reaches start trace valid s)
    (hbudget : trace.length + budget = p.settings.maxIterations) :
    p.Ends start
      { p.iterate budget trace.length trace.getLast? valid s with
        trace := trace ++ (p.iterate budget trace.length trace.getLast? valid s).trace } := by
  induction budget generalizing trace valid s with
  | zero =>
    rw [iterate, List.append_nil]
    exact .spent h hbudget
  | succ budget ih =>
    have hlt : trace.length < p.settings.maxIterations := by omega
    rw [iterate]
    cases hexpect : p.expect s with
    | gaveUp failed =>
      dsimp only
      rw [List.append_nil]
      exact .unexplained h hlt hexpect
    | done total explained =>
      dsimp only
      cases hsettled : p.hasSettled trace.getLast? total with
      | true => exact .settled h hlt hexpect hsettled
      | false =>
        rw [if_neg (by decide)]
        cases hmaximize : p.maximize (explained.record (.iteration trace.length total)) with
        | gaveUp failed => exact .unestimated h hlt hexpect hsettled hmaximize
        | done value estimated =>
          -- what follows is the course with one more log-likelihood
          have hlater := ih (.next h hlt hexpect hsettled hmaximize) (by simp; omega)
          rw [List.length_append, List.length_singleton, List.getLast?_concat,
            List.append_assoc] at hlater
          exact hlater

/-- **The iterations of a group end** in one of five ways. -/
theorem ending_ends (p : Problem α F) (start : State α) : p.Ends start (p.ending start) := by
  unfold ending
  split
  next s hs => exact .unstarted hs
  next s hs => exact iterate_ends p.settings.maxIterations (.first hs) (Nat.zero_add _)

/-- Training that converges ends with an expectation step: its log-likelihood is the last one, and
its components are returned. -/
theorem Ends.exists_settled {e : Ending α} (h : p.Ends start e) (hstatus : e.status = .converged) :
    ∃ (trace : List α) (valid : Option (List (Component α))) (s explained : State α) (total : α),
      p.Reaches start trace valid s ∧ p.expect s = .done total explained ∧
        e.trace.getLast? = some total ∧ Ending.components e = explained.components := by
  cases h with
  | settled hreaches _ hexpect _ =>
    exact ⟨_, _, _, _, _, hreaches, hexpect, List.getLast?_concat, rfl⟩
  | _ => cases hstatus

/-- The next maximization step gives up, or the expectation step after it. -/
inductive Fails (p : Problem α F) (s : State α) : Prop
  | maximize {failed : State α} : p.maximize s = .gaveUp failed → Fails p s
  | expect {estimated failed : State α} : p.maximize s = .done () estimated →
      p.expect estimated = .gaveUp failed → Fails p s

/-- Training that gives up after an expectation step has kept the components of the last one, which
are those to fall back on. -/
theorem Ends.exists_failed {e : Ending α} (h : p.Ends start e) (hstatus : e.status = .degenerate)
    (htrace : e.trace ≠ []) :
    ∃ (trace : List α) (valid : Option (List (Component α))) (s explained : State α) (total : α),
      p.Reaches start trace valid s ∧ p.expect s = .done total explained ∧
        e.trace = trace ++ [total] ∧ e.valid = some explained.components ∧
        p.Fails (explained.record (.iteration trace.length total)) := by
  cases h with
  | unstarted _ => exact absurd rfl htrace
  | unexplained hreaches _ hfailed =>
    cases hreaches with
    | first _ => exact absurd rfl htrace
    | next hbefore _ hexpect _ hmaximize =>
      exact ⟨_, _, _, _, _, hbefore, hexpect, rfl, rfl, .expect hmaximize hfailed⟩
  | unestimated hreaches _ hexpect _ hfailed =>
    exact ⟨_, _, _, _, _, hreaches, hexpect, rfl, rfl, .maximize hfailed⟩
  | settled _ _ _ _ => cases hstatus
  | spent _ _ => cases hstatus

end Mixtures.Em.Problem
