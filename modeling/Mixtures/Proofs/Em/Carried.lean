import Mixtures.Proofs.Em.Course

/-!
# What a run carries along

Some facts relate the whole state of training, with its count of resets and its events, to the
log-likelihoods found so far. A refused reset ends a run and leaves less: what `I` says of a state
that training can go on from, `J` says of the state in which it gave up.

`Problem.Carries` lists the elementary changes of the state, once.

* `expect_meets` and `maximize_meets`: one step, completed or given up.
* `Ends.carried`: a whole run, whatever its status.
-/

namespace Mixtures.Em

variable {α F : Type} [Scalar α]

namespace Outcome

variable {σ β γ : Type} {I J : σ → Prop}

/-- A completed step ends in a state with `I`, a step that gives up in one with `J`. -/
def Meets (I J : σ → Prop) : Outcome σ β → Prop
  | done _ s => I s
  | gaveUp s => J s

omit [Scalar α] in
theorem Meets.andThen {outcome : Outcome σ β} {next : β → σ → Outcome σ γ}
    (h : outcome.Meets I J) (hnext : ∀ value s, I s → (next value s).Meets I J) :
    (outcome.andThen next).Meets I J := by
  cases outcome with
  | done value s => exact hnext value s h
  | gaveUp s => exact h

end Outcome

namespace Problem

/-- The elementary changes of training keep `I`, for the log-likelihoods found so far; a reset that
is refused leaves `J`. -/
structure Carries (p : Problem α F) (I J : List α → State α → Prop) : Prop where
  /-- What training can go on from, it can also end in. -/
  weaken : ∀ {trace s}, I trace s → J trace s
  /-- The components are estimated anew. -/
  estimated : ∀ {trace s}, I trace s → I trace { s with
    components := s.components.zipWith (fun c e => e.getD c) (p.estimates s.responsibilities) }
  /-- Components lose their weight. -/
  silenced : ∀ {trace s} positions, I trace s →
    I trace { s with components := p.silence positions s.components }
  /-- The weights are divided by their sum. -/
  normalized : ∀ {trace s}, I trace s →
    I trace { s with components := normalizeWeights s.components }
  /-- A component is moved onto a sample, or not. -/
  reset : ∀ {trace s}, ∀ component < p.count, I trace s →
    (p.reset component s).Meets (I trace) (J trace)
  /-- A covariance is repaired. -/
  prepared : ∀ {trace s} component, I trace s → I trace (p.prepareAt component s).2
  /-- The samples are shared out. -/
  distributed : ∀ {trace s} factors, I trace s → I trace (p.distribute factors s).2
  /-- A completed expectation step is recorded. -/
  recorded : ∀ {trace s} total, I trace s →
    I (trace ++ [total]) (s.record (.iteration trace.length total))

variable {p : Problem α F} {I J : List α → State α → Prop} {trace : List α}

/-! ## One step -/

theorem resetAll_meets (k : p.Carries I J) {components : List Nat}
    (hlt : ∀ component ∈ components, component < p.count) {s : State α} (h : I trace s) :
    (p.resetAll components s).Meets (I trace) (J trace) := by
  induction components generalizing s with
  | nil => exact h
  | cons component components ih =>
    obtain ⟨hfirst, hrest⟩ := List.forall_mem_cons.mp hlt
    exact (k.reset component hfirst h).andThen fun _ _ hs => ih hrest hs

/-- A maximization step, completed or given up. -/
theorem maximize_meets (k : p.Carries I J) {s : State α} (h : I trace s) :
    (p.maximize s).Meets (I trace) (J trace) := by
  refine Outcome.Meets.andThen ?_ fun _ s hs => k.normalized hs
  split
  · refine resetAll_meets k (fun component hcomponent => ?_) (k.estimated h)
    have hlt := (List.getElem?_eq_some_iff.mp (mem_collapsed.mp hcomponent)).1
    rwa [length_estimates] at hlt
  · exact k.silenced _ (k.estimated h)

theorem factorAt_meets (k : p.Carries I J) {component : Nat} (hlt : component < p.count)
    {s : State α} (h : I trace s) : (p.factorAt component s).Meets (I trace) (J trace) := by
  unfold factorAt
  split
  · exact h
  split
  · exact h
  have hprepared := k.prepared component h
  split
  next heq =>
    rw [heq] at hprepared
    exact hprepared
  next heq =>
    rw [heq] at hprepared
    -- after the reset the component is prepared once more, and then a failure ends the run
    refine (k.reset component hlt hprepared).andThen fun _ s hs => ?_
    have hagain := k.prepared component hs
    split
    next heq =>
      rw [heq] at hagain
      exact hagain
    next heq =>
      rw [heq] at hagain
      exact k.weaken hagain

theorem factorAll_meets (k : p.Carries I J) {components : List Nat}
    (hlt : ∀ component ∈ components, component < p.count) {s : State α} (h : I trace s) :
    (p.factorAll components s).Meets (I trace) (J trace) := by
  induction components generalizing s with
  | nil => exact h
  | cons component components ih =>
    obtain ⟨hfirst, hrest⟩ := List.forall_mem_cons.mp hlt
    refine (factorAt_meets k hfirst h).andThen fun _ s hs => ?_
    exact (ih hrest hs).andThen fun _ _ hs' => hs'

/-- An expectation step, completed or given up. -/
theorem expect_meets (k : p.Carries I J) {s : State α} (h : I trace s) :
    (p.expect s).Meets (I trace) (J trace) :=
  (factorAll_meets k (fun _ h => List.mem_range.mp h) h).andThen fun factors _ hs =>
    k.distributed factors hs

/-! ## A whole run -/

/-- A completed expectation step followed by its record. -/
theorem record_carried (k : p.Carries I J) {s explained : State α} {total : α} (h : I trace s)
    (hexpect : p.expect s = .done total explained) :
    I (trace ++ [total]) (explained.record (.iteration trace.length total)) := by
  have hexplained := expect_meets k h
  rw [hexpect] at hexplained
  exact k.recorded total hexplained

theorem reaches_carried (k : p.Carries I J) {start s : State α}
    {valid : Option (List (Component α))} (hstart : I [] start)
    (h : p.Reaches start trace valid s) : I trace s := by
  induction h with
  | first hmaximize =>
    have hestimated := maximize_meets k hstart
    rwa [hmaximize] at hestimated
  | next _ _ hexpect _ hmaximize ih =>
    have hestimated := maximize_meets k (record_carried k ih hexpect)
    rwa [hmaximize] at hestimated

/-- **A whole run** ends in a state with `J`, and in one with `I` unless it gave up. -/
theorem Ends.carried (k : p.Carries I J) {start : State α} (hstart : I [] start) {e : Ending α}
    (h : p.Ends start e) :
    J e.trace e.state ∧ (e.status ≠ .degenerate → I e.trace e.state) := by
  cases h with
  | unstarted hmaximize =>
    have hfailed := maximize_meets k hstart
    rw [hmaximize] at hfailed
    exact ⟨hfailed, fun h => absurd rfl h⟩
  | unexplained hreaches _ hexpect =>
    have hfailed := expect_meets k (reaches_carried k hstart hreaches)
    rw [hexpect] at hfailed
    exact ⟨hfailed, fun h => absurd rfl h⟩
  | settled hreaches _ hexpect _ =>
    have hend := record_carried k (reaches_carried k hstart hreaches) hexpect
    exact ⟨k.weaken hend, fun _ => hend⟩
  | unestimated hreaches _ hexpect _ hmaximize =>
    have hfailed := maximize_meets k (record_carried k (reaches_carried k hstart hreaches) hexpect)
    rw [hmaximize] at hfailed
    exact ⟨hfailed, fun h => absurd rfl h⟩
  | spent hreaches _ =>
    have hend := reaches_carried k hstart hreaches
    exact ⟨k.weaken hend, fun _ => hend⟩

end Problem

end Mixtures.Em
