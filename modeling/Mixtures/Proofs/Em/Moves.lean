import Mixtures.Proofs.Em.Carried
import Mixtures.Proofs.Em.Factoring
import Mixtures.Proofs.Em.Stopping
import Mixtures.Proofs.Pipeline.Training

/-!
# Moves of components

A reset that is granted moves a component onto a sample. `Problem.Path` says what happens to the
components and responsibilities of a group from the first step of training on, with the moves on the
way; it knows nothing of counts, of bounds or of events. The count of resets in a report is compared
with these moves.

* `Problem.Ends.moves`: the moves on the way to the end of training, which its events tell of.
* `resets_count_moves`: the resets of a report are the moves of its group, of which there are never
  more than allowed, and one more if training ended because a further reset was refused.
* `twoOnLine_resets`: so a group can report a reset although no component has been moved.
-/

namespace Mixtures.Em

variable {α F : Type} [Scalar α]

omit [Scalar α] in
/-- The move that an event tells of: a component and the sample onto which it was moved. -/
def GroupEvent.move? : GroupEvent α → Option (Nat × Nat)
  | .reset component sample => some (component, sample)
  | _ => none

omit [Scalar α] in
/-- The moves that the events of a group tell of, in order. -/
def GroupResult.moves (r : GroupResult α) : List (Nat × Nat) := r.events.filterMap GroupEvent.move?

omit [Scalar α] in
/-- The moves so far. -/
def State.moves (s : State α) : List (Nat × Nat) := s.history.reverse.filterMap GroupEvent.move?

omit [Scalar α] in
@[simp] theorem moves_record (s : State α) (event : GroupEvent α) :
    (s.record event).moves = s.moves ++ event.move?.toList := by
  unfold State.moves State.record
  rw [List.reverse_cons, List.filterMap_append]
  cases event <;> rfl

namespace Problem

/-- Training leads from a state to these components and responsibilities, and moves these components
onto these samples on the way. -/
inductive Path (p : Problem α F) (start : State α) :
    List (Nat × Nat) → List (Component α) → List (List α) → Prop
  /-- Nothing has happened. -/
  | start : Path p start [] start.components start.responsibilities
  /-- The components are estimated from the responsibilities. -/
  | estimated {moves : List (Nat × Nat)} {components : List (Component α)} {rows : List (List α)} :
      Path p start moves components rows →
      Path p start moves (components.zipWith (fun c e => e.getD c) (p.estimates rows)) rows
  /-- Components lose their weight. -/
  | silenced {moves : List (Nat × Nat)} {components : List (Component α)} {rows : List (List α)}
      (positions : List Nat) :
      Path p start moves components rows → Path p start moves (p.silence positions components) rows
  /-- The weights are divided by their sum. -/
  | normalized {moves : List (Nat × Nat)} {components : List (Component α)} {rows : List (List α)} :
      Path p start moves components rows → Path p start moves (normalizeWeights components) rows
  /-- A covariance is repaired. -/
  | prepared {moves : List (Nat × Nat)} {components : List (Component α)} {rows : List (List α)}
      (component : Nat) :
      Path p start moves components rows →
      Path p start moves (components.modify component fun c =>
        { c with covariance := (p.prepare c.covariance).2 }) rows
  /-- The samples are shared out over the components. -/
  | distributed {moves : List (Nat × Nat)} {components : List (Component α)} {rows : List (List α)}
      (factors : List (Option F)) :
      Path p start moves components rows →
      Path p start moves components (p.points.map fun x => (p.explain components factors x).1)
  /-- A component is moved onto the sample that the others explain worst. -/
  | moved {moves : List (Nat × Nat)} {components : List (Component α)} {rows : List (List α)}
      {component : Nat} :
      component < components.length → Path p start moves components rows →
      Path p start (moves ++ [(component, p.outlier components component)])
        (components.set component (p.resetComponent (p.outlier components component))) rows

variable {p : Problem α F} {start s : State α}

/-- A path keeps the number of components. -/
theorem Path.length_eq {moves : List (Nat × Nat)} {components : List (Component α)}
    {rows : List (List α)} (h : p.Path start moves components rows)
    (hstart : start.components.length = p.count) : components.length = p.count := by
  induction h with
  | start => exact hstart
  | estimated _ ih => rw [List.length_zipWith, ih, length_estimates, min_self]
  | silenced positions _ ih => rw [length_silence, ih]
  | normalized _ ih => rw [length_normalizeWeights, ih]
  | prepared _ _ ih => rw [List.length_modify, ih]
  | distributed _ _ ih => exact ih
  | moved _ _ ih => rw [List.length_set, ih]

/-- What preparing a component does to the state. -/
theorem prepareAt_snd (p : Problem α F) (component : Nat) (s : State α) :
    (p.prepareAt component s).2 =
      { s with components := s.components.modify component fun c =>
        { c with covariance := (p.prepare c.covariance).2 } } := by
  unfold prepareAt
  split
  next hnone => rw [List.modify_eq_self (List.getElem?_eq_none_iff.mp hnone)]
  next c hc =>
    show ({ s with components := _ } : State α) = _
    congr 1
    refine List.ext_getElem? fun i => ?_
    rw [List.getElem?_modify, List.getElem?_modify]
    by_cases hi : component = i
    · subst hi
      rw [hc]
      rfl
    · simp [hi]

/-- Sharing out the samples is neither a reset nor a move. -/
theorem moves_distribute (p : Problem α F) (factors : List (Option F)) (s : State α) :
    (p.distribute factors s).2.resets = s.resets ∧ (p.distribute factors s).2.moves = s.moves := by
  unfold distribute
  dsimp only
  split
  · exact ⟨rfl, rfl⟩
  · exact ⟨rfl, by rw [moves_record]; exact List.append_nil _⟩

/-! ## The count of resets -/

/-- The count of resets of a state, compared with the moves that have led to it. -/
structure Tallies (p : Problem α F) (start : State α) (refused : Nat) (s : State α) : Prop where
  path : p.Path start s.moves s.components s.responsibilities
  resets_eq : s.resets = s.moves.length + refused
  moves_le : s.moves.length ≤ p.settings.maxResets
  /-- A reset is refused only when all allowed moves have been made. -/
  full : refused ≠ 0 → s.moves.length = p.settings.maxResets

/-- A change that is a part of a path, leaves the count alone and tells of no move. -/
theorem Tallies.change (h : p.Tallies start 0 s) {s' : State α}
    (hpath : p.Path start s.moves s'.components s'.responsibilities)
    (hresets : s'.resets = s.resets)
    (hmoves : s'.moves = s.moves) : p.Tallies start 0 s' where
  path := hmoves ▸ hpath
  resets_eq := by rw [hresets, hmoves, h.resets_eq]
  moves_le := hmoves ▸ h.moves_le
  full := fun hne => absurd rfl hne

/-- A reset is a move that is counted, or it is counted and refused. -/
theorem Tallies.reset (hstart : start.components.length = p.count) (h : p.Tallies start 0 s)
    {component : Nat} (hlt : component < p.count) :
    (p.reset component s).Meets (p.Tallies start 0)
      fun s' => p.Tallies start 0 s' ∨ p.Tallies start 1 s' := by
  have hresets := h.resets_eq
  have hle := h.moves_le
  unfold Problem.reset
  dsimp only
  split
  next hmax =>
    exact .inr ⟨h.path, congrArg (· + 1) hresets, hle, fun _ => (by omega : s.moves.length = _)⟩
  next hmax =>
    have hlength : component < s.components.length := by rwa [h.path.length_eq hstart]
    show p.Tallies start 0 _
    refine ⟨?_, ?_, ?_, fun hne => absurd rfl hne⟩
    · rw [moves_record]
      exact (h.path.moved hlength).normalized
    · rw [moves_record, List.length_append]
      show s.resets + 1 = s.moves.length + 1 + 0
      omega
    · rw [moves_record, List.length_append]
      show s.moves.length + 1 ≤ p.settings.maxResets
      omega

/-- **Training keeps the tally** of resets and moves. -/
theorem carries_tallies (p : Problem α F) (hstart : start.components.length = p.count) :
    p.Carries (fun _ => p.Tallies start 0)
      fun _ s => p.Tallies start 0 s ∨ p.Tallies start 1 s where
  weaken h := .inl h
  estimated h := h.change h.path.estimated rfl rfl
  silenced positions h := h.change (h.path.silenced positions) rfl rfl
  normalized h := h.change h.path.normalized rfl rfl
  reset component hlt h := h.reset hstart hlt
  prepared component h := by
    rw [prepareAt_snd]
    exact h.change (h.path.prepared component) rfl rfl
  distributed factors h := by
    obtain ⟨hresets, hmoves⟩ := moves_distribute p factors _
    refine h.change ?_ hresets hmoves
    rw [components_distribute, responsibilities_distribute]
    exact h.path.distributed factors
  recorded total h := h.change h.path rfl (by rw [moves_record]; exact List.append_nil _)

/-- The moves on the way to the end of training: they lead to the last components, and are as many
as the resets, but for one that was refused. -/
theorem Ends.moves {labels : List Nat} {e : Ending α}
    (h : p.Ends (p.initialState (labels.map (oneHot p.count))) e) :
    p.Path (p.initialState (labels.map (oneHot p.count))) e.state.moves e.state.components
        e.state.responsibilities ∧
      e.state.moves.length ≤ p.settings.maxResets ∧
      (e.state.resets = e.state.moves.length ∨
        e.status = .degenerate ∧ e.state.moves.length = p.settings.maxResets ∧
          e.state.resets = p.settings.maxResets + 1) := by
  have hstart : (p.initialState (labels.map (oneHot p.count))).components.length = p.count :=
    List.length_replicate
  obtain ⟨hend, hlive⟩ := h.carried (carries_tallies p hstart) ⟨.start, rfl, Nat.zero_le _, nofun⟩
  refine ⟨hend.elim (·.path) (·.path), hend.elim (·.moves_le) (·.moves_le), ?_⟩
  rcases hend with hall | hrefused
  · exact .inl hall.resets_eq
  · by_cases hstatus : e.status = .degenerate
    · have hfull := hrefused.full Nat.one_ne_zero
      exact .inr ⟨hstatus, hfull, hfull ▸ hrefused.resets_eq⟩
    · exact .inl (hlive hstatus).resets_eq

/-- The resets that training a problem reports are its moves, and perhaps one that was refused. -/
theorem train_moves (p : Problem α F) (labels : List Nat) :
    ∃ components responsibilities,
      p.Path (p.initialState (labels.map (oneHot p.count))) (p.train labels).moves components
        responsibilities ∧
      ((p.train labels).report.status ≠ .degenerate →
        (p.train labels).mixture.components = components) ∧
      (p.train labels).moves.length ≤ p.settings.maxResets ∧
      ((p.train labels).report.resets = (p.train labels).moves.length ∨
        (p.train labels).report.status = .degenerate ∧
          (p.train labels).moves.length = p.settings.maxResets ∧
          (p.train labels).report.resets = p.settings.maxResets + 1) := by
  unfold train
  split
  · exact ⟨_, _, .start, fun _ => rfl, Nat.zero_le _, .inl rfl⟩
  · have hmoves : ∀ (e : Ending α) (result : GroupResult α), result.events =
        e.state.history.reverse ++ [.ended (p.report e)] → result.moves = e.state.moves := by
      intro e result hevents
      rw [GroupResult.moves, hevents, List.filterMap_append]
      exact List.append_nil _
    rw [hmoves _ _ rfl]
    obtain ⟨hpath, hle, hresets⟩ := (ending_ends p _).moves
    exact ⟨_, _, hpath, fun hstatus => if_neg hstatus, hle, hresets⟩

end Problem

/-- **Resets count the moves of components**: there are never more moves than allowed, and the
report on a group gives their number, or one more if training ended because a further reset was
refused. -/
theorem resets_count_moves {s : Settings α} {kernel : DensityKernel α F} {samples : List (Point α)}
    {ids : List Nat} {groupCount : Nat} {t : Training α}
    (h : s.Yields kernel samples ids groupCount t) {group : Nat} {m : Mixture α} {r : Diagnostics α}
    (hgives : t.Gives group m r) :
    ∃ own, (s.groupProblem kernel samples ids t.models.dim group).TrainsTo own m r ∧
      ∃ moves components responsibilities,
        moves = ((s.groupProblem kernel samples ids t.models.dim group).train own).moves ∧
        (s.groupProblem kernel samples ids t.models.dim group).Path
          ((s.groupProblem kernel samples ids t.models.dim group).initialState
            (own.map (oneHot s.componentCount))) moves components responsibilities ∧
        (r.status ≠ .degenerate → m.components = components) ∧
        moves.length ≤ s.maxResets ∧
        (r.resets = moves.length ∨
          r.status = .degenerate ∧ moves.length = s.maxResets ∧ r.resets = s.maxResets + 1) := by
  obtain ⟨own, htrains⟩ := h.exists_labels hgives
  obtain ⟨components, responsibilities, hpath, hcomponents, hle, hresets⟩ :=
    (s.groupProblem kernel samples ids t.models.dim group).train_moves own
  rw [← htrains.report_eq] at hcomponents hresets
  rw [← htrains.mixture_eq] at hcomponents
  exact ⟨own, htrains, _, components, responsibilities, rfl, hpath, hcomponents, hle, hresets⟩

/-- With one reset allowed, the component without samples is moved once. -/
theorem resets_count_moves_twoOnLine :
    ∃ t m r own,
      { Settings.oneStep with maxResets := 1 }.train .gaussian 0 .sequential twoOnLine [0, 0] 1
        (some [0, 0]) = .ok t ∧ t.Gives 0 m r ∧ r.resets = 1 ∧
      (({ Settings.oneStep with maxResets := 1 }.groupProblem .gaussian twoOnLine [0, 0]
        t.models.dim 0).train own).moves.length = 1 := by
  have hstart : { Settings.oneStep with maxResets := 1 }.startLabels 2 (some [0, 0]) =
    .ok (some [0, 0]) := rfl
  obtain ⟨t, ht, hgives⟩ := Settings.exists_train_gives fittable_twoOnLine .gaussian 0
    .sequential hstart (by decide +kernel)
  have hgroup := hgives 0 (by decide)
  obtain ⟨own, -, moves, _, _, rfl, -, -, hle, hresets⟩ :=
    resets_count_moves (.train ht) hgroup
  refine ⟨t, _, _, own, ht, hgroup, by decide +kernel, ?_⟩
  rcases hresets with heq | ⟨-, heq, -⟩
  · rw [← heq]
    decide +kernel
  · exact heq

/-- **A refused reset is counted**: with no reset allowed the report says that there was one, and no
component has been moved. -/
theorem twoOnLine_resets :
    Settings.oneStep.maxResets = 0 ∧
    ∃ t m r,
      Settings.oneStep.train .gaussian 0 .sequential twoOnLine [0, 0] 1 (some [0, 0]) = .ok t ∧
      t.Gives 0 m r ∧ r.status = .degenerate ∧ r.resets = 1 ∧
      (Settings.oneStep.groupResult .gaussian 0 twoOnLine [0, 0] 1 (some [0, 0]) 0).moves = [] := by
  have hstart : Settings.oneStep.startLabels 2 (some [0, 0]) = .ok (some [0, 0]) := rfl
  obtain ⟨t, ht, hgives⟩ := Settings.exists_train_gives fittable_twoOnLine .gaussian 0 .sequential
    hstart (by decide +kernel)
  exact ⟨rfl, t, _, _, ht, hgives 0 (by decide), by decide +kernel, by decide +kernel,
    by decide +kernel⟩

end Mixtures.Em
