import Mixtures.Proofs.Em.Moves

/-!
# What a run logs

All events of a run are recorded, and the verbosity selects those that are passed on. So a log is a
projection of the run: the events of the groups with samples, in group order, each with its details
first and its end last, and the end of the run after all of them.

* `train_details`: the details of a group number the expectation steps and tell of every move.
* `logging_projects`: the verbosity changes no result, and selects nothing, or the ends, or all.
-/

namespace Mixtures.Em

variable {α F : Type}

/-- The log-likelihood that an event tells of, with the number of its expectation step. -/
def GroupEvent.iteration? : GroupEvent α → Option (α × Nat)
  | .iteration index logLikelihood => some (logLikelihood, index)
  | _ => none

/-! ## Selection by verbosity -/

theorem isShownAt_silent (event : Event α) : event.isShownAt .silent = false := by
  rcases event with ⟨_, _ | _ | _ | _⟩ | _ <;> rfl

/-- A summary has everything but the details. -/
theorem isShownAt_summary (event : Event α) :
    event.isShownAt .summary = decide (event.level ≠ .debug) := by
  rcases event with ⟨_, _ | _ | _ | r⟩ | _
  case group.ended =>
    show true = decide ((if r.status = .degenerate then Level.warn else Level.info) ≠ .debug)
    split <;> rfl
  all_goals rfl

theorem isShownAt_detailed (event : Event α) : event.isShownAt .detailed = true := by
  rcases event with ⟨_, _ | _ | _ | _⟩ | _ <;> rfl

/-- The line that tells of the end of a group: a warning if it was given up. -/
theorem line_ended (number : Option α → String) (group : Nat) (r : Diagnostics α) :
    (Event.group group (.ended r)).line number =
      if r.status = .degenerate then
        s!"WARN group {group}: gave up after {r.resets} component resets"
      else
        s!"INFO group {group}: {r.status.name} after {r.trace.length} iterations " ++
          s!"({r.samples} samples), log-likelihood " ++ number r.trace.getLast? := by
  unfold Event.line Event.level Event.message
  dsimp only [Diagnostics.iterations, Diagnostics.final?]
  split <;>
  · simp only [Level.name, toString, ← String.append_assoc]
    rfl

/-! ## The details of a group -/

variable [Scalar α]

namespace Problem

/-- The events of a state number the log-likelihoods found so far, and are all details. -/
structure Tells (trace : List α) (s : State α) : Prop where
  iterations : s.history.reverse.filterMap GroupEvent.iteration? = trace.zipIdx
  detail : ∀ event ∈ s.history, ∀ group, (Event.group group event).level = .debug

variable {p : Problem α F} {trace : List α} {s : State α}

omit [Scalar α] in
/-- An event that is a detail, but not the end of an expectation step. -/
theorem Tells.record (h : Tells trace s) (event : GroupEvent α) (hstep : event.iteration? = none)
    (hdetail : ∀ group, (Event.group group event).level = .debug) :
    Tells trace (s.record event) where
  iterations := by
    show (event :: s.history).reverse.filterMap _ = _
    rw [List.reverse_cons, List.filterMap_append, h.iterations, List.filterMap_cons_none hstep]
    exact List.append_nil _
  detail := List.forall_mem_cons.mpr ⟨hdetail, h.detail⟩

omit [Scalar α] in
theorem Tells.record_iteration (h : Tells trace s) (total : α) :
    Tells (trace ++ [total]) (s.record (.iteration trace.length total)) where
  iterations := by
    show (GroupEvent.iteration trace.length total :: s.history).reverse.filterMap _ = _
    rw [List.reverse_cons, List.filterMap_append, h.iterations, List.zipIdx_append]
    simp [GroupEvent.iteration?]
  detail := List.forall_mem_cons.mpr ⟨fun _ => rfl, h.detail⟩

/-- **Training tells of every expectation step**, and of nothing but details. -/
theorem carries_tells (p : Problem α F) : p.Carries Tells Tells where
  weaken h := h
  estimated h := ⟨h.iterations, h.detail⟩
  silenced _ h := ⟨h.iterations, h.detail⟩
  normalized h := ⟨h.iterations, h.detail⟩
  reset component _ h := by
    unfold Problem.reset
    dsimp only
    split
    · exact ⟨h.iterations, h.detail⟩
    · show Tells _ (State.record _ (.reset component _))
      refine Tells.record ?_ _ rfl fun _ => rfl
      exact ⟨h.iterations, h.detail⟩
  prepared component h := by
    rw [prepareAt_snd]
    exact ⟨h.iterations, h.detail⟩
  distributed factors h := by
    unfold distribute
    dsimp only
    split
    · exact ⟨h.iterations, h.detail⟩
    · refine Tells.record ?_ (.unexplained _) rfl fun _ => rfl
      exact ⟨h.iterations, h.detail⟩
  recorded total h := h.record_iteration total

/-- What the details of a group tell, given its labels, its mixture and its report: the
log-likelihoods, numbered from zero, and the moves of its components. These moves lead to the
components with which training ended; there are as many of them as resets, but for one that was
refused. -/
structure Details (p : Problem α F) (labels : List Nat) (m : Mixture α) (r : Diagnostics α)
    (events : List (GroupEvent α)) : Prop where
  debug : ∀ event ∈ events, ∀ group, (Event.group group event).level = .debug
  iterations : events.filterMap GroupEvent.iteration? = r.trace.zipIdx
  moves : p.Path (p.initialState (labels.map (oneHot p.count))) (events.filterMap GroupEvent.move?)
    (p.ending (p.initialState (labels.map (oneHot p.count)))).state.components
    (p.ending (p.initialState (labels.map (oneHot p.count)))).state.responsibilities
  /-- What is returned after giving up may be older than the last move. -/
  components_eq : r.status ≠ .degenerate → m.components =
    (p.ending (p.initialState (labels.map (oneHot p.count)))).state.components
  moves_le : (events.filterMap GroupEvent.move?).length ≤ p.settings.maxResets
  resets_eq : r.resets = (events.filterMap GroupEvent.move?).length ∨
    r.status = .degenerate ∧
      (events.filterMap GroupEvent.move?).length = p.settings.maxResets ∧
      r.resets = p.settings.maxResets + 1

/-- The events of a group without samples, and those of a group with samples: its details, then its
end. -/
theorem train_details (p : Problem α F) (labels : List Nat) :
    (p.points = [] → (p.train labels).events = []) ∧
      (p.points ≠ [] → ∃ details,
        (p.train labels).events = details ++ [.ended (p.train labels).report] ∧
        p.Details labels (p.train labels).mixture (p.train labels).report details) := by
  refine ⟨fun hpoints => ?_, fun hpoints => ?_⟩
  · rw [train, hpoints]
    rfl
  · -- one course of training, and two things carried along it: the moves and what is told
    have hends := ending_ends p (p.initialState (labels.map (oneHot p.count)))
    obtain ⟨hpath, hle, hresets⟩ := hends.moves
    obtain ⟨htells, -⟩ :=
      hends.carried (carries_tells p) ⟨rfl, fun _ h => absurd h List.not_mem_nil⟩
    unfold train
    rw [if_neg (by simpa using hpoints)]
    exact ⟨_, rfl,
      { debug := fun event hevent => htells.detail event (List.mem_reverse.mp hevent)
        iterations := htells.iterations
        moves := hpath
        components_eq := fun hstatus => if_neg hstatus
        moves_le := hle
        resets_eq := hresets }⟩

end Problem

/-! ## The log of a run -/

omit [Scalar α] in
/-- The records of the groups with samples, in group order: of each its details, then its end. -/
def Training.groupRecords (t : Training α) (ids : List Nat)
    (details : Nat → List (GroupEvent α)) : List (Event α) :=
  t.reports.zipIdx.flatMap fun (r, group) =>
    if group ∈ ids then (details group ++ [GroupEvent.ended r]).map (Event.group group) else []

omit [Scalar α] in
/-- The record of the whole run. -/
def Training.runRecord (t : Training α) (sampleCount : Nat) : Event α :=
  .trained t.reports.length t.converged sampleCount t.models.size t.models.dim

omit [Scalar α] in
theorem line_runRecord (t : Training α) (sampleCount : Nat) (number : Option α → String) :
    (t.runRecord sampleCount).line number =
      s!"INFO trained {t.reports.length} groups: {t.converged} converged, " ++
        s!"{sampleCount} samples, k={t.models.size}, d={t.models.dim}" := by
  unfold Training.runRecord Event.line Event.level Event.message
  simp only [Level.name, toString, ← String.append_assoc]
  rfl

omit [Scalar α] in
/-- Without the details, the ends remain. -/
theorem Training.groupRecords_summary (t : Training α) {ids : List Nat}
    {details : Nat → List (GroupEvent α)}
    (hdebug : ∀ group ∈ ids, ∀ event ∈ details group, (Event.group group event).level = .debug) :
    (t.groupRecords ids details).filter (·.isShownAt .summary) =
      t.groupRecords ids fun _ => [] := by
  unfold groupRecords
  rw [List.filter_flatMap]
  congr 1
  funext ⟨r, group⟩
  dsimp only
  by_cases hgroup : group ∈ ids
  · rw [if_pos hgroup, if_pos hgroup, List.map_append, List.filter_append,
      List.filter_eq_nil_iff.mpr]
    · rfl
    · intro event hevent
      obtain ⟨e, he, rfl⟩ := List.mem_map.mp hevent
      rw [isShownAt_summary, hdebug group hgroup e he]
      decide
  · rw [if_neg hgroup, if_neg hgroup]
    rfl

omit [Scalar α] in
theorem collection_ext {first second : Collection α} (hsize : first.size = second.size)
    (hdim : first.dim = second.dim) (hmixtures : first.mixtures = second.mixtures) :
    first = second := by
  obtain ⟨_, _, _, _⟩ := first
  obtain ⟨_, _, _, _⟩ := second
  cases hsize
  cases hdim
  cases hmixtures
  rfl

namespace Settings

variable {s : Settings α} {kernel : DensityKernel α F} {samples : List (Point α)} {ids : List Nat}
  {groupCount dim : Nat} {start : Option (List Nat)}

/-- The verbosity is not read when a group is trained. -/
theorem groupResult_withVerbosity (v : Verbosity) (seed : UInt64) (group : Nat) :
    { s with verbosity := v }.groupResult kernel seed samples ids dim start group =
      s.groupResult kernel seed samples ids dim start group := by
  have hsteps : Problem.SameSteps
      ({ s with verbosity := v }.groupProblem kernel samples ids dim group)
      (s.groupProblem kernel samples ids dim group) := ⟨rfl, rfl, rfl, rfl, rfl, rfl, rfl⟩
  rw [groupResult_eq_train, groupResult_eq_train, Problem.train_congr hsteps rfl rfl]
  rfl

/-- The events of a run are those of its groups with samples, then that of the whole run. -/
theorem eventsOf_groupResults {seed : UInt64} {t : Training α}
    (hcollects : s.Collects samples.length dim
      (s.groupResults kernel seed samples ids groupCount dim start) t)
    {details : Nat → List (GroupEvent α)}
    (hevents : ∀ group, (s.groupResult kernel seed samples ids dim start group).events =
      if group ∈ ids then details group ++
        [.ended (s.groupResult kernel seed samples ids dim start group).report] else []) :
    s.eventsOf (s.groupResults kernel seed samples ids groupCount dim start) samples.length dim =
      t.groupRecords ids details ++ [t.runRecord samples.length] := by
  set results := s.groupResults kernel seed samples ids groupCount dim start with hresults
  have hrun : t.runRecord samples.length =
      .trained results.length (results.countP fun r => r.report.status = .converged)
        samples.length s.componentCount dim := by
    unfold Training.runRecord Training.converged
    rw [hcollects.reports_eq, hcollects.size_eq, hcollects.dim_eq, List.length_map, List.countP_map]
    rfl
  unfold eventsOf Training.groupRecords
  rw [hrun, hcollects.reports_eq, List.zipIdx_map, List.flatMap_map]
  refine congrArg (· ++ _) (List.flatMap_congr fun entry hentry => ?_)
  obtain ⟨r, group⟩ := entry
  -- the result at a position is that of the group with this number
  have hget := List.mk_mem_zipIdx_iff_getElem?.mp hentry
  obtain ⟨g, hg, rfl⟩ : ∃ g, (List.range groupCount)[group]? = some g ∧
      s.groupResult kernel seed samples ids dim start g = r := by
    rw [hresults, groupResults, List.getElem?_map] at hget
    exact Option.map_eq_some_iff.mp hget
  obtain ⟨hlt, rfl⟩ := List.getElem?_eq_some_iff.mp hg
  dsimp only [Prod.map, id_eq]
  rw [List.getElem_range, hevents]
  split <;> rfl

/-- The events of the result of a group, and what its details tell. -/
theorem exists_details (s : Settings α) (kernel : DensityKernel α F)
    (h : Fittable samples ids groupCount dim) (start : Option (List Nat)) (seed : UInt64)
    (group : Nat) :
    ∃ details : List (GroupEvent α),
      (s.groupResult kernel seed samples ids dim start group).events =
        (if group ∈ ids then details ++
          [.ended (s.groupResult kernel seed samples ids dim start group).report] else []) ∧
      (group ∈ ids → (s.groupProblem kernel samples ids dim group).Details
        (s.groupLabels kernel seed samples ids dim start group)
        (s.groupResult kernel seed samples ids dim start group).mixture
        (s.groupResult kernel seed samples ids dim start group).report details) := by
  rw [groupResult_eq_train]
  obtain ⟨hempty, hfull⟩ := (s.groupProblem kernel samples ids dim group).train_details
    (s.groupLabels kernel seed samples ids dim start group)
  by_cases hgroup : group ∈ ids
  · obtain ⟨details, hevents, hdetails⟩ := hfull (h.owned_ne_nil hgroup)
    exact ⟨details, by rw [if_pos hgroup, hevents], fun _ => hdetails⟩
  · refine ⟨[], ?_, fun h => absurd h hgroup⟩
    rw [if_neg hgroup]
    exact hempty (Layout.owned_eq_nil_of_not_mem hgroup samples)

/-- The run at another verbosity: the same models and reports, and another selection of events. -/
theorem train_withVerbosity {entropy : UInt64} (executor : Executor) {labels : Option (List Nat)}
    {t : Training α} (h : Fittable samples ids groupCount dim)
    (hstart : s.startLabels samples.length labels = .ok start) (hvalid : s.validate = .ok ())
    (hcollects : s.Collects samples.length dim
      (s.groupResults kernel (s.seed.getD entropy) samples ids groupCount dim start) t)
    (v : Verbosity) :
    ∃ t', { s with verbosity := v }.train kernel entropy executor samples ids groupCount labels =
        .ok t' ∧
      t'.models = t.models ∧ t'.reports = t.reports ∧
      t'.events = (s.eventsOf
        (s.groupResults kernel (s.seed.getD entropy) samples ids groupCount dim start)
        samples.length dim).filter (Event.isShownAt v) := by
  have hstart' : { s with verbosity := v }.startLabels samples.length labels = .ok start := hstart
  obtain ⟨t', ht', hcollects'⟩ := train_outcome h kernel entropy executor hstart' hvalid
  have hresults : { s with verbosity := v }.groupResults kernel (s.seed.getD entropy) samples ids
      groupCount dim start =
      s.groupResults kernel (s.seed.getD entropy) samples ids groupCount dim start :=
    List.map_congr_left fun group _ => groupResult_withVerbosity v _ group
  rw [hresults] at hcollects'
  refine ⟨t', ht', collection_ext ?_ ?_ ?_, ?_, hcollects'.events_eq⟩
  · rw [hcollects'.size_eq, hcollects.size_eq]
  · rw [hcollects'.dim_eq, hcollects.dim_eq]
  · rw [hcollects'.mixtures_eq, hcollects.mixtures_eq]
  · rw [hcollects'.reports_eq, hcollects.reports_eq]

end Settings

/-- **Logging projects a run.** The verbosity changes neither the models nor the reports. A silent
run logs nothing; a summary logs, in group order, the end of each group with samples, and then the
end of the run; a detailed log has besides, before the end of each group, a record for each of its
expectation steps and for each of its moves, all of them for debugging. -/
theorem logging_projects {s : Settings α} {kernel : DensityKernel α F} {entropy : UInt64}
    {samples : List (Point α)} {ids : List Nat} {groupCount : Nat} {labels : Option (List Nat)}
    {t : Training α}
    (h : s.train kernel entropy .sequential samples ids groupCount labels = .ok t) :
    ∃ runAt : Verbosity → Training α,
      (∀ v,
        { s with verbosity := v }.train kernel entropy .sequential samples ids groupCount labels =
          .ok (runAt v) ∧ (runAt v).models = t.models ∧ (runAt v).reports = t.reports) ∧
      t.events = (runAt s.verbosity).events ∧
      (runAt .silent).events = [] ∧
      (runAt .summary).events = t.groupRecords ids (fun _ => []) ++ [t.runRecord samples.length] ∧
      (runAt .detailed).events.filter (fun event => event.level ≠ .debug) =
        (runAt .summary).events ∧
      ∃ details,
        (runAt .detailed).events = t.groupRecords ids details ++ [t.runRecord samples.length] ∧
        (∀ number, (t.runRecord samples.length).line number =
          s!"INFO trained {t.reports.length} groups: {t.converged} converged, " ++
            s!"{samples.length} samples, k={t.models.size}, d={t.models.dim}") ∧
        ∀ group ∈ ids, ∃ m r own, t.Gives group m r ∧
          (s.groupProblem kernel samples ids t.models.dim group).TrainsTo own m r ∧
          (s.groupProblem kernel samples ids t.models.dim group).Details own m r (details group) ∧
          ∀ number, (Event.group group (.ended r)).line number =
            if r.status = .degenerate then
              s!"WARN group {group}: gave up after {r.resets} component resets"
            else
              s!"INFO group {group}: {r.status.name} after {r.trace.length} iterations " ++
                s!"({r.samples} samples), log-likelihood " ++ number r.trace.getLast? := by
  obtain ⟨hfittable, start, hstart, hcollects⟩ := Settings.collects_of_train_eq_ok h
  have hvalid := Settings.validate_of_train_eq_ok h
  choose runAt hrun hmodels hreports hevents using
    Settings.train_withVerbosity .sequential hfittable hstart hvalid hcollects
  choose details hends hdetails using fun group =>
    Settings.exists_details s kernel hfittable start (s.seed.getD entropy) group
  -- all events of the run, from which each verbosity selects
  have hall := Settings.eventsOf_groupResults hcollects hends
  simp only [hall] at hevents
  have hdebug : ∀ group ∈ ids, ∀ event ∈ details group,
      (Event.group group event).level = .debug :=
    fun group hgroup event hevent => (hdetails group hgroup).debug event hevent group
  have hsummary : (runAt .summary).events =
      t.groupRecords ids (fun _ => []) ++ [t.runRecord samples.length] := by
    rw [hevents, List.filter_append, Training.groupRecords_summary t hdebug]
    rfl
  have hdetailed : (runAt .detailed).events =
      t.groupRecords ids details ++ [t.runRecord samples.length] := by
    rw [hevents, List.filter_eq_self.mpr fun event _ => isShownAt_detailed event]
  refine ⟨runAt, fun v => ⟨hrun v, hmodels v, hreports v⟩, ?_, ?_, hsummary, ?_, details, hdetailed,
    line_runRecord t samples.length, ?_⟩
  · exact congrArg Training.events (Except.ok.inj (h.symm.trans (hrun s.verbosity)))
  · rw [hevents, List.filter_eq_nil_iff.mpr fun event _ => ?_]
    rw [isShownAt_silent]
    exact Bool.false_ne_true
  · rw [hdetailed, hevents .summary]
    exact List.filter_congr fun event _ => (isShownAt_summary event).symm
  · intro group hgroup
    have hgives := (Settings.gives_iff hcollects).mpr ⟨hfittable.id_lt group hgroup, rfl, rfl⟩
    refine ⟨_, _, s.groupLabels kernel (s.seed.getD entropy) samples ids t.models.dim start group,
      hgives, ?_, hdetails group hgroup, fun number => line_ended number group _⟩
    rw [Settings.groupResult_eq_train]
    exact ⟨Settings.length_groupLabels hfittable _ hstart group,
      Settings.groupLabels_lt hvalid _ hstart group, rfl, rfl⟩

/-- One of two components has no samples, and one reset is allowed: nothing, the end of the group
and that of the run, or these with details before them, one of which tells of a move. -/
theorem logging_projects_twoOnLine :
    ∃ t m r, { Settings.oneStep with maxResets := 1 }.train .gaussian 0 .sequential twoOnLine
        [0, 0] 1 (some [0, 0]) = .ok t ∧ t.Gives 0 m r ∧ r.resets = 1 ∧
      ∃ runAt : Verbosity → Training Float,
        (∀ v, { Settings.oneStep with maxResets := 1, verbosity := v }.train .gaussian 0 .sequential
          twoOnLine [0, 0] 1 (some [0, 0]) = .ok (runAt v)) ∧
        (runAt .silent).events = [] ∧
        (runAt .summary).events = [.group 0 (.ended r), t.runRecord 2] ∧
        ∃ details : List (GroupEvent Float), (runAt .detailed).events =
            details.map (Event.group 0) ++ [.group 0 (.ended r), t.runRecord 2] ∧
          (details.filterMap GroupEvent.move?).length = 1 := by
  have hstart : { Settings.oneStep with maxResets := 1 }.startLabels 2 (some [0, 0]) =
    .ok (some [0, 0]) := rfl
  obtain ⟨t, ht, hcollects⟩ := Settings.train_outcome fittable_twoOnLine .gaussian 0 .sequential
    hstart (by decide +kernel)
  obtain ⟨r, hreports⟩ := List.length_eq_one_iff.mp hcollects.length_reports
  obtain ⟨runAt, hruns, -, hsilent, hsummary, -, details, hdetailed, -, hgroups⟩ :=
    logging_projects ht
  obtain ⟨m, r', own, hgives, -, hdetails, -⟩ := hgroups 0 (by decide)
  have hreport : r' = r := by simpa [hreports] using hgives.2.symm
  subst hreport
  have hresets : r'.resets = 1 := by
    obtain ⟨-, -, hr⟩ := (Settings.gives_iff hcollects).mp hgives
    rw [hr]
    decide +kernel
  refine ⟨t, m, r', ht, hgives, hresets, runAt, fun v => (hruns v).1, hsilent, ?summary, details 0,
    ?detailed, ?moves⟩
  case summary =>
    rw [hsummary, Training.groupRecords, hreports]
    rfl
  case detailed =>
    rw [hdetailed, Training.groupRecords, hreports]
    simp [twoOnLine]
  case moves =>
    rcases hdetails.resets_eq with hmoves | ⟨-, hmoves, -⟩
    · rw [← hmoves, hresets]
    · exact hmoves

end Mixtures.Em
