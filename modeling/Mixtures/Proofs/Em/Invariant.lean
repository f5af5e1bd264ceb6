import Mixtures.Em.Run
import Mixtures.Proofs.Search

/-!
# Invariants of training

A component changes in few ways while a group is trained: it is estimated anew, silenced, moved
onto a sample, repaired by jitter, or given another share of the weight. A property of components
that survives each of these changes holds of everything that training returns, however it ends.

`Problem.Keeps` lists the changes, once. It comes with a property of the responsibilities of one
sample, since an estimate can only be as good as the responsibilities that it is made from.

* `expect_holds` and `maximize_holds`: one step, completed or given up, keeps the properties.
* `ending_good`: so does a whole run, and so do the components that are returned.
-/

namespace Mixtures.Em

variable {α F : Type} [Scalar α]

/-- What holds of the state after a step and after every state that follows holds at the end. -/
theorem Outcome.andThen_state {σ β γ : Type} {I : σ → Prop} {outcome : Outcome σ β}
    {next : β → σ → Outcome σ γ} (h : I outcome.state)
    (hnext : ∀ value state, I state → I (next value state).state) :
    I (outcome.andThen next).state := by
  cases outcome with
  | done value state => exact hnext value state h
  | gaveUp state => exact h

/-! ## Numbers of components -/

theorem length_oneHot (count label : Nat) : (oneHot count label : List α).length = count := by
  rw [oneHot, List.length_map, List.length_range]

theorem length_logTerms (p : Problem α F) {components : List (Component α)}
    {factors : List (Option F)} (hlength : factors.length = components.length) (x : Point α) :
    (p.logTerms components factors x).length = components.length := by
  rw [Problem.logTerms, List.length_zipWith, hlength, Nat.min_self]

/-- The nearest component with weight is a component. -/
theorem nearestLive_lt {components : List (Component α)} {count : Nat}
    (hcount : components.length = count) (hne : count ≠ 0) (x : Point α) :
    nearestLive components x < count := by
  have hkeys : (components.map (liveDistance x)).length = count := by
    rw [List.length_map, hcount]
  rw [← hkeys]
  apply firstBest_lt
  intro hnil
  rw [hnil] at hkeys
  exact hne hkeys.symm

namespace Problem

theorem length_normalizeWeights (components : List (Component α)) :
    (normalizeWeights components).length = components.length := by
  unfold normalizeWeights
  dsimp only
  split
  · exact List.length_map _
  · rfl

theorem length_silence (p : Problem α F) (positions : List Nat) (components : List (Component α)) :
    (p.silence positions components).length = components.length := by
  unfold silence
  induction positions generalizing components with
  | nil => rfl
  | cons position positions ih => rw [List.foldl_cons, ih, List.length_modify]

theorem length_estimates (p : Problem α F) (rows : List (List α)) :
    (p.estimates rows).length = p.count := by
  rw [estimates, List.length_map, List.length_range]

omit [Scalar α] in
theorem mem_collapsed {estimates : List (Option (Component α))} {i : Nat} :
    i ∈ collapsed estimates ↔ estimates[i]? = some none := by
  unfold collapsed
  rw [List.mem_map]
  constructor
  · rintro ⟨⟨e, j⟩, hentry, rfl⟩
    obtain ⟨hmem, hnone⟩ := List.mem_filter.mp hentry
    rw [List.mk_mem_zipIdx_iff_getElem?] at hmem
    exact hmem.trans (congrArg some (Option.isNone_iff_eq_none.mp hnone))
  · intro h
    exact ⟨(none, i), List.mem_filter.mpr ⟨List.mk_mem_zipIdx_iff_getElem?.mpr h, rfl⟩, rfl⟩

/-! ## Properties of components -/

/-- The right number of components, all with a property. -/
def Good (p : Problem α F) (P : Component α → Prop) (components : List (Component α)) : Prop :=
  components.length = p.count ∧ ∀ c ∈ components, P c

/-- A property `P` of components survives every change that training makes to a component, as long
as a property `Q` holds of the responsibilities for each sample, and training keeps `Q` as well. -/
structure Keeps (p : Problem α F) (P : Component α → Prop) (Q : List α → Prop) : Prop where
  /-- Training begins with placeholders. -/
  placeholder : P (Component.placeholder p.dim p.settings.floor)
  /-- A sample may belong to one component alone. -/
  oneHot : ∀ label, Q (oneHot p.count label)
  /-- A sample is shared out over the components by their densities. -/
  explained : ∀ components (factors : List (Option F)) x, p.Good P components →
    factors.length = p.count → x ∈ p.points → Q (p.explain components factors x).1
  /-- A component is estimated from its column of the responsibilities. -/
  estimated : ∀ rows, rows.length = p.size → (∀ row ∈ rows, Q row) →
    ∀ component, ∀ c ∈ p.estimate (column rows component), P c
  /-- A component loses its weight. -/
  silenced : ∀ c, P c → P { Component.placeholder p.dim p.settings.floor with mean := c.mean }
  /-- A component is moved onto a sample. -/
  moved : ∀ sample < p.size, P (p.resetComponent sample)
  /-- A covariance is repaired. -/
  prepared : ∀ c, P c → P { c with covariance := (p.prepare c.covariance).2 }
  /-- The weights are divided by their sum. -/
  normalized : ∀ c total, 0 < total → Scalar.isFinite total → P c →
    P { c with weight := c.weight / total }

/-- Training keeps two properties together that it keeps each. -/
theorem Keeps.and {p : Problem α F} {P P' : Component α → Prop} {Q : List α → Prop}
    (k : p.Keeps P Q) (k' : p.Keeps P' Q) : p.Keeps (fun c => P c ∧ P' c) Q where
  placeholder := ⟨k.placeholder, k'.placeholder⟩
  oneHot := k.oneHot
  explained components factors x h :=
    k.explained components factors x ⟨h.1, fun c hc => (h.2 c hc).1⟩
  estimated rows hlength hrows component c hc :=
    ⟨k.estimated rows hlength hrows component c hc, k'.estimated rows hlength hrows component c hc⟩
  silenced c h := ⟨k.silenced c h.1, k'.silenced c h.2⟩
  moved sample hsample := ⟨k.moved sample hsample, k'.moved sample hsample⟩
  prepared c h := ⟨k.prepared c h.1, k'.prepared c h.2⟩
  normalized c total hpos hfinite h :=
    ⟨k.normalized c total hpos hfinite h.1, k'.normalized c total hpos hfinite h.2⟩

/-- A state with good components and good responsibilities, one row for each sample. -/
structure Holds (p : Problem α F) (P : Component α → Prop) (Q : List α → Prop) (s : State α) :
    Prop where
  good : p.Good P s.components
  rowCount : s.responsibilities.length = p.size
  row : ∀ row ∈ s.responsibilities, Q row

variable {p : Problem α F} {P : Component α → Prop} {Q : List α → Prop}

omit [Scalar α] in
/-- An event changes nothing else. -/
theorem Holds.record {s : State α} (h : p.Holds P Q s) (event : GroupEvent α) :
    p.Holds P Q (s.record event) :=
  ⟨h.good, h.rowCount, h.row⟩

/-! ## Changes of single components -/

omit [Scalar α] in
theorem Good.modify {components : List (Component α)} (h : p.Good P components) {position : Nat}
    {change : Component α → Component α}
    (hchange : ∀ c, components[position]? = some c → P (change c)) :
    p.Good P (components.modify position change) := by
  refine ⟨by rw [List.length_modify, h.1], fun c hc => ?_⟩
  obtain ⟨i, hi⟩ := List.mem_iff_getElem?.mp hc
  by_cases hposition : position = i
  · subst hposition
    rw [List.getElem?_modify_eq] at hi
    obtain ⟨old, hold, rfl⟩ := Option.map_eq_some_iff.mp hi
    exact hchange old hold
  · rw [List.getElem?_modify_ne _ _ hposition] at hi
    exact h.2 c (List.mem_of_getElem? hi)

omit [Scalar α] in
theorem Good.set {components : List (Component α)} (h : p.Good P components) (position : Nat)
    {new : Component α} (hnew : P new) : p.Good P (components.set position new) := by
  refine ⟨by rw [List.length_set, h.1], fun c hc => ?_⟩
  rcases List.mem_or_eq_of_mem_set hc with hold | rfl
  · exact h.2 c hold
  · exact hnew

theorem Good.normalizeWeights (k : p.Keeps P Q) {components : List (Component α)}
    (h : p.Good P components) : p.Good P (normalizeWeights components) := by
  unfold Em.normalizeWeights
  dsimp only
  split
  next htotal =>
    rw [Bool.and_eq_true, decide_eq_true_eq] at htotal
    refine ⟨by rw [List.length_map, h.1], fun c hc => ?_⟩
    obtain ⟨old, hold, rfl⟩ := List.mem_map.mp hc
    exact k.normalized old _ htotal.1 htotal.2 (h.2 old hold)
  next => exact h

theorem Good.silence (k : p.Keeps P Q) (positions : List Nat) {components : List (Component α)}
    (h : p.Good P components) : p.Good P (p.silence positions components) := by
  induction positions generalizing components with
  | nil => exact h
  | cons position positions ih =>
    exact ih (h.modify fun c hc => k.silenced c (h.2 c (List.mem_of_getElem? hc)))

/-- Components with new estimates, or as they were where there is none. -/
theorem Good.estimates (k : p.Keeps P Q) {s : State α} (h : p.Holds P Q s) :
    p.Good P (s.components.zipWith (fun c e => e.getD c) (p.estimates s.responsibilities)) := by
  refine ⟨by rw [List.length_zipWith, h.good.1, length_estimates, Nat.min_self], fun c hc => ?_⟩
  obtain ⟨i, hi⟩ := List.mem_iff_getElem?.mp hc
  obtain ⟨old, estimate, hold, hestimate, rfl⟩ := List.getElem?_zipWith_eq_some.mp hi
  obtain ⟨position, -, rfl⟩ := List.mem_map.mp (List.mem_of_getElem? hestimate)
  cases hnew : p.estimate (column s.responsibilities position) with
  | none => exact h.good.2 old (List.mem_of_getElem? hold)
  | some new => exact k.estimated _ h.rowCount h.row position new hnew

/-! ## Resets -/

omit [Scalar α] in
theorem getD_lt_size {κ : Type} (hpoints : p.points ≠ []) (key : Point α → κ)
    (admissible : κ → Bool) (better : κ → κ → Bool) :
    ((firstBest admissible better (p.points.map key)).map (·.1)).getD 0 < p.size := by
  have hkeys : p.points.map key ≠ [] := by simpa using hpoints
  have hlen : (p.points.map key).length = p.size := List.length_map _
  rw [← hlen]
  exact firstBest_lt hkeys

/-- The worst explained sample is a sample. -/
theorem outlier_lt (hpoints : p.points ≠ []) (components : List (Component α)) (skip : Nat) :
    p.outlier components skip < p.size := by
  unfold outlier farthestFromCenter
  dsimp only
  split <;> exact getD_lt_size hpoints _ _ _

theorem reset_holds (k : p.Keeps P Q) (hpoints : p.points ≠ []) (component : Nat) {s : State α}
    (h : p.Holds P Q s) : p.Holds P Q (p.reset component s).state := by
  unfold reset
  dsimp only
  split
  · exact ⟨h.good, h.rowCount, h.row⟩
  · have hmoved := k.moved _ (outlier_lt hpoints s.components component)
    exact ⟨(h.good.set component hmoved).normalizeWeights k, h.rowCount, h.row⟩

theorem resetAll_holds (k : p.Keeps P Q) (hpoints : p.points ≠ []) (components : List Nat)
    {s : State α} (h : p.Holds P Q s) : p.Holds P Q (p.resetAll components s).state := by
  induction components generalizing s with
  | nil => exact h
  | cons component components ih =>
    exact Outcome.andThen_state (reset_holds k hpoints component h) fun _ _ hs => ih hs

/-! ## One step -/

/-- The maximization step keeps the properties, also when it gives up. -/
theorem maximize_holds (k : p.Keeps P Q) (hpoints : p.points ≠ []) {s : State α}
    (h : p.Holds P Q s) : p.Holds P Q (p.maximize s).state := by
  have hnew : p.Holds P Q { s with
      components := s.components.zipWith (fun c e => e.getD c) (p.estimates s.responsibilities) } :=
    ⟨Good.estimates k h, h.rowCount, h.row⟩
  refine Outcome.andThen_state ?_ fun _ s hs => ⟨hs.good.normalizeWeights k, hs.rowCount, hs.row⟩
  split
  · exact resetAll_holds k hpoints _ hnew
  · exact ⟨hnew.good.silence k _, hnew.rowCount, hnew.row⟩

theorem prepareAt_holds (k : p.Keeps P Q) (component : Nat) {s : State α} (h : p.Holds P Q s) :
    p.Holds P Q (p.prepareAt component s).2 := by
  unfold prepareAt
  split
  · exact h
  next c hc =>
    refine ⟨h.good.modify fun c' hc' => ?_, h.rowCount, h.row⟩
    cases hc.symm.trans hc'
    exact k.prepared c (h.good.2 c (List.mem_of_getElem? hc))

theorem factorAt_holds (k : p.Keeps P Q) (hpoints : p.points ≠ []) (component : Nat)
    {s : State α} (h : p.Holds P Q s) : p.Holds P Q (p.factorAt component s).state := by
  unfold factorAt
  split
  · exact h
  split
  · exact h
  have hprepared := prepareAt_holds k component h
  split
  next f s' hs' =>
    rw [hs'] at hprepared
    exact hprepared
  next s' hs' =>
    rw [hs'] at hprepared
    -- the component is prepared once more where the reset has put it
    refine Outcome.andThen_state (reset_holds k hpoints component hprepared) fun _ s hs => ?_
    have hagain := prepareAt_holds k component hs
    split
    next heq =>
      rw [heq] at hagain
      exact hagain
    next heq =>
      rw [heq] at hagain
      exact hagain

theorem factorAll_holds (k : p.Keeps P Q) (hpoints : p.points ≠ []) (components : List Nat)
    {s : State α} (h : p.Holds P Q s) : p.Holds P Q (p.factorAll components s).state := by
  induction components generalizing s with
  | nil => exact h
  | cons component components ih =>
    refine Outcome.andThen_state (factorAt_holds k hpoints component h) fun _ s hs => ?_
    exact Outcome.andThen_state (ih hs) fun _ _ hs' => hs'

/-- One factor, or none, is found for each component. -/
theorem length_factorAll {components : List Nat} {s s' : State α} {factors : List (Option F)}
    (h : p.factorAll components s = .done factors s') : factors.length = components.length := by
  induction components generalizing s factors with
  | nil =>
    cases h
    rfl
  | cons component components ih =>
    rw [factorAll] at h
    cases hfirst : p.factorAt component s with
    | gaveUp _ =>
      rw [hfirst] at h
      cases h
    | done f s₁ =>
      rw [hfirst, Outcome.andThen] at h
      cases hrest : p.factorAll components s₁ with
      | gaveUp _ =>
        rw [hrest] at h
        cases h
      | done fs s₂ =>
        rw [hrest] at h
        cases h
        exact congrArg (· + 1) (ih hrest)

theorem distribute_holds (k : p.Keeps P Q) {factors : List (Option F)}
    (hfactors : factors.length = p.count) {s : State α} (h : p.Holds P Q s) :
    p.Holds P Q (p.distribute factors s).2 := by
  have hrows : p.Holds P Q { s with
      responsibilities := (p.points.map (p.explain s.components factors)).map (·.1) } := by
    refine ⟨h.good, by simp [size], fun row hrow => ?_⟩
    obtain ⟨explained, hexplained, rfl⟩ := List.mem_map.mp hrow
    obtain ⟨x, hx, rfl⟩ := List.mem_map.mp hexplained
    exact k.explained s.components factors x h.good hfactors hx
  unfold distribute
  dsimp only
  split
  · exact hrows
  · exact ⟨hrows.good, hrows.rowCount, hrows.row⟩

/-- The expectation step keeps the properties, also when it gives up. -/
theorem expect_holds (k : p.Keeps P Q) (hpoints : p.points ≠ []) {s : State α}
    (h : p.Holds P Q s) : p.Holds P Q (p.expect s).state := by
  have hfactored := factorAll_holds k hpoints (List.range p.count) h
  unfold expect
  cases hall : p.factorAll (List.range p.count) s with
  | gaveUp s' =>
    rw [hall] at hfactored
    exact hfactored
  | done factors s' =>
    rw [hall] at hfactored
    exact distribute_holds k ((length_factorAll hall).trans List.length_range) hfactored

/-! ## A whole run -/

/-- Iterations keep the properties, in the state in which they end and in the components that are
kept for the case that a step gives up. -/
theorem iterate_holds (k : p.Keeps P Q) (hpoints : p.points ≠ []) (budget index : Nat)
    (before : Option α) {valid : Option (List (Component α))} {s : State α}
    (hvalid : ∀ components ∈ valid, p.Good P components) (h : p.Holds P Q s) :
    p.Holds P Q (p.iterate budget index before valid s).state ∧
      ∀ components ∈ (p.iterate budget index before valid s).valid, p.Good P components := by
  induction budget generalizing index before valid s with
  | zero => exact ⟨h, hvalid⟩
  | succ budget ih =>
    have hexpect := expect_holds k hpoints h
    rw [iterate]
    split
    next s' hs' =>
      rw [hs'] at hexpect
      exact ⟨hexpect, hvalid⟩
    next total s' hs' =>
      rw [hs'] at hexpect
      -- the completed expectation step leaves its components as the ones to fall back on
      have hnext : ∀ components ∈ some s'.components, p.Good P components := by
        rintro components ⟨⟩
        exact hexpect.good
      have hrecord : p.Holds P Q (s'.record (.iteration index total)) := hexpect.record _
      have hmaximize := maximize_holds k hpoints hrecord
      dsimp only
      split
      · exact ⟨hrecord, hnext⟩
      split
      next s'' hs'' =>
        rw [hs''] at hmaximize
        exact ⟨hmaximize, hnext⟩
      next s'' hs'' =>
        rw [hs''] at hmaximize
        exact ih (index + 1) (some total) hnext hmaximize

/-- **A whole run** keeps the properties: they hold of the state in which it ends and of the
components that are returned, whatever the status. -/
theorem ending_good (k : p.Keeps P Q) (hpoints : p.points ≠ []) {s : State α}
    (h : p.Holds P Q s) :
    p.Holds P Q (p.ending s).state ∧ p.Good P (Ending.components (p.ending s)) := by
  have hend : p.Holds P Q (p.ending s).state ∧
      ∀ components ∈ (p.ending s).valid, p.Good P components := by
    have hmaximize := maximize_holds k hpoints h
    unfold ending
    split
    next s' hs' =>
      rw [hs'] at hmaximize
      exact ⟨hmaximize, nofun⟩
    next s' hs' =>
      rw [hs'] at hmaximize
      exact iterate_holds k hpoints _ _ _ nofun hmaximize
  refine ⟨hend.1, ?_⟩
  unfold Ending.components
  split
  · apply Good.normalizeWeights k
    cases hvalid : (p.ending s).valid with
    | none => exact hend.1.good
    | some components => exact hend.2 components hvalid
  · exact hend.1.good

/-- Training starts with good components and responsibilities. -/
theorem initialState_holds (k : p.Keeps P Q) {labels : List Nat} (h : labels.length = p.size) :
    p.Holds P Q (p.initialState (labels.map (Em.oneHot p.count))) := by
  refine ⟨⟨List.length_replicate, fun c hc => ?_⟩, by simp [initialState, h], fun row hrow => ?_⟩
  · rw [List.eq_of_mem_replicate hc]
    exact k.placeholder
  · obtain ⟨label, -, rfl⟩ := List.mem_map.mp hrow
    exact k.oneHot label

/-- **The components of a trained group** have every property that training keeps, with or without
samples in the group. -/
theorem train_good (k : p.Keeps P Q) {labels : List Nat} (h : labels.length = p.size) :
    p.Good P (p.train labels).mixture.components := by
  unfold train
  split
  · refine ⟨List.length_replicate, fun c hc => ?_⟩
    rw [List.eq_of_mem_replicate hc]
    exact k.placeholder
  next hpoints =>
    have hne : p.points ≠ [] := by simpa using hpoints
    exact (ending_good k hne (initialState_holds k h)).2

end Problem

end Mixtures.Em
