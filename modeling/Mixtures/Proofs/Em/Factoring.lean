import Mathlib
import Mixtures.Proofs.Em.Invariant
import Mixtures.Proofs.Linear.Jitter
import Mixtures.Proofs.Scalar.Doubles

/-!
# Factoring in the expectation step

The expectation step changes components while it factors them: jitter changes the covariance, a
reset changes everything about one component and the weights of all. Factors that have been found
earlier in the step stay the right ones, since a covariance changes only when its own component is
factored, and since rescaling does not bring a component without weight back.

* `expect_tracks`: what preparing and resetting single components keeps, the whole step keeps.
* `expect_done`: what a completed step has found. Its factors are those of the covariances as they
  stand.
* `expect_of_factors`: a step in which all components can be factored as they stand.
-/

namespace Mixtures

variable {α F : Type} [Scalar α]

namespace Em

/-- The component at a position has weight. -/
def HasWeight (components : List (Component α)) (i : Nat) : Prop :=
  ∃ c, components[i]? = some c ∧ ¬c.weight ≤ 0

theorem HasWeight.lt_length {components : List (Component α)} {i : Nat}
    (h : HasWeight components i) : i < components.length := by
  obtain ⟨c, hc, -⟩ := h
  exact (List.getElem?_eq_some_iff.mp hc).1

/-! ## Changes at some positions -/

/-- Away from the given positions every covariance stays, and no component comes to have weight. -/
structure ChangedAt (positions : List Nat) (before after : List (Component α)) : Prop where
  length_eq : after.length = before.length
  elsewhere : ∀ i ∉ positions, ∀ c', after[i]? = some c' →
    ∃ c, before[i]? = some c ∧ c'.covariance = c.covariance ∧ (c.weight ≤ 0 → c'.weight ≤ 0)

namespace ChangedAt

variable {positions others : List Nat} {first second third : List (Component α)}

theorem refl (positions : List Nat) (components : List (Component α)) :
    ChangedAt positions components components :=
  ⟨rfl, fun _ _ c hc => ⟨c, hc, rfl, id⟩⟩

theorem append (h : ChangedAt positions first second) (h' : ChangedAt others second third) :
    ChangedAt (positions ++ others) first third := by
  refine ⟨h'.length_eq.trans h.length_eq, fun i hi c₃ hc₃ => ?_⟩
  rw [List.mem_append, not_or] at hi
  obtain ⟨c₂, hc₂, hcov₂, hweight₂⟩ := h'.elsewhere i hi.2 c₃ hc₃
  obtain ⟨c₁, hc₁, hcov₁, hweight₁⟩ := h.elsewhere i hi.1 c₂ hc₂
  exact ⟨c₁, hc₁, hcov₂.trans hcov₁, fun hdead => hweight₂ (hweight₁ hdead)⟩

/-- Away from the changes, only what had weight has weight. -/
theorem hasWeight (h : ChangedAt positions first second) {i : Nat} (hi : i ∉ positions)
    (hweight : HasWeight second i) : HasWeight first i := by
  obtain ⟨c', hc', hlive⟩ := hweight
  obtain ⟨c, hc, -, hdead⟩ := h.elsewhere i hi c' hc'
  exact ⟨c, hc, fun hle => hlive (hdead hle)⟩

end ChangedAt

/-- A changed entry of a list is away from every other position. -/
theorem changedAt_of_getElem? {position : Nat} {before after : List (Component α)}
    (hlength : after.length = before.length)
    (h : ∀ i ≠ position, after[i]? = before[i]?) : ChangedAt [position] before after := by
  refine ⟨hlength, fun i hi c' hc' => ⟨c', ?_, rfl, id⟩⟩
  rwa [← h i (by simpa using hi)]

theorem changedAt_normalizeWeights [Scalar.Lawful α] (components : List (Component α)) :
    ChangedAt [] components (normalizeWeights components) := by
  unfold normalizeWeights
  dsimp only
  split
  next htotal =>
    rw [Bool.and_eq_true, decide_eq_true_eq] at htotal
    refine ⟨List.length_map _, fun i _ c' hc' => ?_⟩
    rw [List.getElem?_map] at hc'
    obtain ⟨c, hc, rfl⟩ := Option.map_eq_some_iff.mp hc'
    exact ⟨c, hc, rfl, fun hdead => Scalar.Lawful.div_nonpos hdead htotal.1 htotal.2⟩
  next => exact .refl [] components

namespace Problem

variable {p : Problem α F}

/-! ## Resetting and preparing one component -/

/-- What a reset does to the components, if it is allowed. -/
theorem reset_done {component : Nat} {s s' : State α} (h : p.reset component s = .done () s') :
    s'.components = normalizeWeights
      (s.components.set component (p.resetComponent (p.outlier s.components component))) := by
  unfold reset at h
  dsimp only at h
  split at h
  · cases h
  · cases h
    rfl

/-- A refused reset leaves the components alone. -/
theorem reset_gaveUp {component : Nat} {s s' : State α} (h : p.reset component s = .gaveUp s') :
    s'.components = s.components := by
  unfold reset at h
  dsimp only at h
  split at h
  · cases h
    rfl
  · cases h

theorem reset_changedAt [Scalar.Lawful α] {component : Nat} {s s' : State α}
    (h : p.reset component s = .done () s') : ChangedAt [component] s.components s'.components := by
  rw [reset_done h]
  have hset : ChangedAt [component] s.components
      (s.components.set component (p.resetComponent (p.outlier s.components component))) :=
    changedAt_of_getElem? (List.length_set ..) fun i hi => List.getElem?_set_ne (Ne.symm hi)
  exact hset.append (changedAt_normalizeWeights _)

theorem prepareAt_changedAt (p : Problem α F) (component : Nat) (s : State α) :
    ChangedAt [component] s.components (p.prepareAt component s).2.components := by
  unfold prepareAt
  split
  · exact .refl _ _
  · exact changedAt_of_getElem? (List.length_modify ..) fun i hi =>
      List.getElem?_modify_ne _ _ (Ne.symm hi)

/-- Preparing a component leaves all weights alone. -/
theorem hasWeight_prepareAt (p : Problem α F) (component : Nat) {s : State α} {i : Nat} :
    HasWeight (p.prepareAt component s).2.components i ↔ HasWeight s.components i := by
  unfold prepareAt
  split
  · exact Iff.rfl
  · unfold HasWeight setCovariance
    dsimp only
    rw [List.getElem?_modify]
    cases s.components[i]? with
    | none => simp
    | some c => by_cases hi : component = i <;> simp [hi]

/-! ## What the step keeps -/

/-- A relation between the components before and after that preparing and resetting keep. -/
structure Tracks (p : Problem α F) (R : List (Component α) → List (Component α) → Prop) :
    Prop where
  refl : ∀ components, R components components
  trans : ∀ {first second third}, R first second → R second third → R first third
  prepared : ∀ component s, R s.components (p.prepareAt component s).2.components
  reset : ∀ component s, HasWeight s.components component →
    R s.components (p.reset component s).state.components

variable {R : List (Component α) → List (Component α) → Prop}

theorem factorAt_tracks (k : p.Tracks R) (component : Nat) (s : State α) :
    R s.components (p.factorAt component s).state.components := by
  unfold factorAt
  split
  · exact k.refl _
  next c hc =>
    split
    · exact k.refl _
    next hlive =>
      have hprepared := k.prepared component s
      have hweight := (hasWeight_prepareAt p component).mpr ⟨c, hc, hlive⟩
      split
      next f s₁ hs₁ =>
        rw [hs₁] at hprepared
        exact hprepared
      next s₁ hs₁ =>
        rw [hs₁] at hprepared hweight
        have hreset := k.reset component s₁ hweight
        cases hdone : p.reset component s₁ with
        | gaveUp s₂ =>
          rw [hdone] at hreset
          exact k.trans hprepared hreset
        | done _ s₂ =>
          rw [hdone] at hreset
          have hagain := k.prepared component s₂
          have hall := k.trans (k.trans hprepared hreset) hagain
          rw [Outcome.andThen]
          split
          next hs₃ =>
            rw [hs₃] at hall
            exact hall
          next hs₃ =>
            rw [hs₃] at hall
            exact hall

theorem factorAll_tracks (k : p.Tracks R) (positions : List Nat) (s : State α) :
    R s.components (p.factorAll positions s).state.components := by
  induction positions generalizing s with
  | nil => exact k.refl _
  | cons position positions ih =>
    refine Outcome.andThen_state (I := fun s' : State α => R s.components s'.components)
      (factorAt_tracks k position s) fun _ s' hs' => ?_
    refine Outcome.andThen_state (I := fun s' : State α => R s.components s'.components)
      (k.trans hs' (ih s')) fun _ _ h => h

theorem components_distribute (p : Problem α F) (factors : List (Option F)) (s : State α) :
    (p.distribute factors s).2.components = s.components := by
  unfold distribute
  dsimp only
  split <;> rfl

/-- The components that an expectation step leaves behind are those that were factored. -/
theorem components_expect (p : Problem α F) (s : State α) :
    (p.expect s).state.components =
      (p.factorAll (List.range p.count) s).state.components := by
  unfold expect
  cases p.factorAll (List.range p.count) s with
  | gaveUp s' => rfl
  | done factors s' => exact components_distribute p factors s'

/-- **What preparing and resetting keep, the expectation step keeps**, also when it gives up. -/
theorem expect_tracks (k : p.Tracks R) (s : State α) :
    R s.components (p.expect s).state.components := by
  rw [components_expect]
  exact factorAll_tracks k _ s

/-! ## The factors that are found -/

/-- What is found for the component at a position: the factor of its covariance as it stands, and no
factor only if the component has no weight. -/
def Finds (p : Problem α F) (components : List (Component α)) (i : Nat) : Option F → Prop
  | some f => ∀ c, components[i]? = some c → p.kernel.factor p.dim c.covariance = some f
  | none => ¬HasWeight components i

/-- What is found stays right when other components change. -/
theorem Finds.of_changedAt {before after : List (Component α)} {i : Nat} {f : Option F}
    (h : p.Finds before i f) {positions : List Nat} (hchange : ChangedAt positions before after)
    (hi : i ∉ positions) : p.Finds after i f := by
  cases f with
  | none => exact fun hweight => h (hchange.hasWeight hi hweight)
  | some f =>
    intro c' hc'
    obtain ⟨c, hc, hcov, -⟩ := hchange.elsewhere i hi c' hc'
    rw [hcov]
    exact h c hc

theorem prepareAt_finds {component : Nat} {s s' : State α} {f : F}
    (h : p.prepareAt component s = (some f, s')) : p.Finds s'.components component (some f) := by
  intro c' hc'
  unfold prepareAt at h
  split at h
  · cases h
  next c hc =>
    obtain ⟨hf, rfl⟩ := Prod.mk.inj h
    unfold setCovariance at hc'
    rw [List.getElem?_modify_eq, hc] at hc'
    cases hc'
    exact factor_of_factorWithJitter (Prod.ext hf rfl)

/-- Factoring one component changes this one alone, and finds a factor only if it had weight. -/
theorem factorAt_done [Scalar.Lawful α] {component : Nat} {s s' : State α} {f : Option F}
    (h : p.factorAt component s = .done f s') :
    ChangedAt [component] s.components s'.components ∧ p.Finds s'.components component f ∧
      (f.isSome → HasWeight s.components component) := by
  unfold factorAt at h
  split at h
  next hnone =>
    cases h
    refine ⟨.refl _ _, ?_, nofun⟩
    rintro ⟨c, hc, -⟩
    rw [hnone] at hc
    cases hc
  next c hc =>
    split at h
    next hdead =>
      cases h
      refine ⟨.refl _ _, ?_, nofun⟩
      rintro ⟨c', hc', hlive⟩
      rw [hc] at hc'
      cases hc'
      exact hlive hdead
    next hlive =>
      have hweight : HasWeight s.components component := ⟨c, hc, hlive⟩
      have hprepared := prepareAt_changedAt p component s
      split at h
      next f₁ s₁ hs₁ =>
        cases h
        rw [hs₁] at hprepared
        exact ⟨hprepared, prepareAt_finds hs₁, fun _ => hweight⟩
      next s₁ hs₁ =>
        rw [hs₁] at hprepared
        cases hdone : p.reset component s₁ with
        | gaveUp s₂ =>
          rw [hdone] at h
          cases h
        | done _ s₂ =>
          rw [hdone, Outcome.andThen] at h
          have hagain := prepareAt_changedAt p component s₂
          have hchange := (hprepared.append (reset_changedAt hdone)).append hagain
          split at h
          next f₃ s₃ hs₃ =>
            cases h
            rw [hs₃] at hchange
            refine ⟨⟨hchange.length_eq, fun i hi => hchange.elsewhere i (by simpa using hi)⟩,
              prepareAt_finds hs₃, fun _ => hweight⟩
          next => cases h

/-- **The factors of a completed step** are those of the covariances as they stand at its end. -/
theorem factorAll_done [Scalar.Lawful α] {positions : List Nat} (hnodup : positions.Nodup)
    {s s' : State α} {factors : List (Option F)}
    (h : p.factorAll positions s = .done factors s') :
    ChangedAt positions s.components s'.components ∧
      List.Forall₂ (fun i f => p.Finds s'.components i f ∧ (f.isSome → HasWeight s.components i))
        positions factors := by
  induction positions generalizing s factors with
  | nil =>
    cases h
    exact ⟨.refl _ _, .nil⟩
  | cons position positions ih =>
    obtain ⟨hfirst, hrest⟩ := List.nodup_cons.mp hnodup
    rw [factorAll] at h
    cases hat : p.factorAt position s with
    | gaveUp s₁ =>
      rw [hat] at h
      cases h
    | done f s₁ =>
      rw [hat, Outcome.andThen] at h
      cases hall : p.factorAll positions s₁ with
      | gaveUp s₂ =>
        rw [hall] at h
        cases h
      | done fs s₂ =>
        rw [hall] at h
        cases h
        obtain ⟨hchange, hfinds, hweight⟩ := factorAt_done hat
        obtain ⟨hchanges, hfound⟩ := ih hrest hall
        refine ⟨hchange.append hchanges, .cons ⟨hfinds.of_changedAt hchanges hfirst, hweight⟩ ?_⟩
        -- a later component had its weight before the first one was factored
        have hlater := (List.forall₂_and_left (p := (· ∈ positions)) positions fs).mpr
          ⟨fun _ hi => hi, hfound⟩
        refine hlater.imp fun i f hi => ⟨hi.2.1, fun hsome => hchange.hasWeight ?_ (hi.2.2 hsome)⟩
        rw [List.mem_singleton]
        rintro rfl
        exact hfirst hi.1

/-- The factors of a completed expectation step, by the positions of their components. -/
theorem factors_of_factorAll_done [Scalar.Lawful α] {s s' : State α} {factors : List (Option F)}
    (h : p.factorAll (List.range p.count) s = .done factors s') :
    s'.components.length = s.components.length ∧ factors.length = p.count ∧
      ∀ i f, factors[i]? = some f →
        p.Finds s'.components i f ∧ (f.isSome → HasWeight s.components i) := by
  obtain ⟨hchange, hfound⟩ := factorAll_done List.nodup_range h
  obtain ⟨hlength, hget⟩ := List.forall₂_iff_get.mp hfound
  rw [List.length_range] at hlength
  refine ⟨hchange.length_eq, hlength.symm, fun i f hf => ?_⟩
  obtain ⟨hi, rfl⟩ := List.getElem?_eq_some_iff.mp hf
  have hrange : i < (List.range p.count).length := by
    rw [List.length_range, hlength]
    exact hi
  simpa using hget i hrange hi

theorem responsibilities_distribute (p : Problem α F) (factors : List (Option F)) (s : State α) :
    (p.distribute factors s).2.responsibilities =
      p.points.map fun x => (p.explain s.components factors x).1 := by
  unfold distribute
  dsimp only
  rw [List.map_map]
  split <;> rfl

theorem total_distribute (p : Problem α F) (factors : List (Option F)) (s : State α) :
    (p.distribute factors s).1 =
      (p.points.filterMap fun x => (p.explain s.components factors x).2).foldl (· + ·) 0 := by
  unfold distribute
  dsimp only
  rw [List.filterMap_map]
  rfl

/-- What a completed expectation step has found: the factors of its components as they stand at its
end, and with them the responsibilities and the log-likelihood. -/
structure Explains (p : Problem α F) (s : State α) (total : α) (s' : State α)
    (factors : List (Option F)) : Prop where
  length_eq : s'.components.length = s.components.length
  factorCount : factors.length = p.count
  finds : ∀ i f, factors[i]? = some f → p.Finds s'.components i f
  hasWeight : ∀ i f, factors[i]? = some (some f) → HasWeight s.components i
  responsibilities_eq :
    s'.responsibilities = p.points.map fun x => (p.explain s'.components factors x).1
  total_eq :
    total = (p.points.filterMap fun x => (p.explain s'.components factors x).2).foldl (· + ·) 0

/-- Every component with weight at the end of the step has a factor as it stands. -/
theorem Explains.exists_factor {s s' : State α} {total : α} {factors : List (Option F)}
    (h : p.Explains s total s' factors) (hcount : s.components.length = p.count) {i : Nat}
    {c : Component α} (hc : s'.components[i]? = some c) (hlive : ¬c.weight ≤ 0) :
    ∃ f, p.kernel.factor p.dim c.covariance = some f := by
  have hlt : i < factors.length := by
    rw [h.factorCount, ← hcount, ← h.length_eq]
    exact (List.getElem?_eq_some_iff.mp hc).1
  have hfinds := h.finds i _ (List.getElem?_eq_getElem hlt)
  cases hf : factors[i] with
  | none =>
    rw [hf] at hfinds
    exact absurd ⟨c, hc, hlive⟩ hfinds
  | some f =>
    rw [hf] at hfinds
    exact ⟨f, hfinds c hc⟩

/-- **A completed expectation step** has found all factors and explained all samples with them. -/
theorem expect_done [Scalar.Lawful α] {s s' : State α} {total : α}
    (h : p.expect s = .done total s') : ∃ factors, p.Explains s total s' factors := by
  unfold expect at h
  cases hall : p.factorAll (List.range p.count) s with
  | gaveUp s₁ =>
    rw [hall] at h
    cases h
  | done factors middle =>
    rw [hall] at h
    obtain ⟨htotal, hstate⟩ : (p.distribute factors middle).1 = total ∧
        (p.distribute factors middle).2 = s' := Outcome.done.inj h
    obtain ⟨hlength, hcount, hfound⟩ := factors_of_factorAll_done hall
    have hcomponents : s'.components = middle.components := by
      rw [← hstate, components_distribute]
    rw [← hcomponents] at hlength hfound
    refine ⟨factors, hlength, hcount, fun i f hf => (hfound i f hf).1,
      fun i f hf => (hfound i (some f) hf).2 rfl, ?_, ?_⟩
    · rw [hcomponents, ← hstate, responsibilities_distribute]
    · rw [hcomponents, ← htotal, total_distribute]

/-! ## The expectation step without jitter -/

/-- Every component with weight can be factored as it stands. -/
def Factors (p : Problem α F) (components : List (Component α)) : Prop :=
  ∀ c ∈ components, ¬c.weight ≤ 0 → ∃ f, p.kernel.factor p.dim c.covariance = some f

/-- A component that can be factored stays as it is. -/
theorem factorAt_of_factors {s : State α} (h : p.Factors s.components) (i : Nat) :
    ∃ f, p.factorAt i s = .done f s := by
  unfold factorAt
  cases hc : s.components[i]? with
  | none => exact ⟨none, rfl⟩
  | some c =>
    dsimp only
    split
    · exact ⟨none, rfl⟩
    next hlive =>
      obtain ⟨f, hf⟩ := h c (List.mem_of_getElem? hc) hlive
      have hsame : setCovariance s i c.covariance = s := by
        have hcomponents :
            (s.components.modify i fun old => { old with covariance := c.covariance }) =
              s.components := by
          refine List.ext_getElem? fun j => ?_
          rw [List.getElem?_modify]
          by_cases hij : i = j
          · subst hij
            rw [hc]
            simp
          · simp [hij]
        rw [setCovariance, hcomponents]
      have hprepare : p.prepare c.covariance = (some f, c.covariance) := by
        rw [prepare, factorWithJitter, hf]
      have hprepareAt : p.prepareAt i s = (some f, s) := by
        unfold prepareAt
        rw [hc]
        simp only [hprepare, hsame]
      exact ⟨some f, by rw [hprepareAt]⟩

theorem factorAll_of_factors {s : State α} (h : p.Factors s.components) (positions : List Nat) :
    ∃ factors, p.factorAll positions s = .done factors s := by
  induction positions with
  | nil => exact ⟨[], rfl⟩
  | cons position positions ih =>
    obtain ⟨f, hf⟩ := factorAt_of_factors h position
    obtain ⟨factors, hfactors⟩ := ih
    exact ⟨f :: factors, by rw [factorAll, hf, Outcome.andThen, hfactors, Outcome.andThen]⟩

/-- **An expectation step** in which all components with weight can be factored leaves them as they
are, and resets nothing. -/
theorem expect_of_factors {s : State α} (h : p.Factors s.components) :
    ∃ total s', p.expect s = .done total s' ∧ s'.components = s.components ∧
      s'.resets = s.resets := by
  obtain ⟨factors, hfactors⟩ := factorAll_of_factors h (List.range p.count)
  refine ⟨_, _, by rw [expect, hfactors, Outcome.andThen], components_distribute p factors s, ?_⟩
  unfold distribute
  dsimp only
  split <;> rfl

end Problem

end Em

end Mixtures
