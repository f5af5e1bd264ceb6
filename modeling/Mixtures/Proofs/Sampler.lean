import Mixtures.Proofs.KMeans.Groups
import Mixtures.Proofs.Random.Draws
import Mixtures.Proofs.Scalar.Sums
import Mixtures.Sampler

/-!
# Which groups can be sampled

A sampler prepares every group by itself, from its mixture alone. A group is kept with the reason if
it cannot be sampled, unless its weights add up to infinity: then there is no sampler at all.

* `PreparedGroup.ofMixture_outcome`: how a mixture is prepared.
* `Sampler.ofModels_outcome`, `Sampler.lookup_outcome`: when there is a sampler, and what a request
  to a group gives.
* `requests_outcome`: with doubles, in terms of the weights and covariances.
-/

namespace Mixtures

variable {α ρ : Type} [Scalar α] [RandomSource ρ]

/-- No jitter makes the covariance one that can be factored. -/
def Component.IsUnfactorable (dim : Nat) (c : Component α) : Prop :=
  (factorWithJitter (Cholesky.factor dim) dim Scalar.epsilon c.covariance).1 = none

instance (dim : Nat) (c : Component α) : Decidable (c.IsUnfactorable dim) :=
  decidable_of_iff _ Option.isNone_iff_eq_none

/-- The weights add up to infinity. -/
def Mixture.WeightsOverflow (m : Mixture α) : Prop :=
  WeightedChoice.fault? m.weights = some .infiniteTotal

instance (m : Mixture α) : Decidable m.WeightsOverflow := inferInstanceAs (Decidable (_ = _))

namespace PreparedGroup

/-- A component that has weight and cannot be factored is what prevents a preparation of the
factors. -/
theorem factors_eq_none_iff {dim : Nat} {components : List (Component α)} :
    factors dim components = none ↔
      ∃ c ∈ components, ¬c.weight ≤ 0 ∧ c.IsUnfactorable dim := by
  induction components with
  | nil => simp [factors]
  | cons c cs ih =>
    rw [List.exists_mem_cons_iff, ← ih, factors]
    by_cases hweight : c.weight ≤ 0
    · rw [if_pos hweight, Option.map_eq_none_iff]
      exact ⟨.inr, fun h => h.resolve_left fun hc => hc.1 hweight⟩
    · rw [if_neg hweight, Component.IsUnfactorable]
      cases hfactor :
          (factorWithJitter (Cholesky.factor dim) dim Scalar.epsilon c.covariance).1 with
      | none => exact ⟨fun _ => .inl ⟨hweight, rfl⟩, fun _ => rfl⟩
      | some f =>
        rw [Option.map_eq_none_iff]
        exact ⟨.inr, fun h => h.resolve_left fun hc => nomatch hc.2⟩

/-- A mixture is kept as one that cannot be sampled if its weights define no choice or if a
component with weight cannot be factored. -/
theorem ofMixture_outcome (dim : Nat) (m : Mixture α) :
    match WeightedChoice.fault? m.weights with
    | some .infiniteTotal => ofMixture dim m = .error .infiniteWeight
    | some _ => ofMixture dim m = .ok .empty
    | none =>
      ((∃ c ∈ m.components, ¬c.weight ≤ 0 ∧ c.IsUnfactorable dim) →
        ofMixture dim m = .ok .unfactorable) ∧
      ((¬∃ c ∈ m.components, ¬c.weight ≤ 0 ∧ c.IsUnfactorable dim) →
        ∃ choice factors, ofMixture dim m = .ok (.ready choice factors)) := by
  rw [← factors_eq_none_iff, ofMixture]
  cases hfault : WeightedChoice.fault? m.weights with
  | some fault =>
    rw [WeightedChoice.ofWeights_of_fault hfault]
    cases fault <;> rfl
  | none =>
    obtain ⟨choice, hchoice, -⟩ := WeightedChoice.exists_ofWeights_of_fault_eq_none hfault
    rw [hchoice]
    dsimp only
    cases hfactors : factors dim m.components with
    | none => exact ⟨fun _ => rfl, fun h => absurd rfl h⟩
    | some fs => exact ⟨nofun, fun _ => ⟨choice, fs, rfl⟩⟩

theorem ofMixture_eq_error_iff {dim : Nat} {m : Mixture α} {e : Error} :
    ofMixture dim m = .error e ↔ m.WeightsOverflow ∧ e = .infiniteWeight := by
  have houtcome := ofMixture_outcome dim m
  rw [Mixture.WeightsOverflow]
  cases hfault : WeightedChoice.fault? m.weights with
  | some fault =>
    rw [hfault] at houtcome
    cases fault <;> rw [houtcome] <;> simp [eq_comm]
  | none =>
    rw [hfault] at houtcome
    by_cases hbad : ∃ c ∈ m.components, ¬c.weight ≤ 0 ∧ c.IsUnfactorable dim
    · rw [houtcome.1 hbad]
      simp
    · obtain ⟨choice, factors, hready⟩ := houtcome.2 hbad
      rw [hready]
      simp

end PreparedGroup

namespace Sampler

variable {models : Collection α} {sampler : Sampler α} {group : Nat} {m : Mixture α}

/-- Groups are prepared one by one. -/
theorem ofModels_eq (models : Collection α) :
    ofModels models =
      ((models.mixtures.map (PreparedGroup.ofMixture models.dim)).mapM id).map (⟨models, ·⟩) := by
  rw [ofModels, List.mapM_map]
  show (models.mixtures.mapM (PreparedGroup.ofMixture models.dim) >>= _) =
    (models.mixtures.mapM (PreparedGroup.ofMixture models.dim)).map _
  cases models.mixtures.mapM (PreparedGroup.ofMixture models.dim) <;> rfl

theorem ofModels_eq_ok_iff :
    ofModels models = .ok sampler ↔ sampler.models = models ∧
      models.mixtures.map (PreparedGroup.ofMixture models.dim) = sampler.groups.map .ok := by
  rw [ofModels_eq, ← KMeans.mapM_id_eq_ok_iff]
  obtain ⟨models', groups⟩ := sampler
  cases (models.mixtures.map (PreparedGroup.ofMixture models.dim)).mapM id with
  | error e => simp [Except.map]
  | ok prepared => simp [Except.map, eq_comm]

/-- There is a sampler unless the weights of a mixture add up to infinity. -/
theorem ofModels_outcome (models : Collection α) :
    ((∃ m ∈ models.mixtures, m.WeightsOverflow) ∧ ofModels models = .error .infiniteWeight) ∨
      ((∀ m ∈ models.mixtures, ¬m.WeightsOverflow) ∧ ∃ sampler, ofModels models = .ok sampler) := by
  rw [ofModels_eq]
  rcases KMeans.mapM_id_outcome (models.mixtures.map (PreparedGroup.ofMixture models.dim)) with
    ⟨prepared, hprepared, hok⟩ | ⟨e, hmem, herror⟩
  · right
    rw [hok]
    refine ⟨fun m hm hoverflow => ?_, _, rfl⟩
    have hresult := List.mem_map_of_mem (f := PreparedGroup.ofMixture models.dim) hm
    rw [hprepared, PreparedGroup.ofMixture_eq_error_iff.mpr ⟨hoverflow, rfl⟩] at hresult
    obtain ⟨_, -, hcontra⟩ := List.mem_map.mp hresult
    cases hcontra
  · left
    rw [herror]
    obtain ⟨m, hm, hresult⟩ := List.mem_map.mp hmem
    obtain ⟨hoverflow, rfl⟩ := PreparedGroup.ofMixture_eq_error_iff.mp hresult
    exact ⟨⟨m, hm, hoverflow⟩, rfl⟩

/-- Every mixture has been prepared by itself. -/
theorem exists_prepared (h : ofModels models = .ok sampler)
    (hm : models.mixtures[group]? = some m) :
    ∃ prepared, PreparedGroup.ofMixture models.dim m = .ok prepared ∧
      sampler.groups[group]? = some prepared := by
  have hget := congrArg (fun results => results[group]?) (ofModels_eq_ok_iff.mp h).2
  rw [List.getElem?_map, List.getElem?_map, hm] at hget
  cases hgroup : sampler.groups[group]? with
  | none =>
    rw [hgroup] at hget
    cases hget
  | some prepared =>
    rw [hgroup] at hget
    exact ⟨prepared, Option.some.inj hget, rfl⟩

theorem length_groups (h : ofModels models = .ok sampler) :
    sampler.groups.length = models.groupCount := by
  have hlength := congrArg List.length (ofModels_eq_ok_iff.mp h).2
  rw [List.length_map, List.length_map] at hlength
  exact hlength.symm

/-- What a request to a group gives. -/
theorem lookup_outcome (h : ofModels models = .ok sampler) (group : Nat) :
    match models.mixtures[group]? with
    | none => sampler.lookup group = .error (.invalidGroup group models.groupCount)
    | some m =>
      (WeightedChoice.fault? m.weights ≠ none →
        sampler.lookup group = .error (.emptyMixture group)) ∧
      (WeightedChoice.fault? m.weights = none →
        ((∃ c ∈ m.components, ¬c.weight ≤ 0 ∧ c.IsUnfactorable models.dim) →
          sampler.lookup group = .error (.invalidParameter .covariance)) ∧
        ((¬∃ c ∈ m.components, ¬c.weight ≤ 0 ∧ c.IsUnfactorable models.dim) →
          ∃ prepared, sampler.lookup group = .ok prepared)) := by
  cases hm : models.mixtures[group]? with
  | none =>
    have hgroup : sampler.groups[group]? = none := by
      rw [List.getElem?_eq_none_iff] at hm ⊢
      exact (length_groups h).trans_le hm
    rw [lookup, hgroup, length_groups h]
  | some m =>
    obtain ⟨prepared, hprepared, hgroup⟩ := exists_prepared h hm
    have houtcome := PreparedGroup.ofMixture_outcome models.dim m
    rw [hprepared] at houtcome
    rw [lookup, hgroup]
    dsimp only
    cases hfault : WeightedChoice.fault? m.weights with
    | some fault =>
      rw [hfault] at houtcome
      refine ⟨fun _ => ?_, fun hnone => nomatch hnone⟩
      cases fault <;> cases houtcome <;> rfl
    | none =>
      rw [hfault] at houtcome
      obtain ⟨hbad, hgood⟩ := houtcome
      refine ⟨fun hne => (hne rfl).elim, fun _ => ⟨fun hex => ?_, fun hnone => ?_⟩⟩
      · cases hbad hex
        rfl
      · obtain ⟨choice, factors, hready⟩ := hgood hnone
        cases hready
        exact ⟨_, rfl⟩

/-- A draw fails with what the request to its group fails with. -/
theorem draw_eq_error_iff {normal : ρ → α × ρ} {source : ρ} {e : Error} :
    sampler.draw normal group source = .error e ↔ sampler.lookup group = .error e := by
  have hdraw : sampler.draw normal group source = (sampler.lookup group).map fun prepared =>
      sampler.drawPrepared normal group prepared.1 prepared.2 source := by
    rw [draw]
    cases sampler.lookup group <;> rfl
  rw [hdraw]
  cases sampler.lookup group <;> simp [Except.map]

omit [Scalar α] in
/-- A stream from one group fails with what the request to it fails with. -/
theorem stream_eq_error_iff {e : Error} :
    sampler.stream [group] = .error e ↔ sampler.lookup group = .error e := by
  have hstream : sampler.stream [group] =
      (sampler.lookup group).map fun _ => { sampler, remaining := [group] } := by
    rw [stream, List.forM_eq_forM, List.forM_cons, List.forM_nil]
    cases sampler.lookup group <;> rfl
  rw [hstream]
  cases sampler.lookup group <;> simp [Except.map]

/-- A request to a group depends on its own mixture only. -/
theorem draw_congr {models₁ models₂ : Collection α} {sampler₁ sampler₂ : Sampler α}
    (h₁ : ofModels models₁ = .ok sampler₁) (h₂ : ofModels models₂ = .ok sampler₂)
    (hdim : models₁.dim = models₂.dim) (hm₁ : models₁.mixtures[group]? = some m)
    (hm₂ : models₂.mixtures[group]? = some m) (normal : ρ → α × ρ) (source : ρ) :
    sampler₁.draw normal group source = sampler₂.draw normal group source := by
  obtain ⟨prepared₁, hprepared₁, hgroup₁⟩ := exists_prepared h₁ hm₁
  obtain ⟨prepared₂, hprepared₂, hgroup₂⟩ := exists_prepared h₂ hm₂
  obtain rfl : prepared₁ = prepared₂ := by
    rw [hdim, hprepared₂] at hprepared₁
    exact (Except.ok.inj hprepared₁).symm
  have hlookup : sampler₁.lookup group = sampler₂.lookup group := by
    rw [lookup, lookup, hgroup₁, hgroup₂]
    cases prepared₁ <;> rfl
  have hprepared : sampler₁.drawPrepared normal group = sampler₂.drawPrepared normal group := by
    funext choice factors source
    rw [drawPrepared, drawPrepared, (ofModels_eq_ok_iff.mp h₁).1, (ofModels_eq_ok_iff.mp h₂).1,
      Collection.get?, Collection.get?, hm₁, hm₂, hdim]
  rw [draw, draw, hlookup, hprepared]

end Sampler

/-! ## Weights that are doubles -/

/-- Weights that are all zero or positive are those of an empty mixture if none is positive. -/
theorem Mixture.isEmpty_iff {m : Mixture Float} (h : WeightedChoice.Proper m.weights) :
    m.isEmpty = true ↔ ¬∃ c ∈ m.components, 0 < c.weight := by
  rw [isEmpty, List.all_eq_true]
  simp only [not_exists, not_and, decide_eq_true_iff]
  refine forall₂_congr fun c hc => ?_
  exact Double.le_zero_iff_not_lt (h c.weight (List.mem_map_of_mem hc))

/-- What a request gives to a group whose weights are all zero or positive. -/
theorem Sampler.lookup_of_proper {models : Collection Float} {sampler : Sampler Float} {group : Nat}
    {m : Mixture Float} (h : ofModels models = .ok sampler)
    (hm : models.mixtures[group]? = some m) (hfinite : ¬m.WeightsOverflow)
    (hproper : WeightedChoice.Proper m.weights) :
    (m.isEmpty = true ∧ sampler.lookup group = .error (.emptyMixture group)) ∨
      m.isEmpty = false ∧
        (((∃ c ∈ m.components, 0 < c.weight ∧ c.IsUnfactorable models.dim) ∧
            sampler.lookup group = .error (.invalidParameter .covariance)) ∨
          ((¬∃ c ∈ m.components, 0 < c.weight ∧ c.IsUnfactorable models.dim) ∧
            ∃ prepared, sampler.lookup group = .ok prepared)) := by
  have hsome : (∃ w ∈ m.weights, 0 < w) ↔ ∃ c ∈ m.components, 0 < c.weight := by
    simp [Mixture.weights]
  have hchoice : WeightedChoice.fault? m.weights = none ↔
      WeightedChoice.Proper m.weights ∧ ∃ c ∈ m.components, 0 < c.weight :=
    (WeightedChoice.fault?_eq_none_iff hfinite).trans (and_congr_right fun _ => hsome)
  have hweight : ∀ c ∈ m.components, (¬c.weight ≤ 0 ↔ 0 < c.weight) := fun c hc =>
    (not_congr (Double.le_zero_iff_not_lt (hproper c.weight (List.mem_map_of_mem hc)))).trans
      not_not
  have hblocked : (∃ c ∈ m.components, ¬c.weight ≤ 0 ∧ c.IsUnfactorable models.dim) ↔
      ∃ c ∈ m.components, 0 < c.weight ∧ c.IsUnfactorable models.dim :=
    exists_congr fun c => and_congr_right fun hc => and_congr_left fun _ => hweight c hc
  have houtcome := lookup_outcome h group
  rw [hm] at houtcome
  obtain ⟨hempty, hrest⟩ := houtcome
  rw [Ne, hchoice] at hempty
  rw [hchoice] at hrest
  cases hisEmpty : m.isEmpty with
  | true =>
    have hnone := (Mixture.isEmpty_iff hproper).mp hisEmpty
    exact .inl ⟨rfl, hempty fun hboth => hnone hboth.2⟩
  | false =>
    have hpos : ∃ c ∈ m.components, 0 < c.weight := by
      by_contra hnone
      rw [(Mixture.isEmpty_iff hproper).mpr hnone] at hisEmpty
      cases hisEmpty
    obtain ⟨hbad, hgood⟩ := hrest ⟨hproper, hpos⟩
    by_cases hex : ∃ c ∈ m.components, 0 < c.weight ∧ c.IsUnfactorable models.dim
    · exact .inr ⟨rfl, .inl ⟨hex, hbad (hblocked.mpr hex)⟩⟩
    · exact .inr ⟨rfl, .inr ⟨hex, hgood (mt hblocked.mp hex)⟩⟩

/-- **What requests give.** There is a sampler unless the weights of a mixture add up to infinity.
A request beyond the last group is refused as such. A group with a weight that is negative or not a
number counts as empty. Of the others exactly those are empty that have no positive weight, those
are refused for a covariance that have a component with weight which no jitter makes one that can be
factored, and the rest can be sampled. What a group gives depends on its own mixture only. -/
theorem requests_outcome (models : Collection Float) :
    ((∃ m ∈ models.mixtures, m.WeightsOverflow) →
      Sampler.ofModels models = .error .infiniteWeight) ∧
    ((∀ m ∈ models.mixtures, ¬m.WeightsOverflow) →
      ∃ sampler, Sampler.ofModels models = .ok sampler ∧
        (∀ group, match models.mixtures[group]? with
          | none => sampler.lookup group = .error (.invalidGroup group models.groupCount)
          | some m =>
            (¬WeightedChoice.Proper m.weights →
              sampler.lookup group = .error (.emptyMixture group)) ∧
            (WeightedChoice.Proper m.weights →
              (m.isEmpty = true ↔ ¬∃ c ∈ m.components, 0 < c.weight) ∧
              (sampler.lookup group = .error (.emptyMixture group) ↔ m.isEmpty = true) ∧
              (sampler.lookup group = .error (.invalidParameter .covariance) ↔
                ∃ c ∈ m.components, 0 < c.weight ∧ c.IsUnfactorable models.dim) ∧
              ((∃ prepared, sampler.lookup group = .ok prepared) ↔
                m.isEmpty = false ∧
                  ¬∃ c ∈ m.components, 0 < c.weight ∧ c.IsUnfactorable models.dim))) ∧
        (∀ {ρ : Type} [RandomSource ρ] (normal : ρ → Float × ρ) (group : Nat) (source : ρ)
            (e : Error),
          (sampler.draw normal group source = .error e ↔ sampler.lookup group = .error e) ∧
            (sampler.stream [group] = .error e ↔ sampler.lookup group = .error e)) ∧
        ∀ {ρ : Type} [RandomSource ρ] (others : Collection Float) (sampler' : Sampler Float),
          Sampler.ofModels others = .ok sampler' → others.dim = models.dim →
          ∀ group < models.groupCount, others.mixtures[group]? = models.mixtures[group]? →
          ∀ (normal : ρ → Float × ρ) (source : ρ),
            sampler'.draw normal group source = sampler.draw normal group source) := by
  rcases Sampler.ofModels_outcome models with ⟨⟨m, hm, hover⟩, herror⟩ | ⟨hfinite, sampler, h⟩
  · exact ⟨fun _ => herror, fun hnone => absurd hover (hnone m hm)⟩
  refine ⟨fun ⟨m, hm, hover⟩ => absurd hover (hfinite m hm), fun _ => ⟨sampler, h, fun group => ?_,
    fun normal group source e => ⟨Sampler.draw_eq_error_iff, Sampler.stream_eq_error_iff⟩, ?_⟩⟩
  · have houtcome := Sampler.lookup_outcome h group
    cases hm : models.mixtures[group]? with
    | none =>
      rw [hm] at houtcome
      exact houtcome
    | some m =>
      rw [hm] at houtcome
      have hover := hfinite m (List.mem_of_getElem? hm)
      refine ⟨fun hproper => houtcome.1 ?_, fun hproper => ⟨Mixture.isEmpty_iff hproper, ?_⟩⟩
      · rw [Ne, WeightedChoice.fault?_eq_none_iff hover]
        exact fun hboth => hproper hboth.1
      · have hpositive := Mixture.isEmpty_iff hproper
        rcases Sampler.lookup_of_proper h hm hover hproper with
          ⟨hempty, hlookup⟩ | ⟨hempty, ⟨hex, hlookup⟩ | ⟨hex, prepared, hlookup⟩⟩
        · have hnone := hpositive.mp hempty
          have hnot : ¬∃ c ∈ m.components, 0 < c.weight ∧ c.IsUnfactorable models.dim :=
            fun ⟨c, hc, hw, _⟩ => hnone ⟨c, hc, hw⟩
          simp [hlookup, hempty, hnot]
        · simp [hlookup, hempty, hex]
        · simp [hlookup, hempty, hex]
  · intro ρ _ others sampler' hothers hdim group hgroup hsame normal source
    obtain ⟨m, hm⟩ : ∃ m, models.mixtures[group]? = some m :=
      ⟨_, List.getElem?_eq_getElem hgroup⟩
    exact Sampler.draw_congr hothers h hdim (hsame.trans hm) hm normal source

/-- A mixture of two standard normal distributions with the given weights. -/
def twoNormals (w₁ w₂ : Float) : Mixture Float := ⟨[⟨w₁, [0], [1]⟩, ⟨w₂, [0], [1]⟩]⟩

/-- One mixture of two standard normal distributions for each group, with the given weights. -/
def ofTwoWeights (weights : List (Float × Float)) : Collection Float where
  size := 2
  dim := 1
  mixtures := weights.map fun w => twoNormals w.1 w.2
  hasShape := by
    intro m hm
    obtain ⟨w, -, rfl⟩ := List.mem_map.mp hm
    exact ⟨rfl, by simp [twoNormals, Component.HasShape]⟩

theorem requests_outcome_ofTwoWeights :
    (∀ m ∈ (ofTwoWeights [(1, 0), (0, 0), (-1, 1)]).mixtures, ¬m.WeightsOverflow) ∧
      ∃ sampler, Sampler.ofModels (ofTwoWeights [(1, 0), (0, 0), (-1, 1)]) = .ok sampler ∧
        (∃ prepared, sampler.lookup 0 = .ok prepared) ∧
        sampler.lookup 1 = .error (.emptyMixture 1) ∧
        sampler.lookup 2 = .error (.emptyMixture 2) ∧
        sampler.lookup 3 = .error (.invalidGroup 3 3) := by
  have hfinite : ∀ m ∈ (ofTwoWeights [(1, 0), (0, 0), (-1, 1)]).mixtures, ¬m.WeightsOverflow := by
    decide +kernel
  obtain ⟨sampler, h, hlookup, -⟩ :=
    (requests_outcome (ofTwoWeights [(1, 0), (0, 0), (-1, 1)])).2 hfinite
  have hzero := (hlookup 0).2 (by decide +kernel)
  have hone := (hlookup 1).2 (by decide +kernel)
  have htwo := (hlookup 2).1 (by decide +kernel)
  exact ⟨hfinite, sampler, h, hzero.2.2.2.mpr (by decide +kernel), hone.2.1.mpr (by decide +kernel),
    htwo, hlookup 3⟩

/-- Two weights of `1e308` leave no sampler, and a positive weight beside a negative one is not
found. -/
theorem ofModels_ofTwoWeights :
    Sampler.ofModels (ofTwoWeights [(1e308, 1e308)]) = .error .infiniteWeight ∧
      ((twoNormals (-1) 1).isEmpty = false ∧
        ∃ sampler, Sampler.ofModels (ofTwoWeights [(-1, 1)]) = .ok sampler ∧
          sampler.lookup 0 = .error (.emptyMixture 0)) := by
  refine ⟨?_, by decide +kernel, ?_⟩
  · rcases Sampler.ofModels_outcome (ofTwoWeights [(1e308, 1e308)]) with
      ⟨-, herror⟩ | ⟨hfinite, -⟩
    · exact herror
    · exact absurd (hfinite (twoNormals 1e308 1e308) List.mem_cons_self) (by decide +kernel)
  · rcases Sampler.ofModels_outcome (ofTwoWeights [(-1, 1)]) with
      ⟨⟨m, hm, hover⟩, -⟩ | ⟨-, sampler, h⟩
    · obtain rfl := List.mem_singleton.mp hm
      exact absurd hover (by decide +kernel)
    · exact ⟨sampler, h, (Sampler.lookup_outcome h 0).1 (by decide +kernel)⟩

end Mixtures
