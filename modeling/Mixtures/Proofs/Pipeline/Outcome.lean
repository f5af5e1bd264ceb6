import Mixtures.Pipeline
import Mixtures.Proofs.Em.Groups
import Mixtures.Proofs.KMeans.Groups

/-!
# The outcome of a fitting run

Fitting checks its configuration, its samples and its ids, in this order, and then clusters and
trains. `Config.rejection` is the first check that fails. The modules that run after the checks have
checks of their own: of the labels, of the settings, of the shape of the trained mixtures. None of
them ever fails here, because of what clustering and training keep.

* `fitWith_outcome`: a run ends with the first rejection, or with a mixture and a report for every
  group, unless the weights of a seed add up to infinity; and with a seed it is clustering followed
  by training.
-/

namespace Mixtures

variable {α F : Type} [Scalar α]

namespace Config

variable {c : Config α} {samples : List (Point α)} {ids : List Nat} {groupCount dim : Nat}

/-! ## The first check that fails -/

/-- The first choice of a configuration that is wrong. -/
def fault (c : Config α) : Option Error :=
  if c.componentCount = 0 then some (.invalidParameter .componentCount)
  else if ¬Em.Settings.isFiniteNonNegative c.convergenceThreshold then
    some (.invalidParameter .convergenceThreshold)
  else if ¬Em.Settings.isFiniteNonNegative c.covarianceFloor then
    some (.invalidParameter .covarianceFloor)
  else none

/-- The first reason to reject a run: a choice of the configuration, the samples, the ids. -/
def rejection (c : Config α) (samples : List (Point α)) (ids : List Nat) (groupCount : Nat) :
    Option Error :=
  c.fault.or (inputRejection samples ids groupCount)

/-- Clustering is needed, and in some group the squared distances that weight a seed add up to
infinity. -/
def SeedingOverflows (c : Config α) (entropy : UInt64) (samples : List (Point α))
    (ids : List Nat) (groupCount : Nat) : Prop :=
  c.start = .labels ∧ c.clustering.MeetsInfinity entropy samples ids groupCount

theorem validate_eq (c : Config α) :
    c.validate =
      match c.fault with
      | some e => .error e
      | none => .ok () := by
  rw [validate, Em.Settings.check, fault]
  split_ifs <;> simp_all

/-- A valid configuration is no reason for a rejection. -/
theorem rejection_of_validate (h : c.validate = .ok ()) :
    c.rejection samples ids groupCount =
      inputRejection samples ids groupCount := by
  rw [validate_eq] at h
  rw [rejection]
  cases hfault : c.fault with
  | some e =>
    rw [hfault] at h
    cases h
  | none => rfl

theorem componentCount_ne_zero (h : c.validate = .ok ()) : c.componentCount ≠ 0 := by
  intro hzero
  rw [validate, Em.Settings.check, if_pos hzero] at h
  cases h

/-- Nothing is rejected exactly if the configuration is valid and the samples and ids are
fittable. -/
theorem rejection_eq_none_iff :
    c.rejection samples ids groupCount = none ↔
      c.validate = .ok () ∧ Fittable samples ids groupCount (samples.headD []).length := by
  rw [rejection, Option.or_eq_none_iff, fittable_iff, validate_eq]
  cases c.fault <;> simp

/-! ## What follows the checks -/

variable (c) (kernel : DensityKernel α F) (entropy : UInt64) (executor : Executor)

/-- With a valid configuration, the checks of the input decide first; then a run clusters if labels
are needed, and trains. -/
theorem fitWith_of_validate (hvalid : c.validate = .ok ()) (samples : List (Point α))
    (ids : List Nat) (groupCount : Nat) :
    c.fitWith kernel entropy executor samples ids groupCount =
      match inputRejection samples ids groupCount with
      | some e => .error e
      | none =>
        match c.start with
        | .labels => do
          let fit ← c.clustering.fitLayout entropy executor samples (Layout.ofSorted ids groupCount)
          c.training.trainLayout kernel entropy executor samples (Layout.ofSorted ids groupCount)
            (samples.headD []).length (some fit.labels)
        | .randomSamples =>
          c.training.trainLayout kernel entropy executor samples (Layout.ofSorted ids groupCount)
            (samples.headD []).length none := by
  rw [fitWith, hvalid]
  refine (checks_bind samples ids groupCount _).trans ?_
  cases inputRejection samples ids groupCount with
  | some e => rfl
  | none =>
    cases c.start with
    | randomSamples => rfl
    | labels =>
      dsimp only [bind, Except.bind]
      cases c.clustering.fitLayout entropy executor samples (Layout.ofSorted ids groupCount) <;> rfl

/-- A run ends with its first rejection. -/
theorem fitWith_of_rejection {e : Error} (h : c.rejection samples ids groupCount = some e) :
    c.fitWith kernel entropy executor samples ids groupCount = .error e := by
  cases hfault : c.fault with
  | some fault =>
    rw [rejection, hfault] at h
    cases h
    rw [fitWith, validate_eq, hfault]
    rfl
  | none =>
    have hvalid : c.validate = .ok () := by rw [validate_eq, hfault]
    rw [rejection_of_validate hvalid] at h
    rw [fitWith_of_validate c kernel entropy executor hvalid, h]

/-- Labels from clustering accepted input are labels that training accepts. -/
theorem checkLabels_of_fitLayout (hk : c.componentCount ≠ 0)
    (h : Fittable samples ids groupCount dim) {fit : KMeans.Fit α}
    (hfit : c.clustering.fitLayout entropy executor samples (Layout.ofSorted ids groupCount) =
      .ok fit) :
    c.training.checkLabels samples.length (some fit.labels) = .ok fit.labels :=
  Em.Settings.checkLabels_eq_ok_iff.mpr
    ⟨rfl, KMeans.length_labels h hk hfit, fun _ => KMeans.label_lt h hk hfit⟩

/-- A run on accepted input gives a mixture and a report for every group, unless clustering is
needed and meets weights that add up to infinity. -/
theorem fitWith_of_accepted (hvalid : c.validate = .ok ())
    (h : Fittable samples ids groupCount dim) :
    (c.SeedingOverflows entropy samples ids groupCount ∧
        c.fitWith kernel entropy executor samples ids groupCount = .error .infiniteWeight) ∨
      (¬c.SeedingOverflows entropy samples ids groupCount ∧
        ∃ t start, c.fitWith kernel entropy executor samples ids groupCount = .ok t ∧
          c.training.Collects samples.length dim
            (c.training.groupResults kernel (c.seed.getD entropy) samples ids groupCount dim start)
            t) := by
  have hk : c.clustering.clusterCount ≠ 0 := componentCount_ne_zero hvalid
  obtain ⟨hreject, rfl⟩ := fittable_iff.mp h
  rw [fitWith_of_validate c kernel entropy executor hvalid, hreject, SeedingOverflows]
  cases hstart : c.start with
  | randomSamples =>
    have hnone := Em.Settings.startLabels_of_randomSamples (show c.training.start = _ from hstart)
      samples.length none
    obtain ⟨t, ht, hcollects⟩ :=
      Em.Settings.trainLayout_outcome h kernel entropy executor hnone hvalid
    exact .inr ⟨nofun, t, none, ht, hcollects⟩
  | labels =>
    dsimp only
    -- the labels of a clustering that succeeds are accepted, so nothing fails after it
    rcases KMeans.fitLayout_outcome c.clustering entropy executor h hk with
      ⟨hoverflow, herror⟩ | ⟨hoverflow, fit, hfit⟩
    · rw [herror]
      exact .inl ⟨⟨rfl, hoverflow⟩, rfl⟩
    · have hgiven : c.training.startLabels samples.length (some fit.labels) =
          .ok (some fit.labels) :=
        Em.Settings.startLabels_eq_ok_iff.mpr (.inl ⟨hstart, fit.labels,
          checkLabels_of_fitLayout c entropy executor hk h hfit, rfl⟩)
      obtain ⟨t, ht, hcollects⟩ :=
        Em.Settings.trainLayout_outcome h kernel entropy executor hgiven hvalid
      rw [hfit]
      exact .inr ⟨fun hboth => hoverflow hboth.2, t, some fit.labels, ht, hcollects⟩

/-- With a seed, a run is clustering followed by training. -/
theorem fitWith_eq_steps (hvalid : c.validate = .ok ()) {seed : UInt64} (hseed : c.seed = some seed)
    (samples : List (Point α)) (ids : List Nat) (groupCount : Nat) (entropy₁ entropy₂ : UInt64)
    (executor₁ executor₂ : Executor) (labels : Option (List Nat)) :
    c.fitWith kernel entropy executor samples ids groupCount =
      match c.start with
      | .labels => do
        let fit ← c.clustering.fit entropy₁ executor₁ samples ids groupCount
        c.training.train kernel entropy₂ executor₂ samples ids groupCount (some fit.labels)
      | .randomSamples =>
        c.training.train kernel entropy₂ executor₂ samples ids groupCount labels := by
  have hcluster : c.clustering.seed.getD entropy = c.clustering.seed.getD entropy₁ := by
    simp [clustering, hseed]
  have htrain : c.training.seed.getD entropy = c.training.seed.getD entropy₂ := by
    simp [training, hseed]
  rw [fitWith_of_validate c kernel entropy executor hvalid]
  simp only [KMeans.fit_eq, Em.Settings.train_eq]
  cases inputRejection samples ids groupCount with
  | some e =>
    -- both steps begin with the checks of the run, so the first of them ends the same way
    cases c.start <;> rfl
  | none =>
    cases hstart : c.start with
    | labels =>
      simp only [KMeans.fitLayout_congr c.clustering hcluster executor executor₁,
        Em.Settings.trainLayout_congr htrain executor executor₂]
    | randomSamples =>
      have hrandom : c.training.start = .randomSamples := hstart
      simp only [Em.Settings.trainLayout_congr htrain executor executor₂,
        Em.Settings.trainLayout_of_randomSamples hrandom entropy₂ executor₂ _ _ _ labels]

/-- A run that succeeds has passed every check. -/
theorem checks_of_fitWith_eq_ok {c : Config α} {kernel : DensityKernel α F} {entropy : UInt64}
    {executor : Executor} {t : Em.Training α}
    (h : c.fitWith kernel entropy executor samples ids groupCount = .ok t) :
    c.validate = .ok () ∧ Fittable samples ids groupCount (samples.headD []).length := by
  rw [← rejection_eq_none_iff]
  cases hreject : c.rejection samples ids groupCount with
  | none => rfl
  | some e =>
    rw [fitWith_of_rejection c kernel entropy executor hreject] at h
    cases h

/-! ## The outcome -/

/-- **The outcome of a run.** The first check that fails decides. If none does, every group gets a
mixture of the expected shape and a report, unless clustering meets weights that add up to infinity.
The later checks agree with the earlier ones: training accepts the settings of a valid
configuration, and it accepts labels that come from clustering. With a seed, a valid configuration
gives the same result as clustering by itself followed by training from its labels, or as training
by itself, and then neither entropy nor executor matters. -/
theorem fitWith_outcome (samples : List (Point α)) (ids : List Nat) (groupCount : Nat) :
    (match c.rejection samples ids groupCount with
      | some e => c.fitWith kernel entropy executor samples ids groupCount = .error e
      | none =>
        (c.SeedingOverflows entropy samples ids groupCount →
          c.fitWith kernel entropy executor samples ids groupCount = .error .infiniteWeight) ∧
        (¬c.SeedingOverflows entropy samples ids groupCount →
          ∃ t, c.fitWith kernel entropy executor samples ids groupCount = .ok t ∧
            t.models.groupCount = groupCount ∧
            (∀ m ∈ t.models.mixtures,
              m.HasShape c.componentCount (samples.headD []).length) ∧
            t.reports.length = groupCount)) ∧
      c.training.validate = c.validate ∧
      (∀ fit, c.clustering.fit entropy executor samples ids groupCount = .ok fit →
        c.training.checkLabels samples.length (some fit.labels) = .ok fit.labels) ∧
      (∀ seed, c.seed = some seed → c.validate = .ok () →
        ∀ entropy₁ entropy₂ executor₁ executor₂ labels,
          c.fitWith kernel entropy executor samples ids groupCount =
            match c.start with
            | .labels => do
              let fit ← c.clustering.fit entropy₁ executor₁ samples ids groupCount
              c.training.train kernel entropy₂ executor₂ samples ids groupCount (some fit.labels)
            | .randomSamples =>
              c.training.train kernel entropy₂ executor₂ samples ids groupCount labels) := by
  refine ⟨?decided, rfl, ?accepted, ?steps⟩
  case decided =>
    cases hreject : c.rejection samples ids groupCount with
    | some e => exact fitWith_of_rejection c kernel entropy executor hreject
    | none =>
      obtain ⟨hvalid, hfittable⟩ := rejection_eq_none_iff.mp hreject
      rcases fitWith_of_accepted c kernel entropy executor hvalid hfittable with
        ⟨hoverflow, herror⟩ | ⟨hoverflow, t, start, ht, hcollects⟩
      · exact ⟨fun _ => herror, fun hnot => absurd hoverflow hnot⟩
      · exact ⟨fun hyes => absurd hyes hoverflow, fun _ => ⟨t, ht, hcollects.groupCount_eq,
          hcollects.hasShape, hcollects.length_reports⟩⟩
  case accepted =>
    intro fit hfit
    obtain ⟨dim, hfittable, hk, hlayout⟩ := KMeans.checks_of_fit_eq_ok hfit
    exact checkLabels_of_fitLayout c entropy executor hk hfittable hlayout
  case steps =>
    intro seed hseed hvalid entropy₁ entropy₂ executor₁ executor₂ labels
    exact fitWith_eq_steps c kernel entropy executor hvalid hseed samples ids groupCount entropy₁
      entropy₂ executor₁ executor₂ labels

/-- One component for each group, with a seed. -/
def oneComponent : Config Float := { ofCount 1 with seed := some 7 }

/-- Three samples on a line. -/
def onLine : List (Point Float) := [[5], [0], [1]]

/-- Samples in two of three groups pass every check, and one component needs no weights. -/
theorem fitWith_outcome_oneComponent :
    oneComponent.rejection onLine [0, 2, 2] 3 = none ∧
      ¬oneComponent.SeedingOverflows 0 onLine [0, 2, 2] 3 ∧
      oneComponent.seed = some 7 ∧ oneComponent.validate = .ok () ∧
      (∃ t, oneComponent.fit 0 .sequential onLine [0, 2, 2] 3 = .ok t ∧
        t.models.groupCount = 3 ∧ t.reports.length = 3) ∧
      (∃ fit, oneComponent.clustering.fit 0 .sequential onLine [0, 2, 2] 3 = .ok fit ∧
        oneComponent.training.checkLabels 3 (some fit.labels) = .ok fit.labels) ∧
      oneComponent.fit 0 .sequential onLine [0, 2, 2] 3 = (do
        let fit ← oneComponent.clustering.fit 1 .parallel onLine [0, 2, 2] 3
        oneComponent.training.train .gaussian 2 .parallel onLine [0, 2, 2] 3
          (some fit.labels)) := by
  have hreject : oneComponent.rejection onLine [0, 2, 2] 3 = none := by decide +kernel
  obtain ⟨hvalid, hfittable⟩ := rejection_eq_none_iff.mp hreject
  have hoverflow : ¬oneComponent.SeedingOverflows 0 onLine [0, 2, 2] 3 :=
    fun h => KMeans.not_meetsInfinity_of_one _ _ rfl h.2
  have houtcome := fitWith_outcome oneComponent .gaussian 0 .sequential onLine [0, 2, 2] 3
  rw [hreject] at houtcome
  obtain ⟨⟨-, hok⟩, -, hlabels, hsteps⟩ := houtcome
  obtain ⟨t, ht, hcount, -, hreports⟩ := hok hoverflow
  obtain ⟨fit, hfit⟩ :=
    KMeans.exists_fit_of_one oneComponent.clustering 0 .sequential hfittable rfl
  exact ⟨hreject, hoverflow, rfl, hvalid, ⟨t, ht, hcount, hreports⟩, ⟨fit, hfit, hlabels fit hfit⟩,
    hsteps 7 rfl hvalid 1 2 .parallel .parallel none⟩

end Config

end Mixtures
