import Mixtures.Proofs.Em.Steps
import Mixtures.Proofs.Pipeline.Outcome

/-!
# Groups do not interfere

What is found out about a group depends on the samples of that group alone, in their order, on the
labels of these samples if training starts from labels, and otherwise on the random stream of the
group. Two runs may differ in everything else: in the samples, the labels and the number of the
other groups, in the place of the group among them, and in the executor.

* `groups_independent`: two runs that agree in what belongs to a group agree on that group, whether
  they cluster, train, or do both.
-/

namespace Mixtures

variable {α F : Type} [Scalar α]

/-- Two clusterings agree on a group: in its centroids, its labels and its refinement steps, and in
the part of the labels of all samples that belongs to the group. -/
def KMeans.Fit.AgreeOn (group : Nat) (ids₁ ids₂ : List Nat) (fit₁ fit₂ : KMeans.Fit α) : Prop :=
  ∃ found, fit₁.groups[group]? = some found ∧ fit₂.groups[group]? = some found ∧
    Layout.owned group ids₁ fit₁.labels = found.labels ∧
    Layout.owned group ids₂ fit₂.labels = found.labels

/-- Two training runs agree on a group of the one and a group of the other: in the mixture and in
the report. -/
def Em.Training.AgreeOn (group₁ group₂ : Nat) (t₁ t₂ : Em.Training α) : Prop :=
  ∃ mixture report, t₁.models.get? group₁ = some mixture ∧ t₂.models.get? group₂ = some mixture ∧
    t₁.reports[group₁]? = some report ∧ t₂.reports[group₂]? = some report

variable {samples₁ samples₂ : List (Point α)} {ids₁ ids₂ : List Nat} {count₁ count₂ : Nat}
  {entropy₁ entropy₂ : UInt64} {executor₁ executor₂ : Executor}

/-! ## Clustering -/

/-- The clustering of a group is read off its own samples. -/
theorem KMeans.groupFit_congr {method : KMeans}
    (hseed : method.seed.getD entropy₁ = method.seed.getD entropy₂) {group : Nat}
    (howned : Layout.owned group ids₁ samples₁ = Layout.owned group ids₂ samples₂) :
    method.groupFit entropy₁ samples₁ ids₁ group =
      method.groupFit entropy₂ samples₂ ids₂ group := by
  rw [groupFit, groupFit, howned, hseed]

theorem KMeans.fit_agreeOn {method : KMeans}
    (hseed : method.seed.getD entropy₁ = method.seed.getD entropy₂) {group : Nat}
    (hgroup₁ : group < count₁) (hgroup₂ : group < count₂)
    (howned : Layout.owned group ids₁ samples₁ = Layout.owned group ids₂ samples₂)
    {fit₁ fit₂ : KMeans.Fit α}
    (h₁ : method.fit entropy₁ executor₁ samples₁ ids₁ count₁ = .ok fit₁)
    (h₂ : method.fit entropy₂ executor₂ samples₂ ids₂ count₂ = .ok fit₂) :
    KMeans.Fit.AgreeOn group ids₁ ids₂ fit₁ fit₂ := by
  obtain ⟨dim₁, hfittable₁, hk, hlayout₁⟩ := KMeans.checks_of_fit_eq_ok h₁
  obtain ⟨dim₂, hfittable₂, -, hlayout₂⟩ := KMeans.checks_of_fit_eq_ok h₂
  rw [← KMeans.length_groups hfittable₁ hk hlayout₁] at hgroup₁
  rw [← KMeans.length_groups hfittable₂ hk hlayout₂] at hgroup₂
  have hsame : fit₁.groups[group] = fit₂.groups[group] := by
    have hfit₁ := KMeans.groupFit_eq_ok hfittable₁ hk hlayout₁ hgroup₁
    have hfit₂ := KMeans.groupFit_eq_ok hfittable₂ hk hlayout₂ hgroup₂
    rw [KMeans.groupFit_congr hseed howned, hfit₂] at hfit₁
    exact (Except.ok.inj hfit₁).symm
  refine ⟨fit₁.groups[group], List.getElem?_eq_getElem hgroup₁, ?_,
    KMeans.owned_labels hfittable₁ hk hlayout₁ hgroup₁, ?_⟩
  · rw [List.getElem?_eq_getElem hgroup₂, hsame]
  · rw [KMeans.owned_labels hfittable₂ hk hlayout₂ hgroup₂, hsame]

/-! ## Training -/

namespace Em

variable {kernel : DensityKernel α F} {group₁ group₂ dim : Nat} {start₁ start₂ : Option (List Nat)}

/-- The result of a group is read off its own samples and labels; neither the seed nor the id of
the group matters. -/
theorem Settings.groupResult_congr_of_labels (s : Settings α) (fixed₁ fixed₂ : Option UInt64)
    (seed₁ seed₂ : UInt64)
    (howned : Layout.owned group₁ ids₁ samples₁ = Layout.owned group₂ ids₂ samples₂)
    {labels₁ labels₂ : List Nat}
    (hlabels : Layout.owned group₁ ids₁ labels₁ = Layout.owned group₂ ids₂ labels₂) :
    { s with seed := fixed₁ }.groupResult kernel seed₁ samples₁ ids₁ dim (some labels₁) group₁ =
      { s with seed := fixed₂ }.groupResult kernel seed₂ samples₂ ids₂ dim (some labels₂)
        group₂ := by
  have hsteps : Problem.SameSteps
      (⟨{ s with seed := fixed₁ }, Layout.owned group₁ ids₁ samples₁, dim, kernel⟩ : Problem α F)
      ⟨{ s with seed := fixed₂ }, Layout.owned group₂ ids₂ samples₂, dim, kernel⟩ :=
    ⟨howned, rfl, rfl, rfl, rfl, rfl, rfl⟩
  unfold Settings.groupResult
  dsimp only
  rw [hlabels]
  exact Problem.train_congr hsteps rfl rfl _

/-- The result of a group is read off its own samples and its random stream. -/
theorem Settings.groupResult_congr_of_randomSamples (s : Settings α) (seed : UInt64) {group : Nat}
    (howned : Layout.owned group ids₁ samples₁ = Layout.owned group ids₂ samples₂) :
    s.groupResult kernel seed samples₁ ids₁ dim none group =
      s.groupResult kernel seed samples₂ ids₂ dim none group := by
  unfold Settings.groupResult
  rw [howned]

/-- Training runs whose results for two groups are the same agree on these groups. -/
theorem agreeOn_of_groupResult_eq {s₁ s₂ : Settings α} {seed₁ seed₂ : UInt64} {t₁ t₂ : Training α}
    {n₁ n₂ : Nat}
    (h₁ : s₁.Collects n₁ dim (s₁.groupResults kernel seed₁ samples₁ ids₁ count₁ dim start₁) t₁)
    (h₂ : s₂.Collects n₂ dim (s₂.groupResults kernel seed₂ samples₂ ids₂ count₂ dim start₂) t₂)
    (hgroup₁ : group₁ < count₁) (hgroup₂ : group₂ < count₂)
    (h : s₁.groupResult kernel seed₁ samples₁ ids₁ dim start₁ group₁ =
      s₂.groupResult kernel seed₂ samples₂ ids₂ dim start₂ group₂) :
    Training.AgreeOn group₁ group₂ t₁ t₂ := by
  refine ⟨(s₁.groupResult kernel seed₁ samples₁ ids₁ dim start₁ group₁).mixture,
    (s₁.groupResult kernel seed₁ samples₁ ids₁ dim start₁ group₁).report, ?_, ?_, ?_, ?_⟩
  · simp [Collection.get?, h₁.mixtures_eq, Settings.groupResults, hgroup₁]
  · simp [Collection.get?, h₂.mixtures_eq, Settings.groupResults, hgroup₂, h]
  · simp [h₁.reports_eq, Settings.groupResults, hgroup₁]
  · simp [h₂.reports_eq, Settings.groupResults, hgroup₂, h]

theorem Settings.train_agreeOn_of_labels {s : Settings α} (hstart : s.start = .labels)
    {fixed₁ fixed₂ : Option UInt64} (hgroup₁ : group₁ < count₁) (hgroup₂ : group₂ < count₂)
    (howned : Layout.owned group₁ ids₁ samples₁ = Layout.owned group₂ ids₂ samples₂)
    {labels₁ labels₂ : List Nat}
    (hlabels : Layout.owned group₁ ids₁ labels₁ = Layout.owned group₂ ids₂ labels₂)
    {t₁ t₂ : Training α}
    (h₁ : { s with seed := fixed₁ }.train kernel entropy₁ executor₁ samples₁ ids₁ count₁
      (some labels₁) = .ok t₁)
    (h₂ : { s with seed := fixed₂ }.train kernel entropy₂ executor₂ samples₂ ids₂ count₂
      (some labels₂) = .ok t₂)
    (hdim : t₁.models.dim = t₂.models.dim) : Training.AgreeOn group₁ group₂ t₁ t₂ := by
  obtain ⟨-, start₁, hstart₁, hcollects₁⟩ := Settings.collects_of_train_eq_ok h₁
  obtain ⟨-, start₂, hstart₂, hcollects₂⟩ := Settings.collects_of_train_eq_ok h₂
  obtain rfl := Settings.eq_of_startLabels_of_labels hstart hstart₁
  obtain rfl := Settings.eq_of_startLabels_of_labels hstart hstart₂
  rw [hdim] at hcollects₁
  exact agreeOn_of_groupResult_eq hcollects₁ hcollects₂ hgroup₁ hgroup₂
    (Settings.groupResult_congr_of_labels s fixed₁ fixed₂ _ _ howned hlabels)

theorem Settings.train_agreeOn_of_randomSamples {s : Settings α} (hstart : s.start = .randomSamples)
    (hseed : s.seed.getD entropy₁ = s.seed.getD entropy₂) {group : Nat}
    (hgroup₁ : group < count₁) (hgroup₂ : group < count₂)
    (howned : Layout.owned group ids₁ samples₁ = Layout.owned group ids₂ samples₂)
    {labels₁ labels₂ : Option (List Nat)} {t₁ t₂ : Training α}
    (h₁ : s.train kernel entropy₁ executor₁ samples₁ ids₁ count₁ labels₁ = .ok t₁)
    (h₂ : s.train kernel entropy₂ executor₂ samples₂ ids₂ count₂ labels₂ = .ok t₂)
    (hdim : t₁.models.dim = t₂.models.dim) : Training.AgreeOn group group t₁ t₂ := by
  obtain ⟨-, start₁, hstart₁, hcollects₁⟩ := Settings.collects_of_train_eq_ok h₁
  obtain ⟨-, start₂, hstart₂, hcollects₂⟩ := Settings.collects_of_train_eq_ok h₂
  rw [Settings.startLabels_of_randomSamples hstart] at hstart₁ hstart₂
  cases hstart₁
  cases hstart₂
  rw [hdim] at hcollects₁
  rw [hseed] at hcollects₁
  exact agreeOn_of_groupResult_eq hcollects₁ hcollects₂ hgroup₁ hgroup₂
    (Settings.groupResult_congr_of_randomSamples s _ howned)

/-- Training that starts from random samples gives the same outcome whatever the labels are. -/
theorem Settings.train_of_randomSamples {s : Settings α} (hstart : s.start = .randomSamples)
    (kernel : DensityKernel α F) (entropy : UInt64) (executor : Executor)
    (samples : List (Point α)) (ids : List Nat) (count : Nat) (labels : Option (List Nat)) :
    s.train kernel entropy executor samples ids count labels =
      s.train kernel entropy executor samples ids count none := by
  simp only [Settings.train, Settings.trainLayout_of_randomSamples hstart entropy executor _ _ _
    labels]

end Em

/-! ## Clustering and training -/

theorem Config.fitWith_agreeOn {c : Config α} {kernel : DensityKernel α F} {seed : UInt64}
    (hseed : c.seed = some seed) {group : Nat} (hgroup₁ : group < count₁)
    (hgroup₂ : group < count₂)
    (howned : Layout.owned group ids₁ samples₁ = Layout.owned group ids₂ samples₂)
    {t₁ t₂ : Em.Training α}
    (h₁ : c.fitWith kernel entropy₁ executor₁ samples₁ ids₁ count₁ = .ok t₁)
    (h₂ : c.fitWith kernel entropy₂ executor₂ samples₂ ids₂ count₂ = .ok t₂)
    (hdim : t₁.models.dim = t₂.models.dim) : Em.Training.AgreeOn group group t₁ t₂ := by
  obtain ⟨hvalid, -⟩ := Config.checks_of_fitWith_eq_ok h₁
  rw [Config.fitWith_eq_steps c kernel entropy₁ executor₁ hvalid hseed samples₁ ids₁ count₁ entropy₁
    entropy₁ executor₁ executor₁ none] at h₁
  rw [Config.fitWith_eq_steps c kernel entropy₂ executor₂ hvalid hseed samples₂ ids₂ count₂ entropy₂
    entropy₂ executor₂ executor₂ none] at h₂
  have hcluster : c.clustering.seed.getD entropy₁ = c.clustering.seed.getD entropy₂ := by
    simp [Config.clustering, hseed]
  have htrain : c.training.seed.getD entropy₁ = c.training.seed.getD entropy₂ := by
    simp [Config.training, hseed]
  cases hstart : c.start with
  | randomSamples =>
    rw [hstart] at h₁ h₂
    exact Em.Settings.train_agreeOn_of_randomSamples (show c.training.start = _ from hstart) htrain
      hgroup₁ hgroup₂ howned h₁ h₂ hdim
  | labels =>
    rw [hstart] at h₁ h₂
    dsimp only at h₁ h₂
    cases hfit₁ : c.clustering.fit entropy₁ executor₁ samples₁ ids₁ count₁ with
    | error e =>
      rw [hfit₁] at h₁
      cases h₁
    | ok fit₁ =>
    cases hfit₂ : c.clustering.fit entropy₂ executor₂ samples₂ ids₂ count₂ with
    | error e =>
      rw [hfit₂] at h₂
      cases h₂
    | ok fit₂ =>
    rw [hfit₁] at h₁
    rw [hfit₂] at h₂
    -- the groups are clustered alike, so training starts from the same labels of the group
    obtain ⟨found, -, -, hlabels₁, hlabels₂⟩ :=
      KMeans.fit_agreeOn hcluster hgroup₁ hgroup₂ howned hfit₁ hfit₂
    have hseeded₁ : { c.training with seed := c.seed }.train kernel entropy₁ executor₁ samples₁ ids₁
      count₁ (some fit₁.labels) = .ok t₁ := h₁
    have hseeded₂ : { c.training with seed := c.seed }.train kernel entropy₂ executor₂ samples₂ ids₂
      count₂ (some fit₂.labels) = .ok t₂ := h₂
    exact Em.Settings.train_agreeOn_of_labels (show c.training.start = _ from hstart) hgroup₁
      hgroup₂ howned (hlabels₁.trans hlabels₂.symm) hseeded₁ hseeded₂ hdim

/-- **Groups do not interfere.** Take two inputs, each with its own entropy and executor, and runs
on both that succeed. If a group owns the same samples in both, seeded clusterings agree on it, and
so do seeded training runs, with or without clustering before them. Training from labels needs the
same labels of the group and then agrees across seeds and across group ids; training from random
samples has the same outcome whatever labels it is given. -/
theorem groups_independent (kernel : DensityKernel α F) (entropy₁ entropy₂ : UInt64)
    (executor₁ executor₂ : Executor) (samples₁ samples₂ : List (Point α)) (ids₁ ids₂ : List Nat)
    (count₁ count₂ : Nat) :
    -- clustering with a seed
    (∀ (method : KMeans) (seed : UInt64) (group : Nat) (fit₁ fit₂ : KMeans.Fit α),
      method.seed = some seed → group < count₁ → group < count₂ →
      Layout.owned group ids₁ samples₁ = Layout.owned group ids₂ samples₂ →
      method.fit entropy₁ executor₁ samples₁ ids₁ count₁ = .ok fit₁ →
      method.fit entropy₂ executor₂ samples₂ ids₂ count₂ = .ok fit₂ →
      KMeans.Fit.AgreeOn group ids₁ ids₂ fit₁ fit₂) ∧
    -- training from labels, with any seeds, on a group of each input
    (∀ (s : Em.Settings α) (seed₁ seed₂ : Option UInt64) (group₁ group₂ : Nat)
      (labels₁ labels₂ : List Nat) (t₁ t₂ : Em.Training α),
      s.start = .labels → group₁ < count₁ → group₂ < count₂ →
      Layout.owned group₁ ids₁ samples₁ = Layout.owned group₂ ids₂ samples₂ →
      Layout.owned group₁ ids₁ labels₁ = Layout.owned group₂ ids₂ labels₂ →
      { s with seed := seed₁ }.train kernel entropy₁ executor₁ samples₁ ids₁ count₁
        (some labels₁) = .ok t₁ →
      { s with seed := seed₂ }.train kernel entropy₂ executor₂ samples₂ ids₂ count₂
        (some labels₂) = .ok t₂ →
      t₁.models.dim = t₂.models.dim → Em.Training.AgreeOn group₁ group₂ t₁ t₂) ∧
    -- training from random samples with a seed, with any labels or none
    (∀ (s : Em.Settings α) (seed : UInt64) (group : Nat) (labels₁ labels₂ : Option (List Nat))
      (t₁ t₂ : Em.Training α),
      s.start = .randomSamples → s.seed = some seed → group < count₁ → group < count₂ →
      Layout.owned group ids₁ samples₁ = Layout.owned group ids₂ samples₂ →
      s.train kernel entropy₁ executor₁ samples₁ ids₁ count₁ labels₁ = .ok t₁ →
      s.train kernel entropy₂ executor₂ samples₂ ids₂ count₂ labels₂ = .ok t₂ →
      t₁.models.dim = t₂.models.dim → Em.Training.AgreeOn group group t₁ t₂) ∧
    (∀ (s : Em.Settings α) (labels : Option (List Nat)), s.start = .randomSamples →
      s.train kernel entropy₁ executor₁ samples₁ ids₁ count₁ labels =
        s.train kernel entropy₁ executor₁ samples₁ ids₁ count₁ none) ∧
    -- clustering and training with a seed
    (∀ (c : Config α) (seed : UInt64) (group : Nat) (t₁ t₂ : Em.Training α),
      c.seed = some seed → group < count₁ → group < count₂ →
      Layout.owned group ids₁ samples₁ = Layout.owned group ids₂ samples₂ →
      c.fitWith kernel entropy₁ executor₁ samples₁ ids₁ count₁ = .ok t₁ →
      c.fitWith kernel entropy₂ executor₂ samples₂ ids₂ count₂ = .ok t₂ →
      t₁.models.dim = t₂.models.dim → Em.Training.AgreeOn group group t₁ t₂) := by
  refine ⟨?cluster, ?labels, ?random, ?ignored, ?both⟩
  case cluster =>
    intro method seed group fit₁ fit₂ hseed hgroup₁ hgroup₂ howned h₁ h₂
    exact KMeans.fit_agreeOn (by simp [hseed]) hgroup₁ hgroup₂ howned h₁ h₂
  case labels =>
    intro s seed₁ seed₂ group₁ group₂ labels₁ labels₂ t₁ t₂ hstart hgroup₁ hgroup₂ howned hlabels h₁
      h₂ hdim
    exact Em.Settings.train_agreeOn_of_labels hstart hgroup₁ hgroup₂ howned hlabels h₁ h₂ hdim
  case random =>
    intro s seed group labels₁ labels₂ t₁ t₂ hstart hseed hgroup₁ hgroup₂ howned h₁ h₂ hdim
    exact Em.Settings.train_agreeOn_of_randomSamples hstart (by simp [hseed]) hgroup₁ hgroup₂ howned
      h₁ h₂ hdim
  case ignored =>
    intro s labels hstart
    exact Em.Settings.train_of_randomSamples hstart kernel _ _ _ _ _ labels
  case both =>
    intro c seed group t₁ t₂ hseed hgroup₁ hgroup₂ howned h₁ h₂ hdim
    exact Config.fitWith_agreeOn hseed hgroup₁ hgroup₂ howned h₁ h₂ hdim

/-- Two of the samples on a line. -/
def pairOnLine : List (Point Float) := [[0], [1]]

/-- The two samples of group `1`, after another group and before one, in every kind of run. -/
theorem groups_independent_onLine :
    Layout.owned 1 [0, 1, 1] Config.onLine = Layout.owned 1 [1, 1] pairOnLine ∧
    (∃ fit₁ fit₂,
      Config.oneComponent.clustering.fit 0 .sequential Config.onLine [0, 1, 1] 2 = .ok fit₁ ∧
      Config.oneComponent.clustering.fit 1 .parallel pairOnLine [1, 1] 3 = .ok fit₂ ∧
      KMeans.Fit.AgreeOn 1 [0, 1, 1] [1, 1] fit₁ fit₂) ∧
    (∃ t₁ t₂,
      { Config.oneComponent.training with seed := none }.train .gaussian 0 .sequential
        Config.onLine [0, 1, 1] 2 (some [0, 0, 0]) = .ok t₁ ∧
      { Config.oneComponent.training with seed := some 8 }.train .gaussian 1 .parallel
        pairOnLine [1, 1] 3 (some [0, 0]) = .ok t₂ ∧
      Em.Training.AgreeOn 1 1 t₁ t₂) ∧
    (∃ t₁ t₂,
      { Config.oneComponent.training with start := .randomSamples }.train .gaussian 0 .sequential
        Config.onLine [0, 1, 1] 2 none = .ok t₁ ∧
      { Config.oneComponent.training with start := .randomSamples }.train .gaussian 1 .parallel
        pairOnLine [1, 1] 3 (some [9]) = .ok t₂ ∧
      Em.Training.AgreeOn 1 1 t₁ t₂) ∧
    (∃ t₁ t₂, Config.oneComponent.fit 0 .sequential Config.onLine [0, 1, 1] 2 = .ok t₁ ∧
      Config.oneComponent.fit 1 .parallel pairOnLine [1, 1] 3 = .ok t₂ ∧
      Em.Training.AgreeOn 1 1 t₁ t₂) := by
  have hreject₁ : Config.oneComponent.rejection Config.onLine [0, 1, 1] 2 = none := by
    decide +kernel
  have hreject₂ : Config.oneComponent.rejection pairOnLine [1, 1] 3 = none := by decide +kernel
  obtain ⟨hvalid, hfittable₁⟩ := Config.rejection_eq_none_iff.mp hreject₁
  obtain ⟨-, hfittable₂⟩ := Config.rejection_eq_none_iff.mp hreject₂
  have howned : Layout.owned 1 [0, 1, 1] Config.onLine = Layout.owned 1 [1, 1] pairOnLine := rfl
  obtain ⟨hcluster, hlabels, hrandom, -, hboth⟩ := groups_independent
    (DensityKernel.gaussian : DensityKernel Float _) 0 1 .sequential .parallel Config.onLine
    pairOnLine [0, 1, 1] [1, 1] 2 3
  refine ⟨howned, ?cluster, ?labels, ?random, ?both⟩
  case cluster =>
    obtain ⟨fit₁, h₁⟩ := KMeans.exists_fit_of_one Config.oneComponent.clustering 0 .sequential
      hfittable₁ rfl
    obtain ⟨fit₂, h₂⟩ := KMeans.exists_fit_of_one Config.oneComponent.clustering 1 .parallel
      hfittable₂ rfl
    exact ⟨fit₁, fit₂, h₁, h₂,
      hcluster _ 7 1 fit₁ fit₂ rfl (by decide) (by decide) howned h₁ h₂⟩
  case labels =>
    have hstart₁ : { Config.oneComponent.training with seed := none }.startLabels 3
        (some [0, 0, 0]) = .ok (some [0, 0, 0]) := rfl
    have hstart₂ : { Config.oneComponent.training with seed := some 8 }.startLabels 2
        (some [0, 0]) = .ok (some [0, 0]) := rfl
    obtain ⟨t₁, h₁, hcollects₁⟩ :=
      Em.Settings.train_outcome hfittable₁ .gaussian 0 .sequential hstart₁ hvalid
    obtain ⟨t₂, h₂, hcollects₂⟩ :=
      Em.Settings.train_outcome hfittable₂ .gaussian 1 .parallel hstart₂ hvalid
    exact ⟨t₁, t₂, h₁, h₂, hlabels Config.oneComponent.training none (some 8) 1 1 [0, 0, 0] [0, 0]
      t₁ t₂ rfl (by decide) (by decide) howned rfl h₁ h₂
      (hcollects₁.dim_eq.trans hcollects₂.dim_eq.symm)⟩
  case random =>
    have hstart := Em.Settings.startLabels_of_randomSamples
      (show { Config.oneComponent.training with start := .randomSamples }.start = _ from rfl)
    obtain ⟨t₁, h₁, hcollects₁⟩ :=
      Em.Settings.train_outcome hfittable₁ .gaussian 0 .sequential (hstart 3 none) hvalid
    obtain ⟨t₂, h₂, hcollects₂⟩ :=
      Em.Settings.train_outcome hfittable₂ .gaussian 1 .parallel (hstart 2 (some [9])) hvalid
    exact ⟨t₁, t₂, h₁, h₂, hrandom _ 7 1 none (some [9]) t₁ t₂ rfl rfl (by decide) (by decide)
      howned h₁ h₂ (hcollects₁.dim_eq.trans hcollects₂.dim_eq.symm)⟩
  case both =>
    have hoverflow₁ : ¬Config.oneComponent.SeedingOverflows 0 Config.onLine [0, 1, 1] 2 :=
      fun h => KMeans.not_meetsInfinity_of_one _ _ rfl h.2
    have hoverflow₂ : ¬Config.oneComponent.SeedingOverflows 1 pairOnLine [1, 1] 3 :=
      fun h => KMeans.not_meetsInfinity_of_one _ _ rfl h.2
    rcases Config.fitWith_of_accepted Config.oneComponent .gaussian 0 .sequential hvalid hfittable₁
      with ⟨hyes, -⟩ | ⟨-, t₁, start₁, h₁, hcollects₁⟩
    · exact absurd hyes hoverflow₁
    rcases Config.fitWith_of_accepted Config.oneComponent .gaussian 1 .parallel hvalid hfittable₂
      with ⟨hyes, -⟩ | ⟨-, t₂, start₂, h₂, hcollects₂⟩
    · exact absurd hyes hoverflow₂
    exact ⟨t₁, t₂, h₁, h₂, hboth Config.oneComponent 7 1 t₁ t₂ rfl (by decide) (by decide) howned
      h₁ h₂ (hcollects₁.dim_eq.trans hcollects₂.dim_eq.symm)⟩

end Mixtures
