import Mixtures.Proofs.Em.Results
import Mixtures.Proofs.Pipeline.Outcome

/-!
# The results of runs

Training runs by itself or as a part of fitting. `Settings.Yields` is what both have in common: with
these settings, the given input has this result. A fitting run that succeeds is a training run from
the labels of clustering, or without labels, so whatever holds of every training run holds of every
fitting run.
-/

namespace Mixtures

variable {α F : Type} [Scalar α] {kernel : DensityKernel α F} {samples : List (Point α)}
  {ids : List Nat} {groupCount : Nat}

/-- **A fitting run trains**: its result is that of a training run with the same entropy. -/
theorem Config.exists_train_of_fitWith_eq_ok {c : Config α} {entropy : UInt64} {executor : Executor}
    {t : Em.Training α}
    (h : c.fitWith kernel entropy executor samples ids groupCount = .ok t) :
    ∃ labels : Option (List Nat),
      c.training.train kernel entropy executor samples ids groupCount labels = .ok t := by
  obtain ⟨hvalid, hfittable⟩ := checks_of_fitWith_eq_ok h
  rw [fitWith_of_validate c kernel entropy executor hvalid, (fittable_iff.mp hfittable).1] at h
  simp only [Em.Settings.train_eq_of_fittable hfittable]
  cases hstart : c.start with
  | randomSamples =>
    rw [hstart] at h
    exact ⟨none, h⟩
  | labels =>
    rw [hstart] at h
    dsimp only at h
    cases hfit : c.clustering.fitLayout entropy executor samples
        (Layout.ofSorted ids groupCount) with
    | error e =>
      rw [hfit] at h
      cases h
    | ok fit =>
      rw [hfit] at h
      exact ⟨some fit.labels, h⟩

namespace Em.Settings

/-- A run with these settings, of training by itself or as a part of fitting, has a result. -/
inductive Yields (s : Settings α) (kernel : DensityKernel α F) (samples : List (Point α))
    (ids : List Nat) (groupCount : Nat) (t : Training α) : Prop
  | train {entropy : UInt64} {executor : Executor} {labels : Option (List Nat)} :
      s.train kernel entropy executor samples ids groupCount labels = .ok t →
      Yields s kernel samples ids groupCount t
  | fit {c : Config α} {entropy : UInt64} {executor : Executor} : c.training = s →
      c.fitWith kernel entropy executor samples ids groupCount = .ok t →
      Yields s kernel samples ids groupCount t

namespace Yields

variable {s : Settings α} {t : Training α}

theorem exists_train (h : s.Yields kernel samples ids groupCount t) :
    ∃ (entropy : UInt64) (executor : Executor) (labels : Option (List Nat)),
      s.train kernel entropy executor samples ids groupCount labels = .ok t := by
  cases h with
  | train h => exact ⟨_, _, _, h⟩
  | fit hc h =>
    obtain ⟨labels, hlabels⟩ := Config.exists_train_of_fitWith_eq_ok h
    rw [hc] at hlabels
    exact ⟨_, _, labels, hlabels⟩

theorem fittable (h : s.Yields kernel samples ids groupCount t) :
    Fittable samples ids groupCount t.models.dim := by
  obtain ⟨entropy, executor, labels, htrain⟩ := h.exists_train
  exact (collects_of_train_eq_ok htrain).1

theorem validate (h : s.Yields kernel samples ids groupCount t) : s.validate = .ok () := by
  obtain ⟨entropy, executor, labels, htrain⟩ := h.exists_train
  exact validate_of_train_eq_ok htrain

/-- Every mixture of a run is that of a group. -/
theorem exists_gives (h : s.Yields kernel samples ids groupCount t) {m : Mixture α}
    (hm : m ∈ t.models.mixtures) : ∃ (group : Nat) (r : Diagnostics α), t.Gives group m r := by
  obtain ⟨entropy, executor, labels, htrain⟩ := h.exists_train
  obtain ⟨-, start, -, hcollects⟩ := collects_of_train_eq_ok htrain
  have hresults := hm
  rw [hcollects.mixtures_eq] at hresults
  obtain ⟨result, hresult, rfl⟩ := List.mem_map.mp hresults
  obtain ⟨group, hgroup, rfl⟩ := List.mem_map.mp hresult
  exact ⟨group, _, (gives_iff hcollects).mpr ⟨List.mem_range.mp hgroup, rfl, rfl⟩⟩

/-- **Every group of a run is a problem of its own**, trained from labels that are aligned with its
samples and below the number of components. -/
theorem exists_labels (h : s.Yields kernel samples ids groupCount t) {group : Nat}
    {m : Mixture α} {r : Diagnostics α} (hgives : t.Gives group m r) :
    ∃ own, (s.groupProblem kernel samples ids t.models.dim group).TrainsTo own m r := by
  obtain ⟨entropy, executor, labels, htrain⟩ := h.exists_train
  exact exists_labels_of_train_eq_ok htrain hgives

end Yields

end Em.Settings

end Mixtures
