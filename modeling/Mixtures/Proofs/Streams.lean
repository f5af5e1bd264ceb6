import Mixtures.Proofs.Em.Factoring
import Mixtures.Proofs.Linear.Triangle
import Mixtures.Proofs.Random.Choice
import Mixtures.Proofs.Sampler
import Mixtures.Random.Normal

/-!
# Streams of samples

A stream draws as single draws do. It is made only if every requested group can be sampled, and so
it does not end before every request has its sample. A draw does not reach a component without a
factor, since a component without a factor has no weight.

* `Sampler.stream_error_iff_first`, `SampleStream.take_eq`: when a stream is refused, and what it
  yields else.
* `Sampler.draw_outcome`: what a single draw gives, from any source.
* `streams_outcome`: both for all samplers of weights that have a finite sum.
-/

namespace Mixtures

variable {α ρ : Type} [Scalar α] [RandomSource ρ]

namespace Sampler

variable {sampler : Sampler α}

/-- Samples can be drawn from a group. -/
def IsDrawable (sampler : Sampler α) (group : Nat) : Prop :=
  ∃ prepared, sampler.lookup group = .ok prepared

section Requests

omit [Scalar α]

/-- Requests are checked from the first to the last. -/
theorem stream_cons (sampler : Sampler α) (group : Nat) (groups : List Nat) :
    sampler.stream (group :: groups) =
      match sampler.lookup group with
      | .error e => .error e
      | .ok _ => (sampler.stream groups).map fun later =>
          { later with remaining := group :: later.remaining } := by
  rw [stream, stream, List.forM_eq_forM, List.forM_cons]
  cases sampler.lookup group with
  | error e => rfl
  | ok prepared =>
    show (forM groups _ >>= fun _ => _) = Except.map _ (forM groups _ >>= fun _ => _)
    cases forM groups fun group => discard (sampler.lookup group) <;> rfl

theorem stream_of_isDrawable {groups : List Nat} (h : ∀ group ∈ groups, sampler.IsDrawable group) :
    sampler.stream groups = .ok { sampler, remaining := groups } := by
  induction groups with
  | nil => rfl
  | cons group groups ih =>
    obtain ⟨⟨prepared, hlookup⟩, hgroups⟩ := List.forall_mem_cons.mp h
    rw [stream_cons, hlookup, ih hgroups]
    rfl

theorem stream_of_first {before : List Nat}
    (hbefore : ∀ earlier ∈ before, sampler.IsDrawable earlier)
    {group : Nat} {e : Error} (hlookup : sampler.lookup group = .error e) (after : List Nat) :
    sampler.stream (before ++ group :: after) = .error e := by
  induction before with
  | nil => rw [List.nil_append, stream_cons, hlookup]
  | cons earlier before ih =>
    obtain ⟨⟨prepared, hearlier⟩, hbefore⟩ := List.forall_mem_cons.mp hbefore
    rw [List.cons_append, stream_cons, hearlier, ih hbefore]
    rfl

/-- All requests can be served, or there is a first one that cannot. -/
theorem forall_isDrawable_or_first (sampler : Sampler α) (groups : List Nat) :
    (∀ group ∈ groups, sampler.IsDrawable group) ∨
      ∃ before group after e, groups = before ++ group :: after ∧
        (∀ earlier ∈ before, sampler.IsDrawable earlier) ∧ sampler.lookup group = .error e := by
  induction groups with
  | nil => exact .inl fun _ h => absurd h List.not_mem_nil
  | cons group groups ih =>
    cases hlookup : sampler.lookup group with
    | error e =>
      exact .inr ⟨[], group, groups, e, rfl, fun _ h => absurd h List.not_mem_nil, hlookup⟩
    | ok prepared =>
      have hdrawable : sampler.IsDrawable group := ⟨prepared, hlookup⟩
      rcases ih with hall | ⟨before, failing, after, e, rfl, hbefore, hfailing⟩
      · exact .inl (List.forall_mem_cons.mpr ⟨hdrawable, hall⟩)
      · exact .inr ⟨group :: before, failing, after, e, rfl,
          List.forall_mem_cons.mpr ⟨hdrawable, hbefore⟩, hfailing⟩

/-- A stream is refused exactly if one of its groups cannot be sampled. -/
theorem exists_stream_error_iff {groups : List Nat} :
    (∃ e, sampler.stream groups = .error e) ↔ ∃ group ∈ groups, ¬sampler.IsDrawable group := by
  rcases sampler.forall_isDrawable_or_first groups with
    hall | ⟨before, group, after, e, rfl, hbefore, hlookup⟩
  · rw [stream_of_isDrawable hall]
    exact ⟨fun ⟨e, h⟩ => (nomatch h), fun ⟨group, hmem, hnot⟩ => absurd (hall group hmem) hnot⟩
  · refine ⟨fun _ => ⟨group, by simp, ?_⟩, fun _ => ⟨e, stream_of_first hbefore hlookup after⟩⟩
    rintro ⟨prepared, hok⟩
    cases hlookup.symm.trans hok

/-- A stream is refused for the first group that cannot be sampled. -/
theorem stream_error_iff_first {groups : List Nat} {e : Error} :
    sampler.stream groups = .error e ↔ ∃ before group after, groups = before ++ group :: after ∧
      (∀ earlier ∈ before, sampler.IsDrawable earlier) ∧ sampler.lookup group = .error e := by
  constructor
  · intro herror
    rcases sampler.forall_isDrawable_or_first groups with
      hall | ⟨before, group, after, e', rfl, hbefore, hlookup⟩
    · rw [stream_of_isDrawable hall] at herror
      cases herror
    · rw [stream_of_first hbefore hlookup] at herror
      cases herror
      exact ⟨before, group, after, rfl, hbefore, hlookup⟩
  · rintro ⟨before, group, after, rfl, hbefore, hlookup⟩
    exact stream_of_first hbefore hlookup after

end Requests

/-- The samples of single draws one after the other, each from the source that the one before it
has left. -/
def drawEach (sampler : Sampler α) (normal : ρ → α × ρ) :
    List Nat → ρ → Except Error (List (Sample α) × ρ)
  | [], source => .ok ([], source)
  | group :: groups, source => do
    let (sample, source) ← sampler.draw normal group source
    let (samples, source) ← drawEach sampler normal groups source
    return (sample :: samples, source)

theorem IsDrawable.exists_draw {group : Nat} (h : sampler.IsDrawable group) (normal : ρ → α × ρ)
    (source : ρ) : ∃ sample later, sampler.draw normal group source = .ok (sample, later) := by
  cases hdraw : sampler.draw normal group source with
  | ok drawn => exact ⟨drawn.1, drawn.2, rfl⟩
  | error e =>
    obtain ⟨prepared, hlookup⟩ := h
    cases hlookup.symm.trans (draw_eq_error_iff.mp hdraw)

end Sampler

namespace SampleStream

/-- **Streams draw as single draws do**. The samples that are taken from a stream are those of
single draws, one for each of the requested groups and from the same source. -/
theorem take_eq {sampler : Sampler α} {groups : List Nat}
    (h : ∀ group ∈ groups, sampler.IsDrawable group) (normal : ρ → α × ρ) (n : Nat) (source : ρ) :
    ∃ samples later, sampler.drawEach normal (groups.take n) source = .ok (samples, later) ∧
      samples.length = min n groups.length ∧
      ({ sampler, remaining := groups } : SampleStream α).take normal n source =
        (samples.map (·.point), { sampler, remaining := groups.drop n }, later) := by
  induction n generalizing groups source with
  | zero => exact ⟨[], source, rfl, (Nat.zero_min _).symm, rfl⟩
  | succ n ih =>
    cases groups with
    | nil => exact ⟨[], source, rfl, rfl, rfl⟩
    | cons group groups =>
      obtain ⟨hdrawable, hgroups⟩ := List.forall_mem_cons.mp h
      obtain ⟨sample, next, hdraw⟩ := hdrawable.exists_draw normal source
      obtain ⟨samples, later, hdraws, hlength, htake⟩ := ih hgroups next
      refine ⟨sample :: samples, later, ?_, ?_, ?_⟩
      · rw [List.take_succ_cons, Sampler.drawEach, hdraw]
        show Sampler.drawEach sampler normal (groups.take n) next >>= _ = _
        rw [hdraws]
        rfl
      · rw [List.length_cons, hlength, List.length_cons, Nat.succ_min_succ]
      · rw [take, SampleStream.next]
        dsimp only
        rw [hdraw]
        dsimp only
        rw [htake]
        rfl

end SampleStream

/-! ## What a draw gives -/

namespace PreparedGroup

/-- A component with weight has its factor at its own position. -/
theorem factors_getElem? {dim : Nat} {components : List (Component α)}
    {factors : List (Option (Cholesky α))} (h : PreparedGroup.factors dim components = some factors)
    {i : Nat} {c : Component α} (hc : components[i]? = some c) (hweight : ¬c.weight ≤ 0) :
    ∃ f, (factorWithJitter (Cholesky.factor dim) dim Scalar.epsilon c.covariance).1 = some f ∧
      factors[i]? = some (some f) := by
  induction components generalizing factors i with
  | nil => cases hc
  | cons first components ih =>
    rw [PreparedGroup.factors] at h
    split_ifs at h with hfirst
    · obtain ⟨later, hlater, rfl⟩ := Option.map_eq_some_iff.mp h
      cases i with
      | zero =>
        obtain rfl := Option.some.inj hc
        exact absurd hfirst hweight
      | succ i => exact ih hlater hc
    · split at h
      next => cases h
      next f hfactor =>
        obtain ⟨later, hlater, rfl⟩ := Option.map_eq_some_iff.mp h
        cases i with
        | zero =>
          obtain rfl := Option.some.inj hc
          exact ⟨f, hfactor, rfl⟩
        | succ i => exact ih hlater hc

theorem ofMixture_eq_ready {dim : Nat} {m : Mixture α} {choice : WeightedChoice α}
    {factors : List (Option (Cholesky α))} (h : ofMixture dim m = .ok (.ready choice factors)) :
    WeightedChoice.ofWeights m.weights = .ok choice ∧
      PreparedGroup.factors dim m.components = some factors := by
  rw [ofMixture] at h
  split at h
  next => cases h
  next => cases h
  next hchoice =>
    split at h
    next => cases h
    next hfactors =>
      cases h
      exact ⟨hchoice, hfactors⟩

end PreparedGroup

namespace Sampler

variable {models : Collection α} {sampler : Sampler α} {group : Nat}

/-- A group that can be sampled has the choice and the factors of its own mixture. -/
theorem lookup_eq_ok {choice : WeightedChoice α} {factors : List (Option (Cholesky α))}
    (h : ofModels models = .ok sampler) (hlookup : sampler.lookup group = .ok (choice, factors)) :
    ∃ m, models.mixtures[group]? = some m ∧ WeightedChoice.ofWeights m.weights = .ok choice ∧
      PreparedGroup.factors models.dim m.components = some factors := by
  rw [lookup] at hlookup
  split at hlookup
  next => cases hlookup
  next => cases hlookup
  next => cases hlookup
  next choice' factors' hgroup =>
    cases hlookup
    have hlt : group < models.mixtures.length := by
      have hlength := length_groups h
      rw [Collection.groupCount] at hlength
      rw [← hlength]
      exact (List.getElem?_eq_some_iff.mp hgroup).1
    obtain ⟨prepared, hprepared, hsame⟩ := exists_prepared h (List.getElem?_eq_getElem hlt)
    rw [hgroup] at hsame
    cases hsame
    exact ⟨_, List.getElem?_eq_getElem hlt, PreparedGroup.ofMixture_eq_ready hprepared⟩

end Sampler

omit [RandomSource ρ] in
theorem length_drawMany {β : Type} (one : ρ → β × ρ) (n : Nat) (source : ρ) :
    (drawMany one n source).1.length = n := by
  induction n generalizing source with
  | zero => rfl
  | succ n ih => exact congrArg (· + 1) (ih _)

/-- A sample of a mixture is the point `mean + L z` of a component `c` that has weight, where `L` is
the factor `f` of its covariance. -/
structure Sample.IsPlaced (dim : Nat) (m : Mixture α) (c : Component α) (f : Cholesky α)
    (z : List α)
    (sample : Sample α) : Prop where
  component : m.components[sample.component]? = some c
  weight_pos : 0 < c.weight
  factor : (factorWithJitter (Cholesky.factor dim) dim Scalar.epsilon c.covariance).1 = some f
  point : sample.point =
    (List.range dim).map fun row => c.mean.getD row 0 + Cholesky.rowProduct f.columns z row

/-- A component with weight is placed with its factor. -/
theorem Sampler.drawPrepared_isPlaced {models : Collection α} {sampler : Sampler α} {group : Nat}
    {m : Mixture α} {choice : WeightedChoice α} {factors : List (Option (Cholesky α))}
    (h : ofModels models = .ok sampler) (hm : models.mixtures[group]? = some m)
    (hfactors : PreparedGroup.factors models.dim m.components = some factors)
    (normal : ρ → α × ρ) (source : ρ) {c : Component α}
    (hc : m.components[(choice.draw source).1]? = some c) (hpos : 0 < c.weight)
    (hweight : ¬c.weight ≤ 0) :
    ∃ sample f, sampler.drawPrepared normal group choice factors source =
        (sample, (drawMany normal models.dim (choice.draw source).2).2) ∧
      sample.IsPlaced models.dim m c f (drawMany normal models.dim (choice.draw source).2).1 := by
  obtain ⟨f, hfactor, hget⟩ := PreparedGroup.factors_getElem? hfactors hc hweight
  have hshape := (models.hasShape m (List.mem_of_getElem? hm)).2 c (List.mem_of_getElem? hc)
  have htriangle : IsTriangle models.dim f.columns :=
    Cholesky.factor_isTriangle (factor_of_factorWithJitter (Prod.ext hfactor rfl))
  have hmodels := (ofModels_eq_ok_iff.mp h).1
  refine ⟨⟨(choice.draw source).1, _⟩, f, ?_, hc, hpos, hfactor,
    Cholesky.transform_eq htriangle hshape.1 (length_drawMany normal _ _)⟩
  have hdim : c.dim = models.dim := hshape.1
  have hcomponent : m.components.getD (choice.draw source).1 (Component.placeholder models.dim 0) =
      c := by
    rw [List.getD_eq_getElem?_getD, hc]
    rfl
  have hplaced : factors.getD (choice.draw source).1 none = some f := by
    rw [List.getD_eq_getElem?_getD, hget]
    rfl
  rw [drawPrepared, hmodels, Collection.get?, hm]
  dsimp only [Option.map_some, Option.getD_some]
  rw [hcomponent, hplaced, hdim]
  rfl

/-- A draw places a component of positive weight, provided that the number which it compares with
the running totals is below the total weight. -/
theorem Sampler.draw_outcome {models : Collection Float} {sampler : Sampler Float} {group : Nat}
    {m : Mixture Float} (h : ofModels models = .ok sampler) (hm : models.mixtures[group]? = some m)
    (hdrawable : sampler.IsDrawable group) (normal : ρ → Float × ρ) (source : ρ)
    (hbelow : Scalar.minPositive ≤ WeightedChoice.totalOf m.weights ∨
      WeightedChoice.drawn (WeightedChoice.totalOf m.weights) source <
        WeightedChoice.totalOf m.weights) :
    ∃ sample c f, sampler.draw normal group source =
        .ok (sample, (drawMany normal models.dim (RandomSource.next64 source).2).2) ∧
      sample.IsPlaced models.dim m c f
        (drawMany normal models.dim (RandomSource.next64 source).2).1 := by
  obtain ⟨⟨choice, factors⟩, hlookup⟩ := hdrawable
  obtain ⟨m', hm', hchoice, hfactors⟩ := lookup_eq_ok h hlookup
  obtain rfl : m' = m := Option.some.inj (hm'.symm.trans hm)
  rw [← WeightedChoice.total_eq hchoice] at hbelow
  obtain ⟨w, hw, hpos⟩ := WeightedChoice.draw_positive hchoice source hbelow
  rw [Mixture.weights, List.getElem?_map] at hw
  obtain ⟨c, hc, rfl⟩ := Option.map_eq_some_iff.mp hw
  have hweight : ¬c.weight ≤ 0 := fun hle =>
    absurd (Double.lt_of_lt_of_le' hpos hle) (by decide +kernel)
  obtain ⟨sample, f, hdraw, hplaced⟩ :=
    drawPrepared_isPlaced h hm hfactors normal source hc hpos hweight
  refine ⟨sample, c, f, ?_, hplaced⟩
  rw [draw, hlookup]
  exact congrArg Except.ok hdraw

/-- Weights that are zero or positive and have a finite sum do not add up to infinity. -/
theorem Mixture.not_weightsOverflow {m : Mixture Float}
    (h : Scalar.isFinite (WeightedChoice.totalOf m.weights)) : ¬m.WeightsOverflow := by
  intro hoverflow
  rw [WeightsOverflow, WeightedChoice.fault?] at hoverflow
  split_ifs at hoverflow <;> contradiction

/-- Samples can be drawn from a group if one of its components has weight and all that have weight
can be factored. -/
theorem Sampler.isDrawable_iff_of_getElem? {models : Collection Float} {sampler : Sampler Float}
    {group : Nat} {m : Mixture Float} (h : ofModels models = .ok sampler)
    (hm : models.mixtures[group]? = some m)
    (hfinite : ¬m.WeightsOverflow) (hproper : WeightedChoice.Proper m.weights) :
    sampler.IsDrawable group ↔ (∃ c ∈ m.components, 0 < c.weight) ∧
      ∀ c ∈ m.components, 0 < c.weight → ¬c.IsUnfactorable models.dim := by
  have hempty := Mixture.isEmpty_iff hproper
  rcases lookup_of_proper h hm hfinite hproper with
    ⟨hisEmpty, hlookup⟩ | ⟨hisEmpty, ⟨⟨c, hc, hpos, hbad⟩, hlookup⟩ | ⟨hgood, hlookup⟩⟩
  · refine ⟨fun ⟨prepared, hok⟩ => (nomatch hlookup.symm.trans hok), fun ⟨hsome, _⟩ => ?_⟩
    exact absurd hsome (hempty.mp hisEmpty)
  · refine ⟨fun ⟨prepared, hok⟩ => (nomatch hlookup.symm.trans hok), fun ⟨_, hall⟩ => ?_⟩
    exact absurd hbad (hall c hc hpos)
  · refine ⟨fun _ => ⟨?_, fun c hc hpos hbad => hgood ⟨c, hc, hpos, hbad⟩⟩, fun _ => hlookup⟩
    by_contra hnone
    rw [hempty.mpr hnone] at hisEmpty
    cases hisEmpty

theorem Sampler.isDrawable_iff {models : Collection Float} {sampler : Sampler Float}
    (h : ofModels models = .ok sampler) (hfinite : ∀ m ∈ models.mixtures, ¬m.WeightsOverflow)
    (hproper : ∀ m ∈ models.mixtures, WeightedChoice.Proper m.weights) (group : Nat) :
    sampler.IsDrawable group ↔ ∃ m, models.mixtures[group]? = some m ∧
      (∃ c ∈ m.components, 0 < c.weight) ∧
        ∀ c ∈ m.components, 0 < c.weight → ¬c.IsUnfactorable models.dim := by
  cases hm : models.mixtures[group]? with
  | none =>
    have houtcome := lookup_outcome h group
    rw [hm] at houtcome
    exact ⟨fun ⟨prepared, hok⟩ => (nomatch houtcome.symm.trans hok), fun ⟨m, hnone, _⟩ =>
      (nomatch hnone)⟩
  | some m =>
    have hmem := List.mem_of_getElem? hm
    rw [isDrawable_iff_of_getElem? h hm (hfinite m hmem) (hproper m hmem)]
    exact ⟨fun hparts => ⟨m, rfl, hparts⟩, fun ⟨m', hsame, hparts⟩ =>
      Option.some.inj hsame ▸ hparts⟩

/-- **Streams and draws**. Let all weights be zero or positive, with a finite sum for each group.
Then there is a sampler, and it can draw from a group if a component has weight and all components
with weight can be factored. A stream is refused exactly if one of the requested groups cannot be
sampled, with what the first of these is refused for. Else it yields, whatever the source of random
words, as many samples as there are requests, those of single draws from the same source, and its
length is at any time the number of requests that are left. Every draw picks a component of positive
weight and gives `mean + L z` with its factor, if the number that it compares with the running
totals is below the total weight; this can only fail for a total below the normal doubles. -/
theorem streams_outcome (models : Collection Float)
    (hproper : ∀ m ∈ models.mixtures, WeightedChoice.Proper m.weights)
    (hfinite : ∀ m ∈ models.mixtures, Scalar.isFinite (WeightedChoice.totalOf m.weights)) :
    ∃ sampler, Sampler.ofModels models = .ok sampler ∧
      (∀ group, sampler.IsDrawable group ↔ ∃ m, models.mixtures[group]? = some m ∧
        (∃ c ∈ m.components, 0 < c.weight) ∧
          ∀ c ∈ m.components, 0 < c.weight → ¬c.IsUnfactorable models.dim) ∧
      (∀ groups, (∃ e, sampler.stream groups = .error e) ↔
        ∃ group ∈ groups, ¬sampler.IsDrawable group) ∧
      (∀ groups e, sampler.stream groups = .error e ↔
        ∃ before group after, groups = before ++ group :: after ∧
          (∀ earlier ∈ before, sampler.IsDrawable earlier) ∧ sampler.lookup group = .error e) ∧
      ∀ {ρ : Type} [RandomSource ρ] (normal : ρ → Float × ρ),
        (∀ groups, (∀ group ∈ groups, sampler.IsDrawable group) →
          ∃ stream, sampler.stream groups = .ok stream ∧ ∀ n source,
            ∃ samples left later, stream.take normal n source =
                (samples.map (·.point), left, later) ∧
              sampler.drawEach normal (groups.take n) source = .ok (samples, later) ∧
              samples.length = min n groups.length ∧ left.length = groups.length - n) ∧
        (∀ group source e,
          sampler.draw normal group source = .error e ↔ sampler.lookup group = .error e) ∧
        ∀ group m source, models.mixtures[group]? = some m → sampler.IsDrawable group →
          Scalar.minPositive ≤ WeightedChoice.totalOf m.weights ∨
            WeightedChoice.drawn (WeightedChoice.totalOf m.weights) source <
              WeightedChoice.totalOf m.weights →
          ∃ sample c f, sampler.draw normal group source =
              .ok (sample, (drawMany normal models.dim (RandomSource.next64 source).2).2) ∧
            sample.IsPlaced models.dim m c f
              (drawMany normal models.dim (RandomSource.next64 source).2).1 := by
  have hoverflow : ∀ m ∈ models.mixtures, ¬m.WeightsOverflow := fun m hm =>
    Mixture.not_weightsOverflow (hfinite m hm)
  obtain ⟨sampler, h⟩ : ∃ sampler, Sampler.ofModels models = .ok sampler := by
    rcases Sampler.ofModels_outcome models with ⟨⟨m, hm, hover⟩, -⟩ | ⟨-, hsampler⟩
    · exact absurd hover (hoverflow m hm)
    · exact hsampler
  refine ⟨sampler, h, Sampler.isDrawable_iff h hoverflow hproper,
    fun groups => Sampler.exists_stream_error_iff, fun groups e => Sampler.stream_error_iff_first,
    fun normal => ⟨fun groups hall => ?_, fun group source e => Sampler.draw_eq_error_iff,
      fun group m source hm hdrawable hbelow =>
        Sampler.draw_outcome h hm hdrawable normal source hbelow⟩⟩
  refine ⟨_, Sampler.stream_of_isDrawable hall, fun n source => ?_⟩
  obtain ⟨samples, later, hdraws, hlength, htake⟩ := SampleStream.take_eq hall normal n source
  exact ⟨samples, _, later, htake, hdraws, hlength, List.length_drop⟩

/-- With weights zero and one, draws pick the second component, from any source; the group without
weight is refused. -/
theorem streams_outcome_ofTwoWeights :
    ∃ sampler, Sampler.ofModels (ofTwoWeights [(0, 1), (0, 0)]) = .ok sampler ∧
      (∃ e, sampler.stream [0, 1, 0] = .error e) ∧
      (∃ stream, sampler.stream [0, 0] = .ok stream ∧
        ∀ n (source : WordList), (stream.take Normal.draw n source).1.length = min n 2) ∧
      ∀ source : WordList, ∃ sample later, sampler.draw Normal.draw 0 source = .ok (sample, later) ∧
        sample.component = 1 := by
  have hproper : ∀ m ∈ (ofTwoWeights [(0, 1), (0, 0)]).mixtures,
      WeightedChoice.Proper m.weights := by decide +kernel
  have hfinite : ∀ m ∈ (ofTwoWeights [(0, 1), (0, 0)]).mixtures,
      Scalar.isFinite (WeightedChoice.totalOf m.weights) := by decide +kernel
  obtain ⟨sampler, h, hdrawable, hrefused, -, hall⟩ :=
    streams_outcome (ofTwoWeights [(0, 1), (0, 0)]) hproper hfinite
  obtain ⟨hstreams, -, hdraws⟩ := hall (ρ := WordList) Normal.draw
  have hzero : sampler.IsDrawable 0 :=
    (hdrawable 0).mpr ⟨twoNormals 0 1, rfl, by decide +kernel, by decide +kernel⟩
  have hone : ¬sampler.IsDrawable 1 := by
    rw [hdrawable]
    rintro ⟨m, hm, hsome, -⟩
    obtain rfl : twoNormals 0 0 = m := Option.some.inj hm
    exact absurd hsome (by decide +kernel)
  refine ⟨sampler, h, (hrefused [0, 1, 0]).mpr ⟨1, by decide, hone⟩, ?_, fun source => ?_⟩
  · obtain ⟨stream, hstream, htake⟩ := hstreams [0, 0] (by simp [hzero])
    refine ⟨stream, hstream, fun n source => ?_⟩
    obtain ⟨samples, left, later, hsamples, -, hlength, -⟩ := htake n source
    rw [hsamples, List.length_map, hlength]
    rfl
  · obtain ⟨sample, c, f, hdraw, hplaced⟩ :=
      hdraws 0 (twoNormals 0 1) source rfl hzero (.inl (by decide +kernel))
    refine ⟨sample, _, hdraw, ?_⟩
    have hc := hplaced.component
    have hpos := hplaced.weight_pos
    obtain ⟨i, point⟩ := sample
    match i with
    | 0 =>
      cases hc
      exact absurd hpos (by decide +kernel)
    | 1 => rfl
    | i + 2 => cases hc

end Mixtures
