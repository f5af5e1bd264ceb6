import Mixtures.Model.Collection
import Mixtures.Proofs.Em.Invariant

/-!
# The shape of trained mixtures

Training keeps the shape of components: whatever the numbers are, and whatever the densities, the
mean of a component has the dimension of the samples and its covariance the square of it.
-/

namespace Mixtures.Em

variable {α F : Type} [Scalar α]

omit [Scalar α] in
/-- A sum that is formed in each coordinate has the dimension of its terms. -/
theorem length_foldl_zipWith {β γ : Type} {dim : Nat} {entries : List β} (term : β → List γ)
    (h : ∀ entry ∈ entries, (term entry).length = dim) (add : β → α → γ → α) {start : List α}
    (hstart : start.length = dim) :
    (entries.foldl (fun s entry => s.zipWith (add entry) (term entry)) start).length = dim := by
  refine List.foldlRecOn (motive := fun s : List α => s.length = dim) entries _ hstart ?_
  intro s hs entry hentry
  rw [List.length_zipWith, hs, h entry hentry, Nat.min_self]

namespace Problem

variable {p : Problem α F}

theorem length_center (h : ∀ x ∈ p.points, x.length = p.dim) : p.center.length = p.dim := by
  rw [center, List.length_map]
  exact length_foldl_zipWith id h _ List.length_replicate

theorem length_spread (h : ∀ x ∈ p.points, x.length = p.dim) : p.spread.length = p.dim := by
  unfold spread
  dsimp only
  rw [List.length_map]
  refine length_foldl_zipWith _ (fun x hx => ?_) _ List.length_replicate
  rw [List.length_zipWith, h x hx, length_center h, Nat.min_self]

theorem length_weightedMean {dim : Nat} {mass : α} {entries : List (α × Point α)}
    (h : ∀ entry ∈ entries, entry.2.length = dim) :
    (weightedMean dim mass entries).length = dim := by
  rw [weightedMean, List.length_map]
  exact length_foldl_zipWith _ h _ List.length_replicate

/-- The samples that take part in an estimate are samples of the group. -/
theorem mem_points_of_mem_weighted {column : List α} {entry : α × Point α}
    (h : entry ∈ p.weighted column) : entry.2 ∈ p.points :=
  (List.of_mem_zip (List.mem_filter.mp h).1).2

/-- What an estimate consists of. The sum of the responsibilities is a number above the bound for
collapse. -/
theorem estimate_spec {column : List α} {e : Component α} (h : p.estimate column = some e) :
    (Scalar.isFinite (Scalar.sum column) ∧ collapseBound < Scalar.sum column) ∧
      e.weight = Scalar.sum column / Scalar.ofNat p.size ∧
      e.mean = weightedMean p.dim (Scalar.sum column) (p.weighted column) ∧
      e.covariance = weightedCovariance p.dim p.settings.form p.settings.floor (Scalar.sum column)
        ((p.weighted column).map fun entry => (entry.1, entry.2.zipWith (· - ·) e.mean)) := by
  unfold estimate at h
  dsimp only at h
  split at h
  next hmass =>
    rw [Bool.and_eq_true, decide_eq_true_eq] at hmass
    cases h
    exact ⟨hmass, rfl, rfl, rfl⟩
  next => cases h

/-- Training keeps the shape of components, and with it whatever else holds of responsibilities. -/
theorem keeps_hasShape_and (h : ∀ x ∈ p.points, x.length = p.dim) {Q : List α → Prop}
    (honeHot : ∀ label, Q (oneHot p.count label))
    (hexplained : ∀ components (factors : List (Option F)) x,
      p.Good (Component.HasShape p.dim) components → factors.length = p.count →
        Q (p.explain components factors x).1) :
    p.Keeps (Component.HasShape p.dim) Q where
  placeholder := ⟨List.length_replicate, by simp [Component.placeholder]⟩
  oneHot := honeHot
  explained components factors x hgood hfactors _ := hexplained components factors x hgood hfactors
  estimated rows _ _ component c hc := by
    obtain ⟨-, -, hmean, hcovariance⟩ := estimate_spec hc
    refine ⟨?_, ?_⟩
    · rw [hmean]
      exact length_weightedMean fun entry hentry => h _ (mem_points_of_mem_weighted hentry)
    · rw [hcovariance]
      exact Square.length_tabulate p.dim _
  silenced c hc := ⟨hc.1, by simp [Component.placeholder]⟩
  moved sample hsample :=
    ⟨h _ (getD_mem hsample []), by simp [resetComponent, length_spread h]⟩
  prepared c hc := ⟨hc.1, (length_factorWithJitter _ _ _ _).trans hc.2⟩
  normalized c _ _ _ hc := hc

/-- Training keeps the shape of components. -/
theorem keeps_hasShape (h : ∀ x ∈ p.points, x.length = p.dim) :
    p.Keeps (Component.HasShape p.dim) fun _ => True :=
  keeps_hasShape_and h (fun _ => trivial) fun _ _ _ _ _ => trivial

/-- A sample has one responsibility for each component. -/
theorem length_explain {components : List (Component α)} {factors : List (Option F)}
    (hcount : components.length = p.count) (hfactors : factors.length = p.count) (x : Point α) :
    (p.explain components factors x).1.length = p.count := by
  unfold explain
  dsimp only
  split
  · rw [List.length_map, length_logTerms p (hfactors.trans hcount.symm), hcount]
  · exact length_oneHot _ _

/-- One component of the dimension of the samples at each position, and for each sample one
responsibility for each component. -/
def Sound (p : Problem α F) (s : State α) : Prop :=
  p.Holds (Component.HasShape p.dim) (fun row => row.length = p.count) s

/-- Training keeps its states sound. -/
theorem keeps_sound (h : ∀ x ∈ p.points, x.length = p.dim) :
    p.Keeps (Component.HasShape p.dim) fun row => row.length = p.count :=
  keeps_hasShape_and h (length_oneHot p.count)
    fun _ _ x hgood hfactors => length_explain hgood.1 hfactors x

/-- The mixture of a trained group has as many components as asked for, all of the dimension of the
samples. -/
theorem train_hasShape (h : ∀ x ∈ p.points, x.length = p.dim) {labels : List Nat}
    (hlabels : labels.length = p.size) : (p.train labels).mixture.HasShape p.count p.dim :=
  train_good (keeps_hasShape h) hlabels

theorem length_randomLabels {ρ : Type} [RandomSource ρ] (source : ρ) :
    (p.randomLabels source).length = p.size := by
  unfold randomLabels
  dsimp only
  rw [List.length_map, size]

end Problem

end Mixtures.Em
