import Mathlib
import Mixtures.Proofs.Em.Shape
import Mixtures.Proofs.Linear.Matrix
import Mixtures.Proofs.Pipeline.Training
import Mixtures.Proofs.Scalar.Ratios

/-!
# Symmetric covariances

The covariances that training returns are symmetric to the last bit, and zero off the diagonal if
diagonal ones are asked for: the two entries of a pair are one sum, not two sums that round alike.
Nothing that happens to a covariance later tells them apart, since jitter and resets only touch the
diagonal.

* `HasForm`: a square that is symmetric, and diagonal if its form says so.
* `keeps_symmetric`: the form as an invariant of training.
* `Settings.covariance_symmetric`: the covariances of all mixtures of a run.
-/

namespace Mixtures.Em

variable {α F : Type} [Scalar α]

/-! ## Squares of a form -/

/-- A square of entries that agree across the diagonal, and are zero off it if the form
is diagonal. -/
structure HasForm (dim : Nat) (form : CovarianceForm) (a : List α) : Prop where
  length_eq : a.length = dim * dim
  symm : ∀ i < dim, ∀ j < dim, Square.entry dim a i j = Square.entry dim a j i
  zero : form = .diagonal → ∀ i < dim, ∀ j < dim, i ≠ j → Square.entry dim a i j = 0

namespace HasForm

variable {dim : Nat} {form : CovarianceForm} {a : List α}

theorem tabulate {f : Nat → Nat → α} (hsymm : ∀ i j, f i j = f j i)
    (hzero : form = .diagonal → ∀ i j, i ≠ j → f i j = 0) :
    HasForm dim form (Square.tabulate dim f) where
  length_eq := Square.length_tabulate dim f
  symm i hi j hj := by rw [Square.entry_tabulate f hi hj, Square.entry_tabulate f hj hi, hsymm]
  zero hform i hi j hj hne := by rw [Square.entry_tabulate f hi hj, hzero hform i j hne]

/-- A diagonal square has either form. -/
theorem diagonal {d : List α} (h : d.length = dim) : HasForm dim form (Square.diagonal d) := by
  subst h
  refine tabulate (fun i j => ?_) fun _ i j hne => if_neg hne
  by_cases hij : i = j
  · rw [hij]
  · rw [if_neg hij, if_neg (Ne.symm hij)]

/-- Adding to the diagonal keeps the form. -/
theorem addToDiagonal (h : HasForm dim form a) (delta : α) :
    HasForm dim form (Square.addToDiagonal dim delta a) where
  length_eq := (Square.length_addToDiagonal dim delta a).trans h.length_eq
  symm i hi j hj := by
    rw [Square.entry_addToDiagonal h.length_eq delta hi hj,
      Square.entry_addToDiagonal h.length_eq delta hj hi]
    by_cases hij : i = j
    · rw [hij]
    · rw [if_neg hij, if_neg (Ne.symm hij), h.symm i hi j hj]
  zero hform i hi j hj hne := by
    rw [Square.entry_addToDiagonal h.length_eq delta hi hj, if_neg hne, h.zero hform i hi j hj hne]

/-- So does jitter. -/
theorem factorWithJitter (h : HasForm dim form a) (factor : List α → Option F) (floor : α) :
    HasForm dim form (Mixtures.factorWithJitter factor dim floor a).2 :=
  factorWithJitter_keeps (fun delta _ ha => ha.addToDiagonal delta) factor floor h

/-- A square of exact entries stands for a symmetric matrix. -/
theorem isSymm {a : List ℝ} (h : HasForm dim form a) : (Square.matrix dim a).IsSymm := by
  ext i j
  exact h.symm j j.isLt i i.isLt

theorem isDiag {a : List ℝ} (h : HasForm dim form a) (hform : form = .diagonal) :
    (Square.matrix dim a).IsDiag := fun i j hne =>
  h.zero hform i i.isLt j j.isLt (Fin.val_ne_of_ne hne)

end HasForm

/-! ## Estimates -/

section Estimates

variable [Scalar.LawfulRatios α]

open Scalar.LawfulRatios

/-- What exceeds the bound for collapse is positive. -/
theorem pos_of_collapseBound_lt {mass : α} (h : collapseBound < mass) : 0 < mass :=
  pos_of_lt (div_not_neg one_not_neg (ofNat_pos (by decide) (by decide))) h

/-- A weighted covariance has its form: both entries of a pair are the product of the larger with
the smaller coordinate, and what is not summed is zero. -/
theorem hasForm_weightedCovariance (dim : Nat) (form : CovarianceForm) (floor : α) {mass : α}
    (hpos : 0 < mass) (hfinite : Scalar.isFinite mass) (centered : List (α × Point α)) :
    HasForm dim form (Problem.weightedCovariance dim form floor mass centered) := by
  refine .tabulate (fun i j => ?_) ?_
  · by_cases hij : i = j
    · rw [hij]
    · rw [if_neg hij, if_neg (Ne.symm hij), max_comm, min_comm]
  · rintro rfl i j hne
    rw [if_neg hne]
    exact zero_div hpos hfinite

end Estimates

/-! ## The invariant -/

namespace Problem

/-- A component whose covariance is symmetric, and diagonal if that is asked for. -/
def Symmetric (p : Problem α F) (c : Component α) : Prop :=
  HasForm p.dim p.settings.form c.covariance

/-- **Training keeps covariances symmetric.** -/
theorem keeps_symmetric [Scalar.LawfulRatios α] {p : Problem α F}
    (hpoints : ∀ x ∈ p.points, x.length = p.dim) : p.Keeps p.Symmetric fun _ => True where
  placeholder := .diagonal List.length_replicate
  oneHot _ := trivial
  explained _ _ _ _ _ _ := trivial
  estimated rows _ _ component c hc := by
    obtain ⟨⟨hfinite, hmass⟩, -, -, hcovariance⟩ := estimate_spec hc
    rw [Symmetric, hcovariance]
    exact hasForm_weightedCovariance p.dim _ _ (pos_of_collapseBound_lt hmass) hfinite _
  silenced c hc := .diagonal List.length_replicate
  moved sample _ := .diagonal ((List.length_map _).trans (length_spread hpoints))
  prepared c hc := hc.factorWithJitter _ _
  normalized c _ _ _ hc := hc

end Problem

/-- **Covariances are symmetric to the last bit**, and zero off the diagonal if diagonal ones are
asked for: in every component of every mixture of every run, whatever the status of its group. Each
step of training keeps it so, a completed one and one that gives up, and so does falling back on the
components of the last completed expectation step. -/
theorem Settings.covariance_symmetric [Scalar.LawfulRatios α] :
    (∀ (s : Settings α) (kernel : DensityKernel α F) (samples : List (Point α)) (ids : List Nat)
      (groupCount : Nat) (t : Training α), s.Yields kernel samples ids groupCount t →
      ∀ m ∈ t.models.mixtures, ∀ c ∈ m.components, HasForm t.models.dim s.form c.covariance) ∧
    ∀ (p : Problem α F) (s : State α), p.points ≠ [] → (∀ x ∈ p.points, x.length = p.dim) →
      p.Holds p.Symmetric (fun _ => True) s →
      p.Good p.Symmetric (p.maximize s).state.components ∧
        p.Good p.Symmetric (p.expect s).state.components ∧
        (∀ component, p.Good p.Symmetric (p.reset component s).state.components) ∧
        p.Good p.Symmetric (Problem.Ending.components (p.ending s)) := by
  constructor
  · intro s kernel samples ids groupCount t h m hm c hc
    obtain ⟨group, r, hgives⟩ := h.exists_gives hm
    obtain ⟨own, hown, -, rfl, -⟩ := h.exists_labels hgives
    have hpoints : ∀ x ∈ (s.groupProblem kernel samples ids t.models.dim group).points,
        x.length = t.models.dim :=
      length_eq_of_mem_groupProblem h.fittable group
    exact (Problem.train_good (Problem.keeps_symmetric hpoints) hown).2 c hc
  · intro p s hne hpoints hs
    have hkeeps := Problem.keeps_symmetric hpoints
    exact ⟨(Problem.maximize_holds hkeeps hne hs).good, (Problem.expect_holds hkeeps hne hs).good,
      fun component => (Problem.reset_holds hkeeps hne component hs).good,
      (Problem.ending_good hkeeps hne hs).2⟩

/-- Two components with diagonal covariances, and no iterations. -/
def Settings.diagonalStep : Settings Float :=
  { ofCount 2 with maxIterations := 0, form := .diagonal }

/-- Three samples in the plane, as doubles. -/
def cornerSamples : List (Point Float) := [[0, 0], [1, 1], [3, 5]]

/-- The problem of the group that has them all. -/
def cornerProblem : Problem Float (Cholesky Float) :=
  Settings.diagonalStep.groupProblem .gaussian cornerSamples [0, 0, 0] 2 0

theorem fittable_cornerSamples : Fittable cornerSamples [0, 0, 0] 2 2 :=
  fittable_iff.mpr ⟨by decide +kernel, rfl⟩

/-- A run with a group without samples, for which diagonal covariances are asked; and the first
maximization step of its other group. -/
theorem covariance_symmetric_cornerSamples :
    (∃ t, Settings.diagonalStep.Yields .gaussian cornerSamples [0, 0, 0] 2 t ∧
      t.models.groupCount = 2 ∧ ∀ m ∈ t.models.mixtures, m.components.length = 2 ∧
        ∀ c ∈ m.components, Square.entry 2 c.covariance 0 1 = 0) ∧
    cornerProblem.Good cornerProblem.Symmetric
      (cornerProblem.maximize
        (cornerProblem.initialState ([0, 1, 1].map (oneHot 2)))).state.components := by
  obtain ⟨hruns, hsteps⟩ := Settings.covariance_symmetric (α := Float) (F := Cholesky Float)
  constructor
  · have hstart : Settings.diagonalStep.startLabels 3 (some [0, 1, 1]) = .ok (some [0, 1, 1]) := rfl
    obtain ⟨t, ht, hcollects⟩ := Settings.train_outcome fittable_cornerSamples .gaussian 0
      .sequential hstart (by decide +kernel)
    refine ⟨t, .train ht, hcollects.groupCount_eq, fun m hm => ⟨(hcollects.hasShape m hm).1, ?_⟩⟩
    intro c hc
    have hform := hruns _ _ _ _ _ t (.train ht) m hm c hc
    rw [hcollects.dim_eq] at hform
    exact hform.zero rfl 0 Nat.zero_lt_two 1 Nat.one_lt_two Nat.zero_ne_one
  · have hpoints : ∀ x ∈ cornerProblem.points, x.length = cornerProblem.dim :=
      Settings.length_eq_of_mem_groupProblem fittable_cornerSamples 0
    have hstart : cornerProblem.Holds cornerProblem.Symmetric (fun _ => True)
        (cornerProblem.initialState ([0, 1, 1].map (oneHot 2))) :=
      Problem.initialState_holds (Problem.keeps_symmetric hpoints) rfl
    exact (hsteps cornerProblem _ (List.cons_ne_nil _ _) hpoints hstart).1

end Mixtures.Em
