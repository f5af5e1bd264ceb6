import Mathlib
import Mixtures.Proofs.Em.Invariant
import Mixtures.Proofs.Scalar.Infinities
import Mixtures.Proofs.Selection

/-!
# Least distances and least densities

The searches of clustering and training, over doubles as they are. Each goes through its candidates
in order, not-a-number and what is not below infinity left out, and takes the first one at the least
key; with no candidate it falls back to the first position and an infinite key. `Chosen` says so
once for every order and every notion of candidate, and `searches_chosen` that the nearest center,
the nearest component with weight, the worst explained sample and the farthest sample are chosen.

* `Selects.chosen`: what `firstBest` chooses.
* `mem_others_iff`: which components explain a sample that is to be reset to.
-/

namespace Mixtures

/-- The first best candidate: no candidate is better, and it is better than every one before it. -/
structure FirstBest {ω : Type} (better : ω → ω → Prop) (candidate : Nat → ω → Prop) (index : Nat)
    (key : ω) : Prop where
  isCandidate : candidate index key
  best : ∀ i k, candidate i k → ¬better k key
  first : ∀ i < index, ∀ k, candidate i k → better key k

/-- The choice of a search: the first best candidate, or the first position with a key that stands
for none. -/
def Chosen {ω : Type} (better : ω → ω → Prop) (candidate : Nat → ω → Prop) (none : ω)
    (choice : Nat × ω) : Prop :=
  FirstBest better candidate choice.1 choice.2 ∨
    (∀ i k, ¬candidate i k) ∧ choice = (0, none)

section Searches

variable {κ ω : Type} {admissible : κ → Bool} {better : κ → κ → Bool} {better' : ω → ω → Prop}
  {candidate : Nat → ω → Prop}

/-- **What `firstBest` chooses**, if its candidates are the values of the admissible keys and are
compared as these are. -/
theorem Selects.chosen (h : Selects admissible better) (value : κ → ω)
    (hbetter : ∀ {a b}, admissible a → admissible b → (better' (value a) (value b) ↔ better a b))
    {keys : List κ}
    (hcandidate : ∀ {i v}, candidate i v ↔ ∃ k, keys[i]? = some k ∧ admissible k ∧ value k = v)
    (fallback : ω) :
    Chosen better' candidate fallback
      (((firstBest admissible better keys).map fun found => (found.1, value found.2)).getD
        (0, fallback)) := by
  cases hfound : firstBest admissible better keys with
  | none =>
    refine .inr ⟨?_, rfl⟩
    intro i v hv
    obtain ⟨k, hk, hadmissible, -⟩ := hcandidate.mp hv
    exact firstBest_ne_none (List.mem_of_getElem? hk) hadmissible hfound
  | some found =>
    obtain ⟨index, key⟩ := found
    obtain ⟨hkey, hbest, hfirst⟩ := h.of_firstBest hfound
    refine .inl ⟨hcandidate.mpr ⟨key, getElem?_of_firstBest hfound, hkey, rfl⟩, ?_, ?_⟩
    · intro i v hv hlt
      obtain ⟨k, hk, hadmissible, rfl⟩ := hcandidate.mp hv
      exact hbest k (List.mem_of_getElem? hk) ((hbetter hadmissible hkey).mp hlt)
    · intro i hi v hv
      obtain ⟨k, hk, hadmissible, rfl⟩ := hcandidate.mp hv
      exact (hbetter hkey hadmissible).mpr (hfirst i hi k hk hadmissible)

/-- The position alone, where the key is not kept. -/
theorem Selects.exists_chosen (h : Selects admissible better) (value : κ → ω)
    (hbetter : ∀ {a b}, admissible a → admissible b → (better' (value a) (value b) ↔ better a b))
    {keys : List κ}
    (hcandidate : ∀ {i v}, candidate i v ↔ ∃ k, keys[i]? = some k ∧ admissible k ∧ value k = v)
    (fallback : ω) :
    ∃ key, Chosen better' candidate fallback
      (((firstBest admissible better keys).map (·.1)).getD 0, key) := by
  have hchosen := h.chosen value hbetter hcandidate fallback
  cases hfound : firstBest admissible better keys with
  | none =>
    rw [hfound] at hchosen
    exact ⟨fallback, hchosen⟩
  | some found =>
    rw [hfound] at hchosen
    exact ⟨value found.2, hchosen⟩

end Searches

namespace Double

variable {a b c : Float}

/-- Distances below infinity are selected by their order. -/
theorem selects_distance :
    Selects (Point.isBelowInfinity (α := Float)) fun a b => decide (a < b) := by
  refine Selects.of_rank (fun d => place d.toModel.unpack) ?_ ?_ ?_
  · intro a b
    rw [decide_eq_true_iff, lt_iff]
  · intro a ha
    obtain ⟨x, hx, -⟩ := lt_iff.mp (isBelowInfinity_iff.mp ha)
    exact ⟨x, hx⟩
  · intro a b hb hab
    exact isBelowInfinity_iff.mpr (lt_trans (of_decide_eq_true hab) (isBelowInfinity_iff.mp hb))

/-- So are the distances to components, of which those without weight are at none. -/
theorem selects_liveDistance {better : Option Float → Option Float → Bool}
    (hsome : ∀ a b, better (some a) (some b) = decide (a < b)) (hnone : ∀ b, better none b = false)
    (hnone' : ∀ a, better (some a) none = false) :
    Selects (fun d => d.any Point.isBelowInfinity) better := by
  refine Selects.of_rank (fun d => d.bind fun d => place d.toModel.unpack) ?_ ?_ ?_
  · rintro (_ | a) (_ | b)
    · simp [hnone]
    · simp [hnone]
    · simp [hnone']
    · simpa [hsome] using lt_iff
  · rintro (_ | a) ha
    · cases ha
    · obtain ⟨x, hx, -⟩ := lt_iff.mp (isBelowInfinity_iff.mp ha)
      exact ⟨x, hx⟩
  · rintro (_ | a) (_ | b) hb hab
    · cases hb
    · cases (hnone _).symm.trans hab
    · cases hb
    · rw [hsome] at hab
      exact isBelowInfinity_iff.mpr (lt_trans (of_decide_eq_true hab) (isBelowInfinity_iff.mp hb))

/-- Distances above negative infinity are selected against their order. -/
theorem selects_farthest :
    Selects (Em.isAboveNegativeInfinity (α := Float)) fun d kept => decide (kept < d) := by
  refine Selects.of_rank (fun d => (place d.toModel.unpack).map OrderDual.toDual) ?_ ?_ ?_
  · intro a b
    rw [decide_eq_true_iff, lt_iff]
    constructor
    · rintro ⟨y, hy, x, hx, hyx⟩
      exact ⟨.toDual x, Option.mem_map_of_mem _ hx, .toDual y, Option.mem_map_of_mem _ hy, hyx⟩
    · rintro ⟨x', hx', y', hy', hlt⟩
      obtain ⟨x, hx, rfl⟩ := Option.mem_map.mp hx'
      obtain ⟨y, hy, rfl⟩ := Option.mem_map.mp hy'
      exact ⟨y, hy, x, hx, hlt⟩
  · intro a ha
    obtain ⟨-, -, x, hx, -⟩ := lt_iff.mp (isAboveNegativeInfinity_iff.mp ha)
    exact ⟨.toDual x, Option.mem_map_of_mem _ hx⟩
  · intro a b hb hab
    exact isAboveNegativeInfinity_iff.mpr
      (lt_trans (isAboveNegativeInfinity_iff.mp hb) (of_decide_eq_true hab))

/-- Masses below infinity are selected by their order. -/
theorem selects_mass : Selects (LogMass.isBelowInfinity (α := Float)) LogMass.lt := by
  refine Selects.of_rank (fun f => place f.double.toModel.unpack) ?_ ?_ ?_
  · intro a b
    rw [LogMass.lt_iff_double, lt_iff]
  · intro a ha
    obtain ⟨x, hx, -⟩ := lt_iff.mp (LogMass.isBelowInfinity_iff.mp ha)
    exact ⟨x, hx⟩
  · intro a b hb hab
    exact LogMass.isBelowInfinity_iff.mpr
      (lt_trans (LogMass.lt_iff_double.mp hab) (LogMass.isBelowInfinity_iff.mp hb))

end Double

open Double

/-- A center and its distance, if that is below infinity. -/
def Point.IsDistance (x : Point Float) (centers : List (Point Float)) (i : Nat)
    (d : Float) : Prop :=
  ∃ center, centers[i]? = some center ∧ Point.squaredDistance x center = d ∧ d < Float.inf

/-- The nearest center is chosen among those at a distance below infinity. -/
theorem Point.nearest_chosen (x : Point Float) (centers : List (Point Float)) :
    Chosen (· < ·) (IsDistance x centers) Float.inf ((nearest x centers).getD (0, Float.inf)) := by
  have hcandidate : ∀ {i d}, IsDistance x centers i d ↔
      ∃ k, (centers.map (squaredDistance x))[i]? = some k ∧ isBelowInfinity k ∧ id k = d := by
    intro i d
    simp only [IsDistance, List.getElem?_map, Option.map_eq_some_iff, isBelowInfinity_iff, id]
    constructor
    · rintro ⟨center, hcenter, rfl, hbelow⟩
      exact ⟨_, ⟨center, hcenter, rfl⟩, hbelow, rfl⟩
    · rintro ⟨_, ⟨center, hcenter, rfl⟩, hbelow, rfl⟩
      exact ⟨center, hcenter, rfl, hbelow⟩
  have h := selects_distance.chosen id (fun _ _ => decide_eq_true_iff.symm) hcandidate Float.inf
  simp only [id, Option.map_id'] at h
  exact h

namespace Em

/-- A component with weight and its distance, if that is below infinity. -/
def IsLiveDistance (x : Point Float) (components : List (Component Float)) (i : Nat) (d : Float) :
    Prop :=
  ∃ c, components[i]? = some c ∧ ¬c.weight ≤ 0 ∧ Point.squaredDistance x c.mean = d ∧ d < Float.inf

/-- The nearest component is chosen among those with weight at a distance below infinity. -/
theorem nearestLive_chosen (components : List (Component Float)) (x : Point Float) :
    ∃ d, Chosen (· < ·) (IsLiveDistance x components) Float.inf (nearestLive components x, d) := by
  unfold nearestLive
  refine (selects_liveDistance (fun _ _ => rfl) (fun _ => rfl) fun _ => rfl).exists_chosen
    (fun d => d.getD 0) ?_ ?_ Float.inf
  · rintro (_ | a) (_ | b) ha hb
    · cases ha
    · cases ha
    · cases hb
    · exact decide_eq_true_iff.symm
  · intro i d
    simp only [IsLiveDistance, List.getElem?_map, Option.map_eq_some_iff]
    constructor
    · rintro ⟨c, hc, hlive, rfl, hbelow⟩
      exact ⟨_, ⟨c, hc, if_neg hlive⟩, isBelowInfinity_iff.mpr hbelow, rfl⟩
    · rintro ⟨_, ⟨c, hc, rfl⟩, hbelow, rfl⟩
      unfold liveDistance at hbelow ⊢
      split at hbelow
      next => cases hbelow
      next hlive =>
        rw [if_neg hlive]
        exact ⟨c, hc, hlive, rfl, isBelowInfinity_iff.mp hbelow⟩

namespace Problem

variable {F : Type} {p : Problem Float F} {components : List (Component Float)} {skip : Nat}

/-- Samples are explained by the components other than the skipped one that have weight and can be
factored. -/
theorem mem_others_iff {c : Component Float} {f : F} :
    (c, f) ∈ p.others components skip ↔
      ∃ i ≠ skip, components[i]? = some c ∧ 0 < c.weight ∧ (p.prepare c.covariance).1 = some f := by
  unfold others
  simp only [List.mem_filterMap, Prod.exists, List.mk_mem_zipIdx_iff_getElem?]
  constructor
  · rintro ⟨c', i, hc', hkept⟩
    split at hkept
    next hcond =>
      obtain ⟨f', hf', heq⟩ := Option.map_eq_some_iff.mp hkept
      cases heq
      obtain ⟨hi, hweight⟩ := Bool.and_eq_true_iff.mp hcond
      exact ⟨i, of_decide_eq_true hi, hc', of_decide_eq_true hweight, hf'⟩
    next => cases hkept
  · rintro ⟨i, hi, hc, hweight, hf⟩
    refine ⟨c, i, hc, ?_⟩
    split
    next => rw [hf]; rfl
    next hcond =>
      exact absurd (Bool.and_eq_true_iff.mpr ⟨decide_eq_true hi, decide_eq_true hweight⟩) hcond

/-- A sample and the logarithm of its density under prepared components, if that is
below infinity. -/
def IsExplained (p : Problem Float F) (live : List (Component Float × F)) (i : Nat) (f : Float) :
    Prop :=
  ∃ x, p.points[i]? = some x ∧ (p.explained live x).double = f ∧ f < Float.inf

/-- A sample and its distance to the mean of the samples, if that is above negative infinity. -/
def IsCenterDistance (p : Problem Float F) (i : Nat) (d : Float) : Prop :=
  ∃ x, p.points[i]? = some x ∧ Point.squaredDistance x p.center = d ∧ -Float.inf < d

/-- With other components, the sample that they explain worst is chosen. -/
theorem outlier_chosen (h : p.others components skip ≠ []) :
    ∃ f, Chosen (· < ·) (p.IsExplained (p.others components skip)) Float.inf
      (p.outlier components skip, f) := by
  rw [outlier, if_neg (by simpa using h)]
  refine selects_mass.exists_chosen LogMass.double (fun _ _ => LogMass.lt_iff_double.symm) ?_
    Float.inf
  intro i f
  simp only [IsExplained, List.getElem?_map, Option.map_eq_some_iff, LogMass.isBelowInfinity_iff]
  constructor
  · rintro ⟨x, hx, rfl, hbelow⟩
    exact ⟨_, ⟨x, hx, rfl⟩, hbelow, rfl⟩
  · rintro ⟨_, ⟨x, hx, rfl⟩, hbelow, rfl⟩
    exact ⟨x, hx, rfl, hbelow⟩

/-- Without, the sample farthest from the mean of the samples. -/
theorem outlier_chosen_of_alone (h : p.others components skip = []) :
    ∃ d, Chosen (· > ·) p.IsCenterDistance (-Float.inf) (p.outlier components skip, d) := by
  rw [outlier, if_pos (by simpa using h), farthestFromCenter]
  refine selects_farthest.exists_chosen id (fun _ _ => decide_eq_true_iff.symm) ?_
    (-Float.inf)
  intro i d
  simp only [IsCenterDistance, List.getElem?_map, Option.map_eq_some_iff,
    isAboveNegativeInfinity_iff, id]
  constructor
  · rintro ⟨x, hx, rfl, habove⟩
    exact ⟨_, ⟨x, hx, rfl⟩, habove, rfl⟩
  · rintro ⟨_, ⟨x, hx, rfl⟩, habove, rfl⟩
    exact ⟨x, hx, rfl, habove⟩

/-- **The searches of clustering and training** over doubles, not-a-number and infinities among
them. The nearest center and the nearest component with weight are the first at the least distance
below infinity, and a component without weight is not chosen while one with weight is below
infinity; what a reset is to is a sample: the first with the least density below infinity under the
other components with weight that can be factored, or else the first at the greatest distance from
their mean. -/
theorem searches_chosen (p : Problem Float F) (components : List (Component Float)) (skip : Nat)
    (centers : List (Point Float)) (x : Point Float) (hpoints : p.points ≠ []) :
    Chosen (· < ·) (x.IsDistance centers) Float.inf
        ((Point.nearest x centers).getD (0, Float.inf)) ∧
      (∃ d, Chosen (· < ·) (IsLiveDistance x components) Float.inf
        (nearestLive components x, d)) ∧
      ((∃ i d, IsLiveDistance x components i d) →
        ∃ c, components[nearestLive components x]? = some c ∧ ¬c.weight ≤ 0) ∧
      p.outlier components skip < p.size ∧
      (∀ c f, (c, f) ∈ p.others components skip ↔ ∃ i ≠ skip, components[i]? = some c ∧
        0 < c.weight ∧ (p.prepare c.covariance).1 = some f) ∧
      (p.others components skip ≠ [] →
        ∃ f, Chosen (· < ·) (p.IsExplained (p.others components skip)) Float.inf
          (p.outlier components skip, f)) ∧
      (p.others components skip = [] →
        ∃ d, Chosen (· > ·) p.IsCenterDistance (-Float.inf) (p.outlier components skip, d)) := by
  obtain ⟨d, hlive⟩ := nearestLive_chosen components x
  refine ⟨x.nearest_chosen centers, ⟨d, hlive⟩, ?_, outlier_lt hpoints components skip,
    fun c f => mem_others_iff, outlier_chosen, outlier_chosen_of_alone⟩
  rintro ⟨i, d', hcandidate⟩
  rcases hlive with hfirst | ⟨hnone, -⟩
  · obtain ⟨c, hc, hweight, -⟩ := hfirst.isCandidate
    exact ⟨c, hc, hweight⟩
  · exact absurd hcandidate (hnone i d')

end Problem

/-- Samples on a line, with a tie for the farthest from their mean, and a kernel that factors
nothing. -/
def tiedProblem : Problem Float Unit where
  settings := .ofCount 2
  points := [[0], [4], [-4], [0]]
  dim := 1
  kernel := ⟨fun _ _ => none, fun _ _ _ => 0⟩

/-- A component without weight at one and one with weight at three. -/
def halfLive : List (Component Float) := [⟨0, [1], [1]⟩, ⟨1, [3], [1]⟩]

/-- From one, a center that is not a number is passed over, and of the two at the same distance the
first is taken; the near component without weight is passed over; and the first of the two farthest
samples is taken. -/
theorem searches_chosen_tied :
    Chosen (· < ·) (Point.IsDistance [1] [[Float.nan], [3], [-1], [Float.inf]]) Float.inf (1, 4) ∧
      (∃ d, Chosen (· < ·) (IsLiveDistance [1] halfLive) Float.inf (1, d)) ∧
      ∃ d, Chosen (· > ·) tiedProblem.IsCenterDistance (-Float.inf) (1, d) := by
  have hnearest : (Point.nearest [1] [[Float.nan], [3], [-1], [Float.inf]]).getD (0, Float.inf) =
      ((1, 4) : Nat × Float) := by decide +kernel
  have hlive : nearestLive halfLive [(1 : Float)] = 1 := by decide +kernel
  have houtlier : tiedProblem.outlier halfLive 1 = 1 := by decide +kernel
  obtain ⟨hcenter, hcomponent, -, -, -, -, hfarthest⟩ :=
    Problem.searches_chosen tiedProblem halfLive
    1 [[Float.nan], [3], [-1], [Float.inf]] [1] (List.cons_ne_nil _ _)
  rw [hnearest] at hcenter
  rw [hlive] at hcomponent
  rw [houtlier] at hfarthest
  exact ⟨hcenter, hcomponent, hfarthest rfl⟩

end Em

end Mixtures
