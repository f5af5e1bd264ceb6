import Mathlib
import Mixtures.Density.Kernel
import Mixtures.Em.Maximization
import Mixtures.Proofs.Scalar.Exact

/-!
# Translated points

In exact arithmetic, adding the same vector to points changes none of their differences. So squared
distances and nearest points stay, and normal densities do once the mean is translated with the
point. A weighted sum of translated points moves by the sum of the weights times the vector, so a
weighted mean moves with its points.

* `squaredDistance_translate`, `nearestIndex_translate`: what depends on differences stays.
* `foldl_shift`: the weighted sum of translated points.
-/

namespace Mixtures

namespace Point

/-- A point with a vector added to it. -/
def translate (t x : Point ℝ) : Point ℝ := x.zipWith (· + ·) t

/-- A sum of weighted points with a multiple of a vector added to it. -/
def shift (c : ℝ) (t x : Point ℝ) : Point ℝ := x.zipWith (fun s v => s + c * v) t

variable {t x y : Point ℝ}

theorem length_translate (h : x.length ≤ t.length) : (translate t x).length = x.length := by
  rw [translate, List.length_zipWith, Nat.min_eq_left h]

@[simp] theorem translate_nil (t : Point ℝ) : translate t [] = [] := List.zipWith_nil_left

theorem shift_zero (h : x.length ≤ t.length) : shift 0 t x = x := by
  refine List.ext_getElem (by simp [shift, h]) fun i hi hi' => ?_
  simp [shift]

/-! ## Differences -/

/-- What depends on differences of coordinates alone stays. -/
theorem zipWith_translate {β : Type} {f : ℝ → ℝ → β} (hf : ∀ a b v, f (a + v) (b + v) = f a b)
    (hx : x.length ≤ t.length) :
    (translate t x).zipWith f (translate t y) = x.zipWith f y := by
  unfold translate
  induction x generalizing y t with
  | nil => rfl
  | cons a x ih =>
    cases t with
    | nil => exact absurd hx (Nat.not_succ_le_zero _)
    | cons v t =>
      cases y with
      | nil => rfl
      | cons b y =>
        rw [List.zipWith_cons_cons, List.zipWith_cons_cons, List.zipWith_cons_cons,
          List.zipWith_cons_cons, hf, ih (Nat.le_of_succ_le_succ hx)]

theorem squaredDistance_translate (hx : x.length ≤ t.length) :
    squaredDistance (translate t x) (translate t y) = squaredDistance x y := by
  rw [squaredDistance, squaredDistance, zipWith_translate (fun a b v => ?_) hx]
  rw [add_sub_add_right_eq_sub]

theorem nearestIndex_translate (centers : List (Point ℝ)) (hx : x.length ≤ t.length) :
    nearestIndex (translate t x) (centers.map (translate t)) = nearestIndex x centers := by
  unfold nearestIndex nearest
  rw [List.map_map]
  congr 4
  exact funext fun y => squaredDistance_translate hx

/-- The point at a position, or the empty point, is translated with the list. -/
theorem getD_translate (points : List (Point ℝ)) (i : Nat) :
    (points.map (translate t)).getD i [] = translate t (points.getD i []) := by
  rw [List.getD_eq_getElem?_getD, List.getD_eq_getElem?_getD, List.getElem?_map]
  cases points[i]? with
  | none => exact (translate_nil t).symm
  | some x => rfl

/-! ## Sums -/

/-- One more weighted point. -/
theorem zipWith_shift (c r : ℝ) (t m x : Point ℝ) :
    (shift c t m).zipWith (fun s v => s + r * v) (translate t x) =
      shift (c + r) t (m.zipWith (fun s v => s + r * v) x) := by
  unfold shift translate
  induction m generalizing t x with
  | nil => rfl
  | cons a m ih =>
    cases t with
    | nil => simp
    | cons v t =>
      cases x with
      | nil => simp
      | cons b x =>
        simp only [List.zipWith_cons_cons, ih]
        congr 1
        ring

/-- **A weighted sum of translated points** moves by the sum of the weights times the vector. -/
theorem foldl_shift (t : Point ℝ) (entries : List (ℝ × Point ℝ)) (c : ℝ) (m : Point ℝ) :
    (entries.map fun entry => (entry.1, translate t entry.2)).foldl
        (fun m entry => m.zipWith (fun s v => s + entry.1 * v) entry.2) (shift c t m) =
      shift (c + (entries.map (·.1)).sum) t
        (entries.foldl (fun m entry => m.zipWith (fun s v => s + entry.1 * v) entry.2) m) := by
  induction entries generalizing c m with
  | nil => rw [List.map_nil, List.map_nil, List.sum_nil, add_zero, List.foldl_nil, List.foldl_nil]
  | cons entry entries ih =>
    rw [List.map_cons, List.map_cons, List.sum_cons, List.foldl_cons, List.foldl_cons,
      zipWith_shift, ih, add_assoc]

/-- Dividing by the sum of the weights gives the translated mean. -/
theorem map_div_shift {mass : ℝ} (h : mass ≠ 0) (t m : Point ℝ) :
    (shift mass t m).map (· / mass) = translate t (m.map (· / mass)) := by
  unfold shift translate
  rw [List.map_zipWith, List.zipWith_map_left]
  congr 1
  funext s v
  rw [add_div, mul_div_cancel_left₀ v h]

end Point

/-- The weighted mean of translated points is translated. -/
theorem Em.Problem.weightedMean_translate {t : Point ℝ} {dim : Nat} (hdim : dim ≤ t.length)
    {mass : ℝ} (hmass : mass ≠ 0) {entries : List (ℝ × Point ℝ)}
    (hsum : (entries.map (·.1)).sum = mass) :
    weightedMean dim mass (entries.map fun entry => (entry.1, Point.translate t entry.2)) =
      Point.translate t (weightedMean dim mass entries) := by
  unfold weightedMean
  have hzero : Point.shift 0 t (List.replicate dim 0) = List.replicate dim 0 :=
    Point.shift_zero (by rwa [List.length_replicate])
  have hfold := Point.foldl_shift t entries 0 (List.replicate dim 0)
  rw [hzero, hsum, zero_add] at hfold
  rw [hfold, Point.map_div_shift hmass]

/-- The density of a kernel depends on the difference of the point and the mean alone. -/
def DensityKernel.IgnoresOrigin {F : Type} (kernel : DensityKernel ℝ F) : Prop :=
  ∀ (f : F) (t mean x : Point ℝ), mean.length = t.length → x.length = t.length →
    kernel.logDensity f (Point.translate t mean) (Point.translate t x) = kernel.logDensity f mean x

theorem DensityKernel.gaussian_ignoresOrigin :
    (DensityKernel.gaussian : DensityKernel ℝ (Cholesky ℝ)).IgnoresOrigin := by
  intro f t mean x hmean hx
  show Cholesky.logDensity f _ _ = Cholesky.logDensity f mean x
  unfold Cholesky.logDensity
  rw [Point.length_translate hmean.le, Point.zipWith_translate (fun a b v => ?_) hx.le]
  exact add_sub_add_right_eq_sub a b v

end Mixtures
