import Mathlib
import Mixtures.Proofs.Em.Shape
import Mixtures.Proofs.KMeans.Seeding
import Mixtures.Proofs.Linear.Triangle
import Mixtures.Proofs.Scalar.Exact

/-!
# Exact distances and means

In exact arithmetic the squared distance of two points is the sum over the coordinates, and a
weighted mean has the weighted means of the coordinates. So a centroid is moved to the mean of its
points in each coordinate, which is the number with the least squared differences from them.

* `squaredDistance_eq`, `squaredDistance_eq_zero_iff`: squared distances.
* `getD_weightedMean`: the coordinates of a weighted mean.
* `sum_squaredDistance_moveTo_le`: no point is nearer to the points than where their centroid goes.
-/

namespace Mixtures

open Finset (range)

namespace Exact

/-- Sums over a list and over positions may be exchanged. -/
theorem sum_map_sum {ι κ : Type} (xs : List ι) (s : Finset κ) (f : ι → κ → ℝ) :
    (xs.map fun x => ∑ i ∈ s, f x i).sum = ∑ i ∈ s, (xs.map fun x => f x i).sum :=
  Multiset.sum_map_sum (m := (xs : Multiset ι))

/-- The squares of the distances from a number. -/
theorem sum_map_sub_sq (vs : List ℝ) (y : ℝ) :
    (vs.map fun v => (v - y) ^ 2).sum =
      (vs.map fun v => v ^ 2).sum - 2 * y * vs.sum + vs.length * y ^ 2 := by
  induction vs with
  | nil => simp
  | cons v vs ih =>
    simp only [List.map_cons, List.sum_cons, List.length_cons, Nat.cast_succ, ih]
    ring

/-- No number is nearer than the mean. -/
theorem sum_map_sub_sq_le {vs : List ℝ} {mean : ℝ} (hmean : vs.length * mean = vs.sum) (y : ℝ) :
    (vs.map fun v => (v - mean) ^ 2).sum ≤ (vs.map fun v => (v - y) ^ 2).sum := by
  rw [sum_map_sub_sq, sum_map_sub_sq, ← hmean]
  have hsquare : 0 ≤ vs.length * (mean - y) ^ 2 := by positivity
  linarith only [hsquare, show (vs.length : ℝ) * (mean - y) ^ 2 =
    vs.length * mean ^ 2 - 2 * y * (vs.length * mean) + vs.length * y ^ 2 by ring]

end Exact

namespace Point

variable {x y : Point ℝ} {dim : Nat}

theorem squaredDistance_eq (hx : x.length = dim) (hy : y.length = dim) :
    squaredDistance x y = ∑ i ∈ range dim, (x.getD i 0 - y.getD i 0) ^ 2 := by
  rw [squaredDistance, Exact.sum_eq,
    Exact.sum_eq_sum_range (by rw [List.length_zipWith, hx, hy, Nat.min_self])]
  refine Finset.sum_congr rfl fun i hi => ?_
  rw [Finset.mem_range] at hi
  rw [Cholesky.getD_zipWith 0 (hi.trans_eq hx.symm) (hi.trans_eq hy.symm), pow_two]

theorem squaredDistance_nonneg (x y : Point ℝ) : 0 ≤ squaredDistance x y := by
  rw [squaredDistance, Exact.sum_eq]
  refine List.sum_nonneg fun v hv => ?_
  obtain ⟨i, hi⟩ := List.mem_iff_getElem?.mp hv
  obtain ⟨a, b, -, -, rfl⟩ := List.getElem?_zipWith_eq_some.mp hi
  exact mul_self_nonneg _

/-- Only equal points are at no distance. -/
theorem squaredDistance_eq_zero_iff (h : x.length = y.length) :
    squaredDistance x y = 0 ↔ x = y := by
  rw [squaredDistance_eq rfl h.symm, Finset.sum_eq_zero_iff_of_nonneg fun i _ => sq_nonneg _]
  constructor
  · intro hzero
    refine List.ext_getElem h fun i hi hi' => ?_
    have hcoordinate := hzero i (Finset.mem_range.mpr hi)
    rwa [sq_eq_zero_iff, sub_eq_zero, List.getD_eq_getElem x 0 hi,
      List.getD_eq_getElem y 0 hi'] at hcoordinate
  · rintro rfl i _
    rw [sub_self, zero_pow two_ne_zero]

@[simp] theorem squaredDistance_self (x : Point ℝ) : squaredDistance x x = 0 :=
  (squaredDistance_eq_zero_iff rfl).mpr rfl

end Point

namespace Em.Problem

/-- Leaving out samples without responsibility does not change a weighted sum. -/
theorem sum_map_weighted {F : Type} {p : Problem ℝ F} (column : List ℝ) (g : Point ℝ → ℝ) :
    ((p.weighted column).map fun e => e.1 * g e.2).sum =
      ((column.zip p.points).map fun e => e.1 * g e.2).sum := by
  unfold weighted
  simp only [Exact.beq_zero_eq]
  induction column.zip p.points with
  | nil => rfl
  | cons e entries ih =>
    rw [List.filter_cons, List.map_cons, List.sum_cons, ← ih]
    by_cases hzero : e.1 = 0
    · simp [hzero]
    · simp [hzero]

/-- Leaving them out does not change the sum of the responsibilities either. -/
theorem sum_weighted {F : Type} {p : Problem ℝ F} {column : List ℝ}
    (hlength : column.length = p.size) :
    ((p.weighted column).map (·.1)).sum = column.sum := by
  have hfst : (column.zip p.points).map (·.1) = column := List.map_fst_zip (by rw [hlength, size])
  have hones := sum_map_weighted (p := p) column fun _ => 1
  simp only [mul_one] at hones
  rw [hones, hfst]

/-- The coordinates of a weighted sum of points. -/
theorem getD_foldl_weighted {dim : Nat} {entries : List (ℝ × Point ℝ)} {m : Point ℝ}
    (hm : m.length = dim) (h : ∀ entry ∈ entries, entry.2.length = dim) {i : Nat} (hi : i < dim) :
    (entries.foldl (fun m entry => m.zipWith (fun s v => s + entry.1 * v) entry.2) m).getD i 0 =
      m.getD i 0 + (entries.map fun entry => entry.1 * entry.2.getD i 0).sum := by
  induction entries generalizing m with
  | nil => simp
  | cons entry entries ih =>
    obtain ⟨hentry, hrest⟩ := List.forall_mem_cons.mp h
    rw [List.foldl_cons, ih (by rw [List.length_zipWith, hm, hentry, Nat.min_self]) hrest,
      Cholesky.getD_zipWith 0 (hi.trans_eq hm.symm) (hi.trans_eq hentry.symm), List.map_cons,
      List.sum_cons, add_assoc]

/-- The coordinates of a weighted mean. -/
theorem getD_weightedMean {dim : Nat} {mass : ℝ} {entries : List (ℝ × Point ℝ)}
    (h : ∀ entry ∈ entries, entry.2.length = dim) {i : Nat} (hi : i < dim) :
    (weightedMean dim mass entries).getD i 0 =
      (entries.map fun entry => entry.1 * entry.2.getD i 0).sum / mass := by
  rw [weightedMean, Exact.getD_map_div, getD_foldl_weighted List.length_replicate h hi,
    List.getD_replicate 0 hi, zero_add]

end Em.Problem

namespace KMeans

variable {points : List (Point ℝ)} {dim : Nat}

theorem mem_of_mem_members {points : List (Point ℝ)} {labels : List Nat} {label : Nat} {x : Point ℝ}
    (h : x ∈ members points labels label) : x ∈ points := by
  obtain ⟨entry, hentry, rfl⟩ := List.mem_map.mp h
  exact (List.of_mem_zip (List.mem_filter.mp hentry).1).1

/-- Adding points of the same length is a sum with weights one. -/
theorem foldl_add (points : List (Point ℝ)) (m : Point ℝ) (h : ∀ x ∈ points, x.length = m.length) :
    points.foldl Point.add m =
      (points.map fun x => ((1 : ℝ), x)).foldl
        (fun m entry => m.zipWith (fun s v => s + entry.1 * v) entry.2) m := by
  induction points generalizing m with
  | nil => rfl
  | cons x points ih =>
    obtain ⟨hx, hrest⟩ := List.forall_mem_cons.mp h
    have hadd : Point.add m x = m.zipWith (fun s v => s + 1 * v) x := by
      simp only [one_mul]
      exact Point.overlay_of_length_eq (by rw [List.length_zipWith, hx, Nat.min_self])
    rw [List.foldl_cons, List.map_cons, List.foldl_cons, hadd, ih]
    intro y hy
    rw [List.length_zipWith, hx, Nat.min_self, hrest y hy]

/-- A centroid with points is moved to their weighted mean, with weights one. -/
theorem moveTo_eq_weightedMean {dim : Nat} {points : List (Point ℝ)} (hpoints : points ≠ [])
    (hlength : ∀ x ∈ points, x.length = dim) {centroid : Point ℝ}
    (hcentroid : centroid.length = dim) :
    moveTo dim points centroid =
      Em.Problem.weightedMean dim (points.length : ℝ) (points.map fun x => ((1 : ℝ), x)) := by
  have hmean : (Em.Problem.weightedMean dim (points.length : ℝ)
      (points.map fun x => ((1 : ℝ), x))).length = dim := by
    refine Em.Problem.length_weightedMean fun entry hentry => ?_
    obtain ⟨x, hx, rfl⟩ := List.mem_map.mp hentry
    exact hlength x hx
  unfold moveTo
  rw [if_neg (by simpa using hpoints)]
  dsimp only
  rw [foldl_add points _ fun x hx => by rw [List.length_replicate, hlength x hx]]
  simp only [Exact.ofNat_eq, mul_one_div]
  exact Point.overlay_of_length_eq (hmean.trans hcentroid.symm)

/-- The coordinates of a moved centroid, times the number of its points, are the sums of theirs. -/
theorem length_mul_getD_moveTo (hlength : ∀ x ∈ points, x.length = dim) {centroid : Point ℝ}
    (hcentroid : centroid.length = dim) (hpoints : points ≠ []) {i : Nat} (hi : i < dim) :
    points.length * (moveTo dim points centroid).getD i 0 = (points.map (·.getD i 0)).sum := by
  have hne : (points.length : ℝ) ≠ 0 := by simpa using hpoints
  rw [moveTo_eq_weightedMean hpoints hlength hcentroid, Em.Problem.getD_weightedMean _ hi,
    mul_div_cancel₀ _ hne, List.map_map]
  · simp only [Function.comp_def, one_mul]
  · intro entry hentry
    obtain ⟨x, hx, rfl⟩ := List.mem_map.mp hentry
    exact hlength x hx

/-- The sum of the squared distances by coordinates. -/
theorem sum_squaredDistance_eq (hlength : ∀ x ∈ points, x.length = dim) {y : Point ℝ}
    (hy : y.length = dim) :
    (points.map (Point.squaredDistance · y)).sum =
      ∑ i ∈ range dim, ((points.map (·.getD i 0)).map fun v => (v - y.getD i 0) ^ 2).sum := by
  simp only [List.map_map]
  rw [← Exact.sum_map_sum]
  exact congrArg List.sum (List.map_congr_left fun x hx =>
    Point.squaredDistance_eq (hlength x hx) hy)

/-- **Least squares**: from the place to which a centroid is moved, the squared distances add up to
no more than from any other. -/
theorem sum_squaredDistance_moveTo_le (hlength : ∀ x ∈ points, x.length = dim)
    {centroid y : Point ℝ}
    (hcentroid : centroid.length = dim) (hy : y.length = dim) :
    (points.map (Point.squaredDistance · (moveTo dim points centroid))).sum ≤
      (points.map (Point.squaredDistance · y)).sum := by
  by_cases hpoints : points = []
  · rw [hpoints]
    rfl
  · rw [sum_squaredDistance_eq hlength hy,
      sum_squaredDistance_eq hlength ((length_moveTo dim points centroid).trans hcentroid)]
    refine Finset.sum_le_sum fun i hi => Exact.sum_map_sub_sq_le ?_ _
    rw [List.length_map]
    exact length_mul_getD_moveTo hlength hcentroid hpoints (Finset.mem_range.mp hi)

end KMeans

end Mixtures
