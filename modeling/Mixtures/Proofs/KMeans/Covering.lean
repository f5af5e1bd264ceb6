import Mathlib
import Mixtures.Proofs.KMeans.Settling
import Mixtures.Proofs.Means
import Mixtures.Proofs.Random.Choice
import Mixtures.Proofs.Selection

/-!
# Seeds cover the points

In exact arithmetic the weight with which a point is drawn as a seed is its squared distance to the
nearest seed, so a point has no weight exactly if it is a seed itself. A draw of a point with weight
is therefore a new seed, and seeds are different until every point is one. What is drawn from then
on does not matter. If all points are seeds, each is labelled by the first seed that is equal to it,
and there refinement has nothing to move.

`Draws` has the positions that may be drawn, of which only this is assumed: while some point has
weight, the position is that of one that has.

* `Draws.isLeast`: the weights are the squared distances to the nearest seed.
* `Draws.next_notMem`, `Draws.card_eq`: a new seed is new, as long as there is a new one.
* `Course.draws`: the program draws in this way, whatever words its source yields.
* `seeds_cover`: what this means for the clusters of a group.
-/

namespace Mixtures

variable {ρ : Type} [RandomSource ρ]

namespace WeightedChoice

/-- A fraction of an exact total is not negative and below the total. -/
theorem drawn_exact {total : ℝ} (hpos : 0 < total) (source : ρ) :
    0 ≤ drawn total source ∧ drawn total source < total := by
  unfold drawn fraction
  generalize (RandomSource.next64 source).1 = word
  simp only [Exact.ofNat_eq]
  have hword : (word >>> 12).toNat < Nat.pow 2 52 := by
    rw [UInt64.toNat_shiftRight, Nat.shiftRight_eq_div_pow]
    exact Nat.div_lt_of_lt_mul word.toNat_lt
  have hbits : (0 : ℝ) < (Nat.pow 2 52 : Nat) := Nat.cast_pos.mpr (by decide)
  have hfraction : ((word >>> 12).toNat : ℝ) / (Nat.pow 2 52 : Nat) < 1 := by
    rw [div_lt_one hbits]
    exact Nat.cast_lt.mpr hword
  exact ⟨mul_nonneg (div_nonneg (Nat.cast_nonneg _) hbits.le) hpos.le,
    mul_lt_of_lt_one_left hpos hfraction⟩

end WeightedChoice

namespace KMeans

variable {points : List (Point ℝ)} {dim : Nat} {chosen : List Nat} {distances : List ℝ}

/-! ## Draws -/

/-- What is assumed of the draw of a seed: it is the position of a point, and of one with a positive
weight as long as there is one. -/
structure IsDraw (points : List (Point ℝ)) (distances : List ℝ) (i : Nat) : Prop where
  lt_length : i < points.length
  positive : (∃ d ∈ distances, 0 < d) → 0 < distances.getD i 0

/-- The positions that have been drawn, with the weights for the next draw. -/
inductive Draws (points : List (Point ℝ)) : List Nat → List ℝ → Prop
  /-- The first position is that of any point. -/
  | first {i : Nat} (hi : i < points.length) :
      Draws points [i] (points.map fun p => Point.squaredDistance p (points.getD i []))
  /-- One more position is drawn. -/
  | further {chosen : List Nat} {distances : List ℝ} {i : Nat} (h : Draws points chosen distances)
      (hdraw : IsDraw points distances i) :
      Draws points (chosen ++ [i]) (lowerDistances points (points.getD i []) distances)

/-- The seeds at the positions that have been drawn. -/
def seedsAt {α : Type} (points : List (Point α)) (chosen : List Nat) : List (Point α) :=
  chosen.map (points.getD · [])

theorem seedsAt_concat {α : Type} (points : List (Point α)) (chosen : List Nat) (i : Nat) :
    seedsAt points (chosen ++ [i]) = seedsAt points chosen ++ [points.getD i []] := by
  rw [seedsAt, List.map_append]
  rfl

theorem getD_lowerDistances (hlength : distances.length = points.length) (seed : Point ℝ) {n : Nat}
    (hn : n < points.length) :
    (lowerDistances points seed distances).getD n 0 =
      min (distances.getD n 0) (Point.squaredDistance (points.getD n []) seed) := by
  have hlt : n < (lowerDistances points seed distances).length :=
    hn.trans_eq (length_lowerDistances hlength seed).symm
  rw [List.getD_eq_getElem _ 0 hlt, List.getD_eq_getElem _ 0 (hlength ▸ hn),
    List.getD_eq_getElem _ [] hn]
  simp only [lowerDistances, List.getElem_zipWith]
  split
  next hlower => exact (min_eq_right hlower.le).symm
  next hnot => exact (min_eq_left (not_lt.mp hnot)).symm

namespace Draws

theorem length_distances (h : Draws points chosen distances) :
    distances.length = points.length := by
  induction h with
  | first => exact List.length_map _
  | further _ _ ih => exact length_lowerDistances ih _

theorem lt_length (h : Draws points chosen distances) : ∀ i ∈ chosen, i < points.length := by
  induction h with
  | first hi =>
    intro j hj
    rwa [List.mem_singleton.mp hj]
  | further _ hdraw ih =>
    intro j hj
    rcases List.mem_append.mp hj with hj | hj
    · exact ih j hj
    · rw [List.mem_singleton.mp hj]
      exact hdraw.lt_length

/-- Every seed is a point. -/
theorem mem_points (h : Draws points chosen distances) :
    ∀ seed ∈ seedsAt points chosen, seed ∈ points := by
  intro seed hseed
  obtain ⟨i, hi, rfl⟩ := List.mem_map.mp hseed
  exact getD_mem (h.lt_length i hi) []

/-- The weight of a point is its squared distance to the nearest seed. -/
theorem isLeast (h : Draws points chosen distances) {n : Nat} (hn : n < points.length) :
    IsLeast (Point.squaredDistance (points.getD n []) '' {seed | seed ∈ seedsAt points chosen})
      (distances.getD n 0) := by
  induction h with
  | @first i _ =>
    have hweight : (points.map fun p => Point.squaredDistance p (points.getD i [])).getD n 0 =
        Point.squaredDistance (points.getD n []) (points.getD i []) := by
      rw [List.getD_eq_getElem _ 0 (by rwa [List.length_map]), List.getElem_map,
        List.getD_eq_getElem points [] hn]
    have hsingle : {seed | seed ∈ seedsAt points [i]} = {points.getD i []} := by
      ext seed
      exact List.mem_singleton
    rw [hweight, hsingle, Set.image_singleton]
    exact isLeast_singleton
  | @further chosen distances i h _ ih =>
    have hunion : {seed | seed ∈ seedsAt points (chosen ++ [i])} =
        {seed | seed ∈ seedsAt points chosen} ∪ {points.getD i []} := by
      ext seed
      simp [seedsAt_concat, or_comm]
    rw [getD_lowerDistances h.length_distances _ hn, hunion, Set.image_union, Set.image_singleton]
    exact ih.union isLeast_singleton

theorem weight_nonneg (h : Draws points chosen distances) : ∀ d ∈ distances, 0 ≤ d := by
  intro d hd
  obtain ⟨n, hn, rfl⟩ := List.mem_iff_getElem.mp hd
  have hleast := h.isLeast (h.length_distances ▸ hn)
  obtain ⟨seed, -, hdistance⟩ := hleast.1
  rw [← List.getD_eq_getElem distances 0 hn, ← hdistance]
  exact Point.squaredDistance_nonneg _ _

section Distinct

variable (hdim : ∀ x ∈ points, x.length = dim)

include hdim

/-- A point has no weight exactly if it is a seed. -/
theorem weight_eq_zero_iff (h : Draws points chosen distances) {n : Nat} (hn : n < points.length) :
    distances.getD n 0 = 0 ↔ points.getD n [] ∈ seedsAt points chosen := by
  have hleast := h.isLeast hn
  constructor
  · intro hzero
    obtain ⟨seed, hseed, hdistance⟩ := hleast.1
    have hlength : (points.getD n []).length = seed.length :=
      (hdim _ (getD_mem hn [])).trans (hdim _ (h.mem_points seed hseed)).symm
    rw [hzero, Point.squaredDistance_eq_zero_iff hlength] at hdistance
    rwa [hdistance]
  · intro hmem
    have hself := hleast.2 ⟨_, hmem, Point.squaredDistance_self _⟩
    obtain ⟨seed, -, hdistance⟩ := hleast.1
    exact le_antisymm hself (hdistance ▸ Point.squaredDistance_nonneg _ _)

/-- **A new seed is new**, as long as some point is not a seed. -/
theorem next_notMem (h : Draws points chosen distances) {i : Nat}
    (hdraw : IsDraw points distances i)
    (hsome : ∃ x ∈ points, x ∉ seedsAt points chosen) :
    points.getD i [] ∉ seedsAt points chosen := by
  obtain ⟨x, hx, hnot⟩ := hsome
  obtain ⟨n, hn, rfl⟩ := List.mem_iff_getElem.mp hx
  have hweight : distances.getD n 0 ≠ 0 := by
    rw [Ne, h.weight_eq_zero_iff hdim hn, List.getD_eq_getElem points [] hn]
    exact hnot
  have hlt : n < distances.length := h.length_distances ▸ hn
  have hmem : distances.getD n 0 ∈ distances := getD_mem hlt 0
  have hpositive := hdraw.positive ⟨_, hmem, (h.weight_nonneg _ hmem).lt_of_ne' hweight⟩
  rw [← h.weight_eq_zero_iff hdim hdraw.lt_length]
  exact hpositive.ne'

/-- The seeds are as many different points as there are, up to their number. -/
theorem card_eq (h : Draws points chosen distances) :
    (seedsAt points chosen).toFinset.card = min chosen.length points.toFinset.card := by
  induction h with
  | @first i hi =>
    have hpos : 0 < points.toFinset.card :=
      Finset.card_pos.mpr ⟨_, List.mem_toFinset.mpr (getD_mem hi [])⟩
    rw [List.length_singleton, Nat.min_eq_left hpos]
    rfl
  | @further chosen distances i h hdraw ih =>
    have hsubset : (seedsAt points chosen).toFinset ⊆ points.toFinset := fun x hx =>
      List.mem_toFinset.mpr (h.mem_points x (List.mem_toFinset.mp hx))
    have hinsert : (seedsAt points (chosen ++ [i])).toFinset =
        insert (points.getD i []) (seedsAt points chosen).toFinset := by
      ext x
      simp [seedsAt_concat, or_comm]
    rw [hinsert, List.length_append, List.length_singleton]
    by_cases hall : (seedsAt points chosen).toFinset = points.toFinset
    · -- nothing is left to be covered
      have hmem : points.getD i [] ∈ (seedsAt points chosen).toFinset := by
        rw [hall, List.mem_toFinset]
        exact getD_mem hdraw.lt_length []
      rw [Finset.insert_eq_of_mem hmem, hall]
      rw [hall] at ih
      omega
    · obtain ⟨x, hx, hnot⟩ := Finset.exists_of_ssubset (hsubset.ssubset_of_ne hall)
      have hnew := h.next_notMem hdim hdraw
        ⟨x, List.mem_toFinset.mp hx, fun hmem => hnot (List.mem_toFinset.mpr hmem)⟩
      have hlt := Finset.card_lt_card (hsubset.ssubset_of_ne hall)
      rw [Finset.card_insert_of_notMem fun hmem => hnew (List.mem_toFinset.mp hmem)]
      omega

end Distinct

end Draws

/-! ## Refinement of seeds that are all points -/

/-- Every point coincides with the centroid of its label, and different points have different
labels. -/
structure Clustering.Separates (points : List (Point ℝ)) (c : Clustering ℝ) : Prop where
  labelCount : c.labels.length = points.length
  label_eq_iff : ∀ i < points.length, ∀ j < points.length,
    (c.labels.getD i 0 = c.labels.getD j 0 ↔ points.getD i [] = points.getD j [])
  centroid_eq : ∀ i < points.length, c.centroids.getD (c.labels.getD i 0) [] = points.getD i []

/-- A centroid stays where it is if all its points are there. -/
theorem moveTo_of_forall_eq {centroid : Point ℝ} (hcentroid : centroid.length = dim)
    (h : ∀ x ∈ points, x = centroid) : moveTo dim points centroid = centroid := by
  by_cases hpoints : points = []
  · rw [hpoints]
    rfl
  · obtain ⟨x, hx⟩ := List.exists_mem_of_ne_nil points hpoints
    have hlength : ∀ x ∈ points, x.length = dim := fun x hx => (h x hx).symm ▸ hcentroid
    have hmoved : (moveTo dim points centroid).length = dim :=
      (length_moveTo dim points centroid).trans hcentroid
    -- the squared distances from the centroid add up to zero, so from where it goes they do too
    have hzero : (points.map (Point.squaredDistance · centroid)).sum = 0 := by
      refine List.sum_eq_zero fun d hd => ?_
      obtain ⟨y, hy, rfl⟩ := List.mem_map.mp hd
      rw [h y hy, Point.squaredDistance_self]
    have hleast := sum_squaredDistance_moveTo_le hlength hcentroid hcentroid
    have hnonneg : ∀ d ∈ points.map (Point.squaredDistance · (moveTo dim points centroid)),
        0 ≤ d := by
      intro d hd
      obtain ⟨y, -, rfl⟩ := List.mem_map.mp hd
      exact Point.squaredDistance_nonneg _ _
    have hsingle := List.single_le_sum hnonneg _ (List.mem_map_of_mem hx)
    have hdistance : Point.squaredDistance x (moveTo dim points centroid) = 0 :=
      le_antisymm (hsingle.trans (hleast.trans hzero.le)) (Point.squaredDistance_nonneg _ _)
    rw [Point.squaredDistance_eq_zero_iff ((hlength x hx).trans hmoved.symm)] at hdistance
    rw [← hdistance, h x hx]

/-- A point that is a centroid is nearest to itself. -/
theorem getD_nearestIndex_of_mem {centroids : List (Point ℝ)}
    (hdim : ∀ centroid ∈ centroids, centroid.length = dim) {x : Point ℝ} (hx : x ∈ centroids) :
    centroids.getD (Point.nearestIndex x centroids) [] = x := by
  have hne : centroids ≠ [] := List.ne_nil_of_mem hx
  have hmem : centroids.getD (Point.nearestIndex x centroids) [] ∈ centroids :=
    getD_mem (Point.nearestIndex_lt x hne) []
  have hle := (Point.nearestIndex_least x hne).1 x hx
  rw [Point.squaredDistance_self] at hle
  have hzero := le_antisymm hle (Point.squaredDistance_nonneg _ _)
  rw [Point.squaredDistance_eq_zero_iff ((hdim x hx).trans (hdim _ hmem).symm)] at hzero
  exact hzero.symm

section Covered

variable {centroids : List (Point ℝ)} (hdim : ∀ centroid ∈ centroids, centroid.length = dim)
  (hall : ∀ x ∈ points, x ∈ centroids)

include hdim hall

/-- Centroids that cover the points separate them. -/
theorem separates_assign : Clustering.Separates points ⟨centroids, assign points centroids⟩ := by
  have hcentroid : ∀ i < points.length,
      centroids.getD ((assign points centroids).getD i 0) [] = points.getD i [] := by
    intro i hi
    rw [getD_assign hi]
    exact getD_nearestIndex_of_mem hdim (hall _ (getD_mem hi []))
  refine ⟨List.length_map _, fun i hi j hj => ⟨fun hlabels => ?_, fun hpoints => ?_⟩, hcentroid⟩
  · exact (hcentroid i hi).symm.trans
      ((congrArg (centroids.getD · []) hlabels).trans (hcentroid j hj))
  · exact (getD_assign hi).trans ((congrArg (Point.nearestIndex · centroids) hpoints).trans
      (getD_assign hj).symm)

/-- They are not moved. -/
theorem moveCentroids_assign {k : Nat} (hk : 0 < k)
    (hcount : centroids.length = k) :
    moveCentroids points ⟨centroids, assign points centroids⟩ = centroids := by
  have hsound : Clustering.Sound points dim k ⟨centroids, assign points centroids⟩ :=
    ⟨assign_fits points hk hcount, hdim⟩
  have hlength : (moveCentroids points ⟨centroids, assign points centroids⟩).length =
      centroids.length := List.length_mapIdx
  refine List.ext_getElem hlength fun label hlabel hlabel' => ?_
  rw [← List.getD_eq_getElem _ [] hlabel, ← List.getD_eq_getElem centroids [] hlabel',
    getD_moveCentroids hsound (hcount ▸ hlabel')]
  refine moveTo_of_forall_eq (length_getD_centroids hsound (hcount ▸ hlabel')) fun x hx => ?_
  -- a point with this label is the centroid
  obtain ⟨entry, hentry, rfl⟩ := List.mem_map.mp hx
  obtain ⟨hzip, hlabel⟩ := List.mem_filter.mp hentry
  obtain ⟨i, hi⟩ := List.mem_iff_getElem?.mp hzip
  obtain ⟨hpoint, hassigned⟩ := List.getElem?_zip_eq_some.mp hi
  have hlt : i < points.length := (List.getElem?_eq_some_iff.mp hpoint).1
  have hcentroid := (separates_assign hdim hall).centroid_eq i hlt
  simp only [List.getD_eq_getElem?_getD, hpoint, hassigned, Option.getD_some,
    beq_iff_eq.mp hlabel] at hcentroid
  rw [List.getD_eq_getElem?_getD, hcentroid]

/-- Nor do their labels change, whatever the budget. -/
theorem refine_assign {k : Nat} (hk : 0 < k) (hcount : centroids.length = k) (budget : Nat) :
    (refine points budget ⟨centroids, assign points centroids⟩).1 =
      ⟨centroids, assign points centroids⟩ := by
  refine refine_preserves (· = (⟨centroids, assign points centroids⟩ : Clustering ℝ)) ?_ budget rfl
  rintro c rfl
  rw [step, moveCentroids_assign hdim hall hk hcount]

end Covered

/-- **Seeds that are as many as the points are different** cover them, and refinement changes
nothing. -/
theorem Draws.separates (hdim : ∀ x ∈ points, x.length = dim) (h : Draws points chosen distances)
    (hcard : points.toFinset.card ≤ chosen.length) (budget : Nat) :
    (refine points budget
      ⟨seedsAt points chosen, assign points (seedsAt points chosen)⟩).1.Separates points := by
  have hsubset : (seedsAt points chosen).toFinset ⊆ points.toFinset := fun x hx =>
    List.mem_toFinset.mpr (h.mem_points x (List.mem_toFinset.mp hx))
  have heq : (seedsAt points chosen).toFinset = points.toFinset := by
    refine Finset.eq_of_subset_of_card_le hsubset ?_
    rw [h.card_eq hdim, Nat.min_eq_right hcard]
  have hall : ∀ x ∈ points, x ∈ seedsAt points chosen := fun x hx =>
    List.mem_toFinset.mp (heq ▸ List.mem_toFinset.mpr hx)
  have hseeds : ∀ seed ∈ seedsAt points chosen, seed.length = dim := fun seed hseed =>
    hdim seed (h.mem_points seed hseed)
  have hpos : 0 < (seedsAt points chosen).length := by
    cases h <;> simp [seedsAt]
  rw [refine_assign hseeds hall hpos rfl]
  exact separates_assign hseeds hall

/-! ## The program's own draws -/

theorem isDraw_of_drawSeed {source next : ρ} {i : Nat} (hpos : 0 < points.length)
    (hlength : distances.length = points.length) (hproper : ∀ d ∈ distances, 0 ≤ d)
    (hdraw : drawSeed points.length distances source = .ok (i, next)) :
    IsDraw points distances i := by
  refine ⟨drawSeed_lt hpos hlength hdraw, fun hsome => ?_⟩
  -- weights that are not all zero define a choice
  have hfinite : WeightedChoice.fault? distances ≠ some .infiniteTotal := by
    intro hfault
    have herror : drawSeed points.length distances source = .error .infiniteWeight :=
      drawSeed_eq_error_iff.mpr hfault
    rw [hdraw] at herror
    cases herror
  obtain ⟨choice, hchoice, -⟩ := WeightedChoice.exists_ofWeights_of_fault_eq_none
    ((WeightedChoice.fault?_eq_none_iff hfinite).mpr ⟨hproper, hsome⟩)
  rw [drawSeed, hchoice] at hdraw
  obtain ⟨hnonneg, hlt⟩ := WeightedChoice.drawn_exact (WeightedChoice.total_pos hchoice) source
  obtain ⟨w, hw, hpositive⟩ := WeightedChoice.select_positive hchoice hnonneg hlt
  have hi : (choice.draw source).1 = i := congrArg Prod.fst (Except.ok.inj hdraw)
  rw [← hi, List.getD_eq_getElem?_getD]
  have hget : distances[(choice.draw source).1]? = some w := hw
  rwa [hget]

/-- The program draws seeds as assumed, from any source of random words. -/
theorem Course.draws {source rest : ρ} (hpos : 0 < points.length)
    (h : Course points source chosen distances rest) : Draws points chosen distances := by
  induction h with
  | first => exact .first (uniformBelow_lt hpos source)
  | further _ hdraw ih =>
    exact ih.further (isDraw_of_drawSeed hpos ih.length_distances ih.weight_nonneg hdraw)

/-- What seeds have to do with the points, given the weights for the next draw. They are points, and
the weight of a point is its squared distance to the nearest of them. The next seed is a new one as
long as some point is not a seed, so there are as many different seeds as points, up to the number
of seeds. Where they are all points, refinement leaves them alone, and its labels tell exactly the
different points apart. -/
structure Covers (points : List (Point ℝ)) (chosen : List Nat) (distances : List ℝ) : Prop where
  mem_points : ∀ seed ∈ seedsAt points chosen, seed ∈ points
  isLeast : ∀ n < points.length,
    IsLeast (Point.squaredDistance (points.getD n []) '' {seed | seed ∈ seedsAt points chosen})
      (distances.getD n 0)
  next_notMem : ∀ i, IsDraw points distances i → (∃ x ∈ points, x ∉ seedsAt points chosen) →
    points.getD i [] ∉ seedsAt points chosen
  card_eq : (seedsAt points chosen).toFinset.card = min chosen.length points.toFinset.card
  separates : points.toFinset.card ≤ chosen.length → ∀ budget,
    (refine points budget
      ⟨seedsAt points chosen, assign points (seedsAt points chosen)⟩).1.Separates points

/-- **Seeds cover the points**, in exact arithmetic, whatever is drawn, as long as what is drawn has
weight while something has. The program draws so from any source of random words, and its clusters
of a group are those that the seeds lead to. -/
theorem seeds_cover {points : List (Point ℝ)} {dim : Nat} (hpoints : points ≠ [])
    (hdim : ∀ x ∈ points, x.length = dim) :
    (∀ (chosen : List Nat) (distances : List ℝ), Draws points chosen distances →
        Covers points chosen distances) ∧
      ∀ (ρ : Type) [RandomSource ρ] (source : ρ) (k budget : Nat), 0 < k →
        ∃ chosen distances rest fit, Course points source chosen distances rest ∧
          Draws points chosen distances ∧ chosen.length = min k points.length ∧
          seeds points (min k points.length) source = .ok (seedsAt points chosen) ∧
          (seedsAt points chosen).toFinset.card = min k points.toFinset.card ∧
          fitGroup points k budget source = .ok fit ∧
          (points.toFinset.card ≤ k →
            Clustering.Separates points ⟨fit.centroids, fit.labels⟩) := by
  have hcovers : ∀ (chosen : List Nat) (distances : List ℝ), Draws points chosen distances →
      Covers points chosen distances := fun chosen distances h =>
    { mem_points := h.mem_points
      isLeast := fun n => h.isLeast
      next_notMem := fun i => h.next_notMem hdim
      card_eq := h.card_eq hdim
      separates := h.separates hdim }
  refine ⟨hcovers, fun ρ _ source k budget hk => ?_⟩
  have hpos : 0 < points.length := List.length_pos_of_ne_nil hpoints
  have hdistinct : points.toFinset.card ≤ points.length := List.toFinset_card_le points
  rcases seeds_outcome_course points (show 0 < min k points.length by omega) source with
    ⟨chosen, distances, rest, hcourse, hlength, hseeds⟩ | ⟨_, _, _, -, -, -, herror⟩
  · have hdraws := hcourse.draws hpos
    have hcard := hdraws.card_eq hdim
    refine ⟨chosen, distances, rest, _, hcourse, hdraws, hlength, hseeds, ?_,
      (fitGroup_eq_ok_iff hpoints).mpr ⟨_, hseeds, rfl⟩, fun hle => ?_⟩
    · rw [hcard, hlength]
      omega
    · exact hdraws.separates hdim (by omega) budget
  · exact absurd herror (seeds_ne_error_of_isFinite Exact.isFinite_eq points _ source)

/-- Of three points on a line two are equal: three clusters tell the two places apart, before any
refinement. -/
theorem seeds_cover_twoPlaces :
    ∃ chosen distances fit, Draws [[0], [1], [0]] chosen distances ∧
      Covers [[0], [1], [0]] chosen distances ∧
      fitGroup [[0], [1], [0]] 3 0 ({ words := [3] } : WordList) = .ok fit ∧
      fit.labels.getD 0 0 = fit.labels.getD 2 0 ∧ fit.labels.getD 0 0 ≠ fit.labels.getD 1 0 ∧
      fit.centroids.getD (fit.labels.getD 1 0) [] = ([1] : Point ℝ) := by
  have hdim : ∀ x ∈ ([[0], [1], [0]] : List (Point ℝ)), x.length = 1 := by simp
  obtain ⟨hcovers, hprogram⟩ := seeds_cover (List.cons_ne_nil _ _) hdim
  obtain ⟨chosen, distances, -, fit, -, hdraws, -, -, -, hfit, hseparates⟩ :=
    hprogram WordList { words := [3] } 3 0 (by decide)
  have h := hseparates (List.toFinset_card_le _)
  refine ⟨chosen, distances, fit, hdraws, hcovers _ _ hdraws, hfit,
    (h.label_eq_iff 0 (by simp) 2 (by simp)).mpr rfl, fun heq => ?_, h.centroid_eq 1 (by simp)⟩
  have hpoint := (h.label_eq_iff 0 (by simp) 1 (by simp)).mp heq
  simp at hpoint

end KMeans

end Mixtures
