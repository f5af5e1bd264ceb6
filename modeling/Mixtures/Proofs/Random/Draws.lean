import Mathlib
import Mixtures.Proofs.Scalar.Doubles
import Mixtures.Random.Uniform
import Mixtures.Random.Weighted

/-!
# Where draws land

Whatever words a source yields, a draw of a position is one of the positions there are: a uniform
number is below its bound, and a weighted choice is a position of a weight.

* `uniformBelow_lt`, `WeightedChoice.draw_lt`: every draw is in range.
* `WeightedChoice.ofWeights_outcome`: which weights define a choice, and what is wrong with the
  others.
-/

namespace Mixtures

variable {α ρ : Type} [Scalar α] [RandomSource ρ]

/-- The product of a word with a bound, with the carry from a second word, is less than the bound
times the number of words. -/
private theorem carried_lt {n first second : Nat} (hn : 0 < n) (hfirst : first < wordCount)
    (hsecond : second < wordCount) : first * n + second * n / wordCount < n * wordCount := by
  have hcarry : second * n / wordCount < n := by
    rw [Nat.div_lt_iff_lt_mul (by decide : 0 < wordCount), Nat.mul_comm n]
    exact Nat.mul_lt_mul_of_pos_right hsecond hn
  calc first * n + second * n / wordCount < first * n + n := Nat.add_lt_add_left hcarry _
    _ = (first + 1) * n := (Nat.succ_mul first n).symm
    _ ≤ wordCount * n := Nat.mul_le_mul_right n hfirst
    _ = n * wordCount := Nat.mul_comm _ _

/-- A uniform number is below its bound. -/
theorem uniformBelow_lt {n : Nat} (hn : 0 < n) (source : ρ) : (uniformBelow n source).1 < n := by
  unfold uniformBelow
  rcases RandomSource.next32 source with ⟨first, later⟩
  dsimp only
  have hpos : 0 < wordCount := by decide
  have hfirst : first.toNat < wordCount := first.toNat_lt
  split
  · rcases RandomSource.next32 later with ⟨second, rest⟩
    have hlt := carried_lt hn hfirst second.toNat_lt
    -- the high half of the product with its carry is that of the exact sum
    have hsplit : first.toNat * n / wordCount +
        (first.toNat * n % wordCount + second.toNat * n / wordCount) / wordCount =
          (first.toNat * n + second.toNat * n / wordCount) / wordCount := by
      conv_rhs => rw [← Nat.div_add_mod (first.toNat * n) wordCount, Nat.add_assoc,
        Nat.mul_add_div hpos]
    dsimp only
    rw [hsplit, Nat.div_lt_iff_lt_mul hpos]
    exact hlt
  · rw [Nat.div_lt_iff_lt_mul hpos, Nat.mul_comm n]
    exact Nat.mul_lt_mul_of_pos_right hfirst hn

namespace WeightedChoice

/-- The sum of weights, as the preparation of a choice forms it. -/
def totalOf (weights : List α) : α := weights.tail.foldl (· + ·) (weights.headD 0)

theorem accumulate_eq (total : α) (weights : List α) :
    (accumulate total weights).1.length = weights.length ∧
      (accumulate total weights).2 = weights.foldl (· + ·) total := by
  induction weights generalizing total with
  | nil => exact ⟨rfl, rfl⟩
  | cons w ws ih =>
    obtain ⟨hlength, htotal⟩ := ih (total + w)
    exact ⟨congrArg (· + 1) hlength, htotal⟩

/-- Weights that are all zero or positive. -/
def Proper (weights : List α) : Prop := ∀ w ∈ weights, 0 ≤ w

instance (weights : List α) : Decidable (Proper weights) :=
  inferInstanceAs (Decidable (∀ w ∈ weights, 0 ≤ w))

/-- What is wrong with weights, if anything. -/
def fault? (weights : List α) : Option WeightFault :=
  if weights = [] then some .noWeights
  else if ¬Proper weights then some .invalidWeight
  else if totalOf weights == 0 then some .zeroTotal
  else if ¬Scalar.isFinite (totalOf weights) then some .infiniteTotal
  else none

/-- Weights define a choice, with one running total fewer than weights, unless something is wrong
with them. -/
theorem ofWeights_outcome (weights : List α) :
    match fault? weights with
    | some fault => ofWeights weights = .error fault
    | none => ∃ choice, ofWeights weights = .ok choice ∧
        choice.cumulative.length + 1 = weights.length := by
  cases weights with
  | nil => rfl
  | cons w ws =>
    obtain ⟨hlength, htotal⟩ := accumulate_eq w ws
    have htotal' : (accumulate w ws).2 = totalOf (w :: ws) := htotal
    have hproper : ((w :: ws).all fun v => decide (0 ≤ v)) = true ↔ Proper (w :: ws) := by
      rw [List.all_eq_true]
      exact forall₂_congr fun _ _ => decide_eq_true_iff
    rw [fault?, if_neg (List.cons_ne_nil w ws), ofWeights]
    simp only [hproper, htotal']
    by_cases hall : Proper (w :: ws)
    · rw [if_neg (not_not.mpr hall), if_pos hall]
      by_cases hzero : totalOf (w :: ws) == 0
      · rw [if_pos hzero, if_pos hzero]
      · rw [if_neg hzero, if_neg hzero]
        by_cases hfinite : Scalar.isFinite (totalOf (w :: ws))
        · rw [if_neg (not_not.mpr hfinite), if_pos hfinite]
          exact ⟨_, rfl, congrArg (· + 1) hlength⟩
        · rw [if_pos hfinite, if_neg hfinite]
    · rw [if_pos hall, if_neg hall]

theorem ofWeights_of_fault {weights : List α} {fault : WeightFault}
    (h : fault? weights = some fault) : ofWeights weights = .error fault := by
  have houtcome := ofWeights_outcome weights
  rwa [h] at houtcome

theorem exists_ofWeights_of_fault_eq_none {weights : List α} (h : fault? weights = none) :
    ∃ choice, ofWeights weights = .ok choice ∧ choice.cumulative.length + 1 = weights.length := by
  have houtcome := ofWeights_outcome weights
  rwa [h] at houtcome

theorem ofWeights_eq_error_iff {weights : List α} {fault : WeightFault} :
    ofWeights weights = .error fault ↔ fault? weights = some fault := by
  refine ⟨fun h => ?_, ofWeights_of_fault⟩
  cases hfault : fault? weights with
  | some found =>
    rw [ofWeights_of_fault hfault] at h
    exact congrArg some (Except.error.inj h)
  | none =>
    obtain ⟨choice, hok, -⟩ := exists_ofWeights_of_fault_eq_none hfault
    rw [hok] at h
    cases h

/-- Weights that are all zero or positive, and whose sum is not a finite number. -/
def AddUpToInfinity (weights : List α) : Prop :=
  weights ≠ [] ∧ Proper weights ∧ ¬(totalOf weights == 0) = true ∧
    ¬Scalar.isFinite (totalOf weights) = true

theorem fault?_eq_infiniteTotal_iff {weights : List α} :
    fault? weights = some .infiniteTotal ↔ AddUpToInfinity weights := by
  unfold fault? AddUpToInfinity
  split_ifs <;> simp_all

/-- Nothing is wrong with weights that are all zero or positive and do not add up to zero or to
infinity. -/
theorem fault?_eq_none_iff_of_ne {weights : List α} (h : fault? weights ≠ some .infiniteTotal) :
    fault? weights = none ↔ weights ≠ [] ∧ Proper weights ∧ ¬(totalOf weights == 0) = true := by
  unfold fault? at h ⊢
  split_ifs at h ⊢ <;> simp_all

section Laws

variable [Scalar.LawfulSums α] {weights : List α}

theorem totalOf_spec (hne : weights ≠ []) (h : Proper weights) :
    0 ≤ totalOf weights ∧ (0 < totalOf weights ↔ ∃ w ∈ weights, 0 < w) := by
  obtain ⟨w, ws, rfl⟩ := List.exists_cons_of_ne_nil hne
  obtain ⟨hw, hws⟩ := List.forall_mem_cons.mp h
  obtain ⟨hnonneg, hpos⟩ := Scalar.LawfulSums.foldl_add_spec hws hw
  exact ⟨hnonneg, by rw [List.exists_mem_cons_iff]; exact hpos⟩

/-- Weights that do not add up to infinity define a choice exactly if all of them are zero or
positive and one is positive. -/
theorem fault?_eq_none_iff (h : fault? weights ≠ some .infiniteTotal) :
    fault? weights = none ↔ Proper weights ∧ ∃ w ∈ weights, 0 < w := by
  rw [fault?_eq_none_iff_of_ne h]
  constructor
  · rintro ⟨hne, hproper, hzero⟩
    obtain ⟨hnonneg, hpos⟩ := totalOf_spec hne hproper
    exact ⟨hproper, hpos.mp (not_not.mp (mt (Scalar.LawfulSums.beq_zero_iff hnonneg).mpr hzero))⟩
  · rintro ⟨hproper, w, hmem, hw⟩
    obtain ⟨hnonneg, hpos⟩ := totalOf_spec (List.ne_nil_of_mem hmem) hproper
    exact ⟨List.ne_nil_of_mem hmem, hproper,
      fun hzero => (Scalar.LawfulSums.beq_zero_iff hnonneg).mp hzero (hpos.mpr ⟨w, hmem, hw⟩)⟩

end Laws

/-- A draw from weights is a position of one of them. -/
theorem draw_lt {weights : List α} {choice : WeightedChoice α}
    (h : ofWeights weights = .ok choice) (source : ρ) :
    (choice.draw source).1 < weights.length := by
  have hfault : fault? weights = none := by
    rw [Option.eq_none_iff_forall_ne_some]
    intro fault hfault
    rw [ofWeights_of_fault hfault] at h
    cases h
  obtain ⟨found, hfound, hlength⟩ := exists_ofWeights_of_fault_eq_none hfault
  obtain rfl := Except.ok.inj (hfound.symm.trans h)
  unfold draw
  rcases RandomSource.next64 source with ⟨word, rest⟩
  have hselect := (List.takeWhile_prefix (l := found.cumulative)
    fun c => decide (c ≤ fraction word * found.total)).length_le
  show (found.select (fraction word * found.total)) < weights.length
  rw [select]
  omega

end WeightedChoice

end Mixtures
