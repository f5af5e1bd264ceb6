import Mixtures.Proofs.Random.Draws
import Mixtures.Proofs.Scalar.Products

/-!
# Weighted choices have weight

A choice is the first position whose running total exceeds a fraction of the total weight. The
running total before it does not exceed the fraction, so it grows at this position, and with doubles
it only grows where the weight is positive.

The fraction is below the total weight, as long as the total is a normal double: the largest
fraction, `1 - 2⁻⁵²`, of a total with 53 digits is at most the double before it. A smaller total has
fewer digits, and a fraction of it may be rounded up to the total.

* `drawn_spec`: the number that is compared with the running totals.
* `draw_positive`: the position that is drawn has a positive weight.
-/

namespace Mixtures

open Float.Model Float.Model.UnpackedFloat Double

/-! ## Fractions of a total -/

namespace WeightedChoice

/-- A fraction is at most the double before one. -/
theorem fraction_atMost (word : UInt64) :
    AtMost (value (2 ^ 52 - 1) (-52)) (fraction word : Float).toModel.unpack := by
  have hword : (word >>> 12).toNat < 2 ^ 52 := by
    rw [UInt64.toNat_shiftRight, Nat.shiftRight_eq_div_pow, Nat.div_lt_iff_lt_mul (by positivity)]
    exact word.toNat_lt
  show AtMost _ (Float.ofNat (word >>> 12).toNat / Float.ofNat (Nat.pow 2 52)).toModel.unpack
  generalize (word >>> 12).toNat = n at hword
  have hdenominator : (Float.ofNat (Nat.pow 2 52)).toModel.unpack =
      .finite .positive (2 ^ 52) 0 (by decide) := rfl
  rcases Nat.eq_zero_or_pos n with rfl | hpos
  · exact .zero
  · obtain ⟨k, hm, hk, hcanonical, hunpack⟩ := unpack_ofNat hpos (hword.trans (by decide))
    have hquotient : AtMost (value (2 ^ 52 - 1) (-52))
        (.finite .positive (n * 2 ^ k) (-k - 52) hm) := by
      refine .finite ⟨⟨hcanonical.lt, by omega⟩, fun _ => hcanonical.full (by omega)⟩ ?_
      rw [← value_add, show (-k - 52 + k : Int) = -52 by omega, value_le_iff]
      omega
    rw [unpack_div, hunpack, hdenominator, div_two_pow hm hcanonical (by omega),
      unpack_pack_atMost (by decide) (by decide) hquotient]
    exact hquotient

/-- The number that a draw with a total weight compares with the running totals. -/
def drawn {α ρ : Type} [Scalar α] [RandomSource ρ] (total : α) (source : ρ) : α :=
  fraction (RandomSource.next64 source).1 * total

/-- The largest fraction of a mantissa with 53 digits is at most the mantissa before it. -/
theorem value_fraction_mul_le {m : Nat} {e : Int} (hm : 2 ^ 52 ≤ m) :
    value (2 ^ 52 - 1) (-52) * value m e ≤ value (m - 1) e := by
  have hsplit : value (m - 1) e = value ((m - 1) * 2 ^ 52) (-52 + e) := by
    rw [← value_add]
    congr 1
    omega
  rw [← value_mul, hsplit, value_le_iff]
  omega

/-- A normal double has 53 digits. -/
theorem full_of_minPositive_le {total : Float} {m : Nat} {e : Int} {hm : 0 < m}
    (htotal : total.toModel.unpack = .finite .positive m e hm) (h : Scalar.minPositive ≤ total) :
    2 ^ 52 ≤ m := by
  have hbits : (Scalar.minPositive : Float) = Float.ofBits 0x0010000000000000 := by decide +kernel
  have hplace : place (Float.ofBits 0x0010000000000000).toModel.unpack =
      some (toLex (1, toLex (-1074, 2 ^ 52))) := rfl
  rw [hbits, le_iff, hplace, htotal] at h
  obtain ⟨x, hx, y, hy, hle⟩ := h
  cases hx
  cases hy
  have hlex : -1074 < e ∨ -1074 = e ∧ (2 : Int) ^ 52 ≤ m := by
    simpa [Prod.Lex.toLex_le_toLex, Sign.apply] using hle
  rcases hlex with hlt | ⟨-, hlow⟩
  · exact (canonical_of_unpack htotal).1.full hlt
  · exact_mod_cast hlow

/-- A fraction of a normal double is below it. -/
theorem fraction_mul_lt {total : Float} (hnormal : Scalar.minPositive ≤ total)
    (hfinite : Scalar.isFinite total) (word : UInt64) : fraction word * total < total := by
  have hpos : 0 < total := lt_of_lt_of_le' (by decide +kernel) hnormal
  obtain ⟨m, e, hm, htotal⟩ := exists_of_zero_lt hpos hfinite
  obtain ⟨hcanonical, he⟩ := canonical_of_unpack htotal
  have hfull := full_of_minPositive_le htotal hnormal
  have hproduct := mul_atMost (fraction_atMost word) htotal hfull
    ((Nat.sub_le m 1).trans_lt hcanonical.lt) hcanonical.le he (value_fraction_mul_le hfull)
  exact lt_of_atMost hproduct htotal (value_lt_iff.mpr (Nat.sub_lt hm Nat.one_pos))

/-- The number that is compared with the running totals is not negative, and it is below the total
if that is a normal double. -/
theorem drawn_spec {ρ : Type} [RandomSource ρ] {total : Float} (hpos : 0 < total)
    (hfinite : Scalar.isFinite total) (source : ρ) :
    0 ≤ drawn total source ∧ (Scalar.minPositive ≤ total → drawn total source < total) := by
  have hfraction : (0 : Float) ≤ fraction (RandomSource.next64 source).1 :=
    (fraction_atMost _).zero_le
  exact ⟨mul_nonneg hfraction hpos hfinite, fun hnormal => fraction_mul_lt hnormal hfinite _⟩

/-! ## The selected position -/

/-- A prepared choice holds the running totals of weights that are zero or positive, and a finite
total that is not zero. -/
theorem ofWeights_eq_ok {α : Type} [Scalar α] {weights : List α} {choice : WeightedChoice α}
    (h : ofWeights weights = .ok choice) :
    ∃ w ws, weights = w :: ws ∧ Proper weights ∧
      (choice.cumulative, choice.total) = accumulate w ws ∧ ¬(choice.total == 0) = true ∧
        Scalar.isFinite choice.total := by
  cases weights with
  | nil => cases h
  | cons w ws =>
    rw [ofWeights] at h
    dsimp only at h
    split_ifs at h with hproper hzero hfinite
    cases h
    exact ⟨w, ws, rfl, fun v hv => of_decide_eq_true (List.all_eq_true.mp hproper v hv), rfl, hzero,
      hfinite⟩

theorem total_eq {α : Type} [Scalar α] {weights : List α} {choice : WeightedChoice α}
    (h : ofWeights weights = .ok choice) : choice.total = totalOf weights := by
  obtain ⟨w, ws, rfl, -, haccumulate, -⟩ := ofWeights_eq_ok h
  exact (congrArg Prod.snd haccumulate).trans (accumulate_eq w ws).2

section Laws

variable {α : Type} [Scalar α] [Scalar.LawfulSums α]

open Scalar.LawfulSums

/-- The position after the running totals that a number reaches: the first one if the number is
below the total that the weights are added to, else one that a positive weight has led to. -/
theorem length_takeWhile_accumulate {weights : List α} (hweights : Proper weights)
    {total value : α} (htotal : 0 ≤ total) (hvalue : 0 ≤ value)
    (hlt : value < (accumulate total weights).2) :
    ((accumulate total weights).1.takeWhile fun c => decide (c ≤ value)).length = 0 ∧
        value < total ∨
      ∃ i w, ((accumulate total weights).1.takeWhile fun c => decide (c ≤ value)).length = i + 1 ∧
        weights[i]? = some w ∧ 0 < w := by
  induction weights generalizing total with
  | nil => exact .inl ⟨rfl, hlt⟩
  | cons w ws ih =>
    obtain ⟨hw, hws⟩ := List.forall_mem_cons.mp hweights
    have hnext := ih hws (add_spec htotal hw).1 hlt
    simp only [accumulate, List.takeWhile_cons]
    by_cases hle : total ≤ value
    · rw [if_pos (decide_eq_true hle), List.length_cons]
      right
      rcases hnext with ⟨hzero, hbelow⟩ | ⟨i, v, hlength, hget, hpos⟩
      · exact ⟨0, w, congrArg (· + 1) hzero, rfl,
          pos_of_lt_add htotal hw (lt_of_le_of_lt hle hbelow)⟩
      · exact ⟨i + 1, v, congrArg (· + 1) hlength, hget, hpos⟩
    · rw [if_neg (by simpa using hle)]
      exact .inl ⟨rfl, lt_of_not_le htotal hvalue hle⟩

theorem total_pos {weights : List α} {choice : WeightedChoice α}
    (h : ofWeights weights = .ok choice) : 0 < choice.total := by
  have htotal := total_eq h
  obtain ⟨w, ws, rfl, hproper, -, hzero, -⟩ := ofWeights_eq_ok h
  have hnonneg : 0 ≤ choice.total := by
    rw [htotal]
    exact (totalOf_spec (List.cons_ne_nil w ws) hproper).1
  by_contra hnot
  exact hzero ((beq_zero_iff hnonneg).mpr hnot)

/-- The selected position has a positive weight. -/
theorem select_positive {weights : List α} {choice : WeightedChoice α}
    (h : ofWeights weights = .ok choice) {value : α} (hvalue : 0 ≤ value)
    (hlt : value < choice.total) :
    ∃ w, weights[choice.select value]? = some w ∧ 0 < w := by
  obtain ⟨w, ws, rfl, hproper, haccumulate, -⟩ := ofWeights_eq_ok h
  obtain ⟨hw, hws⟩ := List.forall_mem_cons.mp hproper
  obtain ⟨hcumulative, htotal⟩ := Prod.ext_iff.mp haccumulate
  dsimp only at hcumulative htotal
  rw [htotal] at hlt
  rw [select, hcumulative]
  rcases length_takeWhile_accumulate hws hw hvalue hlt with
    ⟨hzero, hbelow⟩ | ⟨i, v, hlength, hget, hpos⟩
  · exact ⟨w, by rw [hzero]; rfl, lt_of_le_of_lt hvalue hbelow⟩
  · exact ⟨v, by rw [hlength]; exact hget, hpos⟩

end Laws

/-- **Draws have weight**. A draw picks a position of positive weight if the number that it compares
with the running totals is below the total, as it is for every total that is a normal double. -/
theorem draw_positive {ρ : Type} [RandomSource ρ] {weights : List Float}
    {choice : WeightedChoice Float} (h : ofWeights weights = .ok choice) (source : ρ)
    (hbelow : Scalar.minPositive ≤ choice.total ∨ drawn choice.total source < choice.total) :
    ∃ w, weights[(choice.draw source).1]? = some w ∧ 0 < w := by
  obtain ⟨-, -, -, -, -, -, hfinite⟩ := ofWeights_eq_ok h
  obtain ⟨hnonneg, hnormal⟩ := drawn_spec (total_pos h) hfinite source
  exact select_positive h hnonneg (hbelow.elim hnormal id)

-- a fraction of the smallest double can be rounded up to it
example : (fraction 0xFFFFFFFFFFFFFFFF * 5e-324 : Float) = 5e-324 := by decide +kernel

end WeightedChoice

end Mixtures
