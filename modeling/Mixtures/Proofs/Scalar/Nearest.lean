import Mixtures.Proofs.Scalar.Products

/-!
# The nearest double

Sums and differences of doubles are whole multiples of the smallest positive double, so they are
exact before they are rounded, and rounding takes a whole number of such units to another. It takes
it to the nearest one that is *representable*, which means here a mantissa of 53 bits followed by
zeros.

* `nearest_spec`: a number lies in a gap between representable ones, and rounding goes to the end of
  the gap that is not farther.
* `le_nearest`, `nearest_le`, `nearest_mono`: rounding passes no representable number, and keeps the
  order.
* `nearest_le_of_le`, `le_nearest_of_le`: it moves a number by no more than the distance to any
  representable number.
-/

namespace Mixtures.Double

open Float.Model Float.Model.UnpackedFloat

/-! ## The digits that are shifted out -/

/-- What is behind a mantissa, by its two bits: the part of a gap that was shifted out. -/
def Behind (em : ExtendedMantissa) (rest gap : Nat) : Prop :=
  match em.roundBit, em.stickyBit with
  | false, false => rest = 0
  | false, true => 0 < rest ∧ 2 * rest < gap
  | true, false => 2 * rest = gap
  | true, true => gap < 2 * rest ∧ rest < gap

/-- Shifting by one more digit. -/
theorem Behind.shiftRightOne {em : ExtendedMantissa} {rest gap : Nat} (h : Behind em rest gap)
    (hgap : 0 < gap) : Behind em.shiftRightOne (em.mantissa % 2 * gap + rest) (2 * gap) := by
  obtain ⟨m, r, s⟩ := em
  rcases Nat.mod_two_eq_zero_or_one m with hm | hm <;> rcases r with _ | _ <;>
    rcases s with _ | _ <;>
    simp only [Behind, ExtendedMantissa.shiftRightOne, hm] at h ⊢ <;> simp <;> omega

/-- Shifting a mantissa with nothing behind it. -/
theorem behind_shiftRight (m n : Nat) : Behind (exactMantissa m >>> n) (m % 2 ^ n) (2 ^ n) := by
  induction n with
  | zero => exact Nat.mod_one m
  | succ n ih =>
    have hshift := ih.shiftRightOne (by positivity)
    rw [mantissa_shiftRight] at hshift
    have hrest : m % 2 ^ (n + 1) = m / 2 ^ n % 2 * 2 ^ n + m % 2 ^ n := by
      rw [Nat.pow_succ, Nat.mod_mul, Nat.mul_comm, Nat.add_comm]
    rw [hrest, Nat.pow_succ']
    exact hshift

/-- Rounding goes down if no more than half of the gap was shifted out, and up if no less. -/
theorem roundedMantissa_cases {em : ExtendedMantissa} {rest gap : Nat} (h : Behind em rest gap) :
    em.roundedMantissa = em.mantissa ∧ 2 * rest ≤ gap ∨
      em.roundedMantissa = em.mantissa + 1 ∧ gap ≤ 2 * rest := by
  obtain ⟨m, r, s⟩ := em
  rcases Nat.mod_two_eq_zero_or_one m with hm | hm <;> rcases r with _ | _ <;>
    rcases s with _ | _ <;>
    simp [Behind, ExtendedMantissa.roundedMantissa, ExtendedMantissa.accuracy,
      Accuracy.roundToNearestEven, hm] at h ⊢ <;> omega

/-! ## Rounding a number of units -/

/-- A mantissa of 53 bits, followed by zeros. -/
def Representable (d : Nat) : Prop := ∃ c k, c < 2 ^ 53 ∧ d = c * 2 ^ k

/-- The number that a number of units is rounded to. -/
def nearest (m : Nat) : Nat :=
  (exactMantissa m >>> (m.log2 - 52)).roundedMantissa * 2 ^ (m.log2 - 52)

/-- What is above the lower end of a gap is beyond the gap, if it is representable. -/
theorem gap_le_of_representable {d q n : Nat} (hd : Representable d) (hq : 0 < n → 2 ^ 52 ≤ q)
    (hlt : q * 2 ^ n < d) : q * 2 ^ n + 2 ^ n ≤ d := by
  obtain ⟨c, k, hc, rfl⟩ := hd
  rcases Nat.lt_or_ge k n with hk | hk
  · -- with fewer zeros the mantissa would be too long
    obtain ⟨j, rfl⟩ := Nat.exists_eq_add_of_lt hk
    have hlong := hq (by omega)
    have hle : 2 ^ 53 * 2 ^ k ≤ q * 2 ^ (k + j + 1) := by
      calc 2 ^ 53 * 2 ^ k = 2 ^ 52 * 2 ^ (k + 1) := by ring
        _ ≤ q * 2 ^ (k + j + 1) :=
          Nat.mul_le_mul hlong (Nat.pow_le_pow_right (by decide) (by omega))
    have hlt' : c * 2 ^ k < 2 ^ 53 * 2 ^ k := Nat.mul_lt_mul_of_pos_right hc (by positivity)
    omega
  · -- with as many zeros, it is a multiple of the gap
    obtain ⟨j, rfl⟩ := Nat.exists_eq_add_of_le hk
    rw [Nat.pow_add, Nat.mul_comm (2 ^ n), ← Nat.mul_assoc] at hlt ⊢
    have hnext : q + 1 ≤ c * 2 ^ j := Nat.lt_of_mul_lt_mul_right hlt
    calc q * 2 ^ n + 2 ^ n = (q + 1) * 2 ^ n := by ring
      _ ≤ c * 2 ^ j * 2 ^ n := Nat.mul_le_mul_right _ hnext

/-- The digits that are left. -/
theorem quotient_bounds (m : Nat) :
    m / 2 ^ (m.log2 - 52) < 2 ^ 53 ∧ (0 < m.log2 - 52 → 2 ^ 52 ≤ m / 2 ^ (m.log2 - 52)) := by
  constructor
  · rw [Nat.div_lt_iff_lt_mul (by positivity), ← Nat.pow_add]
    exact Nat.lt_log2_self.trans_le (Nat.pow_le_pow_right (by decide) (by omega))
  · intro hpos
    have hne : m ≠ 0 := by
      rintro rfl
      exact absurd hpos (by decide)
    rw [Nat.le_div_iff_mul_le (by positivity), ← Nat.pow_add]
    exact (Nat.pow_le_pow_right (by decide) (by omega)).trans (Nat.log2_self_le hne)

/-- **Rounding**: the number is in a gap with no representable number inside, and the result is the
end that is not farther. -/
theorem nearest_spec (m : Nat) :
    ∃ low gap, low ≤ m ∧ m < low + gap ∧ (∀ d, Representable d → low < d → low + gap ≤ d) ∧
      (nearest m = low ∧ 2 * (m - low) ≤ gap ∨ nearest m = low + gap ∧ gap ≤ 2 * (m - low)) := by
  obtain ⟨n, hn⟩ : ∃ n, n = m.log2 - 52 := ⟨_, rfl⟩
  obtain ⟨-, hlong⟩ := quotient_bounds m
  have hdigits : m / 2 ^ n * 2 ^ n + m % 2 ^ n = m := by
    rw [Nat.mul_comm]
    exact Nat.div_add_mod m _
  have hrest : m % 2 ^ n < 2 ^ n := Nat.mod_lt m (by positivity)
  refine ⟨m / 2 ^ n * 2 ^ n, 2 ^ n, by omega, by omega, ?_, ?_⟩
  · intro d hd hlt
    exact gap_le_of_representable hd (hn ▸ hlong) hlt
  · have hrounded := roundedMantissa_cases (behind_shiftRight m n)
    rw [mantissa_shiftRight] at hrounded
    have hmantissa : (exactMantissa m).mantissa = m := rfl
    rw [hmantissa] at hrounded
    rw [nearest, ← hn]
    rcases hrounded with ⟨hdown, hhalf⟩ | ⟨hup, hhalf⟩
    · exact .inl ⟨by rw [hdown], by omega⟩
    · exact .inr ⟨by rw [hup, Nat.succ_mul], by omega⟩

/-- What is rounded is representable. -/
theorem representable_nearest (m : Nat) : Representable (nearest m) := by
  obtain ⟨hshort, -⟩ := quotient_bounds m
  have hrounded := roundedMantissa_le_succ (exactMantissa m >>> (m.log2 - 52))
  rw [mantissa_shiftRight] at hrounded
  have hmantissa : (exactMantissa m).mantissa = m := rfl
  rw [hmantissa] at hrounded
  rcases (hrounded.trans (Nat.succ_le_of_lt hshort)).lt_or_eq with hlt | heq
  · exact ⟨_, _, hlt, rfl⟩
  · refine ⟨2 ^ 52, m.log2 - 52 + 1, by decide, ?_⟩
    rw [nearest, heq]
    ring

section Bounds

variable {d m m' : Nat}

/-- Rounding does not pass a representable number from above. -/
theorem le_nearest (hd : Representable d) (h : d ≤ m) : d ≤ nearest m := by
  obtain ⟨low, gap, hlow, hhigh, hgap, hnearest⟩ := nearest_spec m
  have hbelow : d ≤ low := by
    by_contra hlt
    have := hgap d hd (by omega)
    omega
  omega

/-- Nor from below. -/
theorem nearest_le (hd : Representable d) (h : m ≤ d) : nearest m ≤ d := by
  obtain ⟨low, gap, hlow, hhigh, hgap, hnearest⟩ := nearest_spec m
  rcases Nat.lt_or_ge low d with hlt | hge
  · have := hgap d hd hlt
    omega
  · omega

/-- A representable number is left as it is. -/
theorem nearest_of_representable (hd : Representable d) : nearest d = d :=
  le_antisymm (nearest_le hd le_rfl) (le_nearest hd le_rfl)

/-- Rounding up moves by no more than the distance to a representable number. -/
theorem nearest_le_of_le (hd : Representable d) (h : d ≤ m) : nearest m + d ≤ 2 * m := by
  obtain ⟨low, gap, hlow, hhigh, hgap, hnearest⟩ := nearest_spec m
  have hbelow : d ≤ low := by
    by_contra hlt
    have := hgap d hd (by omega)
    omega
  omega

/-- So does rounding down. -/
theorem le_nearest_of_le (hd : Representable d) (h : m ≤ d) : 2 * m ≤ nearest m + d := by
  obtain ⟨low, gap, hlow, hhigh, hgap, hnearest⟩ := nearest_spec m
  rcases Nat.lt_or_ge low d with hlt | hge
  · have := hgap d hd hlt
    omega
  · omega

/-- **Rounding keeps the order.** -/
theorem nearest_mono (h : m ≤ m') : nearest m ≤ nearest m' := by
  by_contra hlt
  have hrep := representable_nearest m
  have hrep' := representable_nearest m'
  -- the two results lie on either side of both numbers, each nearer to its own
  have hbelow : nearest m' < m := by
    by_contra hge
    have := nearest_le hrep' (Nat.le_of_not_lt hge)
    omega
  have habove : m' < nearest m := by
    by_contra hge
    have := le_nearest hrep (Nat.le_of_not_lt hge)
    omega
  have hup := nearest_le_of_le hrep' hbelow.le
  have hdown := le_nearest_of_le hrep habove.le
  obtain rfl : m = m' := by omega
  omega

end Bounds

/-! ## Whole numbers of either sign -/

/-- The whole number that a whole number is rounded to. -/
def nearestInt (z : Int) : Int := z.sign * nearest z.natAbs

theorem representable_zero : Representable 0 := ⟨0, 0, by decide, rfl⟩

@[simp] theorem nearestInt_natCast (n : Nat) : nearestInt n = nearest n := by
  rcases Nat.eq_zero_or_pos n with rfl | hpos
  · rw [nearest_of_representable representable_zero]
    rfl
  · rw [nearestInt, Int.sign_natCast_of_ne_zero (Nat.ne_of_gt hpos), Int.natAbs_natCast,
      Int.one_mul]

@[simp] theorem nearestInt_neg (z : Int) : nearestInt (-z) = -nearestInt z := by
  rw [nearestInt, nearestInt, Int.sign_neg, Int.natAbs_neg, Int.neg_mul]

theorem nearestInt_of_representable {z : Int} (h : Representable z.natAbs) : nearestInt z = z := by
  obtain ⟨n, rfl | rfl⟩ := Int.eq_nat_or_neg z
  · rw [nearestInt_natCast, nearest_of_representable (by simpa using h)]
  · rw [nearestInt_neg, nearestInt_natCast, nearest_of_representable (by simpa using h)]

/-- Rounding keeps the order of whole numbers. -/
theorem nearestInt_mono {z w : Int} (h : z ≤ w) : nearestInt z ≤ nearestInt w := by
  obtain ⟨m, rfl | rfl⟩ := Int.eq_nat_or_neg z <;> obtain ⟨n, rfl | rfl⟩ := Int.eq_nat_or_neg w <;>
    simp only [nearestInt_neg, nearestInt_natCast]
  · have := nearest_mono (show m ≤ n by omega)
    omega
  · obtain ⟨rfl, rfl⟩ : m = 0 ∧ n = 0 := by omega
    rw [nearest_of_representable representable_zero]
    omega
  · omega
  · have := nearest_mono (show n ≤ m by omega)
    omega

/-- Rounding up moves by no more than the distance to a representable number below. -/
theorem nearestInt_le_of_le {d z : Int} (hd : Representable d.natAbs) (h : d ≤ z) :
    nearestInt z + d ≤ 2 * z := by
  obtain ⟨n, rfl | rfl⟩ := Int.eq_nat_or_neg z
  · rw [nearestInt_natCast]
    rcases Int.le_total 0 d with hpos | hneg
    · have := nearest_le_of_le (m := n) hd (by omega)
      omega
    · have := nearest_le_of_le (m := n) representable_zero (Nat.zero_le n)
      omega
  · rw [nearestInt_neg, nearestInt_natCast]
    have := le_nearest_of_le (m := n) hd (by omega)
    omega

end Mixtures.Double
