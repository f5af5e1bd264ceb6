import Mixtures.Proofs.Scalar.Sums

/-!
# Products that stay below a bound

Rounding goes to the nearest double, so it does not pass a double on the way: what is at most a
double is at most that double once it is rounded. So a product of doubles is bounded by every double
that bounds the exact product, and nothing has to be known about the error.

* `roundWithAccuracy_atMost`: rounding does not pass a bound that is a double.
* `unpack_pack_of_canonical`: packing keeps a number that is rounded and does not overflow.
* `mul_atMost`: the product of two doubles.
* `unpack_ofNat`, `div_two_pow`: small natural numbers and their quotients by `2 ^ 52` are exact.
-/

namespace Mixtures.Double

open Float.Model Float.Model.UnpackedFloat

/-! ## Numbers from mantissas and exponents -/

/-- The number that a mantissa and an exponent stand for. -/
def value (m : Nat) (e : Int) : ℚ := m * 2 ^ e

theorem value_add (m : Nat) (e : Int) (n : Nat) : value m (e + n) = value (m * 2 ^ n) e := by
  rw [value, value, zpow_add₀ two_ne_zero, zpow_natCast]
  push_cast
  ring

theorem value_mul (m₁ m₂ : Nat) (e₁ e₂ : Int) :
    value (m₁ * m₂) (e₁ + e₂) = value m₁ e₁ * value m₂ e₂ := by
  rw [value, value, value, zpow_add₀ two_ne_zero]
  push_cast
  ring

theorem value_le_iff {m₁ m₂ : Nat} {e : Int} : value m₁ e ≤ value m₂ e ↔ m₁ ≤ m₂ := by
  rw [value, value, mul_le_mul_iff_of_pos_right (by positivity), Nat.cast_le]

theorem value_lt_iff {m₁ m₂ : Nat} {e : Int} : value m₁ e < value m₂ e ↔ m₁ < m₂ := by
  rw [value, value, mul_lt_mul_iff_of_pos_right (by positivity), Nat.cast_lt]

/-- A mantissa of 53 bits outweighs every one with a lower exponent. -/
theorem value_lt_of_lt {m₁ m₂ : Nat} {e₁ e₂ : Int} (h₁ : m₁ < 2 ^ 53) (h₂ : 2 ^ 52 ≤ m₂)
    (h : e₁ < e₂) : value m₁ e₁ < value m₂ e₂ := by
  obtain ⟨n, rfl⟩ : ∃ n : Nat, e₂ = e₁ + (n + 1 : Nat) := ⟨(e₂ - e₁ - 1).toNat, by omega⟩
  rw [value_add, value_lt_iff]
  calc m₁ < 2 ^ 52 * 2 ^ 1 := h₁
    _ ≤ m₂ * 2 ^ (n + 1) := Nat.mul_le_mul h₂ (Nat.pow_le_pow_right (by decide) (by omega))

/-- The mantissa and the exponent of a number that is packed as it is: a mantissa is only short if
the exponent is the least one. -/
structure Canonical (m : Nat) (e : Int) : Prop extends Packable m e where
  full : -1074 < e → 2 ^ 52 ≤ m

/-- What is unpacked can be packed as it is, and its exponent is not the one of infinity. -/
theorem canonical_of_unpack {f : Float.Model} {s : Sign} {m : Nat} {e : Int} {hm : 0 < m}
    (h : f.unpack = .finite s m e hm) : Canonical m e ∧ e ≤ 971 := by
  have hpackable := packable_of_unpack h
  have hbias : Format.binary64.exponentBias = 1023 := by decide
  unfold Float.Model.unpack UnpackedFloat.unpack at h
  dsimp only at h
  split_ifs at h with hones hzero hexponent hmantissa
  · -- without the leading one, the exponent is the least one
    obtain ⟨-, -, rfl⟩ := UnpackedFloat.finite.inj h
    rw [hexponent] at hpackable ⊢
    exact ⟨⟨hpackable, fun hlt => absurd hlt (by decide)⟩, by decide⟩
  · obtain ⟨-, rfl, rfl⟩ := UnpackedFloat.finite.inj h
    refine ⟨⟨hpackable, fun _ => ?_⟩, ?_⟩
    · rw [BitVec.toNat_append]
      exact Nat.left_le_or
    · have hlt := (@unpackExponent .binary64 f.toBits.toBitVec).isLt
      have hne : (@unpackExponent .binary64 f.toBits.toBitVec).toNat ≠ 2047 := fun hlast =>
        hones (BitVec.eq_of_toNat_eq hlast)
      rw [hbias]
      change _ < 2048 at hlt
      show _ - ((1023 : Nat) + 52 : Int) ≤ 971
      omega

theorem log2_eq {m : Nat} (hlow : 2 ^ 52 ≤ m) (hhigh : m < 2 ^ 53) : m.log2 = 52 :=
  (Nat.log2_eq_iff (by omega)).mpr ⟨hlow, hhigh⟩

private theorem toNat_one_append {m : Nat} (hlow : 2 ^ 52 ≤ m) (hhigh : m < 2 ^ 53) :
    ((1#1) ++ BitVec.ofNat 52 m).toNat = m := by
  rw [BitVec.toNat_append, ← Nat.shiftLeft_add_eq_or_of_lt (BitVec.ofNat 52 m).isLt,
    BitVec.toNat_ofNat, BitVec.toNat_ofNat, Nat.shiftLeft_eq]
  omega

theorem log2_mul_two_pow {m : Nat} (hm : m ≠ 0) (n : Nat) : (m * 2 ^ n).log2 = m.log2 + n := by
  rw [Nat.log2_eq_iff (Nat.mul_ne_zero hm (by positivity)), Nat.add_right_comm, Nat.pow_add,
    Nat.pow_add]
  exact ⟨Nat.mul_le_mul_right _ (Nat.log2_self_le hm),
    Nat.mul_lt_mul_of_pos_right Nat.lt_log2_self (by positivity)⟩

private theorem pack_finite {s : Sign} {m : Nat} {e : Int} {hm : 0 < m} {biased : Nat}
    (he : e ≤ 971) (hbiased : (e + 1075).toNat = biased) :
    UnpackedFloat.pack .binary64 (.finite s m e hm) =
      if m.log2 + 1 = 53 then
        packComponents .binary64 s (BitVec.ofNat 11 biased) (BitVec.ofNat 52 m)
      else packComponents .binary64 s 0#11 (BitVec.ofNat 52 m) := by
  have hbias :
      (e + Format.binary64.exponentBias + Format.binary64.mantissaBitsWithoutImplicit).toNat =
        biased := by
    show (e + (1023 : Nat) + (52 : Nat)).toNat = biased
    omega
  unfold UnpackedFloat.pack
  dsimp only
  rw [hbias]
  change (if 2048 ≤ biased + 1 then _ else _) = _
  rw [if_neg (by omega)]
  rfl

/-- Packing keeps a mantissa that has all its digits. -/
theorem unpack_pack_of_full {s : Sign} {m : Nat} {e : Int} (hm : 0 < m) (hlow : 2 ^ 52 ≤ m)
    (hhigh : m < 2 ^ 53) (hle : -1074 ≤ e) (he : e ≤ 971) :
    (Float.Model.pack (.finite s m e hm)).unpack = .finite s m e hm := by
  obtain ⟨biased, hbiased⟩ : ∃ biased, (e + 1075).toNat = biased := ⟨_, rfl⟩
  have hexponent : (BitVec.ofNat 11 biased).toNat = biased := by
    rw [BitVec.toNat_ofNat]
    omega
  have hones : BitVec.ofNat 11 biased ≠ -1#11 := fun heq => by
    have := hexponent.symm.trans (congrArg BitVec.toNat heq)
    change biased = 2047 at this
    omega
  have hzero : BitVec.ofNat 11 biased ≠ 0#11 := fun heq => by
    have := hexponent.symm.trans (congrArg BitVec.toNat heq)
    change biased = 0 at this
    omega
  show UnpackedFloat.unpack .binary64 (UnpackedFloat.pack .binary64 _) = _
  rw [pack_finite he hbiased, if_pos (by rw [log2_eq hlow hhigh])]
  unfold UnpackedFloat.unpack
  simp only [unpackExponent_packComponents, unpackMantissa_packComponents,
    unpackSign_packComponents, Sign.ofBitVec_toBitVec]
  rw [if_neg hones, if_neg hzero]
  congr 1
  · exact toNat_one_append hlow hhigh
  · rw [hexponent]
    show (biased : Int) - ((1023 : Nat) + (52 : Nat)) = e
    omega

/-- Packing keeps a short mantissa with the least exponent, which is packed as zero. -/
theorem unpack_pack_of_short {s : Sign} {m : Nat} (hm : 0 < m) (hshort : m < 2 ^ 52) :
    (Float.Model.pack (.finite s m (-1074) hm)).unpack = .finite s m (-1074) hm := by
  have hlog : m.log2 < 52 := (Nat.log2_lt (Nat.ne_of_gt hm)).mpr hshort
  have hmantissa : (BitVec.ofNat 52 m).toNat = m := by
    rw [BitVec.toNat_ofNat]
    exact Nat.mod_eq_of_lt hshort
  have hne : BitVec.ofNat 52 m ≠ 0#52 := fun hzero => by
    rw [hzero] at hmantissa
    exact Nat.ne_of_lt hm hmantissa
  have hpack := @pack_finite s m (-1074) hm 1 (by decide) (by decide)
  rw [if_neg (by omega)] at hpack
  show UnpackedFloat.unpack .binary64 (UnpackedFloat.pack .binary64 _) = _
  rw [hpack]
  unfold UnpackedFloat.unpack
  simp only [unpackExponent_packComponents, unpackMantissa_packComponents,
    unpackSign_packComponents, Sign.ofBitVec_toBitVec]
  rw [if_neg (by decide), if_pos trivial, dif_neg hne]
  congr 1

/-- Packing keeps what can be packed as it is. -/
theorem unpack_pack_of_canonical {s : Sign} {m : Nat} {e : Int} (hm : 0 < m) (h : Canonical m e)
    (he : e ≤ 971) : (Float.Model.pack (.finite s m e hm)).unpack = .finite s m e hm := by
  rcases h.le.eq_or_lt with rfl | hlt
  · rcases Nat.lt_or_ge m (2 ^ 52) with hshort | hfull
    · exact unpack_pack_of_short hm hshort
    · exact unpack_pack_of_full hm hfull h.lt le_rfl he
  · exact unpack_pack_of_full hm (h.full hlt) h.lt h.le he

/-! ## Rounding -/

/-- A mantissa with nothing behind it. -/
def exactMantissa (m : Nat) : ExtendedMantissa := ⟨m, false, false⟩

theorem roundedMantissa_le_succ (em : ExtendedMantissa) :
    em.roundedMantissa ≤ em.mantissa + 1 := by
  obtain ⟨m, (_ | _), (_ | _)⟩ := em <;>
    simp only [ExtendedMantissa.roundedMantissa, ExtendedMantissa.accuracy,
      Accuracy.roundToNearestEven] <;> omega

/-- Nothing is lost when the digits that are shifted out are zero. -/
theorem exactMantissa_shiftRight (m n : Nat) :
    exactMantissa (m * 2 ^ n) >>> n = exactMantissa m := by
  induction n generalizing m with
  | zero =>
    rw [Nat.pow_zero, Nat.mul_one]
    rfl
  | succ n ih =>
    rw [Nat.pow_succ', ← Nat.mul_assoc]
    show (exactMantissa (m * 2 * 2 ^ n) >>> n).shiftRightOne = _
    rw [ih, ExtendedMantissa.shiftRightOne]
    simp [exactMantissa]

/-- Rounding does not pass an integer. -/
theorem roundedMantissa_shiftRight_le {m bound n : Nat} (h : m ≤ bound * 2 ^ n) :
    (exactMantissa m >>> n).roundedMantissa ≤ bound := by
  rcases h.eq_or_lt with rfl | hlt
  · rw [exactMantissa_shiftRight]
    exact le_rfl
  · have hmantissa : (exactMantissa m >>> n).mantissa = m / 2 ^ n := mantissa_shiftRight _ n
    have hdiv : m / 2 ^ n < bound := (Nat.div_lt_iff_lt_mul (by positivity)).mpr hlt
    have hround := roundedMantissa_le_succ (exactMantissa m >>> n)
    omega

/-- Shifting an exact mantissa to its exponent. -/
theorem shiftToTargetExponent_exact {m : Nat} {e : Int} {n : Nat}
    (h : (max (m.log2 + e - 52) (-1074) - e).toNat = n) :
    shiftToTargetExponent .binary64 m e .exact = (exactMantissa m >>> n, e + n) := by
  rw [shiftToTargetExponent, targetExponent_eq, shiftToExponent, h]
  rfl

/-- A mantissa that fits is left as it is. -/
theorem shiftToTargetExponent_of_lt {m : Nat} {e : Int} (hm : m < 2 ^ 53) (he : -1074 ≤ e) :
    shiftToTargetExponent .binary64 m e .exact = (exactMantissa m, e) := by
  have hlog : m.log2 ≤ 52 := by
    rcases Nat.eq_zero_or_pos m with rfl | hpos
    · decide
    · exact Nat.le_of_lt_succ ((Nat.log2_lt (Nat.ne_of_gt hpos)).mpr hm)
  rw [shiftToTargetExponent_exact (n := 0) (by omega)]
  exact congrArg (exactMantissa m, ·) (Int.add_zero e)

/-- A mantissa that rounding has made one digit longer loses a zero. -/
theorem shiftToTargetExponent_carry {e : Int} (he : -1074 ≤ e) :
    shiftToTargetExponent .binary64 (2 ^ 53) e .exact = (exactMantissa (2 ^ 52), e + 1) := by
  have hlog : (2 ^ 53).log2 = 53 := Nat.log2_two_pow
  rw [shiftToTargetExponent_exact (n := 1) (by omega)]
  exact congrArg (·, e + 1) (exactMantissa_shiftRight (2 ^ 52) 1)

/-- Rounding keeps what can be packed as it is, also with zeros behind it. -/
theorem roundWithAccuracy_of_canonical {s : Sign} {m : Nat} {e : Int} (hm : 0 < m)
    (h : Canonical m e) (n : Nat) :
    roundWithAccuracy .binary64 s (m * 2 ^ n) (e - n) .exact = .finite s m e hm := by
  have hle := h.le
  have htarget : max (((m * 2 ^ n).log2 : Int) + (e - n) - 52) (-1074) = e := by
    rw [log2_mul_two_pow (Nat.ne_of_gt hm)]
    by_cases hfull : 2 ^ 52 ≤ m
    · rw [log2_eq hfull h.lt]
      omega
    · obtain rfl : e = -1074 := le_antisymm (not_lt.mp fun hlt => hfull (h.full hlt)) hle
      have hshort : m.log2 < 52 := (Nat.log2_lt (Nat.ne_of_gt hm)).mpr (Nat.lt_of_not_le hfull)
      omega
  unfold roundWithAccuracy
  rw [shiftToTargetExponent_exact (n := n) (by rw [htarget]; omega), exactMantissa_shiftRight,
    Int.sub_add_cancel]
  dsimp only
  rw [show (exactMantissa m).roundedMantissa = m from rfl, shiftToTargetExponent_of_lt h.lt hle]
  exact dif_neg (Nat.ne_of_gt hm)

section FirstShift

/-! The first shift makes a mantissa fit its exponent, which is `e + n`. -/

variable {m : Nat} {e : Int} {n : Nat}

theorem roundedMantissa_le_two_pow (hn : (max (m.log2 + e - 52) (-1074) - e).toNat = n) :
    (exactMantissa m >>> n).roundedMantissa ≤ 2 ^ 53 := by
  refine roundedMantissa_shiftRight_le ?_
  rw [← Nat.pow_add]
  exact Nat.lt_log2_self.le.trans (Nat.pow_le_pow_right (by decide) (by omega))

/-- Above the least exponent, the shift leaves 53 digits. -/
theorem two_pow_le_of_shift (hn : (max (m.log2 + e - 52) (-1074) - e).toNat = n)
    (hfull : -1074 < e → 2 ^ 52 ≤ m) (hlt : -1074 < e + n) : 2 ^ 52 * 2 ^ n ≤ m := by
  have hlog : -1074 < e → 52 ≤ m.log2 := fun he =>
    (Nat.le_log2 (Nat.ne_of_gt ((by decide : 0 < 2 ^ 52).trans_le (hfull he)))).mpr (hfull he)
  have hlong : 52 ≤ m.log2 := by omega
  have hne : m ≠ 0 := by
    rintro rfl
    exact absurd hlong (by decide)
  rw [← Nat.pow_add, show 52 + n = m.log2 by omega]
  exact Nat.log2_self_le hne

theorem two_pow_le_roundedMantissa (h : 2 ^ 52 * 2 ^ n ≤ m) :
    2 ^ 52 ≤ (exactMantissa m >>> n).roundedMantissa :=
  calc 2 ^ 52 ≤ m / 2 ^ n := (Nat.le_div_iff_mul_le (by positivity)).mpr h
    _ = (exactMantissa m >>> n).mantissa := (mantissa_shiftRight (exactMantissa m) n).symm
    _ ≤ (exactMantissa m >>> n).roundedMantissa := mantissa_le_roundedMantissa _

/-- The rounded mantissa does not pass a bound either: the exponent of the bound is no lower, since
a mantissa with 53 digits would exceed the bound. -/
theorem value_roundedMantissa_le {bound : Nat} {eBound : Int} (hbound : bound < 2 ^ 53)
    (heBound : -1074 ≤ eBound) (hdigits : -1074 < e + n → 2 ^ 52 * 2 ^ n ≤ m)
    (h : value m e ≤ value bound eBound) :
    value (exactMantissa m >>> n).roundedMantissa (e + n) ≤ value bound eBound := by
  have hexponent : e + n ≤ eBound := by
    by_contra hlt
    refine absurd h (not_le.mpr ?_)
    calc value bound eBound < value (2 ^ 52) (e + n) :=
          value_lt_of_lt hbound le_rfl (not_le.mp hlt)
      _ = value (2 ^ 52 * 2 ^ n) e := value_add _ _ _
      _ ≤ value m e := value_le_iff.mpr (hdigits (by omega))
  obtain ⟨k, rfl⟩ : ∃ k : Nat, eBound = e + n + k := ⟨(eBound - (e + n)).toNat, by omega⟩
  rw [value_add bound, value_add, value_le_iff] at h
  rw [value_add bound, value_le_iff]
  exact roundedMantissa_shiftRight_le h

end FirstShift

/-- Zero, or a positive double that is at most a bound. -/
inductive AtMost (bound : ℚ) : UnpackedFloat → Prop
  | zero : AtMost bound (.zero .positive)
  | finite {m : Nat} {e : Int} {hm : 0 < m} (canonical : Canonical m e)
      (le : value m e ≤ bound) : AtMost bound (.finite .positive m e hm)

/-- Rounding does not pass a bound that is a double. -/
theorem roundWithAccuracy_atMost {m bound : Nat} {e eBound : Int} (hbound : bound < 2 ^ 53)
    (heBound : -1074 ≤ eBound) (hfull : -1074 < e → 2 ^ 52 ≤ m)
    (h : value m e ≤ value bound eBound) :
    AtMost (value bound eBound) (roundWithAccuracy .binary64 .positive m e .exact) := by
  obtain ⟨n, hn⟩ : ∃ n, (max (m.log2 + e - 52) (-1074) - e).toNat = n := ⟨_, rfl⟩
  have hdigits : -1074 < e + n → 2 ^ 52 * 2 ^ n ≤ m := two_pow_le_of_shift hn hfull
  have hle := value_roundedMantissa_le hbound heBound hdigits h
  have hr53 := roundedMantissa_le_two_pow hn
  have hr52 : -1074 < e + n → 2 ^ 52 ≤ (exactMantissa m >>> n).roundedMantissa := fun hlt =>
    two_pow_le_roundedMantissa (hdigits hlt)
  unfold roundWithAccuracy
  rw [shiftToTargetExponent_exact hn]
  dsimp only
  generalize (exactMantissa m >>> n).roundedMantissa = r at hle hr53 hr52
  rcases hr53.lt_or_eq with hlt | rfl
  · rw [shiftToTargetExponent_of_lt hlt (by omega)]
    dsimp only
    split
    · exact .zero
    · exact .finite ⟨⟨hlt, by omega⟩, hr52⟩ hle
  · rw [shiftToTargetExponent_carry (by omega)]
    have hcarry : value (2 ^ 52) (e + n + 1) = value (2 ^ 53) (e + n) := value_add (2 ^ 52) _ 1
    rw [← hcarry] at hle
    exact .finite (m := 2 ^ 52) ⟨⟨by decide, by omega⟩, fun _ => le_rfl⟩ hle

/-- Packing keeps what is at most a bound that does not overflow. -/
theorem unpack_pack_atMost {m : Nat} {e : Int} {u : UnpackedFloat} (hm : m < 2 ^ 53)
    (he : e ≤ 971) (h : AtMost (value m e) u) :
    (Float.Model.pack u).unpack = u := by
  cases h with
  | zero => exact unpack_pack_zero .positive
  | @finite m' e' hm' hcanonical hle =>
    refine unpack_pack_of_canonical hm' hcanonical ?_
    by_contra hlt
    exact absurd hle (not_le.mpr (value_lt_of_lt hm (hcanonical.full (by omega)) (by omega)))

/-! ## Products -/

theorem unpack_mul (a b : Float) :
    (a * b).toModel.unpack =
      (Float.Model.pack (UnpackedFloat.mul .binary64 a.toModel.unpack b.toModel.unpack)).unpack :=
  rfl

/-- **Products**. If the exact product of a bound of the first factor with the second factor is at
most a double, so is the rounded product. One of the two factors has all its digits. -/
theorem mul_atMost {a b : Float} {boundA : ℚ} {m bound : Nat} {e eBound : Int} {hm : 0 < m}
    (ha : AtMost boundA a.toModel.unpack) (hb : b.toModel.unpack = .finite .positive m e hm)
    (hfull : 2 ^ 52 ≤ m)
    (hbound : bound < 2 ^ 53) (heBound : -1074 ≤ eBound) (heBound' : eBound ≤ 971)
    (h : boundA * value m e ≤ value bound eBound) :
    AtMost (value bound eBound) (a * b).toModel.unpack := by
  have hproduct : AtMost (value bound eBound)
      (UnpackedFloat.mul .binary64 a.toModel.unpack b.toModel.unpack) := by
    rw [hb]
    generalize a.toModel.unpack = u at ha
    cases ha with
    | zero => exact .zero
    | @finite m' e' hm' hcanonical hle =>
      refine roundWithAccuracy_atMost hbound heBound ?_ ?_
      · intro _
        exact hfull.trans (Nat.le_mul_of_pos_left m hm')
      · rw [value_mul]
        refine le_trans (mul_le_mul_of_nonneg_right hle ?_) h
        rw [value]
        positivity
  rw [unpack_mul, unpack_pack_atMost hbound heBound' hproduct]
  exact hproduct

theorem AtMost.zero_le {x : Float} {bound : ℚ} (h : AtMost bound x.toModel.unpack) : 0 ≤ x := by
  apply zero_le_of_hasSign
  generalize x.toModel.unpack = u at h
  cases h <;> rfl

/-- A double that is at most a bound is below every positive double that exceeds the bound. -/
theorem lt_of_atMost {x total : Float} {bound : ℚ} {m : Nat} {e : Int} {hm : 0 < m}
    (hx : AtMost bound x.toModel.unpack) (htotal : total.toModel.unpack = .finite .positive m e hm)
    (h : bound < value m e) : x < total := by
  have hcanonical := (canonical_of_unpack htotal).1
  rw [lt_iff, htotal]
  generalize x.toModel.unpack = u at hx
  cases hx with
  | zero => exact ⟨_, rfl, _, rfl, by simp [Prod.Lex.toLex_lt_toLex, Sign.apply]⟩
  | @finite m' e' hm' hcanonical' hle =>
    refine ⟨_, rfl, _, rfl, ?_⟩
    have hlt := hle.trans_lt h
    have hlex : e' < e ∨ e' = e ∧ m' < m := by
      rcases lt_trichotomy e' e with hlower | rfl | hhigher
      · exact .inl hlower
      · exact .inr ⟨rfl, value_lt_iff.mp hlt⟩
      · have hle' := hcanonical.le
        exact absurd (value_lt_of_lt hcanonical.lt (hcanonical'.full (by omega)) hhigher)
          hlt.not_gt
    simpa [Prod.Lex.toLex_lt_toLex, Sign.apply] using hlex

theorem mul_nonneg {a b : Float} (ha : 0 ≤ a) (hb : 0 < b) (hfinite : b.isFinite) : 0 ≤ a * b := by
  obtain ⟨m, e, hm, hunpack⟩ := exists_of_zero_lt hb hfinite
  rcases zero_le_iff.mp ha with hpositive | hzero
  · apply zero_le_of_hasSign
    rw [unpack_mul, hunpack]
    apply unpack_pack_hasSign
    cases hfactor : a.toModel.unpack with
    | notANumber => rw [hfactor] at hpositive; exact hpositive.elim
    | infinity s => rw [hfactor] at hpositive; obtain rfl : s = .positive := hpositive; rfl
    | zero s => rw [hfactor] at hpositive; exact hpositive.elim
    | finite s m' e' hm' =>
      rw [hfactor] at hpositive
      obtain rfl : s = .positive := hpositive.1
      exact roundWithAccuracy_hasSign _ _ _ _
  · rw [zero_le_iff, unpack_mul, hunpack]
    refine .inr (unpack_pack_isZero ?_)
    cases hfactor : a.toModel.unpack with
    | zero s => trivial
    | notANumber | infinity _ | finite _ _ _ _ => rw [hfactor] at hzero; exact hzero.elim

/-! ## Natural numbers and quotients -/

/-- A positive number below `2 ^ 53` has a mantissa with all digits. -/
theorem exists_canonical {n : Nat} (hpos : 0 < n) (hn : n < 2 ^ 53) :
    ∃ k : Nat, k ≤ 52 ∧ n.log2 + k = 52 ∧ Canonical (n * 2 ^ k) (-k) := by
  have hlog : n.log2 < 53 := (Nat.log2_lt (Nat.ne_of_gt hpos)).mpr hn
  obtain ⟨k, hk⟩ : ∃ k, n.log2 + k = 52 := ⟨52 - n.log2, by omega⟩
  refine ⟨k, by omega, hk, ⟨⟨?_, by omega⟩, fun _ => ?_⟩⟩
  · calc n * 2 ^ k < 2 ^ (n.log2 + 1) * 2 ^ k :=
        Nat.mul_lt_mul_of_pos_right Nat.lt_log2_self (by positivity)
      _ = 2 ^ 53 := by rw [← Nat.pow_add, Nat.add_right_comm, hk]
  · calc 2 ^ 52 = 2 ^ n.log2 * 2 ^ k := by rw [← Nat.pow_add, hk]
      _ ≤ n * 2 ^ k := Nat.mul_le_mul_right _ (Nat.log2_self_le (Nat.ne_of_gt hpos))

/-- A natural number below `2 ^ 53` is a double. -/
theorem unpack_ofNat {n : Nat} (hpos : 0 < n) (hn : n < 2 ^ 53) :
    ∃ (k : Nat) (hm : 0 < n * 2 ^ k), k ≤ 52 ∧ Canonical (n * 2 ^ k) (-k) ∧
      (Float.ofNat n).toModel.unpack = .finite .positive (n * 2 ^ k) (-k) hm := by
  obtain ⟨k, hk, hlog, hcanonical⟩ := exists_canonical hpos hn
  have hm : 0 < n * 2 ^ k := by positivity
  have hunpack := unpack_pack_of_canonical (s := .positive) hm hcanonical (by omega)
  refine ⟨k, hm, hk, hcanonical, ?_⟩
  have hconvert : (UInt64.toFloat n.toUInt64).toModel.unpack =
      .finite .positive (n * 2 ^ k) (-k : Int) hm := by
    have hword : n.toUInt64.toNat = n := Nat.mod_eq_of_lt (hn.trans (by decide))
    have hround := roundWithAccuracy_of_canonical (s := .positive) hm hcanonical 0
    rw [Nat.pow_zero, Nat.mul_one, Int.natCast_zero, Int.sub_zero] at hround
    show (Float.Model.pack (UnpackedFloat.ofInt .binary64 (n.toUInt64.toNat : Int))).unpack = _
    rw [hword, UnpackedFloat.ofInt, normalize_of_pos hpos, UnpackedFloat.round, targetExponent_eq,
      decreaseExponent, show (0 - max ((n.log2 : Int) + 0 - 52) (-1074)).toNat = k by omega,
      Nat.shiftLeft_eq, Int.zero_sub]
    dsimp only
    rw [hround, hunpack]
  have hproduct : Float.ofNat n = UInt64.toFloat n.toUInt64 * 1 := by
    show Float.ofScientific n false 0 = _
    rw [Float.ofScientific, dif_pos ⟨hn, by decide⟩]
    rfl
  have hone : (1 : Float).toModel.unpack = .finite .positive (2 ^ 52) (-52) (by decide) := rfl
  have hround := roundWithAccuracy_of_canonical (s := .positive) hm hcanonical 52
  rw [hproduct, unpack_mul, hconvert, hone, UnpackedFloat.mul]
  rw [← hunpack, ← hround]
  rfl

theorem unpack_div (a b : Float) :
    (a / b).toModel.unpack =
      (Float.Model.pack (UnpackedFloat.div .binary64 a.toModel.unpack b.toModel.unpack)).unpack :=
  rfl

/-- A quotient by `2 ^ 52` is exact if its exponent is not too low. -/
theorem div_two_pow {m : Nat} {e : Int} (hm : 0 < m) (h : Canonical m e) (he : -1021 ≤ e) :
    UnpackedFloat.div .binary64 (.finite .positive m e hm)
        (.finite .positive (2 ^ 52) 0 (by decide)) =
      .finite .positive m (e - 52) hm := by
  have hfull := h.full (by omega)
  have hcanonical : Canonical m (e - 52) := ⟨⟨h.lt, by omega⟩, fun _ => hfull⟩
  have hcore : divCore .binary64 m e (2 ^ 52) 0 = (m * 2 ^ 1, e - 52 - 1, .exact) := by
    have htarget : Format.binary64.targetExponent
        (totalExponent m e - totalExponent (2 ^ 52) 0) = e - 52 - 1 := by
      rw [totalExponent, totalExponent, log2_eq hfull h.lt, Nat.log2_two_pow]
      simp only [Format.targetExponent, Format.mantissaBits, Format.minExponent]
      norm_num
      omega
    have hquotient : m * 2 ^ 53 = 2 ^ 52 * (m * 2 ^ 1) := by ring
    rw [divCore, htarget, Int.sub_zero, min_eq_right (by omega),
      show (e - (e - 52 - 1)).toNat = 53 by omega, Nat.shiftLeft_eq, hquotient,
      Nat.mul_div_cancel_left _ (by decide), Nat.mul_mod_right]
    rfl
  unfold UnpackedFloat.div
  dsimp only
  rw [hcore]
  exact roundWithAccuracy_of_canonical hm hcanonical 1

end Mixtures.Double
