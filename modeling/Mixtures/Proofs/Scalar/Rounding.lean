import Mixtures.Proofs.Scalar.Nearest

/-!
# Sums and differences of doubles

A finite double is a whole number of units, which are smallest positive doubles. In these terms the
order of doubles is that of whole numbers, and a sum or difference of finite doubles is the exact
one, rounded to the nearest representable number and cut off at infinity.

* `le_iff_units`: the order.
* `units_add`, `units_sub`: sums and differences.
-/

namespace Mixtures.Double

open Float.Model Float.Model.UnpackedFloat

/-! ## Rounding mantissas -/

/-- A mantissa and an exponent, in units. -/
def magnitude (m : Nat) (e : Int) : Nat := m * 2 ^ (e + 1074).toNat

theorem magnitude_shift {m : Nat} {e : Int} {k : Nat} (h : -1074 ≤ e - k) :
    magnitude (m * 2 ^ k) (e - k) = magnitude m e := by
  rw [magnitude, magnitude, Nat.mul_assoc, ← Nat.pow_add,
    show k + (e - k + 1074).toNat = (e + 1074).toNat by omega]

theorem shiftRight_add (em : ExtendedMantissa) (j n : Nat) : em >>> (j + n) = em >>> j >>> n := by
  induction n with
  | zero => rfl
  | succ n ih => exact congrArg ExtendedMantissa.shiftRightOne ih

/-- Rounding a mantissa with all its digits, or the least exponent, rounds the number of units. -/
theorem roundWithAccuracy_magnitude (s : Sign) {m : Nat} {e : Int} (hm : 0 < m) (he : -1074 ≤ e)
    (hfull : -1074 < e → 2 ^ 52 ≤ m) :
    ∃ (m' : Nat) (e' : Int) (hm' : 0 < m'),
      roundWithAccuracy .binary64 s m e .exact = .finite s m' e' hm' ∧ Canonical m' e' ∧
        magnitude m' e' = nearest (magnitude m e) := by
  obtain ⟨j, rfl⟩ : ∃ j : Nat, e = j - 1074 := ⟨(e + 1074).toNat, by omega⟩
  obtain ⟨n, hn⟩ : ∃ n, (max ((m.log2 : Int) + (j - 1074) - 52) (-1074) - (j - 1074)).toNat = n :=
    ⟨_, rfl⟩
  have hdigits : -1074 < ((j - 1074 : Int) + n) → 2 ^ 52 * 2 ^ n ≤ m := two_pow_le_of_shift hn hfull
  have hr53 := roundedMantissa_le_two_pow hn
  have hr52 : -1074 < ((j - 1074 : Int) + n) → 2 ^ 52 ≤ (exactMantissa m >>> n).roundedMantissa :=
    fun hlt => two_pow_le_roundedMantissa (hdigits hlt)
  have hpos : 0 < (exactMantissa m >>> n).roundedMantissa := by
    obtain ⟨hpos, -⟩ := shiftToTargetExponent_spec hm he .exact
    rw [shiftToTargetExponent_exact hn] at hpos
    exact hpos.trans_le (mantissa_le_roundedMantissa _)
  have hnearest : nearest (magnitude m (j - 1074)) =
      (exactMantissa m >>> n).roundedMantissa * 2 ^ (j + n) := by
    have hlong : 0 < j → 52 ≤ m.log2 := fun hj =>
      (Nat.le_log2 (Nat.ne_of_gt hm)).mpr (hfull (by omega))
    have hshift : (magnitude m (j - 1074)).log2 - 52 = j + n := by
      rw [magnitude, log2_mul_two_pow (Nat.ne_of_gt hm)]
      omega
    rw [nearest, hshift, shiftRight_add, magnitude,
      show ((j : Int) - 1074 + 1074).toNat = j by omega, exactMantissa_shiftRight]
  rw [hnearest]
  unfold roundWithAccuracy
  rw [shiftToTargetExponent_exact hn]
  dsimp only
  generalize (exactMantissa m >>> n).roundedMantissa = r at hr53 hr52 hpos
  rcases hr53.lt_or_eq with hlt | rfl
  · rw [shiftToTargetExponent_of_lt hlt (by omega)]
    refine ⟨r, j - 1074 + n, hpos, dif_neg (Nat.ne_of_gt hpos), ⟨⟨hlt, by omega⟩, hr52⟩, ?_⟩
    rw [magnitude, show ((j : Int) - 1074 + n + 1074).toNat = j + n by omega]
  · rw [shiftToTargetExponent_carry (by omega)]
    have hlong : (2 : Nat) ^ 52 ≠ 0 := by decide
    refine ⟨2 ^ 52, j - 1074 + n + 1, by decide, dif_neg hlong,
      ⟨⟨by decide, by omega⟩, fun _ => le_rfl⟩, ?_⟩
    rw [magnitude, show ((j : Int) - 1074 + n + 1 + 1074).toNat = j + n + 1 by omega]
    ring

/-- **Rounding** a mantissa with any exponent that a double can have. -/
theorem round_magnitude (s : Sign) {m : Nat} {e : Int} (hm : 0 < m) (he : -1074 ≤ e) :
    ∃ (m' : Nat) (e' : Int) (hm' : 0 < m'),
      UnpackedFloat.round .binary64 s m e = .finite s m' e' hm' ∧ Canonical m' e' ∧
        magnitude m' e' = nearest (magnitude m e) := by
  unfold UnpackedFloat.round decreaseExponent
  rw [targetExponent_eq]
  dsimp only
  obtain ⟨k, hk⟩ : ∃ k, (e - max ((m.log2 : Int) + e - 52) (-1074)).toNat = k := ⟨_, rfl⟩
  rw [hk, Nat.shiftLeft_eq]
  rw [← magnitude_shift (m := m) (e := e) (k := k) (by omega)]
  refine roundWithAccuracy_magnitude s (by positivity) (by omega) fun hlt => ?_
  -- digits are only missing at the least exponent
  have hlog : 52 ≤ (m * 2 ^ k).log2 := by
    rw [log2_mul_two_pow (Nat.ne_of_gt hm)]
    omega
  exact (Nat.le_log2 (by positivity)).mp hlog

/-! ## Doubles in units -/

/-- The number of units that stands for infinity, `2 ^ 2098`. -/
@[irreducible]
def limit : Nat := 2 ^ 53 * 2 ^ 2045

theorem limit_pos : 0 < limit := by
  unfold limit
  generalize 2045 = n
  positivity

/-- The number of units of a double. -/
def units : UnpackedFloat → Int
  | .notANumber => 0
  | .infinity s => s.apply limit
  | .zero _ => 0
  | .finite s m e _ => s.apply (magnitude m e)

/-- What is unpacked from a finite double. -/
def Rounded : UnpackedFloat → Prop
  | .zero _ => True
  | .finite _ m e _ => Canonical m e ∧ e ≤ 971
  | _ => False

theorem magnitude_lt_limit {m : Nat} {e : Int} (h : Canonical m e) (he : e ≤ 971) :
    magnitude m e < limit := by
  have hexponent : (e + 1074).toNat ≤ 2045 := by omega
  unfold limit
  generalize 2045 = n at hexponent
  calc m * 2 ^ (e + 1074).toNat < 2 ^ 53 * 2 ^ (e + 1074).toNat :=
        Nat.mul_lt_mul_of_pos_right h.lt (by positivity)
    _ ≤ 2 ^ 53 * 2 ^ n := Nat.mul_le_mul_left _ (Nat.pow_le_pow_right (by decide) hexponent)

theorem limit_le_magnitude {m : Nat} {e : Int} (h : Canonical m e) (he : 971 < e) :
    limit ≤ magnitude m e := by
  have hexponent : 2045 + 1 ≤ (e + 1074).toNat := by omega
  unfold limit
  generalize 2045 = n at hexponent
  calc 2 ^ 53 * 2 ^ n = 2 ^ 52 * 2 ^ (n + 1) := by ring
    _ ≤ m * 2 ^ (e + 1074).toNat :=
        Nat.mul_le_mul (h.full (by omega)) (Nat.pow_le_pow_right (by decide) hexponent)

theorem unpack_pack_infinity (s : Sign) :
    (Float.Model.pack (.infinity s)).unpack = .infinity s := by
  cases s <;> rfl

/-- What is too large is packed as infinity. -/
theorem unpack_pack_of_overflow {s : Sign} {m : Nat} {e : Int} (hm : 0 < m) (he : 971 < e) :
    (Float.Model.pack (.finite s m e hm)).unpack = .infinity s := by
  have hpack : UnpackedFloat.pack .binary64 (.finite s m e hm) =
      UnpackedFloat.pack .binary64 (.infinity s) := by
    have hbiased : 2048 ≤ (e + (1023 : Nat) + (52 : Nat)).toNat + 1 := by omega
    exact if_pos hbiased
  show UnpackedFloat.unpack .binary64 (UnpackedFloat.pack .binary64 _) = _
  rw [hpack]
  exact unpack_pack_infinity s

/-- A number of units, cut off at infinity. -/
def cut (z : Int) : Int := max (-limit) (min z limit)

theorem cut_mono {z w : Int} (h : z ≤ w) : cut z ≤ cut w :=
  max_le_max le_rfl (min_le_min h le_rfl)

theorem cut_of_lt {z : Int} (h : z.natAbs < limit) : cut z = z := by
  unfold cut
  omega

/-- What is not cut to infinity is not cut at all. -/
theorem eq_of_cut_lt {z : Int} (h : (cut z).natAbs < limit) : cut z = z := by
  unfold cut at h ⊢
  omega

theorem representable_magnitude {m : Nat} {e : Int} (h : Canonical m e) :
    Representable (magnitude m e) := ⟨m, _, h.lt, rfl⟩

theorem natAbs_apply (s : Sign) (n : Nat) : (s.apply n).natAbs = n := by
  cases s with
  | negative => exact Int.natAbs_neg n
  | positive => rfl

/-- A finite double is representable. -/
theorem Rounded.representable {u : UnpackedFloat} (h : Rounded u) :
    Representable (units u).natAbs := by
  cases u with
  | zero s => exact representable_zero
  | finite s m e hm =>
    rw [units, natAbs_apply]
    exact representable_magnitude h.1
  | notANumber | infinity _ => exact h.elim

theorem Rounded.lt_limit {u : UnpackedFloat} (h : Rounded u) : (units u).natAbs < limit := by
  cases u with
  | zero s => exact limit_pos
  | finite s m e hm =>
    rw [units, natAbs_apply]
    exact magnitude_lt_limit h.1 h.2
  | notANumber | infinity _ => exact h.elim

/-- So rounding leaves it as it is. -/
theorem Rounded.cut_nearestInt {u : UnpackedFloat} (h : Rounded u) :
    cut (nearestInt (units u)) = units u := by
  rw [nearestInt_of_representable h.representable, cut_of_lt h.lt_limit]

theorem Rounded.unpack_pack {u : UnpackedFloat} (h : Rounded u) :
    (Float.Model.pack u).unpack = u := by
  cases u with
  | zero s => exact unpack_pack_zero s
  | finite s m e hm => exact unpack_pack_of_canonical hm h.1 h.2
  | notANumber | infinity _ => exact h.elim

/-- A number, with so many units. -/
def HasUnits (z : Int) (u : UnpackedFloat) : Prop := u ≠ .notANumber ∧ units u = z

/-- Packing cuts a number off at infinity. -/
theorem hasUnits_pack {s : Sign} {m : Nat} {e : Int} (hm : 0 < m) (h : Canonical m e) :
    HasUnits (cut (s.apply (magnitude m e))) (Float.Model.pack (.finite s m e hm)).unpack := by
  rcases le_or_gt e 971 with he | he
  · rw [unpack_pack_of_canonical hm h he]
    have hlt := magnitude_lt_limit h he
    rw [cut_of_lt (by rwa [natAbs_apply])]
    exact ⟨nofun, rfl⟩
  · rw [unpack_pack_of_overflow hm he]
    have hle := limit_le_magnitude h he
    refine ⟨nofun, ?_⟩
    cases s with
    | negative =>
      show -(limit : Int) = cut (-(magnitude m e : Int))
      unfold cut
      omega
    | positive =>
      show (limit : Int) = cut (magnitude m e : Int)
      unfold cut
      omega

theorem nearestInt_apply (s : Sign) (n : Nat) : nearestInt (s.apply n) = s.apply (nearest n) := by
  cases s with
  | negative => exact (nearestInt_neg n).trans (congrArg _ (nearestInt_natCast n))
  | positive => exact nearestInt_natCast n

theorem hasUnits_round (s : Sign) {m : Nat} {e : Int} (hm : 0 < m) (he : -1074 ≤ e) :
    HasUnits (cut (nearestInt (s.apply (magnitude m e))))
      (Float.Model.pack (UnpackedFloat.round .binary64 s m e)).unpack := by
  obtain ⟨m', e', hm', hround, hcanonical, hmagnitude⟩ := round_magnitude s hm he
  rw [hround, nearestInt_apply, ← hmagnitude]
  exact hasUnits_pack hm' hcanonical

theorem normalize_of_neg {m : Nat} (hm : 0 < m) (e : Int) (s : Sign) :
    UnpackedFloat.normalize .binary64 (-m) e s = UnpackedFloat.round .binary64 .negative m e := by
  have hcompare : compare (-(m : Int)) 0 = .lt := compare_lt_iff_lt.mpr (by omega)
  rw [UnpackedFloat.normalize, hcompare, Int.neg_neg]
  rfl

/-- **Rounding** an exact result. -/
theorem hasUnits_normalize (z : Int) {e : Int} (he : -1074 ≤ e) :
    HasUnits (cut (nearestInt (z * 2 ^ (e + 1074).toNat)))
      (Float.Model.pack (UnpackedFloat.normalize .binary64 z e .positive)).unpack := by
  obtain ⟨n, hn⟩ := Int.eq_nat_or_neg z
  rcases Nat.eq_zero_or_pos n with rfl | hpos
  · obtain rfl : z = 0 := by omega
    have hzero : UnpackedFloat.normalize .binary64 0 e .positive = .zero .positive := rfl
    have hcut : cut (nearestInt 0) = 0 := Rounded.cut_nearestInt (u := .zero .positive) trivial
    rw [hzero, unpack_pack_zero, Int.zero_mul, hcut]
    exact ⟨nofun, rfl⟩
  · rcases hn with rfl | rfl
    · rw [normalize_of_pos hpos]
      have hround := hasUnits_round .positive hpos he
      simpa only [magnitude, Sign.apply, Nat.cast_mul, Nat.cast_pow, Nat.cast_ofNat] using hround
    · rw [normalize_of_neg hpos, Int.neg_mul]
      have hround := hasUnits_round .negative hpos he
      simpa only [magnitude, Sign.apply, Nat.cast_mul, Nat.cast_pow, Nat.cast_ofNat] using hround

/-! ## Sums and differences -/

/-- Digits and exponent of a finite number, brought to a lower exponent. -/
theorem decreaseExponent_units (s : Sign) {m : Nat} {e e' : Int} (he' : -1074 ≤ e') (h : e' ≤ e) :
    s.apply (decreaseExponent m e e').1 * 2 ^ (e' + 1074).toNat = s.apply (magnitude m e) := by
  obtain ⟨k, rfl⟩ : ∃ k : Nat, e' = e - k := ⟨(e - e').toNat, by omega⟩
  have hshift : (decreaseExponent m e (e - k)).1 = m * 2 ^ k := by
    rw [decreaseExponent, show (e - (e - k)).toNat = k by omega, Nat.shiftLeft_eq]
  rw [hshift, ← magnitude_shift he', magnitude]
  cases s with
  | negative =>
    show -((m * 2 ^ k : Nat) : Int) * _ = -((m * 2 ^ k * 2 ^ (e - k + 1074).toNat : Nat) : Int)
    push_cast
    ring
  | positive =>
    show ((m * 2 ^ k : Nat) : Int) * _ = ((m * 2 ^ k * 2 ^ (e - k + 1074).toNat : Nat) : Int)
    push_cast
    ring

/-- A finite double has its own number of units, rounded or not. -/
theorem Rounded.hasUnits {u : UnpackedFloat} (h : Rounded u) :
    HasUnits (cut (nearestInt (units u))) (Float.Model.pack u).unpack := by
  rw [h.cut_nearestInt, h.unpack_pack]
  refine ⟨?_, rfl⟩
  rintro rfl
  exact h

theorem units_zero (s : Sign) : units (.zero s) = 0 := rfl

/-- **The sum of finite doubles** is the exact one, rounded and cut off. -/
theorem hasUnits_add {u v : UnpackedFloat} (hu : Rounded u) (hv : Rounded v) :
    HasUnits (cut (nearestInt (units u + units v)))
      (Float.Model.pack (UnpackedFloat.add .binary64 u v)).unpack := by
  cases u with
  | notANumber | infinity _ => exact hu.elim
  | zero s =>
    rw [units_zero, Int.zero_add]
    cases v with
    | notANumber | infinity _ => exact hv.elim
    | zero s' =>
      obtain ⟨s'', hsum⟩ : ∃ s'', UnpackedFloat.add .binary64 (.zero s) (.zero s') = .zero s'' := by
        cases s <;> cases s' <;> exact ⟨_, rfl⟩
      rw [hsum, units_zero, ← units_zero s'']
      exact Rounded.hasUnits (u := .zero s'') trivial
    | finite s' m' e' hm' =>
      have hsum : UnpackedFloat.add .binary64 (.zero s) (.finite s' m' e' hm') =
          .finite s' m' e' hm' := rfl
      rw [hsum]
      exact hv.hasUnits
  | finite s m e hm =>
    cases v with
    | notANumber | infinity _ => exact hv.elim
    | zero s' =>
      have hsum : UnpackedFloat.add .binary64 (.finite s m e hm) (.zero s') = .finite s m e hm :=
        rfl
      rw [units_zero, Int.add_zero, hsum]
      exact hu.hasUnits
    | finite s' m' e' hm' =>
      have hmin : -1074 ≤ min e e' := le_min hu.1.le hv.1.le
      have hround := hasUnits_normalize
        (s.apply (decreaseExponent m e (min e e')).1 +
          s'.apply (decreaseExponent m' e' (min e e')).1) hmin
      rw [Int.add_mul, decreaseExponent_units s hmin (min_le_left e e'),
        decreaseExponent_units s' hmin (min_le_right e e')] at hround
      exact hround

theorem apply_neg (s : Sign) (z : Int) : (-s).apply z = -s.apply z := by
  cases s with
  | negative => exact (Int.neg_neg z).symm
  | positive => rfl

/-- A difference is the sum with the opposite. -/
theorem sub_eq_add_neg (u v : UnpackedFloat) :
    UnpackedFloat.sub .binary64 u v = UnpackedFloat.add .binary64 u v.neg := by
  cases u with
  | notANumber => rfl
  | infinity s => cases v <;> rfl
  | zero s => cases v <;> rfl
  | finite s m e hm =>
    cases v with
    | finite s' m' e' hm' =>
      dsimp only [UnpackedFloat.sub, UnpackedFloat.add, UnpackedFloat.neg]
      rw [apply_neg, Int.sub_eq_add_neg]
    | notANumber | infinity _ | zero _ => rfl

theorem units_neg (v : UnpackedFloat) : units v.neg = -units v := by
  cases v with
  | notANumber | zero _ => rfl
  | infinity s => exact apply_neg s limit
  | finite s m e hm => exact apply_neg s (magnitude m e)

theorem Rounded.neg {v : UnpackedFloat} (h : Rounded v) : Rounded v.neg := by
  cases v with
  | zero _ => trivial
  | finite _ _ _ _ => exact h
  | notANumber | infinity _ => exact h.elim

/-! ## The order -/

/-- What is unpacked from a double: a finite one is canonical and not too large. -/
def Unpacked : UnpackedFloat → Prop
  | .finite _ m e _ => Canonical m e ∧ e ≤ 971
  | _ => True

/-- Canonical doubles are ordered by their exponents first. -/
theorem magnitude_lt_iff {m m' : Nat} {e e' : Int} (h : Canonical m e) (h' : Canonical m' e') :
    magnitude m e < magnitude m' e' ↔ e < e' ∨ e = e' ∧ m < m' := by
  have hlower : ∀ {m m' : Nat} {e e' : Int}, Canonical m e → Canonical m' e' → e < e' →
      magnitude m e < magnitude m' e' := by
    intro m m' e e' h h' hlt
    have hle := h.le
    calc m * 2 ^ (e + 1074).toNat < 2 ^ 53 * 2 ^ (e + 1074).toNat :=
          Nat.mul_lt_mul_of_pos_right h.lt (by positivity)
      _ = 2 ^ 52 * 2 ^ ((e + 1074).toNat + 1) := by ring
      _ ≤ m' * 2 ^ (e' + 1074).toNat :=
          Nat.mul_le_mul (h'.full (by omega)) (Nat.pow_le_pow_right (by decide) (by omega))
  rcases lt_trichotomy e e' with hlt | rfl | hgt
  · exact iff_of_true (hlower h h' hlt) (.inl hlt)
  · rw [magnitude, magnitude, Nat.mul_lt_mul_right (Nat.two_pow_pos _)]
    omega
  · have hnot := hlower h' h hgt
    exact iff_of_false (by omega) (by omega)

/-- Places are ordered as numbers of units are. -/
theorem place_lt_iff {u v : UnpackedFloat} (hu : Unpacked u) (hv : Unpacked v)
    {x y : Int ×ₗ Int ×ₗ Int} (hx : place u = some x) (hy : place v = some y) :
    x < y ↔ units u < units v := by
  have hlimit := limit_pos
  have hbounds : ∀ {s m e hm}, Unpacked (.finite s m e hm) →
      0 < magnitude m e ∧ magnitude m e < limit := fun {s m e hm} h =>
    ⟨Nat.mul_pos hm (Nat.two_pow_pos _), magnitude_lt_limit h.1 h.2⟩
  cases u with
  | notANumber => cases hx
  | infinity s =>
    cases hx
    cases v with
    | notANumber => cases hy
    | infinity s' =>
      cases hy
      cases s <;> cases s' <;> simp [Prod.Lex.toLex_lt_toLex, units, Sign.apply]
      omega
    | zero s' =>
      cases hy
      cases s <;> simp [Prod.Lex.toLex_lt_toLex, units, Sign.apply]
      omega
    | finite s' m' e' hm' =>
      cases hy
      have hv := hbounds hv
      cases s <;> cases s' <;> simp [Prod.Lex.toLex_lt_toLex, units, Sign.apply] <;> omega
  | zero s =>
    cases hx
    cases v with
    | notANumber => cases hy
    | infinity s' =>
      cases hy
      cases s' <;> simp [Prod.Lex.toLex_lt_toLex, units, Sign.apply]
      omega
    | zero s' =>
      cases hy
      simp [units]
    | finite s' m' e' hm' =>
      cases hy
      have hv := hbounds hv
      cases s' <;> simp [Prod.Lex.toLex_lt_toLex, units, Sign.apply]
      omega
  | finite s m e hm =>
    cases hx
    have hu' := hbounds hu
    cases v with
    | notANumber => cases hy
    | infinity s' =>
      cases hy
      cases s <;> cases s' <;> simp [Prod.Lex.toLex_lt_toLex, units, Sign.apply] <;> omega
    | zero s' =>
      cases hy
      cases s <;> simp [Prod.Lex.toLex_lt_toLex, units, Sign.apply]
      omega
    | finite s' m' e' hm' =>
      cases hy
      have hv' := hbounds hv
      have hlt := magnitude_lt_iff hu.1 hv.1
      have hgt := magnitude_lt_iff hv.1 hu.1
      cases s <;> cases s' <;> simp [Prod.Lex.toLex_lt_toLex, units, Sign.apply] <;> omega

/-! ## Doubles -/

variable {a b c : Float}

/-- The number of units of a double. -/
def toUnits (a : Float) : Int := units a.toModel.unpack

/-- Not not-a-number. -/
def IsNumber (a : Float) : Prop := a.toModel.unpack ≠ .notANumber

theorem unpacked (a : Float) : Unpacked a.toModel.unpack := by
  cases hunpack : a.toModel.unpack with
  | finite s m e hm => exact canonical_of_unpack hunpack
  | notANumber | infinity _ | zero _ => trivial

theorem rounded_of_isFinite (h : Scalar.isFinite a = true) : Rounded a.toModel.unpack := by
  replace h : a.toModel.unpack.isFinite = true := h
  have hunpacked := unpacked a
  cases hunpack : a.toModel.unpack with
  | zero s => trivial
  | finite s m e hm =>
    rw [hunpack] at hunpacked
    exact hunpacked
  | notANumber | infinity _ =>
    rw [hunpack] at h
    cases h

theorem IsNumber.exists_place (h : IsNumber a) : ∃ x, place a.toModel.unpack = some x := by
  cases hunpack : a.toModel.unpack with
  | notANumber => exact absurd hunpack h
  | infinity _ | zero _ | finite _ _ _ _ => exact ⟨_, rfl⟩

/-- **The order of doubles** is that of whole numbers. -/
theorem le_iff_units (ha : IsNumber a) (hb : IsNumber b) : a ≤ b ↔ toUnits a ≤ toUnits b := by
  obtain ⟨x, hx⟩ := ha.exists_place
  obtain ⟨y, hy⟩ := hb.exists_place
  rw [le_iff, hx, hy, toUnits, toUnits, ← not_lt, ← place_lt_iff (unpacked b) (unpacked a) hy hx,
    not_lt]
  simp

theorem isNumber_of_le (h : a ≤ b) : IsNumber a ∧ IsNumber b := by
  obtain ⟨x, hx, y, hy, -⟩ := le_iff.mp h
  constructor
  · intro hnone
    rw [hnone] at hx
    cases hx
  · intro hnone
    rw [hnone] at hy
    cases hy

/-- The finite doubles among the numbers. -/
theorem isFinite_iff_units (h : IsNumber a) :
    Scalar.isFinite a = true ↔ (toUnits a).natAbs < limit := by
  refine ⟨fun hfinite => (rounded_of_isFinite hfinite).lt_limit, fun hlt => ?_⟩
  show a.toModel.unpack.isFinite = true
  unfold toUnits at hlt
  cases hunpack : a.toModel.unpack with
  | notANumber => exact absurd hunpack h
  | zero _ | finite _ _ _ _ => rfl
  | infinity s =>
    rw [hunpack, units, natAbs_apply] at hlt
    exact absurd hlt (lt_irrefl _)

theorem isNumber_of_isFinite (h : Scalar.isFinite a = true) : IsNumber a := by
  intro hnone
  replace h : a.toModel.unpack.isFinite = true := h
  rw [hnone] at h
  cases h

/-- **Sums**. -/
theorem units_add (ha : Scalar.isFinite a = true) (hb : Scalar.isFinite b = true) :
    IsNumber (a + b) ∧ toUnits (a + b) = cut (nearestInt (toUnits a + toUnits b)) := by
  have hsum := hasUnits_add (rounded_of_isFinite ha) (rounded_of_isFinite hb)
  rw [← unpack_add] at hsum
  exact hsum

theorem unpack_sub (a b : Float) :
    (a - b).toModel.unpack =
      (Float.Model.pack (UnpackedFloat.sub .binary64 a.toModel.unpack b.toModel.unpack)).unpack :=
  rfl

/-- **Differences**. -/
theorem units_sub (ha : Scalar.isFinite a = true) (hb : Scalar.isFinite b = true) :
    IsNumber (a - b) ∧ toUnits (a - b) = cut (nearestInt (toUnits a - toUnits b)) := by
  have hsum := hasUnits_add (rounded_of_isFinite ha) (rounded_of_isFinite hb).neg
  rw [← sub_eq_add_neg, units_neg, ← Int.sub_eq_add_neg, ← unpack_sub] at hsum
  exact hsum

end Mixtures.Double
