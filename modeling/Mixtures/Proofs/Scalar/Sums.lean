import Mixtures.Proofs.Scalar.Doubles

/-!
# Sums of doubles that are not negative

A sum of numbers that are zero or positive is zero exactly if all of them are. For doubles this
needs that no digit of a sum is lost at the lower end: two doubles are multiples of the smallest
positive one, and so is their sum, which rounding therefore does not turn to zero.

* `shiftToTargetExponent_spec`: shifting keeps a mantissa positive if its exponent is one that can
  be packed.
* `add_spec`: the sum of two doubles that are not negative.
* `instLawfulSumsFloat`: the laws of such sums.
-/

namespace Mixtures.Double

open Float.Model Float.Model.UnpackedFloat

/-! ## Positive numbers that can be packed -/

/-- The mantissa and the exponent of a number that can be packed. -/
structure Packable (m : Nat) (e : Int) : Prop where
  lt : m < 2 ^ 53
  le : -1074 ≤ e

/-- A positive number that can be packed, or infinity. -/
def Positive : UnpackedFloat → Prop
  | .infinity s => s = .positive
  | .finite s m e _ => s = .positive ∧ Packable m e
  | _ => False

/-- A zero of either sign. -/
def IsZero : UnpackedFloat → Prop
  | .zero _ => True
  | _ => False

/-- What is unpacked can be packed. -/
theorem packable_of_unpack {f : Float.Model} {s : Sign} {m : Nat} {e : Int} {hm : 0 < m}
    (h : f.unpack = .finite s m e hm) : Packable m e := by
  unfold Float.Model.unpack UnpackedFloat.unpack at h
  dsimp only at h
  split_ifs at h with hones hzero hexponent hmantissa
  · -- without the leading one, the exponent is the least one
    obtain ⟨-, rfl, rfl⟩ := UnpackedFloat.finite.inj h
    have hlt := (@unpackMantissa .binary64 f.toBits.toBitVec).isLt
    rw [hexponent]
    exact ⟨hlt.trans (by decide), by decide⟩
  · obtain ⟨-, rfl, rfl⟩ := UnpackedFloat.finite.inj h
    have hne : (@unpackExponent .binary64 f.toBits.toBitVec).toNat ≠ 0 := fun hzero =>
      hexponent (BitVec.eq_of_toNat_eq hzero)
    have hbias : Format.binary64.exponentBias = 1023 := by decide
    refine ⟨BitVec.isLt _, ?_⟩
    rw [hbias]
    show (-1074 : Int) ≤ _ - ((1023 : Nat) + 52 : Int)
    omega

theorem eq_zero_of_unpack_packComponents {s s' : Sign}
    {e : BitVec Format.binary64.exponentBits}
    {m : BitVec Format.binary64.mantissaBitsWithoutImplicit}
    (h : UnpackedFloat.unpack .binary64 (packComponents .binary64 s e m) = .zero s') :
    e = 0#_ ∧ m = 0#_ := by
  unfold UnpackedFloat.unpack at h
  simp only [unpackExponent_packComponents, unpackMantissa_packComponents] at h
  split_ifs at h with hones hmantissa hexponent hmantissa
  exact ⟨hexponent, hmantissa⟩

/-- A positive number is not packed as zero: it keeps a bit of its exponent or of its mantissa. -/
theorem unpack_pack_ne_zero {u : UnpackedFloat} (h : Positive u) (s : Sign) :
    (Float.Model.pack u).unpack ≠ .zero s := by
  have hinfinity : ∀ s', UnpackedFloat.unpack .binary64 (packedInfinity .binary64 s') ≠ .zero s :=
    fun s' hzero => absurd (eq_zero_of_unpack_packComponents hzero).1 (by decide)
  show UnpackedFloat.unpack .binary64 (UnpackedFloat.pack .binary64 u) ≠ .zero s
  cases u with
  | notANumber => exact h.elim
  | zero s' => exact h.elim
  | infinity s' => exact hinfinity s'
  | finite s' m e hm =>
    obtain ⟨-, hlt, hle⟩ := h
    have hbias : Format.binary64.exponentBias = 1023 := by decide
    unfold UnpackedFloat.pack
    dsimp only
    split_ifs with hlarge hnormal
    · exact hinfinity s'
    · intro hzero
      have hexponent := congrArg BitVec.toNat (eq_zero_of_unpack_packComponents hzero).1
      rw [BitVec.toNat_ofNat, hbias] at hexponent
      rw [hbias] at hlarge
      change (e + 1023 + 52).toNat % 2048 = 0 at hexponent
      change ¬2048 ≤ (e + 1023 + 52).toNat + 1 at hlarge
      omega
    · intro hzero
      have hmantissa := congrArg BitVec.toNat (eq_zero_of_unpack_packComponents hzero).2
      rw [BitVec.toNat_ofNat] at hmantissa
      change m % 2 ^ 52 = 0 at hmantissa
      change ¬m.log2 + 1 = 53 at hnormal
      -- a mantissa of fewer than 53 bits loses none of them
      have hlog : m.log2 < 53 := (Nat.log2_lt (Nat.ne_of_gt hm)).mpr hlt
      have hshort : m < 2 ^ 52 := (Nat.log2_lt (Nat.ne_of_gt hm)).mp (by omega)
      omega

/-- Packing keeps a positive number positive. -/
theorem unpack_pack_positive {u : UnpackedFloat} (h : Positive u) :
    Positive (Float.Model.pack u).unpack := by
  have hsign : HasSign .positive (Float.Model.pack u).unpack := by
    refine unpack_pack_hasSign ?_
    cases u with
    | infinity s => exact h
    | finite s m e hm => exact h.1
    | notANumber => exact h
    | zero s => exact h.elim
  cases hunpack : (Float.Model.pack u).unpack with
  | notANumber => rw [hunpack] at hsign; exact hsign
  | infinity s => rw [hunpack] at hsign; exact hsign
  | finite s m e hm =>
    rw [hunpack] at hsign
    exact ⟨hsign, packable_of_unpack hunpack⟩
  | zero s => exact absurd hunpack (unpack_pack_ne_zero h s)

/-! ## Rounding -/

theorem mantissa_shiftRight (em : ExtendedMantissa) (n : Nat) :
    (em >>> n).mantissa = em.mantissa / 2 ^ n := by
  induction n with
  | zero => exact (Nat.div_one _).symm
  | succ n ih =>
    show (em >>> n).mantissa / 2 = _
    rw [ih, Nat.div_div_eq_div_mul, Nat.pow_succ]

theorem mantissa_ofMantissaAndAccuracy (m : Nat) (accuracy : Accuracy) :
    (ExtendedMantissa.ofMantissaAndAccuracy m accuracy).mantissa = m := by
  rcases accuracy with _ | (_ | _ | _) <;> rfl

theorem mantissa_le_roundedMantissa (em : ExtendedMantissa) :
    em.mantissa ≤ em.roundedMantissa := by
  obtain ⟨m, (_ | _), (_ | _)⟩ := em <;>
    simp [ExtendedMantissa.roundedMantissa, ExtendedMantissa.accuracy, Accuracy.roundToNearestEven]

/-- The exponent that a mantissa is shifted to is one that can be packed, and no larger than needed
for the mantissa to fit. -/
theorem targetExponent_eq (m : Nat) (e : Int) :
    Format.binary64.targetExponent (totalExponent m e) = max (m.log2 + e - 52) (-1074) := by
  simp only [Format.targetExponent, totalExponent, Format.mantissaBits, Format.minExponent]
  norm_num
  omega

/-- Shifting a positive mantissa gives a positive one that can be packed. -/
theorem shiftToTargetExponent_spec {m : Nat} {e : Int} (hm : 0 < m) (he : -1074 ≤ e)
    (accuracy : Accuracy) :
    0 < (shiftToTargetExponent .binary64 m e accuracy).1.mantissa ∧
      Packable (shiftToTargetExponent .binary64 m e accuracy).1.mantissa
        (shiftToTargetExponent .binary64 m e accuracy).2 := by
  obtain ⟨n, hn⟩ : ∃ n, n = (max (m.log2 + e - 52) (-1074) - e).toNat := ⟨_, rfl⟩
  have hmantissa : (shiftToTargetExponent .binary64 m e accuracy).1.mantissa = m / 2 ^ n := by
    rw [shiftToTargetExponent, shiftToExponent, targetExponent_eq, ← hn, mantissa_shiftRight,
      mantissa_ofMantissaAndAccuracy]
  have hexponent : (shiftToTargetExponent .binary64 m e accuracy).2 = e + n := by
    rw [shiftToTargetExponent, shiftToExponent, targetExponent_eq, ← hn]
  rw [hmantissa, hexponent]
  have hlow : 2 ^ m.log2 ≤ m := Nat.log2_self_le (Nat.ne_of_gt hm)
  have hhigh : m < 2 ^ (m.log2 + 1) := Nat.lt_log2_self
  refine ⟨?_, ?_, by omega⟩
  · -- at most the digits below the leading one are lost
    have hpow : 2 ^ n ≤ m := (Nat.pow_le_pow_right (by decide) (by omega)).trans hlow
    exact Nat.div_pos hpow (by positivity)
  · rw [Nat.div_lt_iff_lt_mul (by positivity), ← Nat.pow_add]
    exact hhigh.trans_le (Nat.pow_le_pow_right (by decide) (by omega))

/-- Rounding a positive number that can be packed, but for the length of its mantissa, gives a
positive one. -/
theorem roundWithAccuracy_positive {m : Nat} {e : Int} (hm : 0 < m) (he : -1074 ≤ e)
    (accuracy : Accuracy) : Positive (roundWithAccuracy .binary64 .positive m e accuracy) := by
  obtain ⟨hpos, hpackable⟩ := shiftToTargetExponent_spec hm he accuracy
  unfold roundWithAccuracy
  generalize shiftToTargetExponent .binary64 m e accuracy = first at hpos hpackable
  obtain ⟨em, exponent⟩ := first
  have hrounded : 0 < em.roundedMantissa := hpos.trans_le (mantissa_le_roundedMantissa em)
  obtain ⟨hpos', hpackable'⟩ := shiftToTargetExponent_spec hrounded hpackable.le .exact
  dsimp only
  rw [dif_neg (Nat.ne_of_gt hpos')]
  exact ⟨rfl, hpackable'⟩

theorem round_positive {m : Nat} {e : Int} (hm : 0 < m) (he : -1074 ≤ e) :
    Positive (UnpackedFloat.round .binary64 .positive m e) := by
  unfold UnpackedFloat.round decreaseExponent
  rw [targetExponent_eq]
  dsimp only
  refine roundWithAccuracy_positive ?_ (by omega) .exact
  rw [Nat.shiftLeft_eq]
  positivity

/-! ## Addition -/

theorem normalize_of_pos {m : Nat} (hm : 0 < m) (e : Int) (s : Sign) :
    UnpackedFloat.normalize .binary64 m e s = UnpackedFloat.round .binary64 .positive m e := by
  have hcompare : compare (m : Int) 0 = .gt := compare_gt_iff_gt.mpr (Int.natCast_pos.mpr hm)
  rw [UnpackedFloat.normalize, hcompare]
  rfl

theorem add_positive {u v : UnpackedFloat} (hu : Positive u) (hv : Positive v ∨ IsZero v) :
    Positive (UnpackedFloat.add .binary64 u v) := by
  cases u with
  | notANumber => exact hu.elim
  | zero s => exact hu.elim
  | infinity s =>
    obtain rfl : s = .positive := hu
    cases v with
    | notANumber => exact hv.elim id id
    | infinity s' =>
      obtain rfl : s' = .positive := hv.elim id False.elim
      rfl
    | zero s' => rfl
    | finite s' m' e' hm' => rfl
  | finite s m e hm =>
    obtain ⟨rfl, hpackable⟩ := hu
    cases v with
    | notANumber => exact hv.elim id id
    | infinity s' => exact hv.elim id False.elim
    | zero s' => exact ⟨rfl, hpackable⟩
    | finite s' m' e' hm' =>
      obtain ⟨rfl, hpackable'⟩ := hv.resolve_right id
      have hpos : ∀ k k', 0 < m <<< k + m' <<< k' := by
        intro k k'
        rw [Nat.shiftLeft_eq, Nat.shiftLeft_eq]
        positivity
      unfold UnpackedFloat.add decreaseExponent
      dsimp only [Sign.apply]
      rw [← Int.natCast_add, normalize_of_pos (hpos _ _)]
      exact round_positive (hpos _ _) (le_min hpackable.le hpackable'.le)

theorem zero_add_positive {u v : UnpackedFloat} (hu : IsZero u) (hv : Positive v) :
    Positive (UnpackedFloat.add .binary64 u v) := by
  cases u with
  | zero s =>
    cases v with
    | notANumber => exact hv.elim
    | zero s' => exact hv.elim
    | infinity s' => exact hv
    | finite s' m' e' hm' => exact hv
  | notANumber | infinity _ | finite _ _ _ _ => exact hu.elim

theorem zero_add_zero {u v : UnpackedFloat} (hu : IsZero u) (hv : IsZero v) :
    IsZero (UnpackedFloat.add .binary64 u v) := by
  cases u with
  | zero s =>
    cases v with
    | zero s' =>
      rw [UnpackedFloat.add]
      split <;> trivial
    | notANumber | infinity _ | finite _ _ _ _ => exact hv.elim
  | notANumber | infinity _ | finite _ _ _ _ => exact hu.elim

theorem unpack_add (a b : Float) :
    (a + b).toModel.unpack =
      (Float.Model.pack (UnpackedFloat.add .binary64 a.toModel.unpack b.toModel.unpack)).unpack :=
  rfl

theorem zero_lt_iff {x : Float} : 0 < x ↔ Positive x.toModel.unpack := by
  have hzero : place (0 : Float).toModel.unpack = some (toLex (0, toLex (0, 0))) := rfl
  rw [lt_iff, hzero]
  cases hunpack : x.toModel.unpack with
  | notANumber => simp [place, Positive]
  | infinity s => cases s <;> simp [place, Positive, Sign.apply, Prod.Lex.toLex_lt_toLex]
  | zero s => simp [place, Positive]
  | finite s m e hm =>
    have hpackable := packable_of_unpack hunpack
    cases s <;> simp [place, Positive, Sign.apply, Prod.Lex.toLex_lt_toLex, hpackable]

theorem zero_le_iff {x : Float} :
    0 ≤ x ↔ Positive x.toModel.unpack ∨ IsZero x.toModel.unpack := by
  have hzero : place (0 : Float).toModel.unpack = some (toLex (0, toLex (0, 0))) := rfl
  rw [le_iff, hzero]
  cases hunpack : x.toModel.unpack with
  | notANumber => simp [place, Positive, IsZero]
  | infinity s => cases s <;> simp [place, Positive, IsZero, Sign.apply, Prod.Lex.toLex_le_toLex]
  | zero s => simp [place, Positive, IsZero]
  | finite s m e hm =>
    have hpackable := packable_of_unpack hunpack
    cases s <;> simp [place, Positive, IsZero, Sign.apply, Prod.Lex.toLex_le_toLex, hpackable]

theorem zero_le_of_hasSign {x : Float} (h : HasSign .positive x.toModel.unpack) : 0 ≤ x := by
  rw [zero_le_iff]
  cases hunpack : x.toModel.unpack with
  | notANumber => rw [hunpack] at h; exact h.elim
  | infinity s => rw [hunpack] at h; exact .inl h
  | zero s => exact .inr trivial
  | finite s m e hm => rw [hunpack] at h; exact .inl ⟨h, packable_of_unpack hunpack⟩

theorem unpack_pack_isZero {u : UnpackedFloat} (h : IsZero u) :
    IsZero (Float.Model.pack u).unpack := by
  cases u with
  | zero s =>
    rw [unpack_pack_zero]
    trivial
  | notANumber | infinity _ | finite _ _ _ _ => exact h.elim

theorem not_positive_of_isZero {u : UnpackedFloat} (h : IsZero u) : ¬Positive u := by
  cases u with
  | zero s => exact id
  | notANumber | infinity _ | finite _ _ _ _ => exact h.elim

/-- Doubles that are not negative have a sum that is not negative; it is positive exactly if one of
them is. -/
theorem add_spec {a b : Float} (ha : 0 ≤ a) (hb : 0 ≤ b) :
    0 ≤ a + b ∧ (0 < a + b ↔ 0 < a ∨ 0 < b) := by
  rw [zero_le_iff] at ha hb
  rw [zero_le_iff, zero_lt_iff, zero_lt_iff, zero_lt_iff, unpack_add]
  rcases ha with ha | ha
  · have hsum := unpack_pack_positive (add_positive ha hb)
    exact ⟨.inl hsum, fun _ => .inl ha, fun _ => hsum⟩
  · rcases hb with hb | hb
    · have hsum := unpack_pack_positive (zero_add_positive ha hb)
      exact ⟨.inl hsum, fun _ => .inr hb, fun _ => hsum⟩
    · have hsum := unpack_pack_isZero (zero_add_zero ha hb)
      exact ⟨.inr hsum, fun h => absurd h (not_positive_of_isZero hsum),
        fun h => h.elim (fun h => absurd h (not_positive_of_isZero ha))
          fun h => absurd h (not_positive_of_isZero hb)⟩

/-- A positive double does not change when a zero is added. -/
theorem add_of_isZero {a b : Float} (ha : 0 < a) (hb : IsZero b.toModel.unpack) : a + b = a := by
  rw [zero_lt_iff] at ha
  have hadd : UnpackedFloat.add .binary64 a.toModel.unpack b.toModel.unpack = a.toModel.unpack := by
    generalize a.toModel.unpack = u at ha
    generalize b.toModel.unpack = v at hb
    cases v with
    | zero s =>
      cases u with
      | infinity _ | finite _ _ _ _ => rfl
      | notANumber | zero _ => exact ha.elim
    | notANumber | infinity _ | finite _ _ _ _ => exact hb.elim
  have hpack : Float.Model.pack a.toModel.unpack = a.toModel := by
    obtain ⟨⟨bits, hvalid⟩⟩ := a
    have hbits : UnpackedFloat.pack .binary64 (UnpackedFloat.unpack .binary64 bits.toBitVec) =
        bits.toBitVec := pack_unpack_of_valid hvalid
    simp only [Float.Model.pack, Float.Model.unpack, hbits]
  show Float.ofModel (Float.Model.pack (UnpackedFloat.add .binary64 a.toModel.unpack
    b.toModel.unpack)) = a
  rw [hadd, hpack]

/-- A double that is not negative is only increased by a positive one. -/
theorem pos_of_lt_add {a b : Float} (ha : 0 ≤ a) (hb : 0 ≤ b) (h : a < a + b) : 0 < b := by
  by_contra hnot
  have hzero : IsZero b.toModel.unpack :=
    (zero_le_iff.mp hb).resolve_left (mt zero_lt_iff.mpr hnot)
  have hpos : 0 < a := by
    have hsum : 0 < a + b := lt_of_le_of_lt ha h
    exact ((add_spec ha hb).2.mp hsum).resolve_right hnot
  rw [add_of_isZero hpos hzero] at h
  obtain ⟨x, hx, y, hy, hxy⟩ := lt_iff.mp h
  exact hxy.ne (Option.mem_unique hx hy)

/-- A double that is not negative is zero exactly if it is not positive. -/
theorem beq_zero_iff {x : Float} (h : 0 ≤ x) : (x == 0) = true ↔ ¬0 < x := by
  have hbeq : (x == 0) = x.toModel.unpack.beq (.zero .positive) := rfl
  rw [hbeq, zero_lt_iff, UnpackedFloat.beq]
  rw [zero_le_iff] at h
  generalize x.toModel.unpack = u at h
  rcases u with (_ | _) | _ | s | ⟨(_ | _), m, e, hm⟩ <;>
    simp_all [Positive, IsZero, UnpackedFloat.compare]

theorem le_zero_iff_not_lt {x : Float} (h : 0 ≤ x) : x ≤ 0 ↔ ¬0 < x := by
  rw [le_zero_iff, zero_lt_iff]
  rw [zero_le_iff] at h
  generalize x.toModel.unpack = u at h
  rcases u with (_ | _) | _ | (_ | _) | ⟨(_ | _), m, e, hm⟩ <;>
    simp_all [Positive, IsZero, HasSign]

/-- **Sums of doubles keep the laws.** -/
instance instLawfulSumsFloat : Scalar.LawfulSums Float where
  lt_of_le_of_lt := lt_of_le_of_lt
  lt_of_not_le := lt_of_not_le
  beq_zero_iff := beq_zero_iff
  add_spec := add_spec
  pos_of_lt_add := pos_of_lt_add

end Mixtures.Double
