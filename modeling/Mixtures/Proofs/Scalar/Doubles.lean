import Mathlib
import Mixtures.Scalar

/-!
# Laws that rounding keeps

Most laws of arithmetic fail for doubles. A few survive rounding, infinities and not-a-number, and
statements about the program that runs may rest on them. `Scalar.Lawful` lists the ones that are
needed, and `Double.instLawfulFloat` proves them for doubles, from their bits. `Scalar.LawfulSums`
has those of sums.

* The order is transitive: `Double.lt_iff` and `Double.le_iff` compare the places of two doubles
  in a linear order, in which not-a-number has no place.
* A quotient by a positive finite number does not become positive: a quotient is rounded and packed
  without losing its sign.
-/

namespace Mixtures

/-- Laws of the order and of division that hold of doubles as of exact numbers. -/
class Scalar.Lawful (α : Type) [Scalar α] : Prop where
  /-- The order is transitive. -/
  lt_of_lt_of_le : ∀ {a b c : α}, a < b → b ≤ c → a < c
  /-- A number that is not positive does not become positive when it is divided by a positive
  finite number. -/
  div_nonpos : ∀ {x total : α}, x ≤ 0 → 0 < total → Scalar.isFinite total → x / total ≤ 0

/-- Laws of numbers that are not negative and of their sums that hold of doubles as of exact
numbers. -/
class Scalar.LawfulSums (α : Type) [Scalar α] : Prop where
  /-- The order is transitive. -/
  lt_of_le_of_lt : ∀ {a b c : α}, a ≤ b → b < c → a < c
  /-- Numbers that are not negative compare with each other. -/
  lt_of_not_le : ∀ {a b : α}, 0 ≤ a → 0 ≤ b → ¬a ≤ b → b < a
  /-- A number that is not negative is zero exactly if it is not positive. -/
  beq_zero_iff : ∀ {a : α}, 0 ≤ a → ((a == 0) = true ↔ ¬0 < a)
  /-- A sum is not negative, and positive exactly if one of the numbers is. -/
  add_spec : ∀ {a b : α}, 0 ≤ a → 0 ≤ b → 0 ≤ a + b ∧ (0 < a + b ↔ 0 < a ∨ 0 < b)
  /-- Only a positive number increases a sum. -/
  pos_of_lt_add : ∀ {a b : α}, 0 ≤ a → 0 ≤ b → a < a + b → 0 < b

/-- The sum of numbers that are not negative is positive exactly if one of them is. -/
theorem Scalar.LawfulSums.foldl_add_spec {α : Type} [Scalar α] [Scalar.LawfulSums α]
    {weights : List α} (hweights : ∀ w ∈ weights, 0 ≤ w) {total : α} (htotal : 0 ≤ total) :
    0 ≤ weights.foldl (· + ·) total ∧
      (0 < weights.foldl (· + ·) total ↔ 0 < total ∨ ∃ w ∈ weights, 0 < w) := by
  induction weights generalizing total with
  | nil => exact ⟨htotal, by simp⟩
  | cons w ws ih =>
    obtain ⟨hw, hws⟩ := List.forall_mem_cons.mp hweights
    obtain ⟨hnonneg, hpos⟩ := add_spec htotal hw
    obtain ⟨hsum, hiff⟩ := ih hws hnonneg
    exact ⟨hsum, by rw [List.foldl_cons, hiff, hpos, List.exists_mem_cons_iff, or_assoc]⟩

namespace Double

open Float.Model Float.Model.UnpackedFloat

/-! ## The order -/

/-- The place of a double in the order: infinities outside of finite numbers outside of zero, and
finite numbers of one sign by their exponents and mantissas. Not-a-number has no place. -/
def place : UnpackedFloat → Option (Int ×ₗ Int ×ₗ Int)
  | .notANumber => none
  | .infinity s => some (toLex (s.apply 2, toLex (0, 0)))
  | .zero _ => some (toLex (0, toLex (0, 0)))
  | .finite s m e _ => some (toLex (s.apply 1, toLex (s.apply e, s.apply m)))

private theorem compare_neg_neg (a b : Int) : compare (-a) (-b) = (compare a b).swap := by
  rw [compare_iff]
  cases h : compare a b with
  | lt => simpa [Ordering.Compares] using compare_lt_iff_lt.mp h
  | eq => simpa [Ordering.Compares] using compare_eq_iff_eq.mp h
  | gt => simpa [Ordering.Compares] using compare_gt_iff_gt.mp h

private theorem compare_natCast (m n : Nat) : compare (m : Int) (n : Int) = compare m n := by
  rw [compare_iff]
  cases h : compare m n with
  | lt => simpa [Ordering.Compares] using compare_lt_iff_lt.mp h
  | eq => simpa [Ordering.Compares] using compare_eq_iff_eq.mp h
  | gt => simpa [Ordering.Compares] using compare_gt_iff_gt.mp h

/-- Doubles compare as their places do. -/
theorem compare_eq_place (a b : UnpackedFloat) :
    a.compare b = (place a).bind fun x => (place b).map fun y => compare x y := by
  -- the two cases that are left are those of finite numbers with the same sign
  rcases a with (_ | _) | _ | (_ | _) | ⟨(_ | _), m₁, e₁, _⟩ <;>
    rcases b with (_ | _) | _ | (_ | _) | ⟨(_ | _), m₂, e₂, _⟩ <;> try rfl
  · simp [UnpackedFloat.compare, place, Sign.apply, Prod.Lex.compare_def, compareLex, compareOn,
      compare_neg_neg, compare_natCast, Ordering.swap_then]
  · simp [UnpackedFloat.compare, place, Sign.apply, Prod.Lex.compare_def, compareLex, compareOn,
      compare_natCast]

theorem lt_iff {a b : Float} :
    a < b ↔ ∃ x ∈ place a.toModel.unpack, ∃ y ∈ place b.toModel.unpack, x < y := by
  have hlt : a < b ↔ a.toModel.unpack.compare b.toModel.unpack = some .lt := by
    show decide (UnpackedFloat.lt _ _ = true) = true ↔ _
    rw [decide_eq_true_iff, UnpackedFloat.lt, beq_iff_eq]
  rw [hlt, compare_eq_place]
  simp [Option.bind_eq_some_iff, compare_lt_iff_lt]

theorem le_iff {a b : Float} :
    a ≤ b ↔ ∃ x ∈ place a.toModel.unpack, ∃ y ∈ place b.toModel.unpack, x ≤ y := by
  have hle : a ≤ b ↔ (a.toModel.unpack.compare b.toModel.unpack).any (·.isLE) = true := by
    show decide (UnpackedFloat.le _ _ = true) = true ↔ _
    rw [decide_eq_true_iff, UnpackedFloat.le]
  rw [hle, compare_eq_place]
  cases place a.toModel.unpack <;> cases place b.toModel.unpack <;>
    simp [← Ordering.ne_gt_iff_isLE, compare_le_iff_le]

theorem lt_of_lt_of_le' {a b c : Float} (hab : a < b) (hbc : b ≤ c) : a < c := by
  obtain ⟨x, hx, y, hy, hxy⟩ := lt_iff.mp hab
  obtain ⟨y', hy', z, hz, hyz⟩ := le_iff.mp hbc
  obtain rfl : y = y' := Option.mem_unique hy hy'
  exact lt_iff.mpr ⟨x, hx, z, hz, hxy.trans_le hyz⟩

theorem lt_of_le_of_lt {a b c : Float} (hab : a ≤ b) (hbc : b < c) : a < c := by
  obtain ⟨x, hx, y, hy, hxy⟩ := le_iff.mp hab
  obtain ⟨y', hy', z, hz, hyz⟩ := lt_iff.mp hbc
  obtain rfl : y = y' := Option.mem_unique hy hy'
  exact lt_iff.mpr ⟨x, hx, z, hz, hxy.trans_lt hyz⟩

/-- Doubles that are not negative are comparable. -/
theorem lt_of_not_le {a b : Float} (ha : 0 ≤ a) (hb : 0 ≤ b) (h : ¬a ≤ b) : b < a := by
  obtain ⟨_, -, x, hx, -⟩ := le_iff.mp ha
  obtain ⟨_, -, y, hy, -⟩ := le_iff.mp hb
  refine lt_iff.mpr ⟨y, hy, x, hx, lt_of_not_ge fun hle => ?_⟩
  exact h (le_iff.mpr ⟨x, hx, y, hy, hle⟩)

/-! ## Signs -/

/-- A number, zero and the infinities included, with a sign. -/
def HasSign (s : Sign) : UnpackedFloat → Prop
  | .notANumber => False
  | .infinity s' => s' = s
  | .zero s' => s' = s
  | .finite s' _ _ _ => s' = s

private theorem unpack_packComponents_hasSign {s : Sign}
    {e : BitVec Format.binary64.exponentBits}
    {m : BitVec Format.binary64.mantissaBitsWithoutImplicit} (he : e = -1#_ → m = 0#_) :
    HasSign s (UnpackedFloat.unpack .binary64 (packComponents .binary64 s e m)) := by
  unfold UnpackedFloat.unpack
  simp only [unpackExponent_packComponents, unpackMantissa_packComponents,
    unpackSign_packComponents, Sign.ofBitVec_toBitVec]
  split_ifs with hones hzero
  · rfl
  · exact absurd (he hones) hzero
  all_goals rfl

/-- Packing keeps the sign of a number, also when it overflows to infinity. -/
theorem unpack_pack_hasSign {s : Sign} {u : UnpackedFloat} (h : HasSign s u) :
    HasSign s (Float.Model.pack u).unpack := by
  show HasSign s (UnpackedFloat.unpack .binary64 (UnpackedFloat.pack .binary64 u))
  cases u with
  | notANumber => exact h.elim
  | infinity s' =>
    obtain rfl : s' = s := h
    exact unpack_packComponents_hasSign fun _ => rfl
  | zero s' =>
    obtain rfl : s' = s := h
    exact unpack_packComponents_hasSign fun _ => rfl
  | finite s' m e hm =>
    obtain rfl : s' = s := h
    unfold UnpackedFloat.pack
    dsimp only
    split_ifs with hlarge hnormal
    · exact unpack_packComponents_hasSign fun _ => rfl
    · -- an exponent that is packed is below the one that is kept for infinity
      refine unpack_packComponents_hasSign fun hones => absurd (congrArg BitVec.toNat hones) ?_
      rw [BitVec.toNat_ofNat, BitVec.neg_one_eq_allOnes, BitVec.toNat_allOnes]
      have := Nat.mod_le (e + Format.binary64.exponentBias +
        Format.binary64.mantissaBitsWithoutImplicit).toNat (2 ^ Format.binary64.exponentBits)
      omega
    · refine unpack_packComponents_hasSign fun hones => absurd (congrArg BitVec.toNat hones) ?_
      decide

theorem unpack_pack_zero (s : Sign) : (Float.Model.pack (.zero s)).unpack = .zero s :=
  unpack_packedZero

/-- Rounding keeps the sign. -/
theorem roundWithAccuracy_hasSign (s : Sign) (m : Nat) (e : Int) (accuracy : Accuracy) :
    HasSign s (roundWithAccuracy .binary64 s m e accuracy) := by
  unfold roundWithAccuracy
  dsimp only
  split <;> rfl

theorem le_zero_iff {x : Float} :
    x ≤ 0 ↔ HasSign .negative x.toModel.unpack ∨ x.toModel.unpack = .zero .positive := by
  have hzero : place (0 : Float).toModel.unpack = some (toLex (0, toLex (0, 0))) := rfl
  rw [le_iff, hzero]
  rcases x.toModel.unpack with (_ | _) | _ | (_ | _) | ⟨(_ | _), m, e, _⟩ <;>
    simp [place, HasSign, Sign.apply, Prod.Lex.toLex_le_toLex]

theorem exists_of_zero_lt {x : Float} (hpos : 0 < x) (hfinite : x.isFinite) :
    ∃ m e hm, x.toModel.unpack = .finite .positive m e hm := by
  have hzero : place (0 : Float).toModel.unpack = some (toLex (0, toLex (0, 0))) := rfl
  rw [lt_iff, hzero] at hpos
  replace hfinite : x.toModel.unpack.isFinite = true := hfinite
  generalize x.toModel.unpack = u at hpos hfinite
  rcases u with (_ | _) | _ | (_ | _) | ⟨(_ | _), m, e, hm⟩ <;>
    simp_all [place, UnpackedFloat.isFinite, Sign.apply, Prod.Lex.toLex_lt_toLex]

theorem div_nonpos' {x total : Float} (hx : x ≤ 0) (hpos : 0 < total)
    (hfinite : total.isFinite) : x / total ≤ 0 := by
  obtain ⟨m, e, hm, htotal⟩ := exists_of_zero_lt hpos hfinite
  have hdiv : (x / total).toModel.unpack =
      (Float.Model.pack
        (UnpackedFloat.div .binary64 x.toModel.unpack total.toModel.unpack)).unpack := rfl
  rw [le_zero_iff] at hx
  rw [le_zero_iff, hdiv, htotal]
  rcases hx with hnegative | hzero
  · left
    apply unpack_pack_hasSign
    cases hunpack : x.toModel.unpack with
    | notANumber => rw [hunpack] at hnegative; exact hnegative.elim
    | infinity s => rw [hunpack] at hnegative; obtain rfl : s = .negative := hnegative; rfl
    | zero s => rw [hunpack] at hnegative; obtain rfl : s = .negative := hnegative; rfl
    | finite s m' e' hm' =>
      rw [hunpack] at hnegative
      obtain rfl : s = .negative := hnegative
      exact roundWithAccuracy_hasSign _ _ _ _
  · right
    rw [hzero]
    exact unpack_pack_zero .positive

/-- **Doubles keep the laws**: comparing and dividing them respects order and sign. -/
instance instLawfulFloat : Scalar.Lawful Float where
  lt_of_lt_of_le := lt_of_lt_of_le'
  div_nonpos := div_nonpos'

end Double

end Mixtures
