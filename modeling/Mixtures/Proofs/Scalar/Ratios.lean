import Mathlib
import Mixtures.Proofs.Scalar.Exact
import Mixtures.Proofs.Scalar.Products

/-!
# Ratios of sizes

Some guards of training compare a quotient with a bound, or divide after a comparison. What they
rely on holds of every double, also of infinities and not-a-number, if it is said with care: *not
negative* takes in not-a-number, *not below zero* is what an absolute value and a quotient of
absolute values are, and only a comparison that succeeds tells two numbers apart.
`Scalar.LawfulRatios` lists these laws.
-/

namespace Mixtures

/-- Laws of signs and quotients that hold of doubles as of exact numbers, whether or not they are
numbers. -/
class Scalar.LawfulRatios (α : Type) [Scalar α] : Prop where
  /-- The opposite of a negative number is not negative. -/
  neg_not_neg : ∀ {x : α}, x < 0 → ¬-x < 0
  /-- What is not negative does not become negative when it is divided by a positive number. -/
  div_not_neg : ∀ {x y : α}, ¬x < 0 → 0 < y → ¬x / y < 0
  /-- Zero divided by a positive finite number is zero. -/
  zero_div : ∀ {x : α}, 0 < x → Scalar.isFinite x → 0 / x = 0
  /-- What exceeds something that is not negative is positive. -/
  pos_of_lt : ∀ {x y : α}, ¬x < 0 → x < y → 0 < y
  /-- A number that is not below a positive one is positive. -/
  pos_of_not_lt : ∀ {x y : α}, 0 < y → ¬x < y → Scalar.isNaN x = false → 0 < x
  /-- One is not negative. -/
  one_not_neg : ¬(1 : α) < 0
  /-- Whole numbers that are represented are positive. -/
  ofNat_pos : ∀ {n : Nat}, 0 < n → n < 2 ^ 53 → 0 < (Scalar.ofNat n : α)
  /-- The smallest positive normal number is positive. -/
  minPositive_pos : 0 < (Scalar.minPositive : α)

namespace Scalar

variable {α : Type} [Scalar α] [Scalar.LawfulRatios α]

open LawfulRatios

/-- An absolute value is not negative. -/
theorem abs_not_neg (x : α) : ¬abs x < 0 := by
  unfold abs
  split
  next h => exact neg_not_neg h
  next h => exact h

/-- The larger of something and a positive number is positive. -/
theorem max_pos {x y : α} (hy : 0 < y) : 0 < max x y := by
  unfold max
  split
  next => exact hy
  next h =>
    rw [Bool.or_eq_true, decide_eq_true_iff, not_or] at h
    exact pos_of_not_lt hy h.1 (Bool.eq_false_of_not_eq_true h.2)

end Scalar

namespace Double

open Float.Model Float.Model.UnpackedFloat

/-! ## Doubles that are not negative, or not a number -/

/-- Neither a negative finite number nor negative infinity. -/
def NotNegative : UnpackedFloat → Prop
  | .notANumber => True
  | .infinity s => s = .positive
  | .zero _ => True
  | .finite s _ _ _ => s = .positive

theorem not_lt_zero_iff {x : Float} : ¬x < 0 ↔ NotNegative x.toModel.unpack := by
  have hzero : place (0 : Float).toModel.unpack = some (toLex (0, toLex (0, 0))) := rfl
  rw [lt_iff, hzero]
  rcases x.toModel.unpack with (_ | _) | _ | _ | ⟨(_ | _), m, e, _⟩ <;>
    simp [place, NotNegative, Sign.apply, Prod.Lex.toLex_lt_toLex]

theorem notNegative_of_hasSign {u : UnpackedFloat} (h : HasSign .positive u) : NotNegative u := by
  cases u with
  | notANumber | zero _ => trivial
  | infinity s => exact h
  | finite s m e hm => exact h

theorem notNegative_of_isZero {u : UnpackedFloat} (h : IsZero u) : NotNegative u := by
  cases u with
  | zero s => trivial
  | notANumber | infinity _ | finite _ _ _ _ => exact h.elim

/-- Packing does not make a double negative. -/
theorem unpack_pack_notNegative {u : UnpackedFloat} (h : NotNegative u) :
    NotNegative (Float.Model.pack u).unpack := by
  cases u with
  | notANumber => exact trivial
  | infinity s => exact notNegative_of_hasSign (unpack_pack_hasSign (u := .infinity s) h)
  | zero s => exact notNegative_of_isZero (unpack_pack_isZero (u := .zero s) trivial)
  | finite s m e hm => exact notNegative_of_hasSign (unpack_pack_hasSign (u := .finite s m e hm) h)

theorem neg_not_neg {x : Float} (h : x < 0) : ¬-x < 0 := by
  have hneg : (-x).toModel.unpack = (Float.Model.pack x.toModel.unpack.neg).unpack := rfl
  have hnegative : ¬NotNegative x.toModel.unpack := fun hx => not_lt_zero_iff.mpr hx h
  rw [not_lt_zero_iff, hneg]
  refine unpack_pack_notNegative ?_
  generalize x.toModel.unpack = u at hnegative
  cases u with
  | notANumber | zero _ => exact absurd trivial hnegative
  | infinity s | finite s m e hm =>
    cases s with
    | positive => exact absurd rfl hnegative
    | negative => rfl

theorem div_notNegative {u v : UnpackedFloat} (hu : NotNegative u) (hv : Positive v) :
    NotNegative (UnpackedFloat.div .binary64 u v) := by
  cases v with
  | notANumber | zero _ => exact hv.elim
  | infinity s =>
    cases u with
    | notANumber | infinity _ | zero _ | finite _ _ _ _ => trivial
  | finite s m e hm =>
    obtain rfl : s = .positive := hv.1
    cases u with
    | notANumber | zero _ => trivial
    | infinity s' =>
      obtain rfl : s' = .positive := hu
      rfl
    | finite s' m' e' hm' =>
      obtain rfl : s' = .positive := hu
      exact notNegative_of_hasSign (roundWithAccuracy_hasSign _ _ _ _)

theorem div_not_neg {x y : Float} (hx : ¬x < 0) (hy : 0 < y) : ¬x / y < 0 := by
  rw [not_lt_zero_iff] at hx ⊢
  rw [unpack_div]
  exact unpack_pack_notNegative (div_notNegative hx (zero_lt_iff.mp hy))

theorem zero_div_of_pos {x : Float} (hpos : 0 < x) (hfinite : x.isFinite) : 0 / x = 0 := by
  obtain ⟨m, e, hm, hx⟩ := exists_of_zero_lt hpos hfinite
  show Float.ofModel (Float.Model.pack (UnpackedFloat.div .binary64 (0 : Float).toModel.unpack
    x.toModel.unpack)) = 0
  rw [hx]
  rfl

/-! ## Comparisons that tell two doubles apart -/

theorem pos_of_lt {x y : Float} (hx : ¬x < 0) (h : x < y) : 0 < y := by
  obtain ⟨a, ha, b, hb, hab⟩ := lt_iff.mp h
  refine lt_iff.mpr ⟨_, rfl, b, hb, (not_lt.mp fun hneg => ?_ : _ ≤ a).trans_lt hab⟩
  exact hx (lt_iff.mpr ⟨a, ha, _, rfl, hneg⟩)

/-- What is equal to itself has a place in the order. -/
theorem exists_place {x : Float} (h : Scalar.isNaN x = false) :
    ∃ a, place x.toModel.unpack = some a := by
  have hself : (x == x) = true := by simpa [Scalar.isNaN] using h
  change x.toModel.unpack.beq x.toModel.unpack = true at hself
  rw [UnpackedFloat.beq, compare_eq_place] at hself
  cases hplace : place x.toModel.unpack with
  | none =>
    rw [hplace] at hself
    cases hself
  | some a => exact ⟨a, rfl⟩

theorem pos_of_not_lt {x y : Float} (hy : 0 < y) (h : ¬x < y) (hx : Scalar.isNaN x = false) :
    0 < x := by
  obtain ⟨a, ha⟩ := exists_place hx
  obtain ⟨zero, hzero, b, hb, hlt⟩ := lt_iff.mp hy
  refine lt_iff.mpr ⟨zero, hzero, a, ha, lt_of_lt_of_le hlt (not_lt.mp fun hab => ?_)⟩
  exact h (lt_iff.mpr ⟨a, ha, b, hb, hab⟩)

theorem ofNat_pos {n : Nat} (hpos : 0 < n) (hn : n < 2 ^ 53) : 0 < Float.ofNat n := by
  obtain ⟨k, hm, -, hcanonical, hunpack⟩ := unpack_ofNat hpos hn
  rw [zero_lt_iff, hunpack]
  exact ⟨rfl, hcanonical.toPackable⟩

/-- **Quotients of doubles keep the laws.** -/
instance instLawfulRatiosFloat : Scalar.LawfulRatios Float where
  neg_not_neg := neg_not_neg
  div_not_neg := div_not_neg
  zero_div := zero_div_of_pos
  pos_of_lt := pos_of_lt
  pos_of_not_lt := pos_of_not_lt
  one_not_neg := by decide +kernel
  ofNat_pos := ofNat_pos
  minPositive_pos := by decide +kernel

end Double

/-- So do exact quotients. -/
instance instLawfulRatiosReal : Scalar.LawfulRatios ℝ where
  neg_not_neg h := by linarith
  div_not_neg hx hy := not_lt.mpr (div_nonneg (not_lt.mp hx) hy.le)
  zero_div _ _ := zero_div _
  pos_of_lt hx h := (not_lt.mp hx).trans_lt h
  pos_of_not_lt hy h _ := hy.trans_le (not_lt.mp h)
  one_not_neg := not_lt.mpr zero_le_one
  ofNat_pos hpos _ := Nat.cast_pos.mpr hpos
  minPositive_pos := by
    unfold Scalar.minPositive
    generalize 1022 = n
    exact div_pos one_pos (Nat.cast_pos.mpr (Nat.pow_pos Nat.two_pos))

end Mixtures
