import Mathlib
import Mixtures.LogMass
import Mixtures.Em.Reset
import Mixtures.Proofs.Scalar.Sums

/-!
# The ends of the order of doubles

Searches begin with an infinite key: what they may take is what compares with it. Below infinity are
the finite doubles and negative infinity, above negative infinity the finite doubles and infinity;
not-a-number compares with neither.

The logarithm of the mass zero is negative infinity (`LogMass.double`), and masses are ordered as
their logarithms are.
-/

namespace Mixtures

namespace Double

open Float.Model Float.Model.UnpackedFloat

variable {a b c : Float}

theorem place_inf : place Float.inf.toModel.unpack = some (toLex (2, toLex (0, 0))) := rfl

theorem place_neg_inf : place (-Float.inf).toModel.unpack = some (toLex (-2, toLex (0, 0))) := rfl

/-- A finite double, in the terms of its bits. -/
theorem isFinite_iff : Scalar.isFinite a = true ↔ a.toModel.unpack.isFinite = true := Iff.rfl

theorem lt_trans (hab : a < b) (hbc : b < c) : a < c := by
  obtain ⟨x, hx, y, hy, hxy⟩ := lt_iff.mp hab
  obtain ⟨y', hy', z, hz, hyz⟩ := lt_iff.mp hbc
  obtain rfl : y = y' := Option.mem_unique hy hy'
  exact lt_iff.mpr ⟨x, hx, z, hz, hxy.trans hyz⟩

/-- Below infinity are the finite doubles and the negative ones. -/
theorem lt_inf_iff : a < Float.inf ↔ (Scalar.isFinite a || decide (a < 0)) = true := by
  have hzero : place (0 : Float).toModel.unpack = some (toLex (0, toLex (0, 0))) := rfl
  rw [Bool.or_eq_true, decide_eq_true_iff, isFinite_iff, lt_iff, lt_iff, place_inf, hzero]
  rcases a.toModel.unpack with (_ | _) | _ | (_ | _) | ⟨(_ | _), m, e, hm⟩ <;>
    simp [place, UnpackedFloat.isFinite, Sign.apply, Prod.Lex.toLex_lt_toLex]

/-- Above negative infinity are the finite doubles and the positive ones. -/
theorem neg_inf_lt_iff : -Float.inf < a ↔ (Scalar.isFinite a || decide (0 < a)) = true := by
  have hzero : place (0 : Float).toModel.unpack = some (toLex (0, toLex (0, 0))) := rfl
  rw [Bool.or_eq_true, decide_eq_true_iff, isFinite_iff, lt_iff, lt_iff, place_neg_inf, hzero]
  rcases a.toModel.unpack with (_ | _) | _ | (_ | _) | ⟨(_ | _), m, e, hm⟩ <;>
    simp [place, UnpackedFloat.isFinite, Sign.apply, Prod.Lex.toLex_lt_toLex]

/-- Nothing is below negative infinity. -/
theorem not_lt_neg_inf : ¬a < -Float.inf := by
  rw [lt_iff, place_neg_inf]
  rcases a.toModel.unpack with (_ | _) | _ | (_ | _) | ⟨(_ | _), m, e, hm⟩ <;>
    simp [place, Sign.apply, Prod.Lex.toLex_lt_toLex]

theorem neg_inf_lt_inf : -Float.inf < Float.inf := by decide +kernel

theorem isBelowInfinity_iff : Point.isBelowInfinity a = true ↔ a < Float.inf := lt_inf_iff.symm

theorem isAboveNegativeInfinity_iff : Em.isAboveNegativeInfinity a = true ↔ -Float.inf < a :=
  neg_inf_lt_iff.symm

end Double

namespace LogMass

open Double

/-- A logarithm as a double: that of the mass zero is negative infinity. -/
def double : LogMass Float → Float
  | zero => -Float.inf
  | of x => x

/-- Masses are ordered as their logarithms. -/
theorem lt_iff_double {a b : LogMass Float} : lt a b = true ↔ a.double < b.double := by
  cases a with
  | zero =>
    cases b with
    | zero => exact iff_of_false Bool.false_ne_true not_lt_neg_inf
    | of y => exact neg_inf_lt_iff.symm
  | of x =>
    cases b with
    | zero => exact iff_of_false Bool.false_ne_true not_lt_neg_inf
    | of y => exact decide_eq_true_iff

theorem isBelowInfinity_iff {a : LogMass Float} :
    a.isBelowInfinity = true ↔ a.double < Float.inf := by
  cases a with
  | zero => exact iff_of_true rfl neg_inf_lt_inf
  | of x => exact lt_inf_iff.symm

end LogMass

end Mixtures
