import Mixtures.Proofs.Scalar.Rounding

/-!
# Shifting and summing doubles

What the sum of exponentials relies on, for doubles as they round. Numbers are shifted by the
largest of them, so that none is positive and one is zero; the exponentials are between zero and one
and are summed; and a second shift, by a slightly larger number, does not move the largest number
far.

* `isNumber_of_add`, `isFinite_of_add`: what a sum tells about its terms.
* `sub_nonpos_of_le`, `sub_self_of_isFinite`, `neg_inf_sub`: the first shift.
* `foldl_add_bounds`: the sum.
* `sub_add_bounds`: the second shift.
-/

namespace Mixtures.Double

open Float.Model Float.Model.UnpackedFloat

variable {a b c d : Float}

/-! ## What a sum tells about its terms -/

theorem add_notANumber (u : UnpackedFloat) :
    UnpackedFloat.add .binary64 u .notANumber = .notANumber := by
  cases u <;> rfl

/-- A sum with not-a-number is none. -/
theorem isNumber_of_add (h : IsNumber (a + b)) : IsNumber a ∧ IsNumber b := by
  rw [IsNumber, unpack_add] at h
  constructor
  · intro hnone
    rw [hnone] at h
    exact h unpack_packedNaN
  · intro hnone
    rw [hnone, add_notANumber] at h
    exact h unpack_packedNaN

/-- So is a longer sum. -/
theorem isNumber_of_foldl_add {xs : List Float} {start : Float}
    (h : IsNumber (xs.foldl (· + ·) start)) : IsNumber start ∧ ∀ x ∈ xs, IsNumber x := by
  induction xs generalizing start with
  | nil => exact ⟨h, nofun⟩
  | cons x xs ih =>
    obtain ⟨hfirst, hrest⟩ := ih h
    obtain ⟨hstart, hx⟩ := isNumber_of_add hfirst
    refine ⟨hstart, ?_⟩
    intro y hy
    rcases List.mem_cons.mp hy with rfl | hy
    · exact hx
    · exact hrest y hy

/-- So is a difference. -/
theorem isNumber_of_sub (h : IsNumber (a - b)) : IsNumber a := by
  rw [IsNumber, unpack_sub] at h
  intro hnone
  rw [hnone] at h
  exact h unpack_packedNaN

theorem isFinite_of_unpack_pack {u : UnpackedFloat}
    (h : (Float.Model.pack u).unpack.isFinite = true) : u.isFinite = true := by
  cases u with
  | notANumber => exact h
  | infinity s =>
    rw [unpack_pack_infinity] at h
    exact h
  | zero _ | finite _ _ _ _ => rfl

/-- What is added to infinity does not make it finite. -/
theorem isFinite_of_add (h : Scalar.isFinite (a + b) = true) :
    Scalar.isFinite a = true ∧ Scalar.isFinite b = true := by
  replace h : (a + b).toModel.unpack.isFinite = true := h
  rw [unpack_add] at h
  replace h := isFinite_of_unpack_pack h
  show a.toModel.unpack.isFinite = true ∧ b.toModel.unpack.isFinite = true
  generalize a.toModel.unpack = u at h
  generalize b.toModel.unpack = v at h
  cases u with
  | notANumber => exact absurd h Bool.false_ne_true
  | infinity s =>
    cases v with
    | infinity s' => cases s <;> cases s' <;> exact absurd h Bool.false_ne_true
    | notANumber | zero _ | finite _ _ _ _ => exact absurd h Bool.false_ne_true
  | zero _ | finite _ _ _ _ =>
    cases v with
    | notANumber | infinity _ => exact absurd h Bool.false_ne_true
    | zero _ | finite _ _ _ _ => exact ⟨rfl, rfl⟩

/-- Between finite doubles there are only finite ones. -/
theorem isFinite_of_le {low high : Float} (hlow : low ≤ a) (hhigh : a ≤ high)
    (hlow' : Scalar.isFinite low = true) (hhigh' : Scalar.isFinite high = true) :
    Scalar.isFinite a = true := by
  obtain ⟨hnumber, ha⟩ := isNumber_of_le hlow
  obtain ⟨-, hnumber'⟩ := isNumber_of_le hhigh
  have hbelow := (le_iff_units hnumber ha).mp hlow
  have habove := (le_iff_units ha hnumber').mp hhigh
  have hlimit := (isFinite_iff_units hnumber).mp hlow'
  have hlimit' := (isFinite_iff_units hnumber').mp hhigh'
  rw [isFinite_iff_units ha]
  omega

/-! ## Rounding passes no double -/

theorem le_of_hasUnits {z : Int} (ha : Scalar.isFinite a = true)
    (hc : IsNumber c ∧ toUnits c = cut (nearestInt z)) (h : toUnits a ≤ z) : a ≤ c := by
  rw [le_iff_units (isNumber_of_isFinite ha) hc.1, hc.2]
  calc toUnits a = cut (nearestInt (toUnits a)) := (rounded_of_isFinite ha).cut_nearestInt.symm
    _ ≤ cut (nearestInt z) := cut_mono (nearestInt_mono h)

theorem hasUnits_le {z : Int} (ha : Scalar.isFinite a = true)
    (hc : IsNumber c ∧ toUnits c = cut (nearestInt z)) (h : z ≤ toUnits a) : c ≤ a := by
  rw [le_iff_units hc.1 (isNumber_of_isFinite ha), hc.2]
  calc cut (nearestInt z) ≤ cut (nearestInt (toUnits a)) := cut_mono (nearestInt_mono h)
    _ = toUnits a := (rounded_of_isFinite ha).cut_nearestInt

/-- Sums keep the order. -/
theorem add_le_add_of_isFinite (ha : Scalar.isFinite a = true) (hb : Scalar.isFinite b = true)
    (hc : Scalar.isFinite c = true) (hd : Scalar.isFinite d = true) (hac : a ≤ c) (hbd : b ≤ d) :
    a + b ≤ c + d := by
  have hac' := (le_iff_units (isNumber_of_isFinite ha) (isNumber_of_isFinite hc)).mp hac
  have hbd' := (le_iff_units (isNumber_of_isFinite hb) (isNumber_of_isFinite hd)).mp hbd
  obtain ⟨hnumber, hsum⟩ := units_add ha hb
  obtain ⟨hnumber', hsum'⟩ := units_add hc hd
  rw [le_iff_units hnumber hnumber', hsum, hsum']
  exact cut_mono (nearestInt_mono (by omega))

/-! ## The first shift -/

theorem isFinite_zero : Scalar.isFinite (0 : Float) = true := rfl

theorem isNumber_zero : IsNumber 0 := nofun

theorem toUnits_zero : toUnits 0 = 0 := rfl

/-- Only negative infinity is not finite below a finite double. -/
theorem unpack_eq_of_le (h : a ≤ b) (ha : ¬Scalar.isFinite a = true)
    (hb : Scalar.isFinite b = true) : a.toModel.unpack = .infinity .negative := by
  obtain ⟨ha', hb'⟩ := isNumber_of_le h
  have hunits := (le_iff_units ha' hb').mp h
  have hlt := (isFinite_iff_units hb').mp hb
  have hnot := mt (isFinite_iff_units ha').mpr ha
  unfold toUnits at hunits hnot
  unfold IsNumber at ha'
  replace ha : ¬a.toModel.unpack.isFinite = true := ha
  cases hunpack : a.toModel.unpack with
  | notANumber => exact absurd hunpack ha'
  | zero _ | finite _ _ _ _ =>
    rw [hunpack] at ha
    exact absurd rfl ha
  | infinity s =>
    cases s with
    | negative => rfl
    | positive =>
      rw [hunpack] at hunits
      replace hunits : (limit : Int) ≤ units b.toModel.unpack := hunits
      unfold toUnits at hlt
      omega

/-- What is not above a finite double does not become positive when that is taken from it. -/
theorem sub_nonpos_of_le (h : a ≤ b) (hb : Scalar.isFinite b = true) : a - b ≤ 0 := by
  by_cases ha : Scalar.isFinite a = true
  · have hunits := (le_iff_units (isNumber_of_isFinite ha) (isNumber_of_isFinite hb)).mp h
    refine hasUnits_le isFinite_zero (units_sub ha hb) ?_
    rw [toUnits_zero]
    omega
  · have hinfinity := unpack_eq_of_le h ha hb
    have hrounded := rounded_of_isFinite hb
    rw [le_zero_iff, unpack_sub, hinfinity]
    left
    apply unpack_pack_hasSign
    cases hunpack : b.toModel.unpack with
    | zero _ | finite _ _ _ _ => rfl
    | notANumber | infinity _ =>
      rw [hunpack] at hrounded
      exact hrounded.elim

/-- Negative infinity stays what it is. -/
theorem neg_inf_sub (hb : Scalar.isFinite b = true) : -Float.inf - b = -Float.inf := by
  have hinfinity : UnpackedFloat.sub .binary64 (-Float.inf).toModel.unpack b.toModel.unpack =
      .infinity .negative := by
    have hrounded := rounded_of_isFinite hb
    generalize b.toModel.unpack = v at hrounded
    cases v with
    | notANumber | infinity _ => exact hrounded.elim
    | zero _ | finite _ _ _ _ => rfl
  show Float.ofModel (Float.Model.pack (UnpackedFloat.sub .binary64 (-Float.inf).toModel.unpack
    b.toModel.unpack)) = -Float.inf
  rw [hinfinity]
  rfl

/-- A finite double less itself is zero. -/
theorem sub_self_of_isFinite (h : Scalar.isFinite a = true) : a - a = 0 := by
  have hzero : UnpackedFloat.sub .binary64 a.toModel.unpack a.toModel.unpack = .zero .positive := by
    have hrounded := rounded_of_isFinite h
    generalize a.toModel.unpack = u at hrounded
    cases u with
    | notANumber | infinity _ => exact hrounded.elim
    | zero s => cases s <;> rfl
    | finite s m e hm =>
      dsimp only [UnpackedFloat.sub]
      rw [Int.sub_self]
      rfl
  show Float.ofModel (Float.Model.pack (UnpackedFloat.sub .binary64 a.toModel.unpack
    a.toModel.unpack)) = 0
  rw [hzero]
  rfl

/-! ## The sum -/

/-- The number from which on adding one changes nothing, `2 ^ 53`. -/
def plateau : Float := .ofNat (2 ^ 53)

theorem isFinite_plateau : Scalar.isFinite plateau = true := by decide +kernel

theorem plateau_add_one : plateau + 1 = plateau := by decide +kernel

theorem isFinite_one : Scalar.isFinite (1 : Float) = true := by decide +kernel

/-- A sum of numbers between zero and one is at least as large as each of them, and does not pass
the plateau. -/
theorem add_bounds (ha : 0 ≤ a) (ha' : a ≤ plateau) (hb : 0 ≤ b) (hb' : b ≤ 1) :
    a ≤ a + b ∧ b ≤ a + b ∧ a + b ≤ plateau := by
  have hafinite := isFinite_of_le ha ha' isFinite_zero isFinite_plateau
  have hbfinite := isFinite_of_le hb hb' isFinite_zero isFinite_one
  have hapos := (le_iff_units isNumber_zero (isNumber_of_isFinite hafinite)).mp ha
  have hbpos := (le_iff_units isNumber_zero (isNumber_of_isFinite hbfinite)).mp hb
  rw [toUnits_zero] at hapos hbpos
  have hsum := units_add hafinite hbfinite
  refine ⟨le_of_hasUnits hafinite hsum (by omega), le_of_hasUnits hbfinite hsum (by omega), ?_⟩
  have hmono := add_le_add_of_isFinite hafinite hbfinite isFinite_plateau isFinite_one ha' hb'
  rwa [plateau_add_one] at hmono

theorem le_trans' (hab : a ≤ b) (hbc : b ≤ c) : a ≤ c := by
  obtain ⟨x, hx, y, hy, hxy⟩ := le_iff.mp hab
  obtain ⟨y', hy', z, hz, hyz⟩ := le_iff.mp hbc
  obtain rfl : y = y' := Option.mem_unique hy hy'
  exact le_iff.mpr ⟨x, hx, z, hz, hxy.trans hyz⟩

/-- **The sum** of numbers between zero and one, from a number that is not negative on. -/
theorem foldl_add_bounds {xs : List Float} (hxs : ∀ x ∈ xs, 0 ≤ x ∧ x ≤ 1) {start : Float}
    (hstart : 0 ≤ start) (hstart' : start ≤ plateau) :
    start ≤ xs.foldl (· + ·) start ∧ (∀ x ∈ xs, x ≤ xs.foldl (· + ·) start) ∧
      xs.foldl (· + ·) start ≤ plateau := by
  induction xs generalizing start with
  | nil =>
    obtain ⟨hnumber, hnumber'⟩ := isNumber_of_le hstart
    exact ⟨(le_iff_units hnumber' hnumber').mpr le_rfl, nofun, hstart'⟩
  | cons x xs ih =>
    obtain ⟨⟨hx, hx'⟩, hrest⟩ := List.forall_mem_cons.mp hxs
    obtain ⟨hle, hxle, hplateau⟩ := add_bounds hstart hstart' hx hx'
    obtain ⟨hstep, hlater, hend⟩ := ih hrest (le_trans' hstart hle) hplateau
    refine ⟨le_trans' hle hstep, ?_, hend⟩
    intro y hy
    rcases List.mem_cons.mp hy with rfl | hy
    · exact le_trans' hxle hstep
    · exact hlater y hy

/-! ## The second shift -/

theorem units_seventyFour : toUnits (-74) = -(2 * toUnits 37) := by decide +kernel

/-- **The second shift**: a finite double that is increased by at most 37 is not decreased, and the
increase is less than 74 when it is taken back. Rounding goes to the nearest double, so it does not
add more than what was to be added. -/
theorem sub_add_bounds {l : Float} (ha : Scalar.isFinite a = true) (hl : 0 ≤ l) (hl' : l ≤ 37)
    (hfinite : Scalar.isFinite (a + l) = true) : a ≤ a + l ∧ -74 ≤ a - (a + l) := by
  have hl37 : Scalar.isFinite (37 : Float) = true := by decide +kernel
  have hl74 : Scalar.isFinite (-74 : Float) = true := by decide +kernel
  obtain ⟨-, hlfinite⟩ := isFinite_of_add hfinite
  have hpos := (le_iff_units isNumber_zero (isNumber_of_isFinite hlfinite)).mp hl
  have hle := (le_iff_units (isNumber_of_isFinite hlfinite) (isNumber_of_isFinite hl37)).mp hl'
  rw [toUnits_zero] at hpos
  have hsum := units_add ha hlfinite
  refine ⟨le_of_hasUnits ha hsum (by omega), ?_⟩
  -- the sum is not cut off, and it is as near to the exact one as the first number is
  have hexact : toUnits (a + l) = nearestInt (toUnits a + toUnits l) := by
    have hlt := (isFinite_iff_units hsum.1).mp hfinite
    rw [hsum.2] at hlt ⊢
    exact eq_of_cut_lt hlt
  have hnear := nearestInt_le_of_le (rounded_of_isFinite ha).representable
    (show toUnits a ≤ toUnits a + toUnits l by omega)
  refine le_of_hasUnits hl74 (units_sub ha hfinite) ?_
  rw [units_seventyFour]
  unfold toUnits at hnear hexact hle ⊢
  omega

end Mixtures.Double
