import Mixtures.Proofs.Scalar.Infinities
import Mixtures.Proofs.Scalar.Ratios
import Mixtures.Proofs.Scalar.Shifts

/-!
# Doubles with any exponential and logarithm

The exponential and the logarithm of doubles belong to the machine, which documents them and does
not define them. `Double.With` are doubles as they round, with two functions in that place, and
`Elementary.Documented` is what is relied on: not-a-number stays one, the exponential takes what is
not positive between zero and one, and logarithms are of moderate size.

Under these laws the masses relative to their sum are numbers between zero and one, whatever the
terms are, as soon as the sum has a finite logarithm. The largest term is chosen among those that
are numbers, so the shift by it lets terms through that are none; but they make the sum none, and
infinite terms make it infinite. The second shift is by the logarithm of the sum, of which only its
size is known, and it leaves the mass of the largest term positive.

* `topped_top`: the largest term.
* `exists_summed`: what a finite sum tells about its terms.
* `massAbove_bounds`, `exists_massAbove_pos`: the masses.
-/

namespace Mixtures

/-- An exponential and a logarithm. -/
structure Elementary where
  /-- The exponential function. -/
  exp : Float → Float
  /-- The natural logarithm. -/
  ln : Float → Float

namespace Double

/-- Doubles, with an exponential and a logarithm of their own. -/
def With (_ : Elementary) : Type := Float

instance instScalarWith (f : Elementary) : Scalar (With f) :=
  { instScalarFloat with
    exp := f.exp
    ln := f.ln }

instance instDecidableEqWith (f : Elementary) : DecidableEq (With f) :=
  inferInstanceAs (DecidableEq Float)

/-- With the functions of the machine, these are the doubles that programs compute with. -/
theorem instScalarWith_machine : instScalarWith ⟨Float.exp, Float.log⟩ = instScalarFloat := rfl

/-- Order and division are those of doubles. -/
instance instLawfulWith (f : Elementary) : Scalar.Lawful (With f) where
  lt_of_lt_of_le := lt_of_lt_of_le'
  div_nonpos := div_nonpos'

end Double

open Double

/-- What is documented of the exponential and the logarithm of doubles. -/
structure Elementary.Documented (f : Elementary) : Prop where
  /-- The exponential of not-a-number is none. -/
  exp_nan : ∀ x : With f, Scalar.isNaN x = true → Scalar.isNaN (Scalar.exp x) = true
  /-- The logarithm of not-a-number is none. -/
  ln_nan : ∀ x : With f, Scalar.isNaN x = true → Scalar.isNaN (Scalar.ln x) = true
  /-- What is not positive has an exponential between zero and one. -/
  exp_mem : ∀ x : With f, x ≤ 0 → 0 ≤ Scalar.exp x ∧ Scalar.exp x ≤ 1
  /-- The exponential of zero. -/
  exp_zero : Scalar.exp (0 : With f) = 1
  /-- The exponential of negative infinity. -/
  exp_neg_inf : f.exp (-Float.inf) = 0
  /-- The exponential does not vanish near zero: it does so only below `-745`. -/
  exp_pos : ∀ x : With f, -Scalar.ofNat 700 ≤ x → x ≤ 0 → 0 < Scalar.exp x
  /-- From one on, logarithms are not negative. -/
  ln_nonneg : ∀ x : With f, 1 ≤ x → 0 ≤ Scalar.ln x
  /-- The logarithm of `2 ^ 53` is less than `36.74`, and that of a smaller number is not larger. -/
  ln_le : ∀ x : With f, 1 ≤ x → x ≤ Scalar.ofNat (2 ^ 53) → Scalar.ln x ≤ Scalar.ofNat 37

namespace Double

/-! ## Numbers -/

/-- What is a number. -/
theorem isNaN_eq_false_iff {a : Float} : Scalar.isNaN a = false ↔ IsNumber a := by
  constructor
  · intro h hnone
    obtain ⟨x, hx⟩ := exists_place h
    rw [hnone] at hx
    cases hx
  · intro h
    obtain ⟨x, hx⟩ := h.exists_place
    have hself : (a == a) = true := by
      show Float.Model.UnpackedFloat.beq a.toModel.unpack a.toModel.unpack = true
      rw [Float.Model.UnpackedFloat.beq, compare_eq_place, hx]
      simp
    rw [Scalar.isNaN, hself]
    rfl

theorem isNaN_eq_false_of_mem_sum {xs : List Float} (h : Scalar.isNaN (Scalar.sum xs) = false) :
    ∀ x ∈ xs, Scalar.isNaN x = false := by
  intro x hx
  obtain ⟨-, hnumbers⟩ := isNumber_of_foldl_add (isNaN_eq_false_iff.mp h)
  exact isNaN_eq_false_iff.mpr (hnumbers x hx)

theorem isNaN_eq_false_of_sub {a b : Float} (h : Scalar.isNaN (a - b) = false) :
    Scalar.isNaN a = false :=
  isNaN_eq_false_iff.mpr (isNumber_of_sub (isNaN_eq_false_iff.mp h))

theorem isNaN_eq_false_of_le {a b : Float} (h : a ≤ b) : Scalar.isNaN b = false :=
  isNaN_eq_false_iff.mpr (isNumber_of_le h).2

theorem isNaN_eq_false_of_isFinite {a : Float} (h : Scalar.isFinite a = true) :
    Scalar.isNaN a = false :=
  isNaN_eq_false_iff.mpr (isNumber_of_isFinite h)

theorem le_refl_of_isNaN_eq_false {a : Float} (h : Scalar.isNaN a = false) : a ≤ a := by
  have hnumber := isNaN_eq_false_iff.mp h
  exact (le_iff_units hnumber hnumber).mpr le_rfl

/-- The order is weaker than the strict one. -/
theorem le_of_lt {a b : Float} (h : a < b) : a ≤ b := by
  obtain ⟨x, hx, y, hy, hxy⟩ := lt_iff.mp h
  exact le_iff.mpr ⟨x, hx, y, hy, hxy.le⟩

theorem not_lt_of_le {a b : Float} (h : a ≤ b) : ¬b < a := by
  intro hlt
  obtain ⟨x, hx, y, hy, hxy⟩ := le_iff.mp h
  obtain ⟨y', hy', x', hx', hyx⟩ := lt_iff.mp hlt
  obtain rfl : x = x' := Option.mem_unique hx hx'
  obtain rfl : y = y' := Option.mem_unique hy hy'
  exact absurd hyx hxy.not_gt

/-- Numbers compare with each other. -/
theorem le_of_not_lt {a b : Float} (ha : Scalar.isNaN a = false) (hb : Scalar.isNaN b = false)
    (h : ¬a < b) : b ≤ a := by
  obtain ⟨x, hx⟩ := exists_place ha
  obtain ⟨y, hy⟩ := exists_place hb
  refine le_iff.mpr ⟨y, hy, x, hx, not_lt.mp ?_⟩
  intro hlt
  exact h (lt_iff.mpr ⟨x, hx, y, hy, hlt⟩)

theorem zero_mem : (0 : Float) ≤ 0 ∧ (0 : Float) ≤ 1 := by decide +kernel

theorem one_mem : (0 : Float) ≤ 1 ∧ (1 : Float) ≤ 1 := by decide +kernel

theorem zero_lt_one : (0 : Float) < 1 := by decide +kernel

end Double

namespace LogMass

open Double

variable {f : Elementary}

/-! ## The largest term -/

/-- A number among the terms that no number among them exceeds, or nothing if none is a number. -/
def Topped (terms : List (LogMass (With f))) : Option (With f) → Prop
  | none => ∀ x, .of x ∈ terms → Scalar.isNaN x = true
  | some m => Scalar.isNaN m = false ∧ .of m ∈ terms ∧
      ∀ x, .of x ∈ terms → Scalar.isNaN x = false → x ≤ m

theorem topped_of_isNaN {terms : List (LogMass (With f))} {top : Option (With f)}
    (h : Topped terms top) {term : LogMass (With f)}
    (hterm : ∀ x, term = .of x → Scalar.isNaN x = true) : Topped (terms ++ [term]) top := by
  have hlast : ∀ x, .of x ∈ terms ++ [term] → .of x ∈ terms ∨ Scalar.isNaN x = true := by
    intro x hx
    rcases List.mem_append.mp hx with hx | hx
    · exact .inl hx
    · exact .inr (hterm x (List.mem_singleton.mp hx).symm)
  cases top with
  | none =>
    intro x hx
    rcases hlast x hx with hx | hnan
    · exact h x hx
    · exact hnan
  | some m =>
    obtain ⟨hm, hmem, hle⟩ := h
    refine ⟨hm, List.mem_append_left _ hmem, ?_⟩
    intro x hx hnumber
    rcases hlast x hx with hx | hnan
    · exact hle x hx hnumber
    · cases hnumber.symm.trans hnan

theorem topped_none {terms : List (LogMass (With f))} (h : Topped terms none) {x : With f}
    (hx : Scalar.isNaN x = false) : Topped (terms ++ [.of x]) (some x) := by
  refine ⟨hx, List.mem_append_right _ List.mem_cons_self, ?_⟩
  intro y hy hnumber
  rcases List.mem_append.mp hy with hy | hy
  · cases hnumber.symm.trans (h y hy)
  · cases List.mem_singleton.mp hy
    exact le_refl_of_isNaN_eq_false hx

theorem topped_some {terms : List (LogMass (With f))} {m : With f} (h : Topped terms (some m))
    {x : With f} (hx : Scalar.isNaN x = false) :
    Topped (terms ++ [.of x]) (some (if m < x then x else m)) := by
  obtain ⟨hm, hmem, hle⟩ := h
  split
  next hlt =>
    refine ⟨hx, List.mem_append_right _ List.mem_cons_self, ?_⟩
    intro y hy hnumber
    rcases List.mem_append.mp hy with hy | hy
    · exact le_trans' (hle y hy hnumber) (le_of_lt hlt)
    · cases List.mem_singleton.mp hy
      exact le_refl_of_isNaN_eq_false hx
  next hlt =>
    refine ⟨hm, List.mem_append_left _ hmem, ?_⟩
    intro y hy hnumber
    rcases List.mem_append.mp hy with hy | hy
    · exact hle y hy hnumber
    · cases List.mem_singleton.mp hy
      exact le_of_not_lt hm hx hlt

/-- One more term. -/
theorem topped_raise {terms : List (LogMass (With f))} {top : Option (With f)}
    (h : Topped terms top) (term : LogMass (With f)) :
    Topped (terms ++ [term]) (raise top term) := by
  cases term with
  | zero => exact topped_of_isNaN h nofun
  | of x =>
    unfold raise
    dsimp only
    split
    next hnan =>
      apply topped_of_isNaN h
      rintro y ⟨⟩
      exact hnan
    next hnan =>
      have hx := Bool.eq_false_of_not_eq_true hnan
      cases top with
      | none => exact topped_none h hx
      | some m => exact topped_some h hx

/-- **The largest term**, where not-a-number is passed over. -/
theorem topped_top (terms : List (LogMass (With f))) : Topped terms (top terms) := by
  induction terms using List.reverseRecOn with
  | nil => exact nofun
  | append_singleton terms term ih =>
    rw [top, List.foldl_append]
    exact topped_raise ih term

/-! ## Masses relative to their sum -/

theorem isNaN_eq_false_of_apply {g : With f → With f}
    (hg : ∀ x, Scalar.isNaN x = true → Scalar.isNaN (g x) = true) {x : With f}
    (hx : Scalar.isNaN (g x) = false) : Scalar.isNaN x = false := by
  apply Bool.eq_false_of_not_eq_true
  intro hnan
  cases hx.symm.trans (hg x hnan)

/-- A term that the shift is not below has a mass between zero and one. -/
theorem massAbove_mem (h : f.Documented) {shift : With f} (hshift : Scalar.isFinite shift = true)
    {term : LogMass (With f)} (hterm : ∀ x, term = .of x → x ≤ shift) :
    0 ≤ massAbove shift term ∧ massAbove shift term ≤ 1 := by
  cases term with
  | zero => exact zero_mem
  | of x => exact h.exp_mem _ (sub_nonpos_of_le (hterm x rfl) hshift)

/-- Terms whose masses have a sum are numbers. -/
theorem isNaN_eq_false_of_sum (h : f.Documented) {shift : With f} {terms : List (LogMass (With f))}
    (hsum : Scalar.isNaN (Scalar.sum (terms.map (massAbove shift))) = false) {x : With f}
    (hx : .of x ∈ terms) : Scalar.isNaN x = false := by
  have hmass := isNaN_eq_false_of_mem_sum hsum _ (List.mem_map_of_mem hx)
  exact isNaN_eq_false_of_sub (isNaN_eq_false_of_apply h.exp_nan hmass)

/-- A sum starts at negative zero. -/
theorem neg_zero_mem : (0 : Float) ≤ -0 ∧ -0 ≤ plateau := by decide +kernel

/-- A sum of numbers between zero and one. -/
theorem sum_bounds {xs : List (With f)} (hxs : ∀ x ∈ xs, 0 ≤ x ∧ x ≤ 1) :
    (∀ x ∈ xs, x ≤ Scalar.sum xs) ∧ Scalar.sum xs ≤ Scalar.ofNat (2 ^ 53) :=
  (foldl_add_bounds hxs neg_zero_mem.1 neg_zero_mem.2).2

/-- The sum of the masses relative to the largest one, which is one. -/
theorem sum_massAbove_mem (h : f.Documented) {m : With f} (hm : Scalar.isFinite m = true)
    {terms : List (LogMass (With f))} (hmem : .of m ∈ terms) (hle : ∀ x, .of x ∈ terms → x ≤ m) :
    1 ≤ Scalar.sum (terms.map (massAbove m)) ∧
      Scalar.sum (terms.map (massAbove m)) ≤ Scalar.ofNat (2 ^ 53) := by
  have hmasses : ∀ r ∈ terms.map (massAbove m), 0 ≤ r ∧ r ≤ 1 := by
    intro r hr
    obtain ⟨term, hterm, rfl⟩ := List.mem_map.mp hr
    refine massAbove_mem h hm ?_
    rintro x rfl
    exact hle x hterm
  have hself : m - m = 0 := sub_self_of_isFinite hm
  have hone : massAbove m (.of m) = 1 := by
    rw [massAbove, hself, h.exp_zero]
  obtain ⟨hterms, hplateau⟩ := sum_bounds hmasses
  refine ⟨?_, hplateau⟩
  rw [← hone]
  exact hterms _ (List.mem_map_of_mem hmem)

/-- The largest term and the sum of all, if its logarithm is finite: all terms are numbers, and the
largest one is not far below the sum. -/
structure Summed (terms : List (LogMass (With f))) (norm m : With f) : Prop where
  isFinite : Scalar.isFinite norm = true
  mem : .of m ∈ terms
  le : ∀ x, .of x ∈ terms → x ≤ norm
  near : -Scalar.ofNat 74 ≤ m - norm

/-- **A finite sum** has a largest term, and no term that is not a number. -/
theorem exists_summed (h : f.Documented) {terms : List (LogMass (With f))} {norm : With f}
    (hsum : (sum terms).finite? = some norm) : ∃ m, Summed terms norm m := by
  have htopped := topped_top terms
  unfold sum at hsum
  cases htop : top terms with
  | none =>
    rw [htop] at hsum
    cases hsum
  | some m =>
    rw [htop] at hsum htopped
    obtain ⟨-, hmem, hle⟩ := htopped
    dsimp only at hsum
    split at hsum
    next hm =>
      obtain ⟨hfinite, heq⟩ := Option.ite_none_right_eq_some.mp hsum
      cases heq
      obtain ⟨-, hlnfinite⟩ := isFinite_of_add hfinite
      have hsumnumber := isNaN_eq_false_of_apply h.ln_nan (isNaN_eq_false_of_isFinite hlnfinite)
      have hall : ∀ x, .of x ∈ terms → x ≤ m := fun x hx =>
        hle x hx (isNaN_eq_false_of_sum h hsumnumber hx)
      obtain ⟨hone, hplateau⟩ := sum_massAbove_mem h hm hmem hall
      obtain ⟨habove, hnear⟩ :=
        sub_add_bounds hm (h.ln_nonneg _ hone) (h.ln_le _ hone hplateau) hfinite
      exact ⟨m, hfinite, hmem, fun x hx => le_trans' (hall x hx) habove, hnear⟩
    next hm => cases (if_neg hm).symm.trans hsum

/-- **The masses** relative to a finite sum are between zero and one, -/
theorem massAbove_bounds (h : f.Documented) {terms : List (LogMass (With f))} {norm : With f}
    (hsum : (sum terms).finite? = some norm) :
    ∀ term ∈ terms, 0 ≤ massAbove norm term ∧ massAbove norm term ≤ 1 := by
  obtain ⟨m, hm⟩ := exists_summed h hsum
  intro term hterm
  refine massAbove_mem h hm.isFinite ?_
  rintro x rfl
  exact hm.le x hterm

theorem neg_seven_hundred_le : -Float.ofNat 700 ≤ -Float.ofNat 74 := by decide +kernel

/-- and some mass is positive. -/
theorem exists_massAbove_pos (h : f.Documented) {terms : List (LogMass (With f))} {norm : With f}
    (hsum : (sum terms).finite? = some norm) : ∃ term ∈ terms, 0 < massAbove norm term := by
  obtain ⟨m, hm⟩ := exists_summed h hsum
  refine ⟨.of m, hm.mem, h.exp_pos _ (le_trans' neg_seven_hundred_le hm.near) ?_⟩
  exact sub_nonpos_of_le (hm.le m hm.mem) hm.isFinite

/-! ## Terms as doubles -/

/-- The logarithm of a mass as a double: negative infinity for the mass zero. -/
def exponent (term : LogMass (With f)) : With f := term.double

/-- **A mass** relative to a finite sum is the exponential of a difference of logarithms, also if it
is zero. -/
theorem massAbove_eq_exp (h : f.Documented) {norm : With f} (hnorm : Scalar.isFinite norm = true)
    (term : LogMass (With f)) : massAbove norm term = Scalar.exp (term.exponent - norm) := by
  cases term with
  | zero =>
    have hsub : (zero : LogMass (With f)).exponent - norm = -Float.inf := neg_inf_sub hnorm
    rw [hsub]
    exact h.exp_neg_inf.symm
  | of x => rfl

end LogMass

end Mixtures
