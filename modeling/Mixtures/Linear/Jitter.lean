import Mixtures.Linear.Square

/-!
# Factoring with jitter

A covariance that cannot be factored is repaired by adding to its diagonal. The amounts in all
are `base`, `10 * base`, …, `10 ^ 7 * base`, tried in this order; each is reached from the one
before by adding the difference. The base is the covariance floor, or the spacing of doubles at
one when the floor is zero. The repaired matrix is given back with the factor, so that what is
kept agrees with what was factored; when every amount fails, the matrix keeps the last one.

The factorization is a parameter: the rule does not depend on how a matrix is factored.
-/

namespace Mixtures

variable {α F : Type} [Scalar α]

/-- Tries the amounts `base * 10 ^ step` for the given steps on a matrix whose diagonal has
already gained `added`. -/
def escalate (factor : List α → Option F) (dim : Nat) (base : α) :
    List Nat → α → List α → Option F × List α
  | [], _, a => (none, a)
  | step :: steps, added, a =>
    let target := base * Scalar.ofNat (Nat.pow 10 step)
    let raised := Square.addToDiagonal dim (target - added) a
    match factor raised with
    | some f => (some f, raised)
    | none => escalate factor dim base steps target raised

/-- What adding to the diagonal keeps holds whatever amounts are tried. -/
theorem escalate_keeps {P : List α → Prop} {dim : Nat}
    (hadd : ∀ delta a, P a → P (Square.addToDiagonal dim delta a)) (factor : List α → Option F)
    (base : α) (steps : List Nat) (added : α) {a : List α} (h : P a) :
    P (escalate factor dim base steps added a).2 := by
  induction steps generalizing added a with
  | nil => exact h
  | cons step steps ih =>
    simp only [escalate]
    split
    · exact hadd _ a h
    · exact ih _ (hadd _ a h)

/-- The least amount tried. -/
def jitterBase (floor : α) : α := if 0 < floor then floor else Scalar.epsilon

/-- The factor of a matrix, after jitter if need be, and the matrix afterwards. -/
def factorWithJitter (factor : List α → Option F) (dim : Nat) (floor : α) (a : List α) :
    Option F × List α :=
  match factor a with
  | some f => (some f, a)
  | none => escalate factor dim (jitterBase floor) (List.range 8) 0 a

/-- What adding to the diagonal keeps is kept by jitter, whether it succeeds or not. -/
theorem factorWithJitter_keeps {P : List α → Prop} {dim : Nat}
    (hadd : ∀ delta a, P a → P (Square.addToDiagonal dim delta a)) (factor : List α → Option F)
    (floor : α) {a : List α} (h : P a) : P (factorWithJitter factor dim floor a).2 := by
  unfold factorWithJitter
  split
  · exact h
  · exact escalate_keeps hadd factor _ _ _ h

/-- Jitter keeps the size of a matrix. -/
theorem length_factorWithJitter (factor : List α → Option F) (dim : Nat) (floor : α)
    (a : List α) : (factorWithJitter factor dim floor a).2.length = a.length :=
  factorWithJitter_keeps (P := fun b => b.length = a.length)
    (fun delta b hb => (Square.length_addToDiagonal dim delta b).trans hb) factor floor rfl

end Mixtures
