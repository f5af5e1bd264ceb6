import Mixtures.Random.Source
import Mixtures.Scalar

/-!
# Weighted choice

A choice among positions with probabilities proportional to given weights. A uniform fraction of the
total weight is compared with the running totals: the choice is the first position whose running
total exceeds it, or the last position if none does. A position of weight zero is only chosen in the
second case, when the fraction has been rounded up to the total.
-/

namespace Mixtures

/-- Why a list of weights does not define a choice. -/
inductive WeightFault where
  /-- There are no weights. -/
  | noWeights
  /-- A weight is negative or not a number. -/
  | invalidWeight
  /-- All weights are zero. -/
  | zeroTotal
  /-- The weights add up to infinity. -/
  | infiniteTotal
deriving DecidableEq, Repr

/-- A weighted choice, prepared for drawing. -/
structure WeightedChoice (α : Type) where
  /-- The running totals, the last one left out. -/
  cumulative : List α
  /-- The sum of all weights. -/
  total : α
deriving DecidableEq, Repr

namespace WeightedChoice

variable {α : Type} [Scalar α]

/-- The running totals after each of the given weights but the last, and the final total. -/
def accumulate (total : α) : List α → List α × α
  | [] => ([], total)
  | w :: ws =>
    let (later, final) := accumulate (total + w) ws
    (total :: later, final)

/-- Prepares the choice with the given weights. -/
def ofWeights : List α → Except WeightFault (WeightedChoice α)
  | [] => .error .noWeights
  | w :: ws =>
    if (w :: ws).all fun v => decide (0 ≤ v) then
      let (cumulative, total) := accumulate w ws
      if total == 0 then .error .zeroTotal
      else if Scalar.isFinite total then .ok { cumulative, total }
      else .error .infiniteTotal
    else .error .invalidWeight

/-- The position that a value between zero and the total selects. -/
def select (choice : WeightedChoice α) (value : α) : Nat :=
  (choice.cumulative.takeWhile fun c => decide (c ≤ value)).length

/-- The uniform fraction in `[0, 1)` that the upper 52 bits of a word stand for. -/
def fraction (word : UInt64) : α :=
  Scalar.ofNat (word >>> 12).toNat / Scalar.ofNat (Nat.pow 2 52)

/-- Draws a position. -/
def draw {ρ : Type} [RandomSource ρ] (choice : WeightedChoice α) (source : ρ) : Nat × ρ :=
  let (word, source) := RandomSource.next64 source
  (choice.select (fraction word * choice.total), source)

end WeightedChoice

end Mixtures
