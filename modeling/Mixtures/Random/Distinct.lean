import Mixtures.Random.Uniform

/-!
# Distinct indices

Drawing `amount` different indices below `length`. Two methods give every selection with equal
chance; they differ in the words they use and in the order of the result.

* The *shuffle* exchanges each of the first `amount` places of the list of all indices with a
  uniformly drawn place at or after it.
* *Floyd's method* lets an upper bound run over the last `amount` indices, draws a place up to
  the bound and, if that place was drawn before, lets the earlier occurrence become the bound.

The shuffle is chosen when the selection is large, absolutely or relative to the length. A third
method is left out: large selections from lengths that are larger still, 163 indices or more out of
270 times as many, or out of 500 000 or more and about 37 times as many, are customarily drawn one
by one, with repetitions thrown away. Here they are shuffled as well, and so come out different.
-/

namespace Mixtures

variable {ρ : Type} [RandomSource ρ]

/-- Exchanges the entries at two positions. -/
def exchange (xs : List Nat) (i j : Nat) : List Nat := (xs.set i (xs.getD j 0)).set j (xs.getD i 0)

/-- Shuffles the places `place`, `place + 1`, … of a list of `length` indices, as many as the
first argument says. -/
def shufflePlaces (length : Nat) : Nat → Nat → List Nat → ρ → List Nat × ρ
  | 0, _, xs, source => (xs, source)
  | n + 1, place, xs, source =>
    let (offset, source) := uniformBelow (length - place) source
    shufflePlaces length n (place + 1) (exchange xs place (place + offset)) source

/-- The first `amount` places of a shuffled list of all indices. -/
def shuffledIndices (length amount : Nat) (source : ρ) : List Nat × ρ :=
  let (xs, source) := shufflePlaces length amount 0 (List.range length) source
  (xs.take amount, source)

/-- Floyd's method for the bounds `bound`, `bound + 1`, …, as many as the first argument says. -/
def floydStep : Nat → Nat → List Nat → ρ → List Nat × ρ
  | 0, _, xs, source => (xs, source)
  | n + 1, bound, xs, source =>
    let (t, source) := uniformBelow (bound + 1) source
    let xs := match xs.idxOf? t with
      | some p => xs.set p bound
      | none => xs
    floydStep n (bound + 1) (xs ++ [t]) source

/-- The shuffle serves large selections: at least 163 indices, or more than 11 out of fewer than
`(10 + 1.6 * amount) * amount`. -/
def prefersShuffle (length amount : Nat) : Bool :=
  decide (163 ≤ amount) ||
    (decide (11 < amount) && decide (5 * length < (50 + 8 * amount) * amount))

/-- Different indices below `length`, `amount` of them, for `amount ≤ length`. -/
def distinctIndices (length amount : Nat) (source : ρ) : List Nat × ρ :=
  if prefersShuffle length amount then shuffledIndices length amount source
  else floydStep amount (length - amount) [] source

end Mixtures
