import Mixtures.Random.Source

/-!
# Uniform whole numbers

A uniform number below `n` is the high half of the product of a random word with `n`. The low
half says how much the result was rounded down; when it is close to the top, a second word
decides whether the exact product would have carried, which removes nearly all of the bias.
-/

namespace Mixtures

variable {ρ : Type} [RandomSource ρ]

/-- The number of words of 32 bits. -/
def wordCount : Nat := Nat.pow 2 32

/-- A uniform number below `n`, for `0 < n < 2 ^ 32`. -/
def uniformBelow (n : Nat) (source : ρ) : Nat × ρ :=
  let (word, source) := RandomSource.next32 source
  let product := word.toNat * n
  let high := product / wordCount
  let low := product % wordCount
  if wordCount - n < low then
    let (word, source) := RandomSource.next32 source
    let carry := (low + word.toNat * n / wordCount) / wordCount
    (high + carry, source)
  else (high, source)

end Mixtures
