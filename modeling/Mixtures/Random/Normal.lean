import Mixtures.Random.NormalLayers
import Mixtures.Random.Source

/-!
# Standard normal numbers

Draws from the standard normal distribution by rejection from 256 layers of equal area: pick a
layer and a signed fraction of its width; a value inside the layer above is accepted at once, a
value in the rim of its layer is accepted with the probability that the density there leaves,
and the base layer hands over to a separate draw from the tail.

One word serves as layer and fraction: its low eight bits and its high 52 bits. A draw ends with
probability one and after little more than one attempt on average. The attempts are bounded all
the same: when all are used up, the draw is zero.
-/

namespace Mixtures.Normal

open NormalLayers

variable {ρ : Type} [RandomSource ρ]

/-- The bound on attempts in one draw, and in one draw from the tail. -/
def attempts : Nat := 1000000

/-- The fraction in `[-1, 1)` that the upper 52 bits of a word stand for. -/
def signedFraction (word : UInt64) : Float :=
  Float.ofBits ((word >>> 12) ||| 0x4000000000000000) - 3.0

/-- The fraction in `[0, 1)` that the upper 53 bits of a word stand for. -/
def fraction (word : UInt64) : Float := (word >>> 11).toFloat * (1.0 / 9007199254740992.0)

/-- A fraction strictly between zero and one. -/
def openFraction (word : UInt64) : Float :=
  Float.ofBits ((word >>> 12) ||| 0x3ff0000000000000) - (1.0 - 1.0 / 9007199254740992.0)

/-- A distance beyond the start of the tail, as a non-positive number. -/
def tailDistance : Nat → ρ → Float × ρ
  | 0, source => (0.0, source)
  | n + 1, source =>
    let (a, source) := RandomSource.next64 source
    let (b, source) := RandomSource.next64 source
    let x := Float.log (openFraction a) / tailStart
    let y := Float.log (openFraction b)
    if -2.0 * y < x * x then tailDistance n source else (x, source)

/-- A draw from the tail on the side of the sign of `u`. -/
def tail (u : Float) (source : ρ) : Float × ρ :=
  let (x, source) := tailDistance attempts source
  (if u < 0.0 then x - tailStart else tailStart - x, source)

/-- A draw with a bounded number of attempts. -/
def drawWithin : Nat → ρ → Float × ρ
  | 0, source => (0.0, source)
  | n + 1, source =>
    let (word, source) := RandomSource.next64 source
    let i := (word &&& 0xff).toNat
    let u := signedFraction word
    let x := u * edge i
    if Float.abs x < edge (i + 1) then (x, source)
    else if i = 0 then tail u source
    else
      let (second, source) := RandomSource.next64 source
      let level := height (i + 1) + (height i - height (i + 1)) * fraction second
      if level < Float.exp (-x * x / 2.0) then (x, source) else drawWithin n source

/-- Draws a standard normal number. -/
def draw (source : ρ) : Float × ρ := drawWithin attempts source

end Mixtures.Normal
