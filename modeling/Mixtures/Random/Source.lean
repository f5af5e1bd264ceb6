/-!
# Sources of random words

A random source is a state from which words are taken one after the other. Everything random in
the library is a function of such a state that gives back the state after it, so that a fixed
source makes every draw reproducible.

`WordList` is the source for examples and checks: it repeats a list of words for ever and counts
how many were taken.
-/

namespace Mixtures

/-- A state that yields words of 32 and of 64 bits. -/
class RandomSource (ρ : Type) where
  /-- Takes a word of 32 bits. -/
  next32 : ρ → UInt32 × ρ
  /-- Takes a word of 64 bits. -/
  next64 : ρ → UInt64 × ρ

/-- Draws a number of values, one after the other. -/
def drawMany {ρ β : Type} (one : ρ → β × ρ) : Nat → ρ → List β × ρ
  | 0, source => ([], source)
  | n + 1, source =>
    let (x, source) := one source
    let (xs, source) := drawMany one n source
    (x :: xs, source)

/-- A list of 64-bit words that is read again and again. -/
structure WordList where
  /-- The words, in the order of their use. -/
  words : List UInt64
  /-- How many words have been taken so far. -/
  taken : Nat := 0
deriving DecidableEq, Repr

namespace WordList

/-- The word that is taken next; zero if there are no words at all. -/
def current (list : WordList) : UInt64 := list.words.getD (list.taken % list.words.length) 0

/-- The list after one more word has been taken. -/
def advance (list : WordList) : WordList := { list with taken := list.taken + 1 }

/-- A word of 32 bits is the low half of one of the listed words. -/
instance : RandomSource WordList where
  next32 list := (list.current.toUInt32, list.advance)
  next64 list := (list.current, list.advance)

end WordList

end Mixtures
