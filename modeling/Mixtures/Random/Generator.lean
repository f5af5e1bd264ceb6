import Mixtures.Random.KeyStream

/-!
# Generators

A generator is a random source chosen at run time: the general purpose key stream of a seed, or
a list of words.
-/

namespace Mixtures

/-- A random source of either kind. -/
inductive Generator where
  /-- A key stream. -/
  | stream (source : KeyStream)
  /-- A list of words. -/
  | listed (source : WordList)
deriving DecidableEq

namespace Generator

/-- The generator of a seed. -/
def ofSeed (seed : UInt64) : Generator := stream (KeyStream.standard seed)

/-- The generator that repeats a list of words. -/
def ofWords (words : List UInt64) : Generator := listed { words }

/-- How many words have been taken from a list of words. -/
def wordsTaken? : Generator → Option Nat
  | stream _ => none
  | listed list => some list.taken

instance : RandomSource Generator where
  next32
    | stream s => let (w, s) := RandomSource.next32 s; (w, stream s)
    | listed s => let (w, s) := RandomSource.next32 s; (w, listed s)
  next64
    | stream s => let (w, s) := RandomSource.next64 s; (w, stream s)
    | listed s => let (w, s) := RandomSource.next64 s; (w, listed s)

end Generator

end Mixtures
