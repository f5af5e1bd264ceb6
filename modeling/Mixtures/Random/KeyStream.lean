import Mixtures.Random.Source

/-!
# The ChaCha key stream

A ChaCha key stream is a function of eight key words, a stream number and a number of rounds:
block `n` consists of sixteen words computed from the key, `n` and the stream number, and the
stream is block `0`, block `1`, … . Different stream numbers give independent streams for one
key. The layout is the one with a 64-bit block counter and a 64-bit stream number.

`KeyStream` reads the words of such a stream in order. A 64-bit word is made of the next two
words, the first one low, wherever in a block the reader stands.
-/

namespace Mixtures

/-- The sixteen words on which the rounds work. -/
abbrev ChaChaState := Vector UInt32 16

namespace ChaCha

/-- Rotates a word to the left. -/
def rotate (x : UInt32) (n : UInt32) : UInt32 := (x <<< n) ||| (x >>> (32 - n))

/-- Mixes four words of the state. -/
def quarterRound (s : ChaChaState) (i j k l : Fin 16) : ChaChaState :=
  let a := s[i] + s[j]
  let d := rotate (s[l] ^^^ a) 16
  let c := s[k] + d
  let b := rotate (s[j] ^^^ c) 12
  let a := a + b
  let d := rotate (d ^^^ a) 8
  let c := c + d
  let b := rotate (b ^^^ c) 7
  (((s.set i a).set j b).set k c).set l d

/-- A round over the columns followed by a round over the diagonals. -/
def doubleRound (s : ChaChaState) : ChaChaState :=
  let s := quarterRound s 0 4 8 12
  let s := quarterRound s 1 5 9 13
  let s := quarterRound s 2 6 10 14
  let s := quarterRound s 3 7 11 15
  let s := quarterRound s 0 5 10 15
  let s := quarterRound s 1 6 11 12
  let s := quarterRound s 2 7 8 13
  quarterRound s 3 4 9 14

/-- Applies a number of double rounds. -/
def rounds : Nat → ChaChaState → ChaChaState
  | 0, s => s
  | n + 1, s => rounds n (doubleRound s)

/-- The state before the first round: four constants, the key, the block number and the stream
number, the latter two with their low halves first. -/
def initialState (key : Vector UInt32 8) (stream counter : UInt64) : ChaChaState :=
  #v[0x61707865, 0x3320646e, 0x79622d32, 0x6b206574,
    key[0], key[1], key[2], key[3], key[4], key[5], key[6], key[7],
    counter.toUInt32, (counter >>> 32).toUInt32, stream.toUInt32, (stream >>> 32).toUInt32]

/-- A block of the key stream: the state after the rounds, added to the state before them. -/
def block (doubleRounds : Nat) (key : Vector UInt32 8) (stream counter : UInt64) : List UInt32 :=
  let s := initialState key stream counter
  (s.zipWith (· + ·) (rounds doubleRounds s)).toList

end ChaCha

/-- A reader of the key stream with the given parameters. -/
structure KeyStream where
  /-- Half the number of rounds. -/
  doubleRounds : Nat
  /-- The key. -/
  key : Vector UInt32 8
  /-- The stream number. -/
  stream : UInt64
  /-- The number of the block that is read after `pending`. -/
  counter : UInt64 := 0
  /-- The unread words of the current block. -/
  pending : List UInt32 := []
deriving DecidableEq

namespace KeyStream

/-- Takes the next word. -/
def next (s : KeyStream) : UInt32 × KeyStream :=
  match s.pending with
  | w :: ws => (w, { s with pending := ws })
  | [] =>
    let words := ChaCha.block s.doubleRounds s.key s.stream s.counter
    (words.headD 0, { s with counter := s.counter + 1, pending := words.tail })

instance : RandomSource KeyStream where
  next32 := next
  next64 s :=
    let (low, s) := s.next
    let (high, s) := s.next
    (low.toUInt64 ||| (high.toUInt64 <<< 32), s)

/-- One step of the generator that spreads a seed: a linear congruence on 64 bits. -/
def seedStep (state : UInt64) : UInt64 := state * 6364136223846793005 + 11634580027462260723

/-- The word given out for a state of the seed generator: the well mixed high bits, rotated by
the highest five. -/
def seedWord (state : UInt64) : UInt32 :=
  let x := (((state >>> 18) ^^^ state) >>> 27).toUInt32
  let r := (state >>> 59).toUInt32
  (x >>> r) ||| (x <<< ((32 - r) % 32))

/-- The first `n` words spread from a seed. -/
def seedWords : Nat → UInt64 → List UInt32
  | 0, _ => []
  | n + 1, state => seedWord (seedStep state) :: seedWords n (seedStep state)

/-- The key spread from a 64-bit seed. -/
def keyOfSeed (seed : UInt64) : Vector UInt32 8 :=
  let words := seedWords 8 seed
  Vector.ofFn fun i => words.getD i 0

/-- The stream of a seed with the given number of double rounds and stream number. -/
def ofSeed (doubleRounds : Nat) (seed stream : UInt64) : KeyStream :=
  { doubleRounds, key := keyOfSeed seed, stream }

/-- The general purpose stream of a seed: twelve rounds, stream number zero. -/
def standard (seed : UInt64) : KeyStream := ofSeed 6 seed 0

end KeyStream

/-- The stage of fitting that a random stream feeds. -/
inductive Stage where
  /-- Choosing starting clusters. -/
  | init
  /-- Expectation maximization. -/
  | em
deriving DecidableEq, Repr

namespace Stage

/-- The number of a stage in a stream number. -/
def number : Stage → UInt64
  | init => 0
  | em => 1

/-- The stream that a group uses in a stage, with eight rounds: it depends on the seed, the
group and the stage only, never on what other groups do. -/
def source (stage : Stage) (seed : UInt64) (group : Nat) : KeyStream :=
  KeyStream.ofSeed 4 seed ((group.toUInt64 <<< 1) ||| stage.number)

end Stage

end Mixtures
