import Mixtures.Model.Collection

/-!
# The binary form of a collection

A collection is written as bytes: a signature of four bytes, the layout version in four bytes,
the number of groups, the number of components and the dimension in eight bytes each, and then
for every component of every group its weight, its mean and the rows of its covariance. Whole
numbers are little endian. The numbers of a component are words of 64 bits, the bit patterns of
doubles; the codec moves them around unchanged.

A reader states the shape it expects and refuses any other. It takes bytes from the front of a
list and leaves the rest, so collections can be written and read one after the other.
-/

namespace Mixtures.Store

/-- Bytes of a file or stream. -/
abbrev Bytes := List UInt8

/-- The signature at the start of a model file. -/
def magic : Bytes := [71, 77, 77, 83]

/-- The supported layout version. -/
def formatVersion : Nat := 1

/-- The low bytes of a whole number, as many as the first argument says, lowest first. -/
def littleEndian : Nat → Nat → Bytes
  | 0, _ => []
  | width + 1, n => UInt8.ofNat n :: littleEndian width (n / 256)

/-- The whole number with the given bytes, lowest first. -/
def ofLittleEndian : Bytes → Nat
  | [] => 0
  | b :: bs => b.toNat + 256 * ofLittleEndian bs

/-- The bytes of a word. -/
def wordBytes (w : UInt64) : Bytes := littleEndian 8 w.toNat

/-- The parts of the header, each written at once. -/
def headerParts (models : Collection UInt64) : List Bytes :=
  [magic, littleEndian 4 formatVersion, littleEndian 8 models.groupCount,
    littleEndian 8 models.size, littleEndian 8 models.dim]

/-- The words of a component. -/
def componentWords (c : Component UInt64) : List UInt64 := c.weight :: (c.mean ++ c.covariance)

/-- The parts of the whole encoding, each written at once. -/
def parts (models : Collection UInt64) : List Bytes :=
  headerParts models ++
    models.mixtures.flatMap fun m => m.components.flatMap fun c =>
      (componentWords c).map wordBytes

/-- The encoding of a collection. -/
def encode (models : Collection UInt64) : Bytes := (parts models).flatten

/-- The encoding as far as it fits into a buffer, and whether all of it did. -/
def encodeInto (capacity : Nat) (models : Collection UInt64) : Except Error Unit × Bytes :=
  let bytes := encode models
  (if bytes.length ≤ capacity then .ok () else .error (.file .noRoom), bytes.take capacity)

/-- Reads from the front of a list of bytes and leaves the rest. -/
abbrev Decoder := StateT Bytes (Except Error)

/-- Cuts a number of bytes off the front. -/
def splitBytes : Nat → Bytes → Option (Bytes × Bytes)
  | 0, bs => some ([], bs)
  | _ + 1, [] => none
  | n + 1, b :: bs => (splitBytes n bs).map fun (taken, rest) => (b :: taken, rest)

namespace Decoder

/-- Takes a number of bytes. -/
def bytes (count : Nat) : Decoder Bytes := fun input =>
  match splitBytes count input with
  | some taken => .ok taken
  | none => .error (.file .unexpectedEnd)

/-- Takes a whole number of the given width. -/
def number (width : Nat) : Decoder Nat := do return ofLittleEndian (← bytes width)

/-- Takes a word. -/
def word : Decoder UInt64 := do return UInt64.ofNat (← number 8)

/-- Runs a decoder a number of times. -/
def times {β : Type} (one : Decoder β) : Nat → Decoder (List β)
  | 0 => pure []
  | n + 1 => do
    let x ← one
    let xs ← times one n
    return x :: xs

/-- Fails with a format fault unless a condition holds. -/
def expect (condition : Bool) (fault : FormatFault) : Decoder Unit :=
  if condition then pure () else throw (.format fault)

/-- Takes a component of the given dimension. -/
def component (dim : Nat) : Decoder (Component UInt64) := do
  let weight ← word
  let mean ← times word dim
  let covariance ← times word (dim * dim)
  return { weight, mean, covariance }

/-- Takes a mixture of the given shape. -/
def mixture (size dim : Nat) : Decoder (Mixture UInt64) := do
  let components ← times (component dim) size
  Mixture.ofComponents components

/-- Takes a header with the expected shape and gives the number of groups. -/
def header (size dim : Nat) : Decoder Nat := do
  let found ← bytes 4
  expect (found == magic) (.magic found)
  let version ← number 4
  expect (version == formatVersion) (.version version formatVersion)
  let groups ← number 8
  let foundSize ← number 8
  let foundDim ← number 8
  expect (foundSize == size && foundDim == dim) (.shape foundSize foundDim size dim)
  return groups

/-- Takes a collection of the expected shape. -/
def collection (size dim : Nat) : Decoder (Collection UInt64) := do
  let groups ← header size dim
  let mixtures ← times (mixture size dim) groups
  Collection.ofMixtures size dim mixtures

end Decoder

/-- Reads a collection of the expected shape from the front of the bytes. -/
def decode (size dim : Nat) (input : Bytes) : Except Error (Collection UInt64 × Bytes) :=
  (Decoder.collection size dim).run input

/-- Reads a file that holds one collection of the expected shape and nothing else. -/
def decodeFile (size dim : Nat) (content : Bytes) : Except Error (Collection UInt64) := do
  let (models, rest) ← decode size dim content
  if rest.isEmpty then return models else throw (.format .trailing)

end Mixtures.Store
