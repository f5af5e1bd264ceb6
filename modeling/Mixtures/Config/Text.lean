import Mixtures.Config.Basic
import Mixtures.Json.Reader
import Mixtures.Json.Writer

/-!
# Configurations as text

A configuration is written as a JSON object with one member for each field. When it is read,
missing fields have their default, unknown members are skipped whatever their value, and a field
that occurs twice is refused. A list is read as the fields in their order. A choice among names
is written as the name, and is also read from an object that has the name and `null`.

Whole numbers have to be written as such and fit into 64 bits. Other numbers may be written in
any way, are read as the nearest double, and may not be beyond the largest one. Doubles are
written with the fewest digits that are read back. Numbers that are not finite are written as
`null`, which is not read as a number; so a configuration with such a number is not read back.
-/

namespace Mixtures.Config

open Json

/-- The names of the fields, in their order. -/
def fieldNames : List String :=
  ["n_components", "max_em_iterations", "max_kmeans_iterations", "init_mode", "verbosity",
    "convergence_threshold", "covariance_floor", "covariance_type", "max_reinitializations",
    "seed"]

/-- The names of the ways to start. -/
def startName : Em.Start → String
  | .labels => "use_provided_labels"
  | .randomSamples => "random_init"

/-- The names of the verbosities. -/
def verbosityName : Em.Verbosity → String
  | .silent => "silent"
  | .summary => "summary"
  | .detailed => "detailed"

/-- The names of the covariance forms. -/
def formName : Em.CovarianceForm → String
  | .full => "full"
  | .diagonal => "diagonal"

/-- The one of the given choices that a value names, by a text or by an object whose only member
has the name and the value `null`. -/
def readChoice {β : Type} (name : β → String) (choices : List β) : Value → Option β
  | .string (some text) | .object [(some text, .null)] =>
    choices.find? fun choice => name choice == text
  | _ => none

/-- A way to start. -/
def readStart : Value → Option Em.Start := readChoice startName [.labels, .randomSamples]

/-- A verbosity. -/
def readVerbosity : Value → Option Em.Verbosity :=
  readChoice verbosityName [.silent, .summary, .detailed]

/-- A covariance form. -/
def readForm : Value → Option Em.CovarianceForm := readChoice formName [.full, .diagonal]

/-- A whole number of at most 64 bits. -/
def readNat : Value → Option Nat
  | .number n => n.natural?.filter fun n => decide (n ≤ Numeral.wordBound)
  | _ => none

/-- A finite double. -/
def readFloat : Value → Option Float
  | .number n => n.finite?
  | _ => none

/-- A seed, or none. -/
def readSeed : Value → Option (Option UInt64)
  | .null => some none
  | value => do return some (UInt64.ofNat (← readNat value))

/-- The value of a field that occurs at most once: the default if it does not occur, nothing if
it occurs twice or cannot be read. -/
def readField {β : Type} (members : List (String × Value)) (name : String) (fallback : β)
    (read : Value → Option β) : Option β :=
  match members.filter fun member => member.1 == name with
  | [] => some fallback
  | [member] => read member.2
  | _ => none

/-- The configuration with the given members. -/
def ofMembers (members : List (String × Value)) : Option (Config Float) := do
  let d : Config Float := default
  return {
    componentCount := ← readField members "n_components" d.componentCount readNat
    maxEmIterations := ← readField members "max_em_iterations" d.maxEmIterations readNat
    maxKMeansIterations :=
      ← readField members "max_kmeans_iterations" d.maxKMeansIterations readNat
    start := ← readField members "init_mode" d.start readStart
    verbosity := ← readField members "verbosity" d.verbosity readVerbosity
    convergenceThreshold :=
      ← readField members "convergence_threshold" d.convergenceThreshold readFloat
    covarianceFloor := ← readField members "covariance_floor" d.covarianceFloor readFloat
    form := ← readField members "covariance_type" d.form readForm
    maxResets := ← readField members "max_reinitializations" d.maxResets readNat
    seed := ← readField members "seed" d.seed readSeed }

/-- The configuration that a value describes. -/
def ofValue : Value → Option (Config Float)
  | .object members => do
    ofMembers (← members.mapM fun member => member.1.map fun name => (name, member.2))
  | .array items =>
    if fieldNames.length < items.length then none else ofMembers (fieldNames.zip items)
  | _ => none

/-- The configuration that a text describes. -/
def parse (text : String) : Option (Config Float) := do ofValue (← Value.parse text)

/-- The object that describes a configuration, given how its doubles are written. -/
def toValue (number : Float → Value) (c : Config Float) : Value :=
  Value.ofMembers
    [("n_components", .ofNat c.componentCount),
      ("max_em_iterations", .ofNat c.maxEmIterations),
      ("max_kmeans_iterations", .ofNat c.maxKMeansIterations),
      ("init_mode", .ofString (startName c.start)),
      ("verbosity", .ofString (verbosityName c.verbosity)),
      ("convergence_threshold", number c.convergenceThreshold),
      ("covariance_floor", number c.covarianceFloor),
      ("covariance_type", .ofString (formName c.form)),
      ("max_reinitializations", .ofNat c.maxResets),
      ("seed", (c.seed.map fun seed => .ofNat seed.toNat).getD .null)]

/-- A finite double in its shortest form, `null` for any other. -/
def floatValue (x : Float) : Value := if x.isFinite then .number (Numeral.ofFloat x) else .null

/-- The text of a configuration. -/
def text (c : Config Float) : String := (c.toValue floatValue).text

/-- The text of the configuration is read as an equal one. -/
def roundTrips (c : Config Float) : Bool :=
  match parse c.text with
  | some again => again == c
  | none => false

end Mixtures.Config
