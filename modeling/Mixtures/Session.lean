import Mixtures.Group.Sort
import Mixtures.Pipeline
import Mixtures.Random.Generator
import Mixtures.Random.Normal
import Mixtures.Sampler
import Mixtures.Store.Codec

/-!
# Sessions

A session carries the pieces of a fitting workflow from one operation to the next: the data,
the labels from clustering, the models and a random generator. An operation that needs a piece
which is not there fails, and an operation that fails leaves the session as it was. New data
make the labels of the old ones void; clustering and fitting replace labels and models.
-/

namespace Mixtures

/-- Samples with their group ids. -/
structure Dataset where
  /-- The samples. -/
  samples : List (Point Float)
  /-- The group id of every sample. -/
  ids : List Nat
  /-- The number of groups. -/
  groupCount : Nat

/-- The pieces that a session has so far. -/
structure Session where
  /-- The data. -/
  data : Option Dataset := none
  /-- The labels of the samples. -/
  labels : Option (List Nat) := none
  /-- The models. -/
  models : Option (Collection Float) := none
  /-- The random generator. -/
  generator : Option Generator := none

/-- Why an operation of a session fails. -/
inductive SessionError where
  /-- There are no data. -/
  | noData
  /-- There are no models. -/
  | noModels
  /-- There is no random generator. -/
  | noGenerator
  /-- The operation itself failed. -/
  | failed (error : Error)
deriving DecidableEq, Repr

namespace Session

/-- The result of an operation of the library, as part of a session. -/
def lift {β : Type} (result : Except Error β) : Except SessionError β :=
  result.mapError .failed

/-- A piece that has to be there. -/
def need {β : Type} (missing : SessionError) (piece : Option β) : Except SessionError β :=
  match piece with
  | some x => .ok x
  | none => .error missing

/-- Takes over data. -/
def setData (s : Session) (data : Dataset) : Session := { s with data := some data, labels := none }

/-- Takes over models. -/
def setModels (s : Session) (models : Collection Float) : Session :=
  { s with models := some models }

/-- Takes over a random generator. -/
def setGenerator (s : Session) (generator : Generator) : Session :=
  { s with generator := some generator }

/-- Sorts the data by group. -/
def sort (s : Session) : Except SessionError (Session × Dataset) := do
  let data ← need .noData s.data
  let (samples, ids) ← lift (sortByGroup data.samples data.ids)
  let sorted := { data with samples, ids }
  return ({ s with data := some sorted }, sorted)

/-- Clusters the data by some operation and keeps the labels. -/
def cluster {β : Type} (s : Session) (operation : Dataset → Except Error β)
    (labels : β → List Nat) : Except SessionError (Session × β) := do
  let data ← need .noData s.data
  let result ← lift (operation data)
  return ({ s with labels := some (labels result) }, result)

/-- Fits models to the data by some operation, which is given the labels, and keeps them. -/
def fit (s : Session)
    (operation : Dataset → Option (List Nat) → Except Error (Em.Training Float)) :
    Except SessionError (Session × Em.Training Float) := do
  let data ← need .noData s.data
  let training ← lift (operation data s.labels)
  return (s.setModels training.models, training)

/-- Encodes the models, reads them back with the expected shape and keeps what was read. Gives
the number of bytes, and whether all numbers came back equal. -/
def store (s : Session) (size dim : Nat) :
    Except SessionError (Session × Nat × Bool) := do
  let models ← need .noModels s.models
  let bytes := Store.encode (models.map Float.toBits)
  let (words, _) ← lift (Store.decode size dim bytes)
  let loaded := words.map Float.ofBits
  return (s.setModels loaded, (bytes.length, loaded.agrees models))

/-- The logarithm of the density of a group at a point, if there is such a group. -/
def density (s : Session) (group : Nat) (x : Point Float) :
    Except SessionError (Session × Option (LogMass Float)) := do
  let models ← need .noModels s.models
  match models.get? group with
  | none => return (s, none)
  | some m => return (s, some (← lift (m.logDensity x)))

/-- Samples from the models with the generator. -/
def sample {β : Type} (s : Session)
    (operation : Sampler Float → Generator → Except Error (β × Generator)) :
    Except SessionError (Session × β) := do
  let models ← need .noModels s.models
  let generator ← need .noGenerator s.generator
  let sampler ← lift (Sampler.ofModels models)
  let (result, generator) ← lift (operation sampler generator)
  return (s.setGenerator generator, result)

end Session

end Mixtures
