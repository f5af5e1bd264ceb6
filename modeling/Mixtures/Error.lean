/-!
# Errors

Every reason for which an operation of the library can fail, and the one text of each. Errors
are causes: what a text mentions (a position, a count, an id) is held as data, and `message` is
the only place with wording.
-/

namespace Mixtures

/-- A parameter that was rejected. -/
inductive Parameter where
  /-- The number of clusters. -/
  | clusterCount
  /-- The number of worker threads. -/
  | threads
  /-- The dimension of the samples. -/
  | dimension
  /-- The number of mixture components. -/
  | componentCount
  /-- The relative change of the log-likelihood at which training stops. -/
  | convergenceThreshold
  /-- The amount added to every covariance diagonal. -/
  | covarianceFloor
  /-- The weight of a component. -/
  | weight
  /-- The covariance of a component. -/
  | covariance
deriving DecidableEq, Repr

namespace Parameter

/-- The name under which a parameter is reported. -/
def name : Parameter → String
  | clusterCount => "k"
  | threads => "threads"
  | dimension => "dimension"
  | componentCount => "n_components"
  | convergenceThreshold => "convergence_threshold"
  | covarianceFloor => "covariance_floor"
  | weight => "weight"
  | covariance => "covariance"

/-- What a parameter has to satisfy. -/
def requirement : Parameter → String
  | clusterCount | threads | dimension | componentCount => "must be at least 1"
  | convergenceThreshold | covarianceFloor => "must be finite and non-negative"
  | weight => "must lie in [0, 1]"
  | covariance => "not positive definite"

end Parameter

/-- How an entry of an input sequence breaks the contract of that input. -/
inductive Violation where
  /-- The group id is not below the number of groups. -/
  | idTooLarge (id groupCount : Nat)
  /-- The group id is smaller than the one before it. -/
  | idDecreases (id before : Nat)
  /-- The sample has a coordinate that is not finite. -/
  | notFinite
  /-- Training starts from labels, and there are none. -/
  | labelsMissing
  /-- There are more or fewer labels than samples. -/
  | labelCount (expected found : Nat)
  /-- The label is not below the number of components. -/
  | labelTooLarge (label componentCount : Nat)
  /-- The key was not among the keys that the index was built from. -/
  | unknownKey
deriving DecidableEq, Repr

/-- The text of a contract violation. -/
def Violation.message : Violation → String
  | idTooLarge id count => s!"group id {id} is not below group count {count}"
  | idDecreases id before => s!"group id {id} follows {before}; ids must be non-decreasing"
  | notFinite => "sample contains a non-finite value"
  | labelsMissing => "initial labels are required when initializing from labels"
  | labelCount expected found => s!"expected {expected} initial labels, found {found}"
  | labelTooLarge label count => s!"initial label {label} is not below component count {count}"
  | unknownKey => "key is not part of the group index"

/-- How the bytes of a model file deviate from its format. -/
inductive FormatFault where
  /-- The first four bytes are not the signature. -/
  | magic (found : List UInt8)
  /-- The layout version is not the supported one. -/
  | version (found expected : Nat)
  /-- The file holds models of another shape. -/
  | shape (foundK foundD expectedK expectedD : Nat)
  /-- There are bytes after the last model. -/
  | trailing
deriving DecidableEq, Repr

/-- The text of a format fault. -/
def FormatFault.message : FormatFault → String
  | magic found =>
    let listed := ", ".intercalate (found.map fun b => toString b.toNat)
    s!"bad magic [{listed}]"
  | version found expected => s!"unsupported version {found}, expected {expected}"
  | shape k d wantK wantD => s!"file holds k={k}, d={d}; expected k={wantK}, d={wantD}"
  | trailing => "trailing bytes after the last model"

/-- The kinds of failure of reading, writing and looking up files. -/
inductive FileFault where
  /-- The bytes end too early. -/
  | unexpectedEnd
  /-- There is no room for more bytes. -/
  | noRoom
  /-- No file or directory has this name. -/
  | notFound
  /-- A directory was used as a file. -/
  | isDirectory
  /-- A file was used as a directory. -/
  | notDirectory
  /-- The name is taken. -/
  | alreadyExists
  /-- The name stands for a directory in use. -/
  | busy
  /-- The name, or the whole path, is too long. -/
  | invalidName
  /-- A character of the path is zero. -/
  | zeroCharacter
  /-- Any failure that the storage device reports, by a number of its own. -/
  | device (code : Nat)
deriving DecidableEq, Repr

/-- The text of a file fault. -/
def FileFault.message : FileFault → String
  | unexpectedEnd => "unexpected end of file"
  | noRoom => "no room for the whole content"
  | notFound => "no such file or directory"
  | isDirectory => "is a directory"
  | notDirectory => "not a directory"
  | alreadyExists => "already exists"
  | busy => "resource busy"
  | invalidName => "invalid file name"
  | zeroCharacter => "path with a zero character"
  | device code => s!"device failure {code}"

/-- The reasons for which an operation fails. -/
inductive Error where
  /-- There are no samples. -/
  | emptyInput
  /-- A parameter has a value that it may not have. -/
  | invalidParameter (parameter : Parameter)
  /-- Two sizes that have to agree differ. -/
  | dimensionMismatch (expected found : Nat)
  /-- An entry of an input sequence breaks its contract. -/
  | inputContract (index : Nat) (violation : Violation)
  /-- There are more or fewer group ids than samples. -/
  | lengthMismatch (samples ids : Nat)
  /-- The group does not exist. -/
  | invalidGroup (group groupCount : Nat)
  /-- No component of the mixture of this group carries weight. -/
  | emptyMixture (group : Nat)
  /-- The weights of a random choice add up to infinity. -/
  | infiniteWeight
  /-- The content of a model file is not in the expected format. -/
  | format (fault : FormatFault)
  /-- Reading or writing failed. -/
  | file (fault : FileFault)
deriving DecidableEq, Repr

namespace Error

/-- The text of an error. -/
def message : Error → String
  | emptyInput => "empty input"
  | invalidParameter p => s!"invalid parameter {p.name}: {p.requirement}"
  | dimensionMismatch expected found => s!"dimension mismatch: expected {expected}, found {found}"
  | inputContract index violation =>
    s!"input contract violation at index {index}: {violation.message}"
  | lengthMismatch samples ids => s!"length mismatch: {samples} samples but {ids} group ids"
  | invalidGroup group count => s!"group {group} out of range for {count} groups"
  | emptyMixture group => s!"group {group} has an empty mixture (all weights are zero)"
  | infiniteWeight => "weights add up to infinity"
  | format fault => s!"format error: {fault.message}"
  | file fault => s!"i/o error: {fault.message}"

/-- The bytes of a model file end before its last record does. -/
def isTruncated : Error → Bool
  | file .unexpectedEnd => true
  | _ => false

end Error

end Mixtures
