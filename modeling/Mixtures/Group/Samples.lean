import Mixtures.Error
import Mixtures.Point

/-!
# Checking samples

Samples and group ids are aligned lists. Samples that can be fitted are at least one point, all
of one positive dimension, with finite coordinates only.
-/

namespace Mixtures

variable {α : Type} [Scalar α]

/-- What is wrong with the samples from a position on, if anything: the first sample of another
dimension or with a coordinate that is not finite. -/
def sampleFault (dim : Nat) : Nat → List (Point α) → Option Error
  | _, [] => none
  | index, x :: xs =>
    if x.length ≠ dim then some (.dimensionMismatch dim x.length)
    else if x.all Scalar.isFinite then sampleFault dim (index + 1) xs
    else some (.inputContract index .notFinite)

/-- The common dimension of samples that can be fitted. -/
def checkSamples (samples : List (Point α)) (ids : List Nat) : Except Error Nat :=
  if samples.length ≠ ids.length then .error (.lengthMismatch samples.length ids.length)
  else
    match samples with
    | [] => .error .emptyInput
    | first :: _ =>
      if first.length = 0 then .error (.invalidParameter .dimension)
      else
        match sampleFault first.length 0 samples with
        | some fault => .error fault
        | none => .ok first.length

end Mixtures
