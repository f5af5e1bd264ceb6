import Mixtures.Store.FileSystem

/-!
# Saving a collection to a file

A collection is saved in small steps: a fresh file is created next to the destination, the parts
of the encoding are written to it one by one, it is flushed and synchronized, and at last it takes
the name of the destination. Written parts are gathered in a buffer, which is handed to the system
when the next part does not fit and once more by the flush; the system may take it in pieces. The
destination changes in the last step only, from its old content to the complete encoding; a step
that fails is followed by the removal of the fresh file. So whoever looks at the destination between
two steps sees the old content or the complete new one.

The system may fail in any step. What it answers to each step, and how it names fresh files, is a
parameter.
-/

namespace Mixtures.Store

/-- The steps of saving at which the system is asked for something. -/
inductive SaveStep where
  /-- Creating the fresh file. -/
  | create
  /-- Handing over bytes of the buffer, by the number of the attempt. -/
  | write (number : Nat)
  /-- Flushing the file, after the whole buffer has been handed over. -/
  | flush
  /-- Waiting until the device holds the file. -/
  | sync
  /-- Giving the file the name of the destination. -/
  | rename
deriving DecidableEq, Repr

/-- What saving meets: the names of fresh files and the answers of the system to its steps. -/
structure Device where
  /-- The name of a fresh file in a directory. -/
  freshName : FileSystem → Place → String := FileSystem.firstFreeName
  /-- The fault of a step, if it fails. -/
  fault : SaveStep → Option FileFault := fun _ => none
  /-- How many of the offered bytes a write takes, by its number. -/
  taken : Nat → Nat → Nat := fun _ offered => offered

/-- How far saving has come. -/
inductive Progress where
  /-- Nothing has been done. -/
  | ready
  /-- The fresh file is open, and parts are gathered in the buffer; the others are left. -/
  | filling (fresh : Place) (writes : Nat) (buffer : Bytes) (left : List Bytes)
  /-- The buffer is handed over, before the next part or at the end. -/
  | draining (fresh : Place) (writes : Nat) (buffer : Bytes) (left : List Bytes)
  /-- The fresh file is complete and flushed. -/
  | flushed (fresh : Place)
  /-- The fresh file is complete and on the device. -/
  | synced (fresh : Place)
  /-- A step has failed; the fresh file is still there. -/
  | broken (fresh : Place) (fault : FileFault)
  /-- The destination holds the encoding. -/
  | finished
  /-- Saving has failed and cleaned up. -/
  | failed (fault : FileFault)
deriving DecidableEq, Repr

/-- The fresh file with more bytes at its end. -/
def FileSystem.append (fs : FileSystem) (place : Place) (bytes : Bytes) : FileSystem :=
  match fs.lookup place with
  | some (.file content) => fs.put place (.file (content ++ bytes))
  | _ => fs

/-- The size of the buffer, in bytes. -/
def bufferSize : Nat := 8192

namespace Progress

/-- One step of saving to a path. What a buffer still holds when a step fails may reach the fresh
file before that is removed; the removal leaves no trace of it. -/
def step (device : Device) (path : Path) (content : List Bytes) (progress : Progress)
    (fs : FileSystem) : Progress × FileSystem :=
  match progress with
  | ready =>
    match device.fault .create, fs.freshPlace device.freshName path.parent with
    | _, .error fault => (failed fault, fs)
    | some fault, _ => (failed fault, fs)
    | none, .ok fresh => (filling fresh 0 [] content, fs.put fresh (.file []))
  | filling fresh n buffer (part :: left) =>
    if part.length < bufferSize ∧ buffer.length + part.length ≤ bufferSize then
      (filling fresh n (buffer ++ part) left, fs)
    else (draining fresh n buffer (part :: left), fs)
  | filling fresh n buffer [] => (draining fresh n buffer [], fs)
  | draining fresh n (b :: bs) left =>
    match device.fault (.write n) with
    | some fault => (broken fresh fault, fs)
    | none =>
      let count := device.taken n (b :: bs).length
      if count = 0 then (broken fresh .noRoom, fs)
      else
        (draining fresh (n + 1) ((b :: bs).drop count) left, fs.append fresh ((b :: bs).take count))
  | draining fresh n [] (part :: left) =>
    -- a part as large as the buffer is handed over by itself
    if part.length < bufferSize then (filling fresh n part left, fs)
    else (draining fresh n part left, fs)
  | draining fresh _ [] [] =>
    match device.fault .flush with
    | some fault => (broken fresh fault, fs)
    | none => (flushed fresh, fs)
  | flushed fresh =>
    match device.fault .sync with
    | some fault => (broken fresh fault, fs)
    | none => (synced fresh, fs)
  | synced fresh =>
    match device.fault .rename, fs.rename fresh path with
    | some fault, _ => (broken fresh fault, fs)
    | none, .error fault => (broken fresh fault, fs)
    | none, .ok renamed => (finished, renamed)
  | broken fresh fault => (failed fault, fs.remove fresh)
  | finished => (finished, fs)
  | failed fault => (failed fault, fs)

/-- How saving has ended, if it has. -/
def result? : Progress → Option (Except FileFault Unit)
  | finished => some (.ok ())
  | failed fault => some (.error fault)
  | _ => none

/-- An upper bound for the steps that parts need: each is gathered and handed over, which takes no
more steps than it has bytes, and two more. -/
def partSteps : List Bytes → Nat
  | [] => 0
  | part :: left => part.length + 3 + partSteps left

/-- An upper bound for the steps to come. -/
def stepsLeft (content : List Bytes) : Progress → Nat
  | ready => partSteps content + 7
  | filling _ _ buffer left => buffer.length + partSteps left + 6
  | draining _ _ buffer left => buffer.length + partSteps left + 5
  | flushed _ => 3
  | synced _ => 2
  | broken _ _ => 1
  | finished | failed _ => 0

/-- Saving ends: as long as it has not ended, every step brings it closer. -/
theorem stepsLeft_step_lt {device : Device} {path : Path} {content : List Bytes}
    {progress : Progress} {fs : FileSystem} (h : progress.result? = none) :
    (progress.step device path content fs).1.stepsLeft content < progress.stepsLeft content := by
  match progress with
  | ready =>
    rw [step]
    split <;> simp only [stepsLeft, List.length_nil] <;> omega
  | filling fresh n buffer [] =>
    simp only [step, stepsLeft]
    omega
  | filling fresh n buffer (part :: left) =>
    rw [step]
    split <;> simp only [stepsLeft, partSteps, List.length_append] <;> omega
  | draining fresh n [] [] =>
    rw [step]
    split <;> simp only [stepsLeft] <;> omega
  | draining fresh n [] (part :: left) =>
    rw [step]
    split <;> simp only [stepsLeft, partSteps, List.length_nil] <;> omega
  | draining fresh n (b :: bs) left =>
    rw [step]
    split
    · simp only [stepsLeft]
      omega
    · -- a write that does not fail takes at least one byte
      generalize device.taken n (b :: bs).length = count
      dsimp only
      split <;> simp only [stepsLeft, List.length_drop, List.length_cons] <;> omega
  | flushed fresh | synced fresh =>
    rw [step]
    split <;> simp only [stepsLeft] <;> omega
  | broken fresh fault =>
    simp only [step, stepsLeft]
    omega

/-- All steps that are left: how saving ends, and the file system afterwards. -/
def run (device : Device) (path : Path) (content : List Bytes) (progress : Progress)
    (fs : FileSystem) : Except FileFault Unit × FileSystem :=
  match _h : progress.result? with
  | some result => (result, fs)
  | none =>
    let next := progress.step device path content fs
    run device path content next.1 next.2
termination_by progress.stepsLeft content
decreasing_by exact stepsLeft_step_lt _h

end Progress

/-- Saves a collection: how it ended, and the file system afterwards. -/
def saveWith (device : Device) (fs : FileSystem) (path : Path) (models : Collection UInt64) :
    Except Error Unit × FileSystem :=
  let (result, after) := Progress.run device path (parts models) .ready fs
  (result.mapError .file, after)

/-- Saves a collection on a device that does not fail. -/
def save (fs : FileSystem) (path : Path) (models : Collection UInt64) :
    Except Error Unit × FileSystem :=
  saveWith {} fs path models

/-- Loads the collection of the expected shape from a file. -/
def load (fs : FileSystem) (path : Path) (size dim : Nat) : Except Error (Collection UInt64) :=
  match fs.read path with
  | .error fault => .error (.file fault)
  | .ok content => decodeFile size dim content

end Mixtures.Store
