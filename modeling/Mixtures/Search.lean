/-!
# The first best key of a list

Nearest centroids, nearest live components and worst explained samples are all found by one
pass over a list of keys. The pass keeps the position and the key of the best entry so far. An
entry is taken when nothing has been taken yet and its key is *admissible*, or when its key is
strictly *better* than the one kept; so of equally good keys the first wins, and a key that
compares with nothing (not-a-number) is never taken.
-/

namespace Mixtures

variable {κ : Type}

/-- One step of `firstBest`: what is kept after looking at the key at `index`. -/
def keepBetter (admissible : κ → Bool) (better : κ → κ → Bool) (best : Option (Nat × κ))
    (entry : κ × Nat) : Option (Nat × κ) :=
  match best with
  | none => if admissible entry.1 then some (entry.2, entry.1) else none
  | some (_, kept) => if better entry.1 kept then some (entry.2, entry.1) else best

/-- The position of the first best admissible key, with the key. -/
def firstBest (admissible : κ → Bool) (better : κ → κ → Bool) (keys : List κ) :
    Option (Nat × κ) :=
  keys.zipIdx.foldl (keepBetter admissible better) none

end Mixtures
