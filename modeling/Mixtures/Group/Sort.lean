import Mixtures.Error

/-!
# Sorting by group

Samples in any order are brought into the order that a layout needs: pairs of id and sample are
sorted by id, and samples of one group keep their order.
-/

namespace Mixtures

/-- The samples and their ids, sorted by id; samples of equal id stay in order. -/
def sortByGroup {β : Type} (samples : List β) (ids : List Nat) :
    Except Error (List β × List Nat) :=
  if samples.length = ids.length then
    let sorted := (ids.zip samples).mergeSort fun p q => decide (p.1 ≤ q.1)
    .ok (sorted.map (·.2), sorted.map (·.1))
  else .error (.lengthMismatch samples.length ids.length)

end Mixtures
