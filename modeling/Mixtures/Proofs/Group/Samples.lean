import Mixtures.Group.Samples
import Mixtures.Proofs.Group.Layout

/-!
# Samples that can be fitted

Every fitting run begins with the check of its samples and ids. `Fittable` collects what a passed
check establishes, and `fittable_iff` says that it establishes nothing else.
-/

namespace Mixtures

variable {α : Type} [Scalar α]

/-! ## The first bad sample -/

/-- What is wrong with the sample at a position, if anything. -/
def sampleFaultAt (dim index : Nat) (x : Point α) : Option Error :=
  if x.length ≠ dim then some (.dimensionMismatch dim x.length)
  else if x.all Scalar.isFinite then none
  else some (.inputContract index .notFinite)

/-- The first reason to reject samples and ids: lists of different lengths, no samples, samples
without coordinates, or the first bad sample. -/
def sampleRejection (samples : List (Point α)) (ids : List Nat) : Option Error :=
  let dim := (samples.headD []).length
  if samples.length ≠ ids.length then some (.lengthMismatch samples.length ids.length)
  else if samples = [] then some .emptyInput
  else if dim = 0 then some (.invalidParameter .dimension)
  else samples.zipIdx.findSome? fun entry => sampleFaultAt dim entry.2 entry.1

theorem sampleFaultAt_eq_none_iff {dim index : Nat} {x : Point α} :
    sampleFaultAt dim index x = none ↔ x.length = dim ∧ x.all Scalar.isFinite := by
  rw [sampleFaultAt]
  split_ifs with hlen hfinite <;> simp_all

/-- The scan finds the first bad sample. -/
theorem sampleFault_eq_findSome? (dim index : Nat) (samples : List (Point α)) :
    sampleFault dim index samples =
      (samples.zipIdx index).findSome? fun entry => sampleFaultAt dim entry.2 entry.1 := by
  induction samples generalizing index with
  | nil => rfl
  | cons x xs ih =>
    rw [List.zipIdx_cons, List.findSome?_cons, sampleFault, sampleFaultAt]
    split_ifs
    · rfl
    · exact ih (index + 1)
    · rfl

theorem checkSamples_eq (samples : List (Point α)) (ids : List Nat) :
    checkSamples samples ids =
      match sampleRejection samples ids with
      | some e => .error e
      | none => .ok (samples.headD []).length := by
  rw [sampleRejection, checkSamples.eq_def]
  by_cases hlen : samples.length ≠ ids.length
  · rw [if_pos hlen, if_pos hlen]
  rw [if_neg hlen, if_neg hlen]
  cases samples with
  | nil => rfl
  | cons x xs =>
    by_cases hdim : x.length = 0
    · rw [List.headD_cons, if_neg (List.cons_ne_nil x xs), if_pos hdim]
      simp only [if_pos hdim]
    · have hscan := sampleFault_eq_findSome? x.length 0 (x :: xs)
      rw [List.headD_cons, if_neg (List.cons_ne_nil x xs), if_neg hdim, ← hscan]
      cases hfault : sampleFault x.length 0 (x :: xs) <;> simp only [if_neg hdim, hfault]

/-! ## Input that passes every check -/

/-- Samples of a dimension and group ids that pass the checks of samples and of ids. -/
structure Fittable (samples : List (Point α)) (ids : List Nat) (groupCount dim : Nat) : Prop where
  /-- There is one id for each sample. -/
  aligned : samples.length = ids.length
  /-- There are samples. -/
  nonempty : samples ≠ []
  /-- Samples have coordinates. -/
  dim_pos : 0 < dim
  /-- All samples have the same dimension. -/
  length_eq : ∀ x ∈ samples, x.length = dim
  /-- All coordinates are finite. -/
  finite : ∀ x ∈ samples, x.all Scalar.isFinite
  /-- All ids are below the number of groups. -/
  id_lt : ∀ id ∈ ids, id < groupCount
  /-- The ids do not decrease. -/
  sorted : ids.Pairwise (· ≤ ·)

theorem sampleRejection_eq_none_iff {samples : List (Point α)} {ids : List Nat} :
    sampleRejection samples ids = none ↔
      samples.length = ids.length ∧ samples ≠ [] ∧ 0 < (samples.headD []).length ∧
        ∀ x ∈ samples, x.length = (samples.headD []).length ∧ x.all Scalar.isFinite := by
  rw [sampleRejection]
  split_ifs with hlen hnil hdim
  · simp [hlen]
  · simp [hnil]
  · simp only [hdim, Nat.lt_irrefl, false_and, and_false]
  · rw [List.findSome?_eq_none_iff]
    simp only [sampleFaultAt_eq_none_iff]
    constructor
    · intro h
      refine ⟨Decidable.not_not.mp hlen, hnil, Nat.pos_of_ne_zero hdim, fun x hx => ?_⟩
      obtain ⟨i, hi, rfl⟩ := List.mem_iff_getElem.mp hx
      exact h (samples[i], i) (List.mk_mem_zipIdx_iff_getElem?.mpr (List.getElem?_eq_getElem hi))
    · rintro ⟨-, -, -, h⟩ entry hentry
      exact h entry.1 (List.fst_mem_of_mem_zipIdx hentry)

/-- The first reason to reject an input: one that the samples give, then the first bad id. -/
def inputRejection (samples : List (Point α)) (ids : List Nat) (groupCount : Nat) :
    Option Error :=
  (sampleRejection samples ids).or (Layout.rejection groupCount ids)

/-- Nothing is wrong with an input exactly if it is fittable, in the dimension of the first
sample. -/
theorem fittable_iff {samples : List (Point α)} {ids : List Nat} {groupCount dim : Nat} :
    Fittable samples ids groupCount dim ↔
      inputRejection samples ids groupCount = none ∧ dim = (samples.headD []).length := by
  rw [inputRejection, Option.or_eq_none_iff, sampleRejection_eq_none_iff,
    Layout.rejection_eq_none_iff]
  constructor
  · intro h
    have hdim : dim = (samples.headD []).length := by
      obtain ⟨x, xs, rfl⟩ := List.exists_cons_of_ne_nil h.nonempty
      exact (h.length_eq x List.mem_cons_self).symm
    exact ⟨⟨⟨h.aligned, h.nonempty, hdim ▸ h.dim_pos,
      fun x hx => ⟨hdim ▸ h.length_eq x hx, h.finite x hx⟩⟩, h.id_lt, h.sorted⟩, hdim⟩
  · rintro ⟨⟨⟨haligned, hnonempty, hpos, hall⟩, hlt, hsorted⟩, rfl⟩
    exact ⟨haligned, hnonempty, hpos, fun x hx => (hall x hx).1, fun x hx => (hall x hx).2, hlt,
      hsorted⟩

/-- **Both checks**, as they stand at the beginning of every run: they end it with the first
rejection, or pass on the dimension and the layout of sorted ids. -/
theorem checks_bind {β : Type} (samples : List (Point α)) (ids : List Nat) (groupCount : Nat)
    (next : Nat → Layout → Except Error β) :
    (do
      let dim ← checkSamples samples ids
      let layout ← Layout.ofIds ids groupCount
      next dim layout) =
      match inputRejection samples ids groupCount with
      | some e => .error e
      | none => next (samples.headD []).length (Layout.ofSorted ids groupCount) := by
  rw [checkSamples_eq, Layout.ofIds_eq, inputRejection]
  cases sampleRejection samples ids with
  | some e => rfl
  | none => cases Layout.rejection groupCount ids <;> rfl

namespace Fittable

variable {samples : List (Point α)} {ids : List Nat} {groupCount dim : Nat}

/-- The samples of a group are its own. -/
theorem slice_eq (h : Fittable samples ids groupCount dim) {β : Type} (group : Nat)
    (xs : List β) :
    (Layout.ofSorted ids groupCount).slice group xs = Layout.owned group ids xs :=
  Layout.slice_ofSorted h.id_lt h.sorted group xs

/-- A group that occurs has samples. -/
theorem owned_ne_nil (h : Fittable samples ids groupCount dim) {group : Nat}
    (hgroup : group ∈ ids) :
    Layout.owned group ids samples ≠ [] := by
  rw [← List.length_pos_iff, Layout.length_owned h.aligned]
  exact List.count_pos_iff.mpr hgroup

end Fittable

end Mixtures
