import Mixtures.Model.Mixture

/-!
# Collections of mixtures

The mixtures of all groups, by group id. All of them have the same number of components, and all
components have the same dimension; both numbers are part of the collection, so that it has a
shape even without groups. That every mixture has the shape is part of the type.
-/

namespace Mixtures

namespace Mixture

variable {α : Type}

/-- A number of components, all of one dimension. -/
def HasShape (size dim : Nat) (m : Mixture α) : Prop :=
  m.size = size ∧ ∀ c ∈ m.components, c.HasShape dim

instance (size dim : Nat) (m : Mixture α) : Decidable (m.HasShape size dim) :=
  inferInstanceAs (Decidable (_ ∧ _))

/-- The first size that does not fit: the number of components, then those of each component. -/
def mismatch (size dim : Nat) (m : Mixture α) : Option Error :=
  if m.size ≠ size then some (.dimensionMismatch size m.size)
  else m.components.findSome? (Component.mismatch dim)

theorem mismatch_eq_none_iff {size dim : Nat} {m : Mixture α} :
    m.mismatch size dim = none ↔ m.HasShape size dim := by
  unfold mismatch HasShape
  split <;> simp_all [List.findSome?_eq_none_iff, Component.mismatch_eq_none_iff]

end Mixture

/-- The mixtures of all groups. -/
structure Collection (α : Type) where
  /-- The number of components of every mixture. -/
  size : Nat
  /-- The dimension of every component. -/
  dim : Nat
  /-- The mixtures, by group id. -/
  mixtures : List (Mixture α)
  /-- Every mixture has the shape of the collection. -/
  hasShape : ∀ m ∈ mixtures, m.HasShape size dim
deriving DecidableEq

namespace Collection

variable {α : Type}

/-- The collection of the given shape and mixtures; fails at the first size that does not
fit. -/
def ofMixtures (size dim : Nat) (mixtures : List (Mixture α)) : Except Error (Collection α) :=
  match h : mixtures.findSome? (Mixture.mismatch size dim) with
  | some e => .error e
  | none =>
    .ok
      { size, dim, mixtures
        hasShape := by simpa [List.findSome?_eq_none_iff, Mixture.mismatch_eq_none_iff] using h }

/-- A collection is made from mixtures exactly if it consists of them, in the given shape. -/
theorem ofMixtures_eq_ok_iff {size dim : Nat} {mixtures : List (Mixture α)}
    {models : Collection α} :
    ofMixtures size dim mixtures = .ok models ↔
      models.size = size ∧ models.dim = dim ∧ models.mixtures = mixtures := by
  constructor
  · intro h
    unfold ofMixtures at h
    split at h
    · cases h
    · cases h
      exact ⟨rfl, rfl, rfl⟩
  · rintro ⟨rfl, rfl, rfl⟩
    unfold ofMixtures
    split
    next e hsome =>
      obtain ⟨m, hm, hmismatch⟩ := List.exists_of_findSome?_eq_some hsome
      rw [Mixture.mismatch_eq_none_iff.mpr (models.hasShape m hm)] at hmismatch
      cases hmismatch
    next => rfl

/-- The number of groups. -/
def groupCount (models : Collection α) : Nat := models.mixtures.length

/-- There are no groups. -/
def isEmpty (models : Collection α) : Bool := models.mixtures.isEmpty

/-- Two collections of the same shape with equal numbers, where equality is that of numbers: it
may tell a number from itself. -/
def agrees [BEq α] (a b : Collection α) : Bool :=
  a.size == b.size && a.dim == b.dim &&
    a.mixtures.map (·.components.map parts) == b.mixtures.map (·.components.map parts)
where
  /-- The parts of a component. -/
  parts (c : Component α) : α × List α × List α := (c.weight, c.mean, c.covariance)

/-- The mixture of a group. -/
def get? (models : Collection α) (group : Nat) : Option (Mixture α) := models.mixtures[group]?

variable {β : Type}

/-- Applies a function to every number of a component. -/
def mapComponent (f : α → β) (c : Component α) : Component β where
  weight := f c.weight
  mean := c.mean.map f
  covariance := c.covariance.map f

/-- Applies a function to every number of the collection. -/
def map (f : α → β) (models : Collection α) : Collection β where
  size := models.size
  dim := models.dim
  mixtures := models.mixtures.map fun m => ⟨m.components.map (mapComponent f)⟩
  hasShape := by
    intro image himage
    obtain ⟨m, hm, rfl⟩ := List.mem_map.1 himage
    obtain ⟨hsize, hshape⟩ := models.hasShape m hm
    refine ⟨by simpa [Mixture.size] using hsize, fun part hpart => ?_⟩
    obtain ⟨c, hc, rfl⟩ := List.mem_map.1 hpart
    simpa [Component.HasShape, mapComponent] using hshape c hc

end Collection

end Mixtures
