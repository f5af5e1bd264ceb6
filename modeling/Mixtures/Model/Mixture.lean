import Mixtures.Density.Kernel
import Mixtures.LogMass
import Mixtures.Model.Component

/-!
# Mixtures

A mixture is a list of components. Its density at a point is the sum of the densities of its
components, each times its weight. The sum is formed from logarithms: components without
positive weight, and components whose covariance has no density, contribute the mass zero.
-/

namespace Mixtures

/-- The components of one group, in a fixed order. -/
structure Mixture (α : Type) where
  /-- The components. -/
  components : List (Component α)
deriving DecidableEq, Repr

namespace Mixture

variable {α : Type}

/-- The number of components. -/
def size (m : Mixture α) : Nat := m.components.length

/-- The dimension of the first component, zero without components. -/
def dim (m : Mixture α) : Nat := (m.components.head?.map (·.dim)).getD 0

/-- The weights of the components. -/
def weights (m : Mixture α) : List α := m.components.map (·.weight)

/-- The mixture of components that all have the dimension of the first one. -/
def ofComponents (components : List (Component α)) : Except Error (Mixture α) :=
  match components with
  | [] => .ok ⟨[]⟩
  | first :: _ =>
    match components.findSome? (Component.mismatch first.dim) with
    | some e => .error e
    | none => .ok ⟨components⟩

/-- Components of one dimension make a mixture. -/
theorem ofComponents_of_hasShape {dim : Nat} {components : List (Component α)}
    (h : ∀ c ∈ components, c.HasShape dim) : ofComponents components = .ok ⟨components⟩ := by
  match components with
  | [] => rfl
  | first :: rest =>
    have hdim : first.dim = dim := (h first List.mem_cons_self).1
    have hnone : (first :: rest).findSome? (Component.mismatch first.dim) = none := by
      rw [List.findSome?_eq_none_iff]
      intro c hc
      rw [Component.mismatch_eq_none_iff, hdim]
      exact h c hc
    simp only [ofComponents, hnone]

variable [Scalar α]

/-- The mixture of a group without samples: components without weight. -/
def empty (size dim : Nat) (floor : α) : Mixture α :=
  ⟨List.replicate size (Component.placeholder dim floor)⟩

/-- The sum of the weights. -/
def weightSum (m : Mixture α) : α := Scalar.sum m.weights

/-- No component has positive weight. -/
def isEmpty (m : Mixture α) : Bool := m.components.all fun c => decide (c.weight ≤ 0)

variable {F : Type}

/-- The logarithm of the share of a component in the density at a point. -/
def term (kernel : DensityKernel α F) (dim : Nat) (x : List α) (c : Component α) : LogMass α :=
  if c.weight ≤ 0 then .zero
  else
    match kernel.factor dim c.covariance with
    | some f => .of (Scalar.ln c.weight + kernel.logDensity f c.mean x)
    | none => .zero

/-- The logarithm of the density at a point, for components of the given kernel. -/
def logDensityWith (kernel : DensityKernel α F) (m : Mixture α) (x : List α) :
    Except Error (LogMass α) :=
  if x.length = m.dim then .ok (LogMass.sum (m.components.map (term kernel m.dim x)))
  else .error (.dimensionMismatch m.dim x.length)

/-- The logarithm of the density of the mixture of normal distributions at a point. -/
def logDensity (m : Mixture α) (x : List α) : Except Error (LogMass α) :=
  m.logDensityWith .gaussian x

/-- The density of the mixture of normal distributions at a point. -/
def density (m : Mixture α) (x : List α) : Except Error α := do return (← m.logDensity x).mass

end Mixture

end Mixtures
