import Mixtures.Scalar

/-!
# Square matrices

A square matrix of dimension `dim` is the list of its `dim * dim` entries, row after row. The
entry in row `i` and column `j` stands at position `i * dim + j`, so the diagonal entries are
those whose position is a multiple of `dim + 1`.
-/

namespace Mixtures.Square

variable {α : Type}

/-- The matrix whose entry in row `i` and column `j` is `f i j`. -/
def tabulate (dim : Nat) (f : Nat → Nat → α) : List α :=
  (List.range dim).flatMap fun i => (List.range dim).map (f i)

@[simp] theorem length_tabulate (dim : Nat) (f : Nat → Nat → α) :
    (tabulate dim f).length = dim * dim := by
  simp [tabulate, List.length_flatMap, List.map_const']

theorem tabulate_congr {dim : Nat} {f g : Nat → Nat → α}
    (h : ∀ i < dim, ∀ j < dim, f i j = g i j) : tabulate dim f = tabulate dim g := by
  rw [tabulate, tabulate, List.flatMap_def, List.flatMap_def]
  refine congrArg List.flatten (List.map_congr_left fun i hi => List.map_congr_left fun j hj => ?_)
  exact h i (List.mem_range.mp hi) j (List.mem_range.mp hj)

/-- The position of the entry in row `i` and column `j`. -/
def position (dim i j : Nat) : Nat := i * dim + j

theorem position_lt {dim i j : Nat} (hi : i < dim) (hj : j < dim) :
    position dim i j < dim * dim := by
  have hrow : (i + 1) * dim ≤ dim * dim := Nat.mul_le_mul_right dim hi
  rw [Nat.succ_mul] at hrow
  unfold position
  omega

theorem getElem?_tabulate {dim i j : Nat} (f : Nat → Nat → α) (hi : i < dim) (hj : j < dim) :
    (tabulate dim f)[position dim i j]? = some (f i j) := by
  -- the rows from `start` on, of which row `start + k` begins at `k * dim`
  have hrows : ∀ n start k, k < n →
      ((List.range' start n).flatMap fun i => (List.range dim).map (f i))[k * dim + j]? =
        some (f (start + k) j) := by
    intro n
    induction n with
    | zero => exact fun _ _ hk => absurd hk (Nat.not_lt_zero _)
    | succ n ih =>
      intro start k hk
      rw [List.range'_succ, List.flatMap_cons]
      cases k with
      | zero =>
        rw [Nat.zero_mul, Nat.zero_add, List.getElem?_append_left (by simpa using hj)]
        simp [hj]
      | succ k =>
        rw [List.getElem?_append_right (by simp [Nat.succ_mul]; omega), List.length_map,
          List.length_range, Nat.succ_mul]
        have hshift : k * dim + dim + j - dim = k * dim + j := by omega
        rw [hshift, ih (start + 1) k (by omega)]
        congr 2
        omega
  have hentry := hrows dim 0 i hi
  rwa [← List.range_eq_range', Nat.zero_add] at hentry

/-- The positions of the diagonal entries. -/
def isDiagonal (dim n : Nat) : Bool := n < dim * dim && n % (dim + 1) == 0

/-- Exactly the entries in the same row as column are diagonal. -/
theorem isDiagonal_position {dim i j : Nat} (hi : i < dim) (hj : j < dim) :
    isDiagonal dim (position dim i j) = decide (i = j) := by
  have hmod : position dim i j % (dim + 1) = if i ≤ j then j - i else dim + 1 + j - i := by
    split
    next hle =>
      have hsplit : position dim i j = (dim + 1) * i + (j - i) := by
        rw [position, Nat.mul_comm, Nat.succ_mul]
        omega
      rw [hsplit, Nat.mul_add_mod, Nat.mod_eq_of_lt (by omega)]
    next hlt =>
      obtain ⟨k, rfl⟩ : ∃ k, i = k + 1 := ⟨i - 1, by omega⟩
      have hsplit : position dim (k + 1) j = (dim + 1) * k + (dim + 1 + j - (k + 1)) := by
        rw [position, Nat.succ_mul, Nat.succ_mul, Nat.mul_comm]
        omega
      rw [hsplit, Nat.mul_add_mod, Nat.mod_eq_of_lt (by omega)]
  unfold isDiagonal
  rw [hmod, decide_eq_true (position_lt hi hj), Bool.true_and, Bool.eq_iff_iff, beq_iff_eq,
    decide_eq_true_iff]
  split <;> omega

variable [Scalar α]

/-- The entry in row `i` and column `j`, zero outside the list. -/
def entry (dim : Nat) (a : List α) (i j : Nat) : α := a.getD (position dim i j) 0

@[simp] theorem entry_tabulate {dim i j : Nat} (f : Nat → Nat → α) (hi : i < dim) (hj : j < dim) :
    entry dim (tabulate dim f) i j = f i j := by
  rw [entry, List.getD_eq_getElem?_getD, getElem?_tabulate f hi hj, Option.getD_some]

/-- The matrix with `d` on its diagonal and zero elsewhere. -/
def diagonal (d : List α) : List α :=
  tabulate d.length fun i j => if i = j then d.getD i 0 else 0

@[simp] theorem length_diagonal (d : List α) : (diagonal d).length = d.length * d.length :=
  length_tabulate d.length _

/-- Adds the same amount to every diagonal entry. -/
def addToDiagonal (dim : Nat) (delta : α) (a : List α) : List α :=
  a.mapIdx fun n v => if isDiagonal dim n then v + delta else v

@[simp] theorem length_addToDiagonal (dim : Nat) (delta : α) (a : List α) :
    (addToDiagonal dim delta a).length = a.length :=
  List.length_mapIdx

theorem entry_addToDiagonal {dim i j : Nat} {a : List α} (ha : a.length = dim * dim) (delta : α)
    (hi : i < dim) (hj : j < dim) :
    entry dim (addToDiagonal dim delta a) i j =
      if i = j then entry dim a i j + delta else entry dim a i j := by
  have hlt : position dim i j < a.length := ha ▸ position_lt hi hj
  simp only [entry, addToDiagonal, List.getD_eq_getElem?_getD, List.getElem?_mapIdx,
    List.getElem?_eq_getElem hlt, Option.map_some, Option.getD_some, isDiagonal_position hi hj,
    decide_eq_true_iff]

end Mixtures.Square
