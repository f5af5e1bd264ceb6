import Mathlib
import Mixtures.Linear.Cholesky
import Mixtures.Linear.Jitter

/-!
# Multiplying by a Cholesky factor

The columns of a factor form a triangle: the first has an entry for every row, and each later one an
entry fewer. A product with it is formed column by column. Read by rows, every entry of the product
is the sum of the products in its row, added up from the first column to the last, with zeros above
the diagonal.

* `factor_isTriangle`: elimination keeps the triangle that it is given.
* `transform_eq`: the rows of `mean + L z`.
-/

namespace Mixtures

variable {α : Type} [Scalar α]

/-- Columns of a triangle, each from the diagonal down. -/
inductive IsTriangle : Nat → List (List α) → Prop
  | nil : IsTriangle 0 []
  | cons {n : Nat} {column : List α} {columns : List (List α)} (length : column.length = n + 1)
      (later : IsTriangle n columns) : IsTriangle (n + 1) (column :: columns)

namespace IsTriangle

variable {n : Nat} {columns : List (List α)}

omit [Scalar α] in
theorem length_eq (h : IsTriangle n columns) : columns.length = n := by
  induction h with
  | nil => rfl
  | cons _ _ ih => exact congrArg (· + 1) ih

theorem lowerTriangle (dim : Nat) (a : List α) : IsTriangle dim (lowerTriangle dim a) := by
  have hcolumns : ∀ k n, IsTriangle n
      ((List.range' k n).map fun j => (List.range' j (k + n - j)).map fun i =>
        Square.entry dim a i j) := by
    intro k n
    induction n generalizing k with
    | zero => exact .nil
    | succ n ih =>
      rw [List.range'_succ, List.map_cons]
      refine .cons ?_ ?_
      · rw [List.length_map, List.length_range']
        omega
      · have hnext := ih (k + 1)
        rwa [Nat.add_right_comm k 1 n] at hnext
  have hall := hcolumns 0 dim
  rwa [Nat.zero_add, ← List.range_eq_range'] at hall

theorem reduceTriangle {l : List α} (hl : l.length = n) (h : IsTriangle n columns) :
    IsTriangle n (reduceTriangle l columns) := by
  induction h generalizing l with
  | nil =>
    obtain rfl := List.eq_nil_of_length_eq_zero hl
    exact .nil
  | cons hlength _ ih =>
    obtain ⟨f, l, rfl⟩ := List.exists_cons_of_length_eq_add_one hl
    refine .cons ?_ (ih (Nat.succ.inj hl))
    rw [List.length_zipWith, hl, hlength, min_self]

/-- Elimination keeps the shape of a triangle. -/
theorem eliminate {result : List (List α)} (h : IsTriangle n columns)
    (hresult : eliminate n columns = some result) : IsTriangle n result := by
  induction n generalizing columns result with
  | zero =>
    cases h
    cases hresult
    exact .nil
  | succ n ih =>
    cases h with
    | @cons _ column columns hlength hlater =>
      obtain ⟨p, b, rfl⟩ := List.exists_cons_of_length_eq_add_one hlength
      rw [Mixtures.eliminate] at hresult
      split_ifs at hresult
      obtain ⟨later, hlater', rfl⟩ := Option.map_eq_some_iff.mp hresult
      have hl : (b.map (· / Scalar.sqrt p)).length = n := by
        rw [List.length_map]
        exact Nat.succ.inj hlength
      exact .cons (congrArg (· + 1) hl) (ih (hlater.reduceTriangle hl) hlater')

end IsTriangle

namespace Cholesky

/-- The columns of a factor form a triangle. -/
theorem factor_isTriangle {dim : Nat} {a : List α} {f : Cholesky α} (h : factor dim a = some f) :
    IsTriangle dim f.columns := by
  rw [factor] at h
  split_ifs at h
  cases heliminate : eliminate dim (lowerTriangle dim a) with
  | none =>
    rw [heliminate] at h
    cases h
  | some columns =>
    rw [heliminate] at h
    dsimp only at h
    split_ifs at h
    cases h
    exact (IsTriangle.lowerTriangle dim a).eliminate heliminate

/-- The entry of a triangle in a row and a column, zero above the diagonal. -/
def entry (columns : List (List α)) (row column : Nat) : α :=
  (List.replicate column 0 ++ columns.getD column []).getD row 0

/-- A row of the product with a vector, added up from the first column to the last. -/
def rowProduct (columns : List (List α)) (z : List α) (row : Nat) : α :=
  (List.range' 1 (columns.length - 1)).foldl
    (fun total column => entry columns row column * z.getD column 0 + total)
    (entry columns row 0 * z.getD 0 0)

omit [Scalar α] in
theorem map_getD_range (y : List α) (d : α) : (List.range y.length).map (y.getD · d) = y := by
  refine List.ext_getElem (by simp) fun i hi _ => ?_
  rw [List.length_map, List.length_range] at hi
  rw [List.getElem_map, List.getElem_range, List.getD_eq_getElem y d hi]

omit [Scalar α] in
theorem getD_zipWith {f : α → α → α} {x y : List α} {i : Nat} (d : α) (hx : i < x.length)
    (hy : i < y.length) : (x.zipWith f y).getD i d = f (x.getD i d) (y.getD i d) := by
  rw [List.getD_eq_getElem x d hx, List.getD_eq_getElem y d hy,
    List.getD_eq_getElem _ d (by rw [List.length_zipWith]; omega), List.getElem_zipWith]

/-- The rows of what adding multiples of columns makes of a vector. -/
theorem addColumns_eq {columns : List (List α)} {z y : List α} {k n : Nat}
    (h : IsTriangle n columns) (hz : z.length = n) (hy : y.length = k + n) :
    addColumns k columns z y = (List.range (k + n)).map fun row =>
      (List.range n).foldl (fun total column =>
        (List.replicate (k + column) 0 ++ columns.getD column []).getD row 0 * z.getD column 0 +
          total)
        (y.getD row 0) := by
  induction h generalizing z y k with
  | nil =>
    rw [← hy]
    exact (map_getD_range y 0).symm
  | @cons n column columns hlength hlater ih =>
    obtain ⟨f, z, rfl⟩ := List.exists_cons_of_length_eq_add_one hz
    have hcolumn : (List.replicate k 0 ++ column).length = k + (n + 1) := by
      rw [List.length_append, List.length_replicate, hlength]
    rw [addColumns, ih (Nat.succ.inj hz)
      (by rw [List.length_zipWith, hcolumn, hy]; omega), Nat.add_assoc, Nat.add_comm 1 n]
    refine List.map_congr_left fun row hrow => ?_
    rw [List.mem_range] at hrow
    rw [getD_zipWith 0 (by omega) (by omega), List.range_succ_eq_map, List.foldl_cons,
      List.foldl_map]
    simp only [Nat.succ_eq_add_one, Nat.add_right_comm k 1, Nat.add_assoc, Nat.add_zero,
      List.getD_cons_succ, List.getD_cons_zero]

/-- The rows of a product with a factor. -/
theorem multiply_eq {columns : List (List α)} {z : List α} {n : Nat} (h : IsTriangle n columns)
    (hz : z.length = n) : multiply columns z = (List.range n).map (rowProduct columns z) := by
  cases h with
  | nil => rfl
  | @cons n column columns hlength hlater =>
    obtain ⟨f, z, rfl⟩ := List.exists_cons_of_length_eq_add_one hz
    rw [multiply, addColumns_eq hlater (Nat.succ.inj hz)
      (by rw [List.length_map, hlength, Nat.add_comm]), Nat.add_comm 1 n]
    refine List.map_congr_left fun row hrow => ?_
    rw [List.mem_range] at hrow
    have hfirst : (column.map (· * f)).getD row 0 = column.getD row 0 * f := by
      rw [List.getD_eq_getElem column 0 (by omega),
        List.getD_eq_getElem _ 0 (by rw [List.length_map]; omega), List.getElem_map]
    rw [rowProduct, List.length_cons, hlater.length_eq, Nat.add_sub_cancel,
      List.range'_eq_map_range, List.foldl_map, hfirst]
    simp only [entry, Nat.add_comm 1, List.getD_cons_succ, List.getD_cons_zero, List.replicate_zero,
      List.nil_append]

/-- **The point `mean + L z`** by its coordinates. -/
theorem transform_eq {f : Cholesky α} {mean z : List α} {n : Nat} (h : IsTriangle n f.columns)
    (hmean : mean.length = n) (hz : z.length = n) :
    f.transform mean z =
      (List.range n).map fun row => mean.getD row 0 + rowProduct f.columns z row := by
  rw [transform, multiply_eq h hz]
  conv_lhs => rw [← map_getD_range mean 0, hmean]
  rw [List.zipWith_map, List.zipWith_self]

end Cholesky

end Mixtures
