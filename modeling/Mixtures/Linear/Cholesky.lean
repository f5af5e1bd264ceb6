import Mixtures.Linear.Square

/-!
# Cholesky factors

A symmetric positive definite matrix `A` is `L Lᵀ` for exactly one lower triangular `L` with
positive diagonal. Only the lower triangle of `A` is read. Triangles are kept by columns, each
from the diagonal down: the columns of a triangle of dimension `n + 1` are one column of length
`n + 1` followed by the columns of a triangle of dimension `n`.

`eliminate` takes the first column `(p, b)` of the triangle, writes `(√p, b / √p)` and goes on
with the remaining triangle less the products of `b / √p` with itself. Every entry is thereby
reduced by the products of the earlier columns in their order, which fixes how it rounds. A
pivot `p` that is zero, negative or not a number ends the elimination without a result.
-/

namespace Mixtures

variable {α : Type} [Scalar α]

/-- The lower triangle of a square matrix, by columns from the diagonal down. -/
def lowerTriangle (dim : Nat) (a : List α) : List (List α) :=
  (List.range dim).map fun j =>
    (List.range' j (dim - j)).map fun i => Square.entry dim a i j

/-- Subtracts from a triangle the products of the entries of `l`: from the entry in row `i` and
column `j` the product of the entries `i` and `j`. -/
def reduceTriangle : List α → List (List α) → List (List α)
  | f :: l, column :: columns =>
    (f :: l).zipWith (fun li v => -f * li + v) column :: reduceTriangle l columns
  | _, _ => []

/-- The columns of the Cholesky factor of a triangle with `n` columns. -/
def eliminate : Nat → List (List α) → Option (List (List α))
  | n + 1, (p :: b) :: columns =>
    if p == 0 || !(decide (0 ≤ p)) then none
    else
      let d := Scalar.sqrt p
      let l := b.map (· / d)
      (eliminate n (reduceTriangle l columns)).map ((d :: l) :: ·)
  | 0, [] => some []
  | _, _ => none

/-- A lower triangular factor with positive diagonal, and the logarithm of the determinant of
the factored matrix. -/
structure Cholesky (α : Type) where
  /-- The columns of the factor, from the diagonal down. -/
  columns : List (List α)
  /-- The logarithm of the determinant. -/
  logDet : α
deriving DecidableEq, Repr

namespace Cholesky

/-- The diagonal of a triangle. -/
def diagonalOf (columns : List (List α)) : List α := columns.map (·.headD 0)

/-- The factor of a square matrix, unless the list has the wrong length, holds a value that is
not finite, or is not (numerically) positive definite. -/
def factor (dim : Nat) (a : List α) : Option (Cholesky α) :=
  if a.length == dim * dim && a.all Scalar.isFinite then
    match eliminate dim (lowerTriangle dim a) with
    | none => none
    | some columns =>
      let diagonal := diagonalOf columns
      if diagonal.all fun d => Scalar.isFinite d && 0 < d then
        some { columns, logDet := Scalar.ofNat 2 * Scalar.sum (diagonal.map Scalar.ln) }
      else none
  else none

/-- The solution `z` of `L z = b`, by forward substitution: each unknown is found from the first
remaining equation and its multiples are taken from the others. -/
def solve : List (List α) → List α → List α
  | (d :: l) :: columns, b :: bs =>
    let c := b / d
    c :: solve columns (l.zipWith (fun li r => -c * li + r) bs)
  | _, _ => []

/-- Adds the squares of blocks of eight values to eight running sums, one for each place in the
block. Gives the sums and the fewer than eight values left. -/
def addBlocks (sums : List α) : List α → List α × List α
  | a :: b :: c :: d :: e :: f :: g :: h :: rest =>
    addBlocks (sums.zipWith (fun s v => s + v * v) [a, b, c, d, e, f, g, h]) rest
  | rest => (sums, rest)

/-- The sum of the squares. Values are summed by their place in blocks of eight, the sums joined
in pairs, and the values beyond the last full block added singly. -/
def squaredNorm (z : List α) : α :=
  let (sums, rest) := addBlocks (List.replicate 8 0) z
  let pairs := (sums.take 4).zipWith (· + ·) (sums.drop 4)
  rest.foldl (fun s v => s + v * v) (pairs.foldl (· + ·) 0)

/-- The squared Mahalanobis norm `diffᵀ A⁻¹ diff`, which is `|L⁻¹ diff|²`. -/
def mahalanobis (chol : Cholesky α) (diff : List α) : α := squaredNorm (solve chol.columns diff)

/-- Adds the multiples of the columns of `L` to `y`, the column in place `j` with `j` zeros
above its diagonal. -/
def addColumns : Nat → List (List α) → List α → List α → List α
  | j, column :: columns, f :: z, y =>
    addColumns (j + 1) columns z
      ((List.replicate j 0 ++ column).zipWith (fun l v => l * f + v) y)
  | _, _, _, y => y

/-- The product `L z`, column by column. -/
def multiply (columns : List (List α)) (z : List α) : List α :=
  match columns, z with
  | column :: columns, f :: z => addColumns 1 columns z (column.map (· * f))
  | _, _ => []

/-- The point `mean + L z`: a standard normal `z` becomes a normal point with this covariance. -/
def transform (chol : Cholesky α) (mean z : List α) : List α :=
  mean.zipWith (· + ·) (multiply chol.columns z)

/-- The logarithm of the normal density at `x`. -/
def logDensity (chol : Cholesky α) (mean x : List α) : α :=
  -Scalar.half * (Scalar.ofNat mean.length * Scalar.lnTwoPi + chol.logDet +
    chol.mahalanobis (x.zipWith (· - ·) mean))

end Cholesky

end Mixtures
