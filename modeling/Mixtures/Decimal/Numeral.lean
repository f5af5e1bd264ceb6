import Mixtures.Decimal.Binary

/-!
# Numerals

A numeral is a number as it is written: a sign, whole digits, digits after a point, and perhaps
an exponent. It is read as the double nearest to its exact value, the even one of two equally
near; values beyond the largest double are read as infinite.

They are written with the fewest digits that are read back, positionally if the leading digit
stands between the fifth place after the point and the sixteenth before it, and with an exponent
otherwise. A numeral that stands for a double always has a point or an exponent.
-/

namespace Mixtures

/-- A written number. -/
structure Numeral where
  /-- A minus sign comes first. -/
  negative : Bool
  /-- The digits before the point. -/
  whole : List Nat
  /-- The digits after the point; none if there is no point. -/
  fraction : List Nat
  /-- The exponent, if one is written. -/
  exponent : Option Int
deriving DecidableEq, Repr

namespace Numeral

/-- The whole number with the given digits. -/
def ofDigits (digits : List Nat) : Nat := digits.foldl (fun n d => 10 * n + d) 0

/-- The digits of a whole number. -/
def digitsOf (n : Nat) : List Nat := (Nat.toDigits 10 n).map fun c => c.toNat - '0'.toNat

/-- The numeral of a whole number. -/
def ofNat (n : Nat) : Numeral :=
  { negative := false, whole := digitsOf n, fraction := [], exponent := none }

/-- The numeral of an integer. -/
def ofInt (n : Int) : Numeral := { ofNat n.natAbs with negative := decide (n < 0) }

/-- Neither a point nor an exponent is written. -/
def isInteger (n : Numeral) : Bool := n.fraction.isEmpty && n.exponent.isNone

/-- The whole number that is written without sign, point and exponent. -/
def natural? (n : Numeral) : Option Nat :=
  if n.isInteger && !n.negative then some (ofDigits n.whole) else none

/-- The integer that is written without point and exponent. -/
def integer? (n : Numeral) : Option Int :=
  if n.isInteger then
    some (if n.negative then -(ofDigits n.whole : Int) else ofDigits n.whole)
  else none

/-- A double with the sign of the numeral. -/
def signed (n : Numeral) (x : Float) : Float := if n.negative then -x else x

/-- The exact value without its sign. -/
def decimal (n : Numeral) : Decimal :=
  ⟨ofDigits (n.whole ++ n.fraction), n.exponent.getD 0 - n.fraction.length⟩

/-- The double nearest to the exact value. Decimals beyond `10 ^ 400` and below `10 ^ (-400)`
need no computation. -/
def nearest (n : Numeral) : Float :=
  let d := n.decimal
  let lead := (Decimal.digitCount d.coefficient : Int) + d.exponent
  n.signed <|
    if d.coefficient = 0 || lead < -400 then 0.0
    else if 400 < lead then 1.0 / 0.0
    else
      match d.exponent with
      | .ofNat e => Float.ofScientific d.coefficient false e
      | .negSucc e => Float.ofScientific d.coefficient true (e + 1)

/-- The largest number of 64 bits. -/
def wordBound : Nat := Nat.pow 2 64 - 1

/-- The double nearest to the exact value, unless it is infinite. -/
def finite? (n : Numeral) : Option Float :=
  let x := n.nearest
  if x.isInf then none else some x

/-- The digits of a decimal, at the places where they stand. -/
def ofDecimal (negative : Bool) (d : Decimal) : Numeral :=
  let digits := digitsOf d.coefficient
  let lead := (digits.length : Int) - 1 + d.exponent
  if lead < -5 || 15 < lead then
    { negative, whole := digits.take 1, fraction := digits.drop 1, exponent := some lead }
  else
    match d.exponent with
    | .ofNat e =>
      { negative, whole := digits ++ List.replicate e 0, fraction := [0], exponent := none }
    | .negSucc e =>
      let places := e + 1
      let padded := List.replicate (places + 1 - digits.length) 0 ++ digits
      { negative
        whole := padded.take (padded.length - places)
        fraction := padded.drop (padded.length - places)
        exponent := none }

/-- The numeral of zero. -/
def zero (negative : Bool) : Numeral :=
  { negative, whole := [0], fraction := [0], exponent := none }

/-- The shortest numeral of a finite double. -/
def ofFloat (x : Float) : Numeral :=
  if x == 0.0 then zero (isNegative x)
  else ofDecimal (isNegative x) (Magnitude.ofFloat x).shortest

/-- A finite double rounded to a number of significant digits, as the shortest numeral of the
double that the rounded number is read as. Zero has no sign. If rounding leads beyond the
largest double, the double itself is written. -/
def rounded (count : Nat) (x : Float) : Numeral :=
  if x == 0.0 then zero false
  else
    let (num, den) := (Magnitude.ofFloat x).ratio
    let y := (ofDecimal (isNegative x) (Decimal.significant count num den)).nearest
    if y.isFinite then ofFloat y else ofFloat x

/-- The text of digits. -/
def digitText (digits : List Nat) : String := String.join (digits.map toString)

/-- The text of a numeral. -/
def text (n : Numeral) : String :=
  (if n.negative then "-" else "") ++ digitText n.whole ++
    (if n.fraction.isEmpty then "" else "." ++ digitText n.fraction) ++
    match n.exponent with
    | none => ""
    | some e => "e" ++ toString e

/-- The text of a double with a fixed number of places after the point. -/
def fixedText (places : Nat) (x : Float) : String :=
  if x.isNaN then "NaN"
  else
    let sign := if isNegative x then "-" else ""
    if x.isInf then sign ++ "inf"
    else
      let (num, den) := (Magnitude.ofFloat x).ratio
      let scaled := Decimal.roundHalfEven (num * Nat.pow 10 places) den
      let digits := digitsOf scaled
      let padded := List.replicate (places + 1 - digits.length) 0 ++ digits
      let whole := digitText (padded.take (padded.length - places))
      sign ++ whole ++ "." ++ digitText (padded.drop (padded.length - places))

end Numeral

end Mixtures
