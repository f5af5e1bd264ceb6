import Mixtures.Decimal.Numeral

/-!
# JSON values

The values of JSON. Numbers are kept as they are written. A text in JSON may name, by escapes,
half of a surrogate pair, and is then no sequence of characters; such a text is `none`.
-/

namespace Mixtures.Json

/-- A JSON value. -/
inductive Value where
  /-- The value `null`. -/
  | null
  /-- A truth value. -/
  | bool (value : Bool)
  /-- A number. -/
  | number (numeral : Numeral)
  /-- A text. -/
  | string (text : Option String)
  /-- A list of values. -/
  | array (items : List Value)
  /-- Names with values, in the order in which they are written. -/
  | object (members : List (Option String × Value))

namespace Value

/-- A text that is a sequence of characters. -/
def ofString (text : String) : Value := string (some text)

/-- A whole number. -/
def ofNat (n : Nat) : Value := number (Numeral.ofNat n)

/-- An integer. -/
def ofInt (n : Int) : Value := number (Numeral.ofInt n)

/-- An object with the given members. -/
def ofMembers (members : List (String × Value)) : Value :=
  object (members.map fun member => (some member.1, member.2))

/-- The value of the first member with a name. -/
def member? (name : String) : Value → Option Value
  | object members => members.lookup (some name)
  | _ => none

end Value

end Mixtures.Json
