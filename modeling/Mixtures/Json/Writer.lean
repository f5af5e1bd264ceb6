import Mixtures.Json.Value

/-!
# Writing JSON

Values are written without blanks. In texts only the quote, the backslash and control characters
are escaped.
-/

namespace Mixtures.Json

/-- A hexadecimal digit. -/
def hexChar (n : Nat) : Char := (Nat.toDigits 16 n).getD 0 '0'

/-- A character as it is written in a text. -/
def escape (c : Char) : List Char :=
  if c == '"' then ['\\', '"']
  else if c == '\\' then ['\\', '\\']
  else if c.toNat < 32 then
    ['\\', 'u', '0', '0', hexChar (c.toNat / 16), hexChar (c.toNat % 16)]
  else [c]

/-- A text in quotes. -/
def quoted (text : String) : String := "\"" ++ String.ofList (text.toList.flatMap escape) ++ "\""

mutual

/-- The text of a value. A text that is no sequence of characters is written as `null`. -/
def Value.text : Value → String
  | .null => "null"
  | .bool value => if value then "true" else "false"
  | .number numeral => numeral.text
  | .string (some text) => quoted text
  | .string none => "null"
  | .array items => "[" ++ ",".intercalate (itemTexts items) ++ "]"
  | .object members => "\x7b" ++ ",".intercalate (memberTexts members) ++ "\x7d"

/-- The texts of the items of a list. -/
def itemTexts : List Value → List String
  | [] => []
  | item :: items => item.text :: itemTexts items

/-- The texts of the members of an object. A member whose name is no sequence of characters is
left out. -/
def memberTexts : List (Option String × Value) → List String
  | [] => []
  | (some name, value) :: members => (quoted name ++ ":" ++ value.text) :: memberTexts members
  | (none, _) :: members => memberTexts members

end

end Mixtures.Json
