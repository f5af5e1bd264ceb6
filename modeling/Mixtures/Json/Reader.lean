import Mixtures.Json.Value

/-!
# Reading JSON

A strict reader: one value, with blanks (space, tab, line feed, carriage return) around it and
around the tokens inside, and nothing else. Numbers have no superfluous leading zero and digits
on both sides of a point; texts have no bare control characters; there are no comments and no
trailing commas. Any nesting and any size of numbers is accepted.

Each reader takes a value from the front of the characters and leaves the rest, or fails.
-/

namespace Mixtures.Json

/-- Takes away leading blanks. -/
def skipBlanks (cs : List Char) : List Char :=
  cs.dropWhile fun c => c == ' ' || c == '\t' || c == '\n' || c == '\r'

/-- The value of a hexadecimal digit. -/
def hexDigit (c : Char) : Option Nat :=
  if '0' ≤ c ∧ c ≤ '9' then some (c.toNat - '0'.toNat)
  else if 'a' ≤ c ∧ c ≤ 'f' then some (c.toNat - 'a'.toNat + 10)
  else if 'A' ≤ c ∧ c ≤ 'F' then some (c.toNat - 'A'.toNat + 10)
  else none

/-- The value of four hexadecimal digits. -/
def hexUnit (a b c d : Char) : Option Nat := do
  return (((← hexDigit a) * 16 + (← hexDigit b)) * 16 + (← hexDigit c)) * 16 + (← hexDigit d)

/-- The code of the character that a letter after a backslash stands for. -/
def escaped (c : Char) : Option Nat :=
  match c with
  | '"' => some 34
  | '\\' => some 92
  | '/' => some 47
  | 'b' => some 8
  | 'f' => some 12
  | 'n' => some 10
  | 'r' => some 13
  | 't' => some 9
  | _ => none

/-- The codes of a text up to its closing quote. Escapes may give surrogates. -/
def textCodes : List Char → Option (List Nat × List Char)
  | [] => none
  | '"' :: rest => some ([], rest)
  | '\\' :: 'u' :: a :: b :: c :: d :: rest => do
    let code ← hexUnit a b c d
    let (codes, rest) ← textCodes rest
    return (code :: codes, rest)
  | '\\' :: c :: rest => do
    let code ← escaped c
    let (codes, rest) ← textCodes rest
    return (code :: codes, rest)
  | c :: rest =>
    if c.toNat < 32 then none
    else do
      let (codes, rest) ← textCodes rest
      return (c.toNat :: codes, rest)

/-- The first half of a surrogate pair. -/
def isHighSurrogate (code : Nat) : Bool := decide (0xd800 ≤ code) && decide (code < 0xdc00)

/-- The second half of a surrogate pair. -/
def isLowSurrogate (code : Nat) : Bool := decide (0xdc00 ≤ code) && decide (code < 0xe000)

/-- The characters of a sequence of codes, in which surrogates have to form pairs. -/
def characters : List Nat → Option (List Char)
  | [] => some []
  | [code] =>
    if isHighSurrogate code || isLowSurrogate code then none else some [Char.ofNat code]
  | high :: low :: codes =>
    if isHighSurrogate high then
      if isLowSurrogate low then do
        let code := 0x10000 + (high - 0xd800) * 0x400 + (low - 0xdc00)
        return Char.ofNat code :: (← characters codes)
      else none
    else if isLowSurrogate high then none
    else do return Char.ofNat high :: (← characters (low :: codes))

/-- Takes a text of which the opening quote has been taken. -/
def readText (cs : List Char) : Option (Option String × List Char) := do
  let (codes, rest) ← textCodes cs
  return ((characters codes).map String.ofList, rest)

/-- Takes all leading digits. -/
def readDigits (cs : List Char) : List Nat × List Char :=
  ((cs.takeWhile Char.isDigit).map fun c => c.toNat - '0'.toNat, cs.dropWhile Char.isDigit)

/-- Takes the digits before the point: a zero, or digits that do not begin with zero. -/
def readWhole (cs : List Char) : Option (List Nat × List Char) :=
  match readDigits cs with
  | ([], _) => none
  | (0 :: _ :: _, _) => none
  | (digits, rest) => some (digits, rest)

/-- Takes a point and the digits after it, if there is a point. -/
def readFraction : List Char → Option (List Nat × List Char)
  | '.' :: rest =>
    match readDigits rest with
    | ([], _) => none
    | (digits, rest) => some (digits, rest)
  | cs => some ([], cs)

/-- Takes the digits of an exponent. -/
def readPower (cs : List Char) : Option (Nat × List Char) :=
  match readDigits cs with
  | ([], _) => none
  | (digits, rest) => some (Numeral.ofDigits digits, rest)

/-- Takes an exponent with its mark, if there is one. -/
def readExponent (cs : List Char) : Option (Option Int × List Char) :=
  match cs with
  | c :: rest =>
    if c == 'e' || c == 'E' then
      match rest with
      | '-' :: rest => (readPower rest).map fun (n, rest) => (some (-(n : Int)), rest)
      | '+' :: rest => (readPower rest).map fun (n, rest) => (some (n : Int), rest)
      | _ => (readPower rest).map fun (n, rest) => (some (n : Int), rest)
    else some (none, cs)
  | [] => some (none, cs)

/-- Takes a number. -/
def readNumeral (cs : List Char) : Option (Numeral × List Char) := do
  let (negative, cs) := match cs with
    | '-' :: rest => (true, rest)
    | _ => (false, cs)
  let (whole, cs) ← readWhole cs
  let (fraction, cs) ← readFraction cs
  let (exponent, cs) ← readExponent cs
  return ({ negative, whole, fraction, exponent }, cs)

/-- Takes a fixed sequence of characters. -/
def expectWord (word : List Char) (value : Value) (cs : List Char) :
    Option (Value × List Char) :=
  if word.isPrefixOf cs then some (value, cs.drop word.length) else none

mutual

/-- Takes a value without leading blanks. The first argument bounds nesting and the number of
items and members; no text has more of them than characters. -/
def readValue : Nat → List Char → Option (Value × List Char)
  | 0, _ => none
  | _, [] => none
  | bound + 1, '\x7b' :: rest =>
    match skipBlanks rest with
    | '\x7d' :: rest => some (.object [], rest)
    | rest => do
      let (members, rest) ← readMembers bound rest
      return (.object members, rest)
  | bound + 1, '[' :: rest =>
    match skipBlanks rest with
    | ']' :: rest => some (.array [], rest)
    | rest => do
      let (items, rest) ← readItems bound rest
      return (.array items, rest)
  | _ + 1, '"' :: rest => (readText rest).map fun (text, rest) => (.string text, rest)
  | _ + 1, 'n' :: rest => expectWord ['u', 'l', 'l'] .null rest
  | _ + 1, 't' :: rest => expectWord ['r', 'u', 'e'] (.bool true) rest
  | _ + 1, 'f' :: rest => expectWord ['a', 'l', 's', 'e'] (.bool false) rest
  | _ + 1, cs => (readNumeral cs).map fun (numeral, rest) => (.number numeral, rest)

/-- Takes the items of a list and its closing bracket; there is at least one item. -/
def readItems : Nat → List Char → Option (List Value × List Char)
  | 0, _ => none
  | bound + 1, cs => do
    let (item, rest) ← readValue bound cs
    match skipBlanks rest with
    | ']' :: rest => return ([item], rest)
    | ',' :: rest => do
      let (items, rest) ← readItems bound (skipBlanks rest)
      return (item :: items, rest)
    | _ => none

/-- Takes the members of an object and its closing brace; there is at least one member. -/
def readMembers : Nat → List Char → Option (List (Option String × Value) × List Char)
  | 0, _ => none
  | bound + 1, cs =>
    match cs with
    | '"' :: rest => do
      let (name, rest) ← readText rest
      match skipBlanks rest with
      | ':' :: rest =>
        let (value, rest) ← readValue bound (skipBlanks rest)
        match skipBlanks rest with
        | '\x7d' :: rest => return ([(name, value)], rest)
        | ',' :: rest => do
          let (members, rest) ← readMembers bound (skipBlanks rest)
          return ((name, value) :: members, rest)
        | _ => none
      | _ => none
    | _ => none

end

/-- The value that a text consists of. -/
def Value.parse (text : String) : Option Value :=
  let cs := text.toList
  match readValue (cs.length + 1) (skipBlanks cs) with
  | some (value, rest) => if (skipBlanks rest).isEmpty then some value else none
  | none => none

end Mixtures.Json
