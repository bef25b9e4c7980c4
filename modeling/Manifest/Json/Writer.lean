import Manifest.Number.Decimal
import Manifest.Value

/-!
# Values as JSON

The compact form has no blanks.  The indented form gives every item and field
a line of its own, two columns deeper than what holds it.
-/

namespace Manifest
namespace Json

/-- How numbers are spelled that are not small integers. -/
def spelling : Spelling where
  tie := .toEven
  positional := fun power => -5 ≤ power && power ≤ 15
  keepsPoint := true
  exponentSign := "+"
  infinity := "null"

/-- The text of a number under a spelling.  A whole number below `2 ^ 53` is
written as an integer, so a zero has no sign. -/
def numeral (spelling : Spelling) (number : Number) : String :=
  match number.wholeMagnitude? with
  | some magnitude =>
      (if number.negative && magnitude != 0 then "-" else "") ++ toString magnitude
  | none => number.spell spelling

/-- The text of a number, if JSON can express it. -/
def numberText (number : Number) : String :=
  if number.isFinite then numeral spelling number else "null"

/-- A hexadecimal digit in lower case. -/
def hexDigit (digit : Nat) : Char :=
  Char.ofNat (if digit < 10 then 48 + digit else 87 + digit)

/-- A character inside a string. -/
def escape (character : Char) : List Char :=
  match character with
  | '"' => ['\\', '"']
  | '\\' => ['\\', '\\']
  | '\x08' => ['\\', 'b']
  | '\t' => ['\\', 't']
  | '\n' => ['\\', 'n']
  | '\x0c' => ['\\', 'f']
  | '\r' => ['\\', 'r']
  | _ =>
      if character.toNat < 0x20 then
        ['\\', 'u', '0', '0', hexDigit (character.toNat / 16), hexDigit (character.toNat % 16)]
      else [character]

/-- A string in quotes. -/
def quote (content : String) : String :=
  String.ofList ('"' :: content.toList.flatMap escape ++ ['"'])

mutual
/-- The text of a value without blanks. -/
def compact : Value → String
  | .unit => "null"
  | .text content => quote content
  | .number number => numberText number
  | .boolean truth => if truth then "true" else "false"
  | .sequence items => "[" ++ compactItems items ++ "]"
  | .mapping fields => "\x7b" ++ compactFields fields ++ "\x7d"

def compactItems : List Value → String
  | [] => ""
  | [item] => compact item
  | item :: rest => compact item ++ "," ++ compactItems rest

def compactFields : List (String × Value) → String
  | [] => ""
  | [(key, value)] => quote key ++ ":" ++ compact value
  | (key, value) :: rest => quote key ++ ":" ++ compact value ++ "," ++ compactFields rest
end

/-- The beginning of a line at a depth. -/
def newLine (depth : Nat) : String :=
  String.ofList ('\n' :: List.replicate (2 * depth) ' ')

mutual
/-- The text of a value at a depth, one item or field to a line. -/
def indented (depth : Nat) : Value → String
  | .sequence [] => "[]"
  | .sequence items => "[" ++ indentedItems (depth + 1) items ++ newLine depth ++ "]"
  | .mapping [] => "\x7b\x7d"
  | .mapping fields => "\x7b" ++ indentedFields (depth + 1) fields ++ newLine depth ++ "\x7d"
  | .unit => "null"
  | .text content => quote content
  | .number number => numberText number
  | .boolean truth => if truth then "true" else "false"

def indentedItems (depth : Nat) : List Value → String
  | [] => ""
  | [item] => newLine depth ++ indented depth item
  | item :: rest => newLine depth ++ indented depth item ++ "," ++ indentedItems depth rest

def indentedFields (depth : Nat) : List (String × Value) → String
  | [] => ""
  | [(key, value)] => newLine depth ++ quote key ++ ": " ++ indented depth value
  | (key, value) :: rest =>
      newLine depth ++ quote key ++ ": " ++ indented depth value ++ "," ++
        indentedFields depth rest
end

/-- The indented text of a value. -/
def pretty (value : Value) : String :=
  indented 0 value

/-- The text of a JSON object with its members in a given order. -/
def object (members : List (String × String)) : String :=
  "\x7b" ++ ",".intercalate (members.map fun (key, text) => quote key ++ ":" ++ text) ++ "\x7d"

/-- The text of a JSON array. -/
def array (items : List String) : String :=
  "[" ++ ",".intercalate items ++ "]"

end Json
end Manifest
