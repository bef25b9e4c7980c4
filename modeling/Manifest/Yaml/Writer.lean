import Manifest.Json.Writer
import Manifest.Yaml.Scalar

/-!
# Values as YAML

Mappings and sequences are written as blocks, one field or item to a line.
A sequence that is the value of a field stands in the column of its key.
-/

namespace Manifest
namespace Yaml

/-- How numbers are spelled that are not small integers. -/
def spelling : Spelling where
  tie := .toEven
  positional := fun power => -5 ≤ power && power ≤ 15
  keepsPoint := true
  exponentSign := ""
  infinity := ".inf"

/-- Where a value stands. -/
inductive Place where
  | root
  /-- Behind the hyphen of an item. -/
  | item
  /-- Behind the key of a field, on the same line. -/
  | field
  /-- Behind the colon of a field whose key has a line of its own. -/
  | below
deriving DecidableEq

/-- Begin a line, unless the text so far ends with a line break. -/
def startLine (written : String) (indent : Nat) : String :=
  let broken := written.isEmpty || isBreak written.back
  (if broken then written else written ++ "\n") ++ String.ofList (List.replicate indent ' ')

/-- What separates a value on the same line from what stands in front of it. -/
def gap : Place → String
  | .root => ""
  | _ => " "

/-- Begin a block of fields or items.  Only behind a key does it need a line
of its own. -/
def startBlock (written : String) (place : Place) (indent : Nat) : String :=
  match place with
  | .field => startLine written indent
  | _ => written ++ gap place

/-- The column of a block inside a block at the given column. -/
def blockColumn (place : Place) (indent : Nat) : Nat :=
  match place with
  | .root => 0
  | _ => indent + 2

/-- The column of a sequence, which behind a key does not move. -/
def sequenceColumn (place : Place) (indent : Nat) : Nat :=
  match place with
  | .field => indent
  | _ => blockColumn place indent

/-- The column of the further lines of a string. -/
def textColumn (place : Place) (indent : Nat) : Nat :=
  match place with
  | .root => 2
  | _ => indent + 2

/-- Whether a key can stand on the line of its value. -/
def isShortKey (key : String) : Bool :=
  key.utf8ByteSize ≤ 128 && !key.toList.any isBreak

/-- The text of a number. -/
def numberText (number : Number) : String :=
  Json.numeral spelling number

/-- A string as it stands in a place. -/
def textIn (inLine : Bool) (place : Place) (indent : Nat) (content : String) : String :=
  let text := content.toList
  String.ofList (writeText (styleOf inLine text) (textColumn place indent) text)

/-- Write the key of a field; tell where its value stands then. -/
def writeKey (written : String) (indent : Nat) (key : String) : String × Place :=
  if isShortKey key then (written ++ textIn true .field indent key ++ ":", .field)
  else (startLine (written ++ "? " ++ textIn false .field indent key) indent ++ ":", .below)

mutual
/-- Write a value behind what has been written, inside a block at a column. -/
def write (written : String) (indent : Nat) (place : Place) : Value → String
  | .unit => written ++ gap place ++ "null"
  | .boolean truth => written ++ gap place ++ (if truth then "true" else "false")
  | .number number => written ++ gap place ++ numberText number
  | .text content => written ++ gap place ++ textIn false place indent content
  | .sequence [] => written ++ gap place ++ "[]"
  | .mapping [] => written ++ gap place ++ "\x7b\x7d"
  | .sequence items =>
      let column := sequenceColumn place indent
      writeItems (startBlock written place column) column items
  | .mapping fields =>
      let column := blockColumn place indent
      writeFields (startBlock written place column) column fields

/-- Write items, with the first line begun. -/
def writeItems (written : String) (column : Nat) : List Value → String
  | [] => written
  | [item] => write (written ++ "-") column .item item
  | item :: rest =>
      writeItems (startLine (write (written ++ "-") column .item item) column) column rest

/-- Write fields, with the first line begun. -/
def writeFields (written : String) (column : Nat) : List (String × Value) → String
  | [] => written
  | [(key, value)] =>
      let (begun, place) := writeKey written column key
      write begun column place value
  | (key, value) :: rest =>
      let (begun, place) := writeKey written column key
      writeFields (startLine (write begun column place value) column) column rest
end

/-- The YAML text of a value, which ends with a line break. -/
def render (value : Value) : String :=
  startLine (write "" 0 .root value) 0

/-- A library that writes YAML.  Every value can be written: it consists of nothing but
what YAML has a text for. -/
class Library where
  write : Value → Except String String
  writes (value : Value) : ∃ text, write value = .ok text

instance : Library where
  write value := .ok (render value)
  writes value := ⟨render value, rfl⟩

end Yaml
end Manifest
