import Manifest.Json.Numeral
import Manifest.Text.Digit

/-!
# Tokens of JSON

A JSON text is read strictly: only four characters are blank, control
characters never stand raw in a string, and escaped surrogates come in pairs.
-/

namespace Manifest
namespace Json

inductive Token where
  | openSequence
  | closeSequence
  | openMapping
  | closeMapping
  | comma
  | colon
  | null
  | boolean (truth : Bool)
  | number (number : Number)
  | text (content : List Char)
deriving DecidableEq

namespace Token

/-- The characters that may stand between tokens. -/
def isBlank (character : Char) : Bool :=
  character == ' ' || character == '\t' || character == '\n' || character == '\r'

/-- The code unit of four hexadecimal digits. -/
def unit? (first second third fourth : Char) : Option Nat := do
  let first ← Text.hexDigit? first
  let second ← Text.hexDigit? second
  let third ← Text.hexDigit? third
  let fourth ← Text.hexDigit? fourth
  return ((first * 16 + second) * 16 + third) * 16 + fourth

/-- The character that a backslash and a letter stand for. -/
def escaped? : Char → Option Char
  | '"' => some '"'
  | '\\' => some '\\'
  | '/' => some '/'
  | 'b' => some '\x08'
  | 'f' => some '\x0c'
  | 'n' => some '\n'
  | 'r' => some '\r'
  | 't' => some '\t'
  | _ => none

/-- Put a character that takes up some characters of the text in front of what
was read behind it. -/
def keep (character : Char) (used : Nat) (read : Option (List Char × Nat)) :
    Option (List Char × Nat) :=
  read.map fun (content, more) => (character :: content, used + more)

/-- The character of two code units, the first of which begins a pair. -/
def paired? (first second : Nat) : Option Char :=
  if 0xDC00 ≤ second && second < 0xE000 then
    some (Char.ofNat (0x10000 + (first - 0xD800) * 0x400 + (second - 0xDC00)))
  else none

/-- Read the inside of a string up to its closing quote.  The number tells how
many characters of the text were read, the closing quote among them. -/
def readText : List Char → Option (List Char × Nat)
  | [] => none
  | '"' :: _ => some ([], 1)
  | '\\' :: 'u' :: a :: b :: c :: d :: rest =>
      match unit? a b c d with
      | none => none
      | some unit =>
          if 0xD800 ≤ unit && unit < 0xDC00 then
            match rest with
            | '\\' :: 'u' :: e :: f :: g :: h :: rest =>
                match (unit? e f g h).bind (paired? unit) with
                | none => none
                | some character => keep character 12 (readText rest)
            | _ => none
          else if 0xDC00 ≤ unit && unit < 0xE000 then none
          else keep (Char.ofNat unit) 6 (readText rest)
  | '\\' :: letter :: rest =>
      match escaped? letter with
      | none => none
      | some character => keep character 2 (readText rest)
  | character :: rest =>
      if character.toNat < 0x20 || character = '\\' then none
      else keep character 1 (readText rest)

/-- The characters that a numeral is made of. -/
def isNumeral (character : Char) : Bool :=
  character.isDigit || character == '-' || character == '+' || character == '.' ||
    character == 'e' || character == 'E'

/-- The token of a bare word. -/
def word? (text : List Char) : Option Token :=
  if text = "null".toList then some null
  else if text = "true".toList then some (boolean true)
  else if text = "false".toList then some (boolean false)
  else none

/-- The token of a mark. -/
def mark? : Char → Option Token
  | '[' => some openSequence
  | ']' => some closeSequence
  | '\x7b' => some openMapping
  | '\x7d' => some closeMapping
  | ',' => some comma
  | ':' => some colon
  | _ => none

/-- The token that begins with a character, and how many characters belong to
it behind that one. -/
def first? (character : Char) (rest : List Char) : Option (Token × Nat) :=
  if character = '"' then (readText rest).map fun (content, used) => (text content, used)
  else
    match mark? character with
    | some token => some (token, 0)
    | none =>
        if character.isAlpha then
          let letters := rest.takeWhile Char.isAlpha
          (word? (character :: letters)).map fun token => (token, letters.length)
        else
          let more := rest.takeWhile isNumeral
          ((Numeral.read (character :: more)).bind Numeral.number?).map
            fun value => (number value, more.length)

/-- The tokens of a text behind a number of characters that belong to the
token before. -/
def scanBehind : Nat → List Char → Option (List Token)
  | _, [] => some []
  | taken + 1, _ :: rest => scanBehind taken rest
  | 0, character :: rest =>
      if isBlank character then scanBehind 0 rest
      else
        match first? character rest with
        | none => none
        | some (token, used) => (scanBehind used rest).map (token :: ·)

/-- The tokens of a text. -/
def scan (text : List Char) : Option (List Token) :=
  scanBehind 0 text

end Token
end Json
end Manifest
