import Manifest.Number.Decimal

/-!
# Strings in YAML

A string is written plainly where nobody can mistake it.  Otherwise it stands
in single quotes, or in double quotes when it holds characters that need an
escape.  A string with line feeds is a literal block where a block can show
it exactly.
-/

namespace Manifest
namespace Yaml

/-! ## Texts that would be read as something else -/

def isNull (text : List Char) : Bool :=
  text.isEmpty ||
    ["null", "Null", "NULL", "~"].any fun word => word.toList == text

def isTruth (text : List Char) : Bool :=
  ["true", "True", "TRUE", "false", "False", "FALSE"].any fun word => word.toList == text

/-- The value of a digit in a base, if it is one there. -/
def digitIn? (base : Nat) (character : Char) : Option Nat :=
  let code := character.toNat
  let value :=
    if character.isDigit then code - 48
    else if 97 ≤ code && code ≤ 122 then code - 87
    else if 65 ≤ code && code ≤ 90 then code - 55
    else base
  if value < base then some value else none

/-- The natural number of a text that consists of digits. -/
def naturalIn? (base : Nat) (text : List Char) : Option Nat :=
  if text.isEmpty then none
  else text.foldlM (fun value character =>
    (digitIn? base character).map fun digit => base * value + digit) 0

/-- Drop one character from the front of a text if it stands there. -/
def dropSign (sign : Char) : List Char → List Char
  | character :: rest => if character = sign then rest else character :: rest
  | [] => []

/-- The bases of integers, with what stands in front of their digits. -/
def bases : List (Nat × List Char) :=
  [(16, ['0', 'x']), (8, ['0', 'o']), (2, ['0', 'b']), (10, [])]

/-- An integer of at most 128 bits, its sign included. -/
def isInteger (text : List Char) : Bool :=
  let positive := dropSign '+' text
  bases.any fun (base, mark) =>
    (mark.isPrefixOf positive &&
      (naturalIn? base (positive.drop mark.length)).any fun value => value < Nat.pow 2 128) ||
    (('-' :: mark).isPrefixOf text &&
      (naturalIn? base (text.drop (mark.length + 1))).any fun value => value ≤ Nat.pow 2 127)

/-- Digits with zeros in front are a string, but one that other readers may
take for a number. -/
def isPaddedDigits (text : List Char) : Bool :=
  let unsigned := match text with
    | '-' :: rest => rest
    | _ => dropSign '+' text
  match unsigned with
  | '0' :: digit :: rest => (digit :: rest).all Char.isDigit
  | _ => false

/-- Whether a decimal has a finite number.  The place of its first digit
decides, except near the greatest number, where the number itself is taken. -/
def isFiniteDecimal (digits : List Char) (power : Int) : Bool :=
  let significant := digits.dropWhile (· = '0')
  let leading : Int := significant.length + power
  if significant.isEmpty || leading < 300 then true
  else if 320 < leading then false
  else
    let value := (naturalIn? 10 significant).getD 0
    (Number.nearest false (value * Nat.pow 10 power.toNat) (Nat.pow 10 (-power).toNat)).isFinite

/-- A finite decimal number, perhaps with an exponent. -/
def isDecimal (text : List Char) : Bool :=
  let unsigned := match text with
    | '-' :: rest => rest
    | '+' :: '-' :: _ => []
    | _ => dropSign '+' text
  let whole := unsigned.takeWhile Char.isDigit
  let behind := unsigned.drop whole.length
  let (fraction, behind) := match behind with
    | '.' :: rest => (rest.takeWhile Char.isDigit, rest.dropWhile Char.isDigit)
    | _ => ([], behind)
  let exponent : Option Int := match behind with
    | [] => some 0
    | mark :: rest =>
        if mark = 'e' || mark = 'E' then
          match rest with
          | '-' :: digits => (naturalIn? 10 digits).map fun value => -(value : Int)
          | _ => (naturalIn? 10 (dropSign '+' rest)).map fun value => (value : Int)
        else none
  match exponent with
  | none => false
  | some exponent =>
      !(whole ++ fraction).isEmpty &&
        isFiniteDecimal (whole ++ fraction) (exponent - fraction.length)

/-- The words for numbers that are not finite. -/
def isSpecialNumber (text : List Char) : Bool :=
  [".inf", ".Inf", ".INF", "+.inf", "+.Inf", "+.INF", "-.inf", "-.Inf", "-.INF", ".nan", ".NaN",
    ".NAN"].any fun word => word.toList == text

/-- Whether a text without quotes would not be read as a string. -/
def isAmbiguous (text : List Char) : Bool :=
  isNull text || isTruth text || isInteger text || isPaddedDigits text || isSpecialNumber text ||
    isDecimal text

/-! ## Characters -/

def isBreak (character : Char) : Bool :=
  character == '\n' || character == '\r' || character == '\u0085' || character == '\u2028' ||
    character == '\u2029'

/-- A character behind which a mark has its meaning. -/
def endsWord (character : Char) : Bool :=
  character == ' ' || character == '\t' || character == '\x00' || isBreak character

/-- A character that may stand as it is. -/
def isPrintable (character : Char) : Bool :=
  let code := character.toNat
  code == 0x0A || (0x20 ≤ code && code ≤ 0x7E) ||
    (0xA0 ≤ code && code ≤ 0xFFFD && code != 0xFEFF) || 0x10000 ≤ code

/-- Marks that have a meaning at the beginning of a plain string. -/
def isMark (character : Char) : Bool :=
  "#,[]\x7b\x7d&*!|>'\"%@`".toList.contains character

/-! ## Analysis of a string -/

/-- Whether a mark with a meaning stands behind the first character. -/
def hasInnerMark : (before : Char) → List Char → Bool
  | _, [] => false
  | before, character :: rest =>
      (character == ':' && rest.head?.all endsWord) || (character == '#' && endsWord before) ||
        hasInnerMark character rest

/-- Whether a plain string would be taken for something else by its marks. -/
def hasMark (text : List Char) : Bool :=
  match text with
  | [] => false
  | first :: rest =>
      ['-', '-', '-'].isPrefixOf text || ['.', '.', '.'].isPrefixOf text || isMark first ||
        ((first == '?' || first == ':' || first == '-') && rest.head?.all endsWord) ||
        hasInnerMark first rest

/-- Whether two kinds of characters follow each other somewhere. -/
def hasPair (first second : Char → Bool) : List Char → Bool
  | character :: next :: rest =>
      (first character && second next) || hasPair first second (next :: rest)
  | _ => false

def isSpace (character : Char) : Bool := character == ' '

def isOuter (character : Char) : Bool := isSpace character || isBreak character

/-- Whether a string can be shown without quotes. -/
def allowsPlain (text : List Char) : Bool :=
  text.all isPrintable && !text.any isBreak && !text.head?.any isOuter &&
    !text.getLast?.any isOuter && !hasMark text

/-- Whether a string can be shown between single quotes. -/
def allowsSingle (text : List Char) : Bool :=
  text.all isPrintable && !hasPair isBreak isSpace text && !hasPair isSpace isBreak text

/-- Whether a string can be shown as a block. -/
def allowsBlock (text : List Char) : Bool :=
  text.all isPrintable && !text.getLast?.any isSpace && !hasPair isSpace isBreak text

/-- The ways to write a string. -/
inductive Style where
  | plain
  | single
  | double
  | block
deriving DecidableEq

/-- The way in which a string is written.  A key on the line of its value is
never a block. -/
def styleOf (inLine : Bool) (text : List Char) : Style :=
  if text.contains '\n' then
    if allowsBlock text && !inLine then .block else .double
  else if isAmbiguous text || !allowsPlain text then
    if allowsSingle text then .single else .double
  else .plain

/-! ## Writing -/

/-- Put an indentation in front of every character that follows a line break. -/
def indentLines (indent : Nat) (atStart : Bool) : List Char → List Char
  | [] => []
  | character :: rest =>
      if isBreak character then character :: indentLines indent true rest
      else
        (if atStart then List.replicate indent ' ' else []) ++
          character :: indentLines indent false rest

/-- A hexadecimal digit in upper case. -/
def hexDigit (digit : Nat) : Char :=
  Char.ofNat (if digit < 10 then 48 + digit else 55 + digit)

/-- A number of hexadecimal digits. -/
def hexDigits (count value : Nat) : List Char :=
  (List.range count).reverse.map fun place => hexDigit (value / Nat.pow 16 place % 16)

/-- A character between double quotes. -/
def escape (character : Char) : List Char :=
  let code := character.toNat
  match character with
  | '\x00' => ['\\', '0']
  | '\x07' => ['\\', 'a']
  | '\x08' => ['\\', 'b']
  | '\t' => ['\\', 't']
  | '\n' => ['\\', 'n']
  | '\x0b' => ['\\', 'v']
  | '\x0c' => ['\\', 'f']
  | '\r' => ['\\', 'r']
  | '\x1b' => ['\\', 'e']
  | '"' => ['\\', '"']
  | '\\' => ['\\', '\\']
  | '\u0085' => ['\\', 'N']
  | '\u2028' => ['\\', 'L']
  | '\u2029' => ['\\', 'P']
  | _ =>
      if isPrintable character then [character]
      else if code ≤ 0xFF then '\\' :: 'x' :: hexDigits 2 code
      else if code ≤ 0xFFFF then '\\' :: 'u' :: hexDigits 4 code
      else '\\' :: 'U' :: hexDigits 8 code

/-- What stands behind the bar of a block: the depth of its lines, if the text
begins with a blank, and how its last line ends. -/
def blockHints (text : List Char) : List Char :=
  (if text.head?.any isOuter then ['2'] else []) ++
    match text.reverse with
    | [] => ['-']
    | [last] => if isBreak last then ['+'] else ['-']
    | last :: before :: _ =>
        if !isBreak last then ['-'] else if isBreak before then ['+'] else []

/-- A string in one of the ways, with the indentation of further lines. -/
def writeText (style : Style) (indent : Nat) (text : List Char) : List Char :=
  match style with
  | .plain => text
  | .single =>
      let doubled := text.flatMap fun character =>
        if character = '\'' then ['\'', '\''] else [character]
      let closing :=
        if text.getLast?.any isBreak then List.replicate indent ' ' else []
      '\'' :: indentLines indent false doubled ++ closing ++ ['\'']
  | .double => '"' :: text.flatMap escape ++ ['"']
  | .block => '|' :: blockHints text ++ '\n' :: indentLines indent true text

end Yaml
end Manifest
