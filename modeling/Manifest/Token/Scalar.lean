import Manifest.Number
import Manifest.Text.Digit
import Manifest.Token

/-!
# Unquoted scalars

A scalar without quotes is a number or a boolean when its whole text reads as
one, and a string otherwise.  A numeral may be written in the digits of any
script, but only the digits of ASCII make it a number.
-/

namespace Manifest
namespace Scalar

/-- Split off the longest numeral: an optional sign, digits, and a point if
digits follow it. -/
def splitNumeral (text : List Char) : Option (List Char × List Char) :=
  let (sign, unsigned) := match text with
    | '-' :: rest => (['-'], rest)
    | _ => ([], text)
  let whole := unsigned.takeWhile Text.isDigit
  let rest := unsigned.dropWhile Text.isDigit
  if whole.isEmpty then none
  else
    match rest with
    | '.' :: behind =>
        let fraction := behind.takeWhile Text.isDigit
        if fraction.isEmpty then some (sign ++ whole, rest)
        else some (sign ++ whole ++ '.' :: fraction, behind.dropWhile Text.isDigit)
    | _ => some (sign ++ whole, rest)

/-- The number that decimal digits denote. -/
def digitsValue (digits : List Char) : Nat :=
  digits.foldl (fun value digit => 10 * value + (digit.toNat - 48)) 0

/-- Read a whole numeral written in ASCII. -/
def readNumeral (text : List Char) : Option Number :=
  let unsigned := match text with
    | '-' :: rest => rest
    | _ => text
  let whole := unsigned.takeWhile (·.isDigit)
  let number (fraction : List Char) :=
    Number.ofDecimal (text.head? == some '-') (digitsValue (whole ++ fraction)) fraction.length
  if whole.isEmpty then none
  else
    match unsigned.drop whole.length with
    | [] => some (number [])
    | '.' :: fraction =>
        if !fraction.isEmpty && fraction.all (·.isDigit) then some (number fraction) else none
    | _ => none

/-- The lower-case letter that a character folds to, among the letters of the
two boolean words.  The long s folds to s. -/
def fold (character : Char) : Char :=
  if character = 'ſ' then 's' else character.toLower

/-- Read a boolean word in any case. -/
def readBoolean (text : List Char) : Option Bool :=
  let word := text.map fold
  if word = "true".toList then some true
  else if word = "false".toList then some false
  else none

/-- The token of an unquoted scalar. -/
def classify (text : List Char) : Lexeme :=
  match readNumeral text with
  | some value => .number value
  | none =>
      match readBoolean text with
      | some value => .boolean value
      | none => .text (String.ofList text)

end Scalar
end Manifest
