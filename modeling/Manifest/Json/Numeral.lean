import Manifest.Number

/-!
# Numerals of JSON

A numeral is read in two roundings.  Its digits are gathered in 64 bits; a
digit that does not fit any more only moves the power of ten.  The gathered
integer is rounded to a number and then multiplied or divided by the rounded
power.  A numeral beyond the greatest finite number is refused.
-/

namespace Manifest
namespace Json

/-- The digits of a numeral as they are written. -/
structure Numeral where
  negative : Bool
  whole : List Nat
  /-- The digits behind the point, if there is a point. -/
  fraction : List Nat
  /-- The exponent, if one is written. -/
  exponent : Option Int

namespace Numeral

def digit? (character : Char) : Option Nat :=
  if character.isDigit then some (character.toNat - 48) else none

/-- The digits in front of a text, and what follows them. -/
def digits : List Char → List Nat × List Char
  | [] => ([], [])
  | character :: rest =>
      match digit? character with
      | none => ([], character :: rest)
      | some digit =>
          let (more, behind) := digits rest
          (digit :: more, behind)

/-- The value of decimal digits. -/
def natural (digits : List Nat) : Nat :=
  digits.foldl (fun value digit => 10 * value + digit) 0

/-- Read an exponent that makes up a whole text. -/
def readExponent (text : List Char) : Option Int :=
  let (negative, unsigned) := match text with
    | '-' :: rest => (true, rest)
    | '+' :: rest => (false, rest)
    | _ => (false, text)
  match digits unsigned with
  | ([], _) => none
  | (power, []) => some (if negative then -(natural power : Int) else natural power)
  | _ => none

/-- Read what follows the digits in front of an exponent. -/
def readTail (negative : Bool) (whole fraction : List Nat) : List Char → Option Numeral
  | [] => some ⟨negative, whole, fraction, none⟩
  | mark :: rest =>
      if mark = 'e' || mark = 'E' then
        (readExponent rest).map fun exponent => ⟨negative, whole, fraction, some exponent⟩
      else none

/-- Read a numeral behind its sign.  A zero in front of other digits is refused,
and so is a point without digits on both sides. -/
def readUnsigned (negative : Bool) (text : List Char) : Option Numeral :=
  match digits text with
  | ([], _) => none
  | (0 :: _ :: _, _) => none
  | (whole, '.' :: rest) =>
      match digits rest with
      | ([], _) => none
      | (fraction, behind) => readTail negative whole fraction behind
  | (whole, behind) => readTail negative whole [] behind

/-- Read a numeral that makes up a whole text. -/
def read : List Char → Option Numeral
  | '-' :: rest => readUnsigned true rest
  | text => readUnsigned false text

/-- Gather digits as long as the value fits 64 bits; return the value and the
number of digits that are left. -/
def gather : Nat → List Nat → Nat × Nat
  | value, [] => (value, 0)
  | value, digit :: rest =>
      if 10 * value + digit < Nat.pow 2 64 then gather (10 * value + digit) rest
      else (value, rest.length + 1)

/-- Divide by a power of ten, three hundred and eight at a time, since the
power itself has to be finite. -/
def shrink (number : Number) (power : Nat) : Number :=
  if number.rank = 0 then number
  else if power ≤ 308 then number.div (.ofDecimal false (Nat.pow 10 power) 0)
  else shrink (number.div (.ofDecimal false (Nat.pow 10 308) 0)) (power - 308)
termination_by power

/-- Scale a number by a power of ten.  A result that is not finite is refused. -/
def scale (number : Number) (power : Int) : Option Number :=
  if power < 0 then some (shrink number power.natAbs)
  else if number.rank = 0 then some number
  else if power ≤ 308 then
    let scaled := number.mul (.ofDecimal false (Nat.pow 10 power.toNat) 0)
    if scaled.isFinite then some scaled else none
  else none

/-- The number of a numeral. -/
def number? (numeral : Numeral) : Option Number :=
  let (significand, dropped) := gather 0 numeral.whole
  let (significand, ignored) := gather significand numeral.fraction
  let places := numeral.fraction.length - ignored
  let power := (dropped : Int) - places + numeral.exponent.getD 0
  scale (.ofDecimal numeral.negative significand 0) power

end Numeral
end Json
end Manifest
