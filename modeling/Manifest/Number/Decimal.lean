import Manifest.Number

/-!
# Decimal texts of numbers

The text of a number holds the fewest significant digits that read back as
the same number, and of those the digits nearest to it.  Where two decimals
are equally near, the format that is being written decides.

Every grid of decimals is searched in exact arithmetic.  The grids get finer
digit by digit, and the first one with a point inside the interval of reals
that round to the number wins.
-/

namespace Manifest

/-- A magnitude `digits * 10 ^ power`. -/
structure Decimal where
  digits : Nat
  power : Int
deriving DecidableEq

/-- Which of two equally near decimals is taken. -/
inductive Tie where
  | toEven
  | away
deriving DecidableEq

namespace Number

/-- The greatest power of ten that is at most a positive quotient.  The
binary logarithm leaves a doubt of one on either side. -/
def floorLog10 (numerator denominator : Nat) : Int :=
  let guess := floorLog2 numerator denominator * 30103 / 100000
  if powerLe 10 (guess + 1) numerator denominator then guess + 1
  else if powerLe 10 guess numerator denominator then guess
  else guess - 1

/-- Whether a decimal lies between the two reals halfway to the neighbours of
a finite number other than zero.  The halfway points belong to the interval
when the significand is even. -/
def readsBack (number : Number) (decimal : Decimal) : Bool :=
  let lowestOfItsUnit := number.significand == binade && number.exponent != -1074
  let low := 4 * number.significand - (if lowestOfItsUnit then 1 else 2)
  let high := 4 * number.significand + 2
  let unit := number.exponent - 2
  let point := decimal.digits * Nat.pow 10 decimal.power.toNat * Nat.pow 2 (-unit).toNat
  let scale := Nat.pow 10 (-decimal.power).toNat * Nat.pow 2 unit.toNat
  if number.significand % 2 = 0 then low * scale ≤ point && point ≤ high * scale
  else low * scale < point && point < high * scale

/-- The point of the grid of multiples of `10 ^ power` that stands for the
number, if one of its two neighbours on that grid reads back. -/
def onGrid (tie : Tie) (number : Number) (power : Int) : Option Decimal :=
  let above := number.numerator * Nat.pow 10 (-power).toNat
  let below := number.denominator * Nat.pow 10 power.toNat
  let floor := above / below
  let twice := 2 * (above % below)
  let lower : Decimal := ⟨floor, power⟩
  let upper : Decimal := ⟨floor + 1, power⟩
  match number.readsBack lower, number.readsBack upper with
  | true, true =>
      if twice < below then some lower
      else if below < twice then some upper
      else if tie = .toEven && floor % 2 = 0 then some lower
      else some upper
  | true, false => some lower
  | false, true => some upper
  | false, false => none

/-- Move factors of ten from the digits to the power. -/
def trimZeros : Nat → Decimal → Decimal
  | 0, decimal => decimal
  | bound + 1, decimal =>
      if decimal.digits % 10 = 0 then trimZeros bound ⟨decimal.digits / 10, decimal.power + 1⟩
      else decimal

/-- The fewest digits that read back as a finite magnitude.  Seventeen always
suffice. -/
def shortest (tie : Tie) (number : Number) : Decimal :=
  if number.rank = 0 then ⟨0, 0⟩
  else
    let leading := floorLog10 number.numerator number.denominator
    match (List.range 17).findSome? fun (count : Nat) => number.onGrid tie (leading - count) with
    | some decimal => trimZeros 17 decimal
    | none => ⟨0, 0⟩

end Number

/-- The decisions of one output format. -/
structure Spelling where
  /-- Choice between two decimals that are equally near. -/
  tie : Tie
  /-- Whether a number is written without an exponent, by the power of its leading digit. -/
  positional : Int → Bool
  /-- Whether a whole number keeps a zero after the point. -/
  keepsPoint : Bool
  /-- What stands before an exponent that is not negative. -/
  exponentSign : String
  /-- The text of an infinite magnitude. -/
  infinity : String

namespace Decimal

/-- The digits of a decimal, without its power. -/
def figures (decimal : Decimal) : List Char :=
  (toString decimal.digits).toList

/-- Digits with the point in its place and no exponent. -/
def positionalText (keepsPoint : Bool) (decimal : Decimal) : String :=
  let figures := decimal.figures
  let whole : Int := figures.length + decimal.power
  if 0 ≤ decimal.power then
    String.ofList (figures ++ List.replicate decimal.power.toNat '0') ++
      (if keepsPoint then ".0" else "")
  else if 0 < whole then
    String.ofList (figures.take whole.toNat ++ '.' :: figures.drop whole.toNat)
  else String.ofList ('0' :: '.' :: List.replicate (-whole).toNat '0' ++ figures)

/-- One digit, the others after the point, and the power of ten. -/
def scientificText (exponentSign : String) (decimal : Decimal) : String :=
  let power : Int := decimal.figures.length - 1 + decimal.power
  let fraction := decimal.figures.drop 1
  String.ofList (decimal.figures.take 1 ++ if fraction.isEmpty then [] else '.' :: fraction) ++
    "e" ++ (if power < 0 then "-" else exponentSign) ++ toString power.natAbs

end Decimal

/-- Write a number as a format spells it. -/
def Number.spell (spelling : Spelling) (number : Number) : String :=
  (if number.negative then "-" else "") ++
    if number.isFinite then
      let decimal := number.shortest spelling.tie
      if spelling.positional (decimal.figures.length - 1 + decimal.power) then
        decimal.positionalText spelling.keepsPoint
      else decimal.scientificText spelling.exponentSign
    else spelling.infinity

/-- Messages show a number without an exponent and without a needless point. -/
def Spelling.message : Spelling where
  tie := .away
  positional := fun _ => true
  keepsPoint := false
  exponentSign := ""
  infinity := "inf"

/-- The text of a number in a message. -/
def Number.plainText (number : Number) : String :=
  number.spell .message

end Manifest
