/-!
# Numbers of a manifest

Every number is a binary64 magnitude with a sign.  Not-a-number is left out:
no text of the language and no JSON text denotes it.

A magnitude is held as its *rank*, its place in the increasing order of all
magnitudes.  The rank is also the bit pattern without the sign, so the order
of numbers is an order of integers and the exact value of a number is read
off its rank with natural-number arithmetic.  Nothing here depends on the
floating-point unit.
-/

namespace Manifest

/-- How many ranks lie between one power of two and the next. -/
def binade : Nat := Nat.pow 2 52

/-- The rank of infinity, which follows the greatest finite magnitude. -/
def infiniteRank : Nat := 2047 * binade

/-- A signed magnitude.  Both zeros are kept apart, as their bit patterns are. -/
structure Number where
  negative : Bool
  rank : Nat
  rank_le : rank ≤ infiniteRank
deriving DecidableEq

namespace Number

instance : Inhabited Number := ⟨⟨false, 0, by decide⟩⟩

/-- The place of a number on the signed line, where both zeros meet. -/
def key (number : Number) : Int :=
  if number.negative then -(number.rank : Int) else number.rank

instance : LE Number := ⟨fun left right => left.key ≤ right.key⟩

instance : LT Number := ⟨fun left right => left.key < right.key⟩

instance (left right : Number) : Decidable (left ≤ right) :=
  inferInstanceAs (Decidable (left.key ≤ right.key))

instance (left right : Number) : Decidable (left < right) :=
  inferInstanceAs (Decidable (left.key < right.key))

/-- Two numbers never escape comparison. -/
theorem not_lt {left right : Number} : ¬ left < right ↔ right ≤ left :=
  Int.not_lt

/-- Numeric equality, which does not see the sign of a zero. -/
def sameValue (left right : Number) : Bool :=
  left.key == right.key

def isFinite (number : Number) : Bool :=
  number.rank < infiniteRank

/-- The bit pattern of the number. -/
def bits (number : Number) : Nat :=
  (if number.negative then Nat.pow 2 63 else 0) + number.rank

/-- The integer that a finite number scales by a power of two. -/
def significand (number : Number) : Nat :=
  if number.rank < binade then number.rank else binade + number.rank % binade

/-- The power of two that scales the significand. -/
def exponent (number : Number) : Int :=
  if number.rank < binade then -1074 else (number.rank / binade : Nat) - 1075

/-- Numerator of the exact magnitude. -/
def numerator (number : Number) : Nat :=
  number.significand * Nat.pow 2 number.exponent.toNat

/-- Denominator of the exact magnitude, a power of two. -/
def denominator (number : Number) : Nat :=
  Nat.pow 2 (-number.exponent).toNat

/-! ## Rounding -/

/-- The integer nearest to a quotient; a tie goes to the even neighbour. -/
def roundQuotient (numerator denominator : Nat) : Nat :=
  let quotient := numerator / denominator
  let twice := 2 * (numerator % denominator)
  if twice < denominator then quotient
  else if denominator < twice then quotient + 1
  else quotient + quotient % 2

/-- Whether `base ^ power` is at most the quotient, for either sign of the power. -/
def powerLe (base : Nat) (power : Int) (numerator denominator : Nat) : Bool :=
  denominator * Nat.pow base power.toNat ≤ numerator * Nat.pow base (-power).toNat

/-- The greatest power of two that is at most a positive quotient.  The two
bit lengths leave a doubt of one. -/
def floorLog2 (numerator denominator : Nat) : Int :=
  let guess : Int := numerator.log2 - denominator.log2
  if powerLe 2 guess numerator denominator then guess else guess - 1

/-- Rank of the magnitude nearest to a quotient.  A carry out of the
significand and the step from subnormal to normal magnitudes need no case of
their own, because ranks run on without a gap. -/
def nearestRank (numerator denominator : Nat) : Nat :=
  if numerator = 0 then 0
  else
    let unit := max (floorLog2 numerator denominator - 52) (-1074)
    (unit + 1074).toNat * binade +
      roundQuotient (numerator * Nat.pow 2 (-unit).toNat) (denominator * Nat.pow 2 unit.toNat)

/-- The number nearest to a signed quotient; beyond the greatest magnitude it
is infinite. -/
def nearest (negative : Bool) (numerator denominator : Nat) : Number where
  negative
  rank := min (nearestRank numerator denominator) infiniteRank
  rank_le := Nat.min_le_right _ _

/-- The number nearest to `digits` with the last `places` of them after the point. -/
def ofDecimal (negative : Bool) (digits places : Nat) : Number :=
  nearest negative digits (Nat.pow 10 places)

/-- The product, rounded once. -/
def mul (left right : Number) : Number :=
  nearest (left.negative != right.negative)
    (left.numerator * right.numerator) (left.denominator * right.denominator)

/-- The quotient by a number other than zero, rounded once. -/
def div (left right : Number) : Number :=
  nearest (left.negative != right.negative)
    (left.numerator * right.denominator) (left.denominator * right.numerator)

/-! ## Whole numbers -/

/-- The magnitude of a whole number below `2 ^ 53`, where every integer is a
number of its own. -/
def wholeMagnitude? (number : Number) : Option Nat :=
  if number.isFinite && number.numerator % number.denominator == 0 &&
      number.numerator / number.denominator < Nat.pow 2 53 then
    some (number.numerator / number.denominator)
  else none

end Number

end Manifest
