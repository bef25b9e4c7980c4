import Manifest.Token.Scalar

/-!
# Numerals

A numeral spells a number in decimal digits, perhaps behind a hyphen and perhaps with a
fraction.  What it spells is told here by the places of the digits: those in front of the
point count for tens, and those behind it for parts of one.  A scanner does not tell the
two apart but reads all digits as one integer, and what it reads comes to the same.
-/

namespace Manifest

/-- A decimal spelling of a number.  Without digits behind it there is no point. -/
structure Numeral where
  negative : Bool
  whole : List Char
  fraction : List Char
  whole_ne_nil : whole ≠ []
  whole_digits : whole.all Char.isDigit = true
  fraction_digits : fraction.all Char.isDigit = true

namespace Numeral

def sign (numeral : Numeral) : List Char :=
  if numeral.negative then ['-'] else []

def spelling (numeral : Numeral) : List Char :=
  numeral.sign ++ numeral.whole ++
    if numeral.fraction.isEmpty then [] else '.' :: numeral.fraction

/-- What digits count for in front of a point, each according to its place. -/
def count : List Char → Nat
  | [] => 0
  | digit :: behind => (digit.toNat - '0'.toNat) * Nat.pow 10 behind.length + count behind

/-- The number nearest to what is spelled. -/
def value (numeral : Numeral) : Number :=
  let parts := Nat.pow 10 numeral.fraction.length
  .nearest numeral.negative (count numeral.whole * parts + count numeral.fraction) parts

/-! ## Places of digits -/

theorem count_append (front behind : List Char) :
    count (front ++ behind) = count front * Nat.pow 10 behind.length + count behind := by
  induction front with
  | nil => rw [List.nil_append, count, Nat.zero_mul, Nat.zero_add]
  | cons digit front ih =>
    have places : Nat.pow 10 (front ++ behind).length =
        Nat.pow 10 front.length * Nat.pow 10 behind.length := by
      rw [List.length_append]
      exact Nat.pow_add 10 front.length behind.length
    rw [List.cons_append, count, count, ih, places, Nat.add_mul, Nat.mul_assoc, Nat.add_assoc]

/-- Each digit that is read moves what has been read before it by one place. -/
theorem foldl_eq_count (digits : List Char) (value : Nat) :
    digits.foldl (fun value digit => 10 * value + (digit.toNat - 48)) value =
      value * Nat.pow 10 digits.length + count digits := by
  induction digits generalizing value with
  | nil => exact (Nat.mul_one value).symm
  | cons digit behind ih =>
    have tenfold : Nat.pow 10 (digit :: behind).length = 10 * Nat.pow 10 behind.length :=
      Nat.pow_succ'
    rw [List.foldl_cons, ih, count, tenfold, Nat.add_mul, ← Nat.mul_assoc, Nat.mul_comm 10 value,
      Nat.add_assoc]
    rfl

/-- An integer that is read digit by digit counts each digit according to its place. -/
theorem digitsValue_eq_count (digits : List Char) : Scalar.digitsValue digits = count digits := by
  rw [Scalar.digitsValue, foldl_eq_count, Nat.zero_mul, Nat.zero_add]

/-- The number that is read from all the digits of a numeral. -/
theorem ofDecimal_eq_value (numeral : Numeral) :
    Number.ofDecimal numeral.negative (Scalar.digitsValue (numeral.whole ++ numeral.fraction))
      numeral.fraction.length = numeral.value := by
  rw [Number.ofDecimal, digitsValue_eq_count, count_append]
  rfl

end Numeral

/-! ## What is read as a number -/

namespace Scalar

variable {text : List Char}

/-- Digits with a fraction or nothing behind them are a numeral. -/
theorem exists_numeral_of_digits {negative : Bool} {unsigned : List Char} {value : Number}
    (fraction : List Char) (signed : (if negative then ['-'] else []) ++ unsigned = text)
    (filled : ¬ (unsigned.takeWhile Char.isDigit).isEmpty = true)
    (behind : unsigned.drop (unsigned.takeWhile Char.isDigit).length =
      if fraction.isEmpty then [] else '.' :: fraction)
    (digits : fraction.all Char.isDigit = true)
    (same : Number.ofDecimal negative (digitsValue (unsigned.takeWhile Char.isDigit ++ fraction))
      fraction.length = value) :
    ∃ numeral : Numeral, numeral.spelling = text ∧ numeral.value = value := by
  have front : unsigned.take (unsigned.takeWhile Char.isDigit).length =
      unsigned.takeWhile Char.isDigit :=
    (List.prefix_iff_eq_take.mp (List.takeWhile_prefix _)).symm
  have whole := List.take_append_drop (unsigned.takeWhile Char.isDigit).length unsigned
  rw [front, behind] at whole
  refine ⟨⟨negative, unsigned.takeWhile Char.isDigit, fraction, fun none => ?_,
    List.all_takeWhile, digits⟩, ?_, (Numeral.ofDecimal_eq_value _).symm.trans same⟩
  · rw [none] at filled
    exact filled rfl
  · rw [Numeral.spelling, List.append_assoc, ← signed]
    exact congrArg _ whole

/-- Without a sign all of a text is unsigned. -/
theorem append_unsigned (noSign : ∀ rest, text = '-' :: rest → False) :
    (if text.head? == some '-' then ['-'] else []) ++ text = text := by
  have other : ¬ (text.head? == some '-') = true := by
    intro head
    rcases List.head?_eq_some_iff.mp (beq_iff_eq.mp head) with ⟨rest, front⟩
    exact noSign rest front
  rw [if_neg other]
  rfl

/-- What is read as a number is a numeral. -/
theorem exists_numeral {value : Number} (read : readNumeral text = some value) :
    ∃ numeral : Numeral, numeral.spelling = text ∧ numeral.value = value := by
  rw [readNumeral.eq_def] at read
  dsimp only at read
  -- with and without a sign
  split at read
  case' h_1 rest =>
    have signed : (if ('-' :: rest).head? == some '-' then ['-'] else []) ++ rest =
        '-' :: rest := rfl
  case' h_2 noSign =>
    have signed := append_unsigned noSign
  all_goals
    split at read
    · cases read
    · rename_i filled
      split at read
      · rename_i none
        exact exists_numeral_of_digits [] signed filled none rfl (Option.some.inj read)
      · rename_i fraction point
        split at read
        · rename_i decimal
          rw [Bool.and_eq_true, Bool.not_eq_true'] at decimal
          have some := Bool.eq_false_iff.mp decimal.1
          exact exists_numeral_of_digits fraction signed filled (by rwa [if_neg some]) decimal.2
            (Option.some.inj read)
        · cases read
      · cases read

end Scalar
end Manifest
