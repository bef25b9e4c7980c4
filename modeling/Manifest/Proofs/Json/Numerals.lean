import Manifest.Json.Token
import Manifest.Json.Writer
import Manifest.Proofs.Number.Rounding

/-!
# Whole numbers in JSON

A whole number is written with its digits, behind a hyphen if it is negative.
The digits fit into the bits in which they are gathered, so reading them rounds
a whole number once more, which does not change it.
-/

namespace Manifest

/-- An integer of magnitude below `2 ^ 53` that is no negative zero. -/
def Number.Whole (number : Number) : Prop :=
  number.isFinite = true ∧ ∃ magnitude, magnitude < 2 ^ 53 ∧
    number.numerator = magnitude * number.denominator ∧ (number.negative = true → magnitude ≠ 0)

namespace Json
namespace Numeral

/-! ## Digits -/

/-- The value of a digit. -/
def digitValue (character : Char) : Nat := character.toNat - 48

theorem digits_of_all {text : List Char} (all : ∀ character ∈ text, character.isDigit = true) :
    digits text = (text.map digitValue, []) := by
  induction text with
  | nil => rfl
  | cons character rest ih =>
    rcases List.forall_mem_cons.mp all with ⟨digit, further⟩
    rw [digits, digit?, if_pos digit]
    dsimp only
    rw [ih further]
    rfl

theorem natural_map_digitValue (text : List Char) :
    natural (text.map digitValue) = Nat.ofDigitChars 10 text 0 := by
  rw [natural, List.foldl_map, Nat.ofDigitChars_eq_foldl]
  rfl

/-- Digits whose value fits 64 bits are all gathered. -/
theorem gather_of_fits {value : Nat} {digits : List Nat}
    (fits : digits.foldl (fun value digit => 10 * value + digit) value < Nat.pow 2 64) :
    gather value digits = (digits.foldl (fun value digit => 10 * value + digit) value, 0) := by
  have grows : ∀ (digits : List Nat) (value : Nat),
      value ≤ digits.foldl (fun value digit => 10 * value + digit) value := by
    intro digits
    induction digits with
    | nil => exact fun value => Nat.le_refl value
    | cons digit rest ih =>
      intro value
      exact Nat.le_trans (by omega) (ih (10 * value + digit))
  induction digits generalizing value with
  | nil => rfl
  | cons digit rest ih =>
    rw [List.foldl_cons] at fits
    rw [gather, if_pos (Nat.lt_of_le_of_lt (grows rest _) fits), ih fits]
    rfl

/-! ## The digits of a number -/

/-- Only zero begins with a zero. -/
theorem digitValue_head_ne_zero {magnitude : Nat} (positive : 0 < magnitude) {first : Char}
    {rest : List Char} (same : Nat.toDigits 10 magnitude = first :: rest) :
    digitValue first ≠ 0 := by
  induction magnitude using Nat.strong_induction_on generalizing rest with
  | _ magnitude ih =>
    rcases Nat.lt_or_ge magnitude 10 with single | several
    · rw [Nat.toDigits_of_lt_base single] at same
      cases same
      rw [digitValue, Nat.toNat_digitChar_sub_48_of_lt_ten single]
      exact positive.ne'
    · rw [Nat.toDigits_of_base_le (by decide) several] at same
      cases front : Nat.toDigits 10 (magnitude / 10) with
      | nil => exact absurd front Nat.toDigits_ne_nil
      | cons head tail =>
        rw [front] at same
        cases same
        exact ih (magnitude / 10) (by omega) (by omega) front

/-- The sign and the digits of a whole number. -/
def ofMagnitude (negative : Bool) (magnitude : Nat) : List Char :=
  (if negative then ['-'] else []) ++ Nat.toDigits 10 magnitude

theorem readUnsigned_toDigits (negative : Bool) (magnitude : Nat) :
    readUnsigned negative (Nat.toDigits 10 magnitude) =
      some ⟨negative, (Nat.toDigits 10 magnitude).map digitValue, [], none⟩ := by
  have all : ∀ character ∈ Nat.toDigits 10 magnitude, character.isDigit = true :=
    fun _ inside => Nat.isDigit_of_mem_toDigits (by decide) (by decide) inside
  rw [readUnsigned, digits_of_all all]
  split
  · rename_i empty
    exact absurd (List.map_eq_nil_iff.mp (congrArg Prod.fst empty)) Nat.toDigits_ne_nil
  · rename_i padded
    rcases List.map_eq_cons_iff.mp (congrArg Prod.fst padded) with ⟨first, rest, same, value, more⟩
    rcases Nat.eq_zero_or_pos magnitude with rfl | positive
    · cases same
      cases more
    · exact absurd value (digitValue_head_ne_zero positive same)
  · rename_i point
    cases congrArg Prod.snd point
  · rename_i whole
    cases whole
    rfl

theorem read_ofMagnitude (negative : Bool) (magnitude : Nat) :
    read (ofMagnitude negative magnitude) =
      some ⟨negative, (Nat.toDigits 10 magnitude).map digitValue, [], none⟩ := by
  cases negative with
  | true => exact readUnsigned_toDigits true magnitude
  | false =>
    rw [ofMagnitude, if_neg Bool.false_ne_true, List.nil_append, read]
    · exact readUnsigned_toDigits false magnitude
    · intro rest same
      have digit : '-' ∈ Nat.toDigits 10 magnitude := same ▸ List.mem_cons_self
      exact absurd (Nat.isDigit_of_mem_toDigits (by decide) (by decide) digit) (by decide)

/-- A whole number is read back from its sign and its digits. -/
theorem number?_ofMagnitude {number : Number} {magnitude : Nat}
    (whole : number.wholeMagnitude? = some magnitude) :
    number? ⟨number.negative, (Nat.toDigits 10 magnitude).map digitValue, [], none⟩ =
      some number := by
  rcases Number.wholeMagnitude?_eq_some_iff.mp whole with ⟨finite, _, small⟩
  have value : ((Nat.toDigits 10 magnitude).map digitValue).foldl
      (fun value digit => 10 * value + digit) 0 = magnitude :=
    (natural_map_digitValue _).trans Nat.ofDigitChars_ten_toDigits
  have fits : magnitude < Nat.pow 2 64 :=
    Nat.lt_trans small (Nat.pow_lt_pow_right (by decide) (by decide))
  have gathered := gather_of_fits (value.symm ▸ fits)
  rw [value] at gathered
  rw [number?]
  dsimp only
  rw [gathered]
  dsimp only [gather]
  rw [Number.ofDecimal_whole whole]
  have places :
      ((0 : Nat) : Int) - (([] : List Nat).length - 0 : Nat) + (none : Option Int).getD 0 = 0 := rfl
  rw [places, scale, if_neg (Int.lt_irrefl 0)]
  have one : Number.ofDecimal false (Nat.pow 10 (0 : Int).toNat) 0 = .ofDecimal false 1 0 := rfl
  split
  · rfl
  · rw [if_pos (by decide), one]
    dsimp only
    rw [Number.mul_ofDecimal_one, if_pos finite]

end Numeral

/-! ## The text of a whole number -/

/-- The text of a whole number is its sign and its digits. -/
theorem toList_numberText {number : Number} (whole : number.Whole) :
    ∃ magnitude, number.wholeMagnitude? = some magnitude ∧
      (numberText number).toList = Numeral.ofMagnitude number.negative magnitude := by
  rcases whole with ⟨finite, magnitude, small, multiple, signed⟩
  have known := Number.wholeMagnitude?_eq_some_iff.mpr ⟨finite, multiple, small⟩
  refine ⟨magnitude, known, ?_⟩
  rw [numberText, if_pos finite, numeral, known]
  dsimp only
  rw [String.toList_append, Nat.toString_eq_ofList_toDigits, String.toList_ofList,
    Numeral.ofMagnitude]
  congr 1
  cases negative : number.negative with
  | false => rfl
  | true =>
    have nonzero : (magnitude != 0) = true := bne_iff_ne.mpr (signed negative)
    rw [nonzero]
    rfl

theorem read_numberText {number : Number} (whole : number.Whole) :
    (Numeral.read (numberText number).toList).bind Numeral.number? = some number := by
  rcases toList_numberText whole with ⟨magnitude, known, text⟩
  rw [text, Numeral.read_ofMagnitude]
  exact Numeral.number?_ofMagnitude known

end Json
end Manifest
