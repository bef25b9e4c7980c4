import Manifest.Number
import Mathlib.Data.Int.Log
import Mathlib.Data.Rat.Floor

/-!
# Rounding

Rounding takes a quotient of two integers to the nearest number.  What comes out
depends on the quotient alone and not on how it is written, and a quotient that
is a number already comes out as that number.
-/

namespace Manifest
namespace Number

variable {number : Number} {numerator denominator otherNumerator otherDenominator : Nat}

/-! ## The binary logarithm of a quotient -/

/-- Comparing products is comparing quotients. -/
theorem powerLe_iff {base : Nat} (positive : 0 < base) (power : Int)
    (divides : 0 < denominator) :
    powerLe base power numerator denominator = true ↔
      (base : ℚ) ^ power ≤ (numerator : ℚ) / denominator := by
  have bottom : (0 : ℚ) < denominator := by exact_mod_cast divides
  have scale : (0 : ℚ) < base := by exact_mod_cast positive
  rw [powerLe, decide_eq_true_iff, le_div_iff₀ bottom, Nat.pow_eq, Nat.pow_eq]
  cases power with
  | ofNat power =>
    rw [Int.ofNat_eq_natCast, Int.toNat_natCast, Int.toNat_neg_natCast, pow_zero, mul_one,
      zpow_natCast, mul_comm denominator]
    exact_mod_cast Iff.rfl
  | negSucc power =>
    rw [Int.toNat_negSucc, Int.neg_negSucc, Int.toNat_natCast, pow_zero, mul_one, zpow_negSucc,
      inv_mul_le_iff₀ (pow_pos scale _), mul_comm ((base : ℚ) ^ _)]
    exact_mod_cast Iff.rfl

theorem quotient_pos (top : 0 < numerator) (divides : 0 < denominator) :
    (0 : ℚ) < (numerator : ℚ) / denominator :=
  div_pos (by exact_mod_cast top) (by exact_mod_cast divides)

/-- The logarithm of a quotient is no less than one below the difference of the bit
lengths. -/
theorem sub_log2_le_log (top : 0 < numerator) (divides : 0 < denominator) :
    (numerator.log2 : Int) - denominator.log2 - 1 ≤
      Int.log 2 ((numerator : ℚ) / denominator) := by
  have bottom : (0 : ℚ) < denominator := by exact_mod_cast divides
  have two : (0 : ℚ) < 2 := two_pos
  rw [← Int.zpow_le_iff_le_log one_lt_two (quotient_pos top divides), le_div_iff₀ bottom]
  have above : (denominator : ℚ) ≤ 2 ^ ((denominator.log2 : Int) + 1) := by
    exact_mod_cast Nat.lt_log2_self.le
  have below : (2 : ℚ) ^ (numerator.log2 : Int) ≤ numerator := by
    exact_mod_cast Nat.log2_self_le top.ne'
  calc ((2 : ℕ) : ℚ) ^ ((numerator.log2 : Int) - denominator.log2 - 1) * denominator
      ≤ 2 ^ ((numerator.log2 : Int) - denominator.log2 - 1) *
          2 ^ ((denominator.log2 : Int) + 1) :=
        mul_le_mul_of_nonneg_left above (zpow_pos two _).le
    _ = 2 ^ (numerator.log2 : Int) := by
        rw [← zpow_add₀ two.ne']
        congr 1
        omega
    _ ≤ numerator := below

/-- The logarithm of a quotient is no more than the difference of the bit lengths. -/
theorem log_lt_sub_log2 (top : 0 < numerator) (divides : 0 < denominator) :
    Int.log 2 ((numerator : ℚ) / denominator) <
      (numerator.log2 : Int) - denominator.log2 + 1 := by
  have bottom : (0 : ℚ) < denominator := by exact_mod_cast divides
  have two : (0 : ℚ) < 2 := two_pos
  rw [← Int.lt_zpow_iff_log_lt one_lt_two (quotient_pos top divides), div_lt_iff₀ bottom]
  have above : (numerator : ℚ) < 2 ^ ((numerator.log2 : Int) + 1) := by
    exact_mod_cast Nat.lt_log2_self
  have below : (2 : ℚ) ^ (denominator.log2 : Int) ≤ denominator := by
    exact_mod_cast Nat.log2_self_le divides.ne'
  calc (numerator : ℚ)
      < 2 ^ ((numerator.log2 : Int) + 1) := above
    _ = 2 ^ ((numerator.log2 : Int) - denominator.log2 + 1) * 2 ^ (denominator.log2 : Int) := by
        rw [← zpow_add₀ two.ne']
        congr 1
        omega
    _ ≤ ((2 : ℕ) : ℚ) ^ ((numerator.log2 : Int) - denominator.log2 + 1) * denominator :=
        mul_le_mul_of_nonneg_left below (zpow_pos two _).le

/-- The bit lengths of a quotient and the one comparison behind them give its
logarithm. -/
theorem floorLog2_eq_log (top : 0 < numerator) (divides : 0 < denominator) :
    floorLog2 numerator denominator = Int.log 2 ((numerator : ℚ) / denominator) := by
  have least := sub_log2_le_log top divides
  have greatest := log_lt_sub_log2 top divides
  have decides := @powerLe_iff numerator _ _ two_pos ((numerator.log2 : Int) - denominator.log2)
    divides
  rw [Int.zpow_le_iff_le_log one_lt_two (quotient_pos top divides)] at decides
  rw [floorLog2]
  split <;> rename_i reached
  · have := decides.mp reached
    omega
  · have := mt decides.mpr reached
    omega

/-! ## Rounding a quotient -/

theorem roundQuotient_mul_left {factor : Nat} (positive : 0 < factor)
    (numerator denominator : Nat) :
    roundQuotient (factor * numerator) (factor * denominator) =
      roundQuotient numerator denominator := by
  have scaled : 2 * (factor * (numerator % denominator)) =
      factor * (2 * (numerator % denominator)) := by
    rw [Nat.mul_left_comm]
  rw [roundQuotient, roundQuotient, Nat.mul_div_mul_left _ _ positive, Nat.mul_mod_mul_left, scaled]
  simp only [Nat.mul_lt_mul_left positive]

/-- Rounding depends on the quotient alone. -/
theorem roundQuotient_congr (divides : 0 < denominator) (otherDivides : 0 < otherDenominator)
    (same : numerator * otherDenominator = otherNumerator * denominator) :
    roundQuotient numerator denominator = roundQuotient otherNumerator otherDenominator := by
  rw [← roundQuotient_mul_left otherDivides, mul_comm otherDenominator numerator, same,
    mul_comm otherNumerator, mul_comm otherDenominator, roundQuotient_mul_left divides]

theorem roundQuotient_of_multiple (divides : 0 < denominator) (quotient : Nat) :
    roundQuotient (quotient * denominator) denominator = quotient := by
  rw [roundQuotient, Nat.mul_div_cancel _ divides, Nat.mul_mod_left]
  exact if_pos divides

theorem nearestRank_zero : nearestRank 0 denominator = 0 :=
  if_pos rfl

/-- The rank of the nearest magnitude depends on the quotient alone. -/
theorem nearestRank_congr (divides : 0 < denominator) (otherDivides : 0 < otherDenominator)
    (same : numerator * otherDenominator = otherNumerator * denominator) :
    nearestRank numerator denominator = nearestRank otherNumerator otherDenominator := by
  rcases Nat.eq_zero_or_pos numerator with rfl | top
  · rw [zero_mul] at same
    rcases Nat.mul_eq_zero.mp same.symm with rfl | none
    · rw [nearestRank_zero, nearestRank_zero]
    · exact absurd none divides.ne'
  · have otherTop : 0 < otherNumerator := by
      refine Nat.pos_of_ne_zero ?_
      rintro rfl
      rw [zero_mul] at same
      exact absurd same (Nat.mul_pos top otherDivides).ne'
    have quotient : (numerator : ℚ) / denominator = otherNumerator / otherDenominator := by
      rw [div_eq_div_iff (by exact_mod_cast divides.ne') (by exact_mod_cast otherDivides.ne')]
      exact_mod_cast same
    rw [nearestRank, nearestRank, if_neg top.ne', if_neg otherTop.ne',
      floorLog2_eq_log top divides, floorLog2_eq_log otherTop otherDivides, quotient]
    generalize max (Int.log 2 ((otherNumerator : ℚ) / otherDenominator) - 52) (-1074) = unit
    have above : 0 < Nat.pow 2 unit.toNat := Nat.pow_pos two_pos
    refine congrArg _ (roundQuotient_congr (Nat.mul_pos divides above)
      (Nat.mul_pos otherDivides above) ?_)
    rw [mul_mul_mul_comm, same, mul_mul_mul_comm]

/-! ## Rounding a number -/

theorem denominator_pos (number : Number) : 0 < number.denominator :=
  Nat.pow_pos two_pos

/-- The quotient of a number is its significand scaled by its power of two. -/
theorem quotient_eq (number : Number) :
    (number.numerator : ℚ) / number.denominator = number.significand * 2 ^ number.exponent := by
  rw [numerator, denominator, Nat.pow_eq, Nat.pow_eq]
  cases number.exponent with
  | ofNat power =>
    rw [Int.ofNat_eq_natCast, Int.toNat_natCast, Int.toNat_neg_natCast, pow_zero, Nat.cast_one,
      div_one, zpow_natCast]
    push_cast
    rfl
  | negSucc power =>
    rw [Int.toNat_negSucc, Int.neg_negSucc, Int.toNat_natCast, pow_zero, mul_one, zpow_negSucc,
      div_eq_mul_inv]
    push_cast
    rfl

/-- A number whose significand is not shortened has the exponent that its
logarithm tells. -/
theorem log_quotient_of_normal (normal : binade ≤ number.rank) :
    Int.log 2 ((number.numerator : ℚ) / number.denominator) = number.exponent + 52 := by
  have significand : number.significand = binade + number.rank % binade :=
    if_neg (Nat.not_lt.mpr normal)
  have least : 2 ^ 52 ≤ number.significand := by
    rw [significand]
    exact Nat.le_add_right _ _
  have greatest : number.significand < 2 ^ 53 := by
    have short : number.rank % binade < binade := Nat.mod_lt _ (by decide)
    have sum : binade + binade = 2 ^ 53 := by decide
    omega
  have scale : (0 : ℚ) < 2 ^ number.exponent := zpow_pos two_pos _
  have positive : (0 : ℚ) < number.significand * 2 ^ number.exponent :=
    mul_pos (by exact_mod_cast Nat.lt_of_lt_of_le (by decide) least) scale
  rw [quotient_eq]
  refine le_antisymm (Int.lt_add_one_iff.mp ?_) ?_
  · rw [← Int.lt_zpow_iff_log_lt one_lt_two positive, add_assoc, add_comm, zpow_add₀ (by norm_num)]
    refine mul_lt_mul_of_pos_right ?_ scale
    exact_mod_cast greatest
  · rw [← Int.zpow_le_iff_le_log one_lt_two positive, add_comm, zpow_add₀ (by norm_num)]
    refine mul_le_mul_of_nonneg_right ?_ scale.le
    exact_mod_cast least

theorem exponent_of_subnormal (subnormal : number.rank < binade) : number.exponent = -1074 :=
  if_pos subnormal

theorem exponent_of_normal (normal : binade ≤ number.rank) :
    number.exponent = (number.rank / binade : Nat) - 1075 :=
  if_neg (Nat.not_lt.mpr normal)

/-- The unit in which a positive number is rounded is its own. -/
theorem unit_eq_exponent (positive : 0 < number.rank) :
    max (Int.log 2 ((number.numerator : ℚ) / number.denominator) - 52) (-1074) =
      number.exponent := by
  rcases Nat.lt_or_ge number.rank binade with subnormal | normal
  · have significand : number.significand = number.rank := if_pos subnormal
    have small : Int.log 2 ((number.numerator : ℚ) / number.denominator) < -1022 := by
      rw [quotient_eq, significand, exponent_of_subnormal subnormal,
        ← Int.lt_zpow_iff_log_lt one_lt_two (mul_pos (by exact_mod_cast positive)
          (zpow_pos two_pos _)), show (-1022 : Int) = 52 + -1074 from rfl, Nat.cast_ofNat,
        zpow_add₀ (by norm_num)]
      refine mul_lt_mul_of_pos_right ?_ (zpow_pos two_pos _)
      exact_mod_cast subnormal
    rw [exponent_of_subnormal subnormal]
    omega
  · have least : 1 ≤ number.rank / binade := (Nat.one_le_div_iff (by decide)).mpr normal
    rw [log_quotient_of_normal normal, exponent_of_normal normal]
    omega

/-- The ranks below a unit and the significand in that unit make up the rank. -/
theorem rank_eq (number : Number) :
    (number.exponent + 1074).toNat * binade + number.significand = number.rank := by
  rcases Nat.lt_or_ge number.rank binade with subnormal | normal
  · rw [exponent_of_subnormal subnormal, significand, if_pos subnormal]
    exact Nat.zero_add _
  · have least : 1 ≤ number.rank / binade := (Nat.one_le_div_iff (by decide)).mpr normal
    have units : ((number.rank / binade : Nat) - 1075 + 1074 : Int).toNat =
        number.rank / binade - 1 := by
      omega
    rw [exponent_of_normal normal, units, significand, if_neg (Nat.not_lt.mpr normal),
      ← Nat.add_assoc, ← Nat.succ_mul, Nat.succ_eq_add_one, Nat.sub_add_cancel least, mul_comm]
    exact Nat.div_add_mod _ _

/-- A number is the magnitude nearest to its own quotient. -/
theorem nearestRank_self (number : Number) :
    nearestRank number.numerator number.denominator = number.rank := by
  have divides := number.denominator_pos
  rcases Nat.eq_zero_or_pos number.rank with zero | positive
  · have none : number.numerator = 0 := by
      rw [numerator, significand, zero, if_pos (by decide), zero_mul]
    rw [none, nearestRank_zero, zero]
  · have top : 0 < number.numerator := by
      have unit : 0 < binade := by decide
      refine Nat.mul_pos ?_ (Nat.pow_pos two_pos)
      rw [significand]
      split <;> omega
    have scaled : number.numerator * Nat.pow 2 (-number.exponent).toNat =
        number.significand * (number.denominator * Nat.pow 2 number.exponent.toNat) := by
      rw [numerator, denominator, Nat.mul_assoc, Nat.mul_comm (Nat.pow 2 number.exponent.toNat)]
    rw [nearestRank, if_neg top.ne', floorLog2_eq_log top divides, unit_eq_exponent positive]
    have above : 0 < Nat.pow 2 number.exponent.toNat := Nat.pow_pos two_pos
    dsimp only
    rw [scaled, roundQuotient_of_multiple (Nat.mul_pos divides above), rank_eq]

/-- A quotient that is a number is rounded to that number. -/
theorem nearest_eq (divides : 0 < denominator)
    (same : numerator * number.denominator = number.numerator * denominator) :
    nearest number.negative numerator denominator = number := by
  rcases number with ⟨negative, rank, bounded⟩
  rw [nearest, mk.injEq, nearestRank_congr divides (denominator_pos _) same, nearestRank_self]
  exact ⟨rfl, Nat.min_eq_left bounded⟩

/-! ## Whole numbers -/

theorem wholeMagnitude?_eq_some_iff {magnitude : Nat} :
    number.wholeMagnitude? = some magnitude ↔ number.isFinite = true ∧
      number.numerator = magnitude * number.denominator ∧ magnitude < 2 ^ 53 := by
  have divides := number.denominator_pos
  rw [wholeMagnitude?]
  constructor
  · intro whole
    split at whole
    · rename_i checked
      simp only [Bool.and_eq_true, beq_iff_eq, decide_eq_true_eq] at checked
      cases whole
      exact ⟨checked.1.1, (Nat.div_mul_cancel (Nat.dvd_of_mod_eq_zero checked.1.2)).symm,
        checked.2⟩
    · cases whole
  · rintro ⟨finite, multiple, small⟩
    have quotient : number.numerator / number.denominator = magnitude := by
      rw [multiple, Nat.mul_div_cancel _ divides]
    have remainder : number.numerator % number.denominator = 0 := by
      rw [multiple, Nat.mul_mod_left]
    rw [finite, remainder, quotient, if_pos]
    exact decide_eq_true small

/-- A whole number is read back from its magnitude. -/
theorem ofDecimal_whole {magnitude : Nat} (whole : number.wholeMagnitude? = some magnitude) :
    ofDecimal number.negative magnitude 0 = number := by
  refine nearest_eq (by decide) ?_
  rw [(wholeMagnitude?_eq_some_iff.mp whole).2.1]
  exact (Nat.mul_one _).symm

/-- Multiplying by one changes nothing. -/
theorem mul_ofDecimal_one (number : Number) : number.mul (ofDecimal false 1 0) = number := by
  have one : (ofDecimal false 1 0).numerator = (ofDecimal false 1 0).denominator := by
    decide +kernel
  rw [mul, show (ofDecimal false 1 0).negative = false from rfl, Bool.bne_false, one]
  refine nearest_eq (Nat.mul_pos number.denominator_pos (denominator_pos _)) ?_
  rw [Nat.mul_assoc, Nat.mul_comm number.denominator]

end Number
end Manifest
