import Manifest.Text.CharSet

/-!
# Digits

A run of decimal digits is recognized in every script, although only the
digits of ASCII denote a number.  The digits of each script stand together in
blocks of ten, so the table lists where a block starts.  Hexadecimal digits
are those of ASCII.
-/

namespace Manifest
namespace Text

/-- The digit zero of every block. -/
def digitZeros : List Nat := [
  0x0030, 0x0660, 0x06F0, 0x07C0, 0x0966, 0x09E6, 0x0A66, 0x0AE6, 0x0B66, 0x0BE6, 0x0C66, 0x0CE6,
  0x0D66, 0x0DE6, 0x0E50, 0x0ED0, 0x0F20, 0x1040, 0x1090, 0x17E0, 0x1810, 0x1946, 0x19D0, 0x1A80,
  0x1A90, 0x1B50, 0x1BB0, 0x1C40, 0x1C50, 0xA620, 0xA8D0, 0xA900, 0xA9D0, 0xA9F0, 0xAA50, 0xABF0,
  0xFF10, 0x104A0, 0x10D30, 0x10D40, 0x11066, 0x110F0, 0x11136, 0x111D0, 0x112F0, 0x11450, 0x114D0,
  0x11650, 0x116C0, 0x116D0, 0x116DA, 0x11730, 0x118E0, 0x11950, 0x11BF0, 0x11C50, 0x11D50,
  0x11DA0, 0x11F50, 0x16130, 0x16A60, 0x16AC0, 0x16B50, 0x16D70, 0x1CCF0, 0x1D7CE, 0x1D7D8,
  0x1D7E2, 0x1D7EC, 0x1D7F6, 0x1E140, 0x1E2F0, 0x1E4F0, 0x1E5F1, 0x1E950, 0x1FBF0]

/-- The decimal digits of all scripts. -/
def digitSet : CharSet := .ofRanges (digitZeros.map fun first => (first, first + 9))

/-- A decimal digit of any script. -/
def isDigit (character : Char) : Bool :=
  digitZeros.any fun first => first ≤ character.toNat && character.toNat < first + 10

/-- The value of a hexadecimal digit. -/
def hexDigit? (character : Char) : Option Nat :=
  let code := character.toNat
  if 48 ≤ code && code ≤ 57 then some (code - 48)
  else if 97 ≤ code && code ≤ 102 then some (code - 87)
  else if 65 ≤ code && code ≤ 70 then some (code - 55)
  else none

theorem isDigit_of_ascii {character : Char} (ascii : character.isDigit = true) :
    isDigit character = true := by
  simp only [Char.isDigit, Bool.and_eq_true, decide_eq_true_eq] at ascii
  have low : 0x0030 ≤ character.toNat := ascii.1
  have high : character.toNat ≤ 0x0039 := ascii.2
  refine List.any_eq_true.mpr ⟨0x0030, by simp [digitZeros], ?_⟩
  simp only [Bool.and_eq_true, decide_eq_true_eq]
  omega

end Text
end Manifest
