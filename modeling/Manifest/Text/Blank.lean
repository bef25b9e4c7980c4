import Manifest.Text.CharSet

/-!
# Blank characters

Trimming removes the characters with the White_Space property.  Indentation
and the gaps between tokens are a narrower matter: there only the space and
the tab are blank.
-/

namespace Manifest
namespace Text

/-- The ranges of the characters with the White_Space property. -/
def blankRanges : List (Nat × Nat) := [
  (0x0009, 0x000D), (0x0020, 0x0020), (0x0085, 0x0085), (0x00A0, 0x00A0), (0x1680, 0x1680),
  (0x2000, 0x200A), (0x2028, 0x2029), (0x202F, 0x202F), (0x205F, 0x205F), (0x3000, 0x3000)]

/-- The characters with the White_Space property. -/
def blankSet : CharSet := .ofRanges blankRanges

def isBlank (character : Char) : Bool :=
  blankRanges.any fun (low, high) => low ≤ character.toNat && character.toNat ≤ high

/-- The blanks that may stand within a line between tokens. -/
def isGap (character : Char) : Bool :=
  character == ' ' || character == '\t'

theorem isBlank_of_isGap {character : Char} (gap : isGap character = true) :
    isBlank character = true := by
  simp only [isGap, Bool.or_eq_true, beq_iff_eq] at gap
  rcases gap with rfl | rfl <;> decide

def trimStart (text : List Char) : List Char :=
  text.dropWhile isBlank

def trimEnd (text : List Char) : List Char :=
  (text.reverse.dropWhile isBlank).reverse

def trim (text : List Char) : List Char :=
  trimEnd (trimStart text)

/-- The characters up to the end of the line. -/
def line (text : List Char) : List Char :=
  text.takeWhile (· ≠ '\n')

end Text
end Manifest
