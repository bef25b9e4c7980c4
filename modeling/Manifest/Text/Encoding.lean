import Manifest.Text.CharSet

/-!
# Encodings of ranges

In UTF-8 a character takes one to four bytes.  The encodings of a range of
characters fall into sequences of byte ranges: a sequence stands for all ways
to take one byte out of each of its ranges.  Every byte but the first carries
one of 64 values, and the sequences are as few as can be without overlap.
-/

namespace Manifest
namespace Text

/-- For every byte of an encoding, the first and the last value it may have. -/
abbrev ByteRanges := List (Nat × Nat)

/-- Put a byte that has only one value in front of sequences. -/
def withLead (lead : Nat) (sequences : List ByteRanges) : List ByteRanges :=
  sequences.map fun sequence => (lead, lead) :: sequence

/-- The sequences for a range of numbers that are written with a leading digit
and a number of further digits to the base 64. -/
def digitSequences : (further : Nat) → (low high : Nat) → List ByteRanges
  | 0, low, high => [[(low, high)]]
  | further + 1, low, high =>
      let unit := Nat.pow 64 (further + 1)
      let lowLead := low / unit
      let highLead := high / unit
      if lowLead = highLead then
        withLead lowLead (digitSequences further (low % unit) (high % unit))
      else
        let fromStart := low % unit = 0
        let toEnd := high % unit = unit - 1
        let start := if fromStart then []
          else withLead lowLead (digitSequences further (low % unit) (unit - 1))
        let finish := if toEnd then []
          else withLead highLead (digitSequences further 0 (high % unit))
        let first := if fromStart then lowLead else lowLead + 1
        let last := if toEnd then highLead else highLead - 1
        let between := if first ≤ last then [(first, last) :: List.replicate (further + 1) (0, 63)]
          else []
        start ++ between ++ finish

/-- The characters whose encodings have one length. -/
structure EncodingForm where
  /-- How many bytes follow the first. -/
  further : Nat
  low : Nat
  high : Nat
  /-- What marks the first byte. -/
  mark : Nat

/-- The forms in ascending order.  No character stands for half of a pair. -/
def encodingForms : List EncodingForm := [
  ⟨0, 0, 0x7F, 0⟩, ⟨1, 0x80, 0x7FF, 0xC0⟩, ⟨2, 0x800, 0xD7FF, 0xE0⟩, ⟨2, 0xE000, 0xFFFF, 0xE0⟩,
  ⟨3, 0x10000, 0x10FFFF, 0xF0⟩]

/-- Mark the first byte of a sequence. -/
def marked (mark : Nat) : ByteRanges → ByteRanges
  | [] => []
  | (low, high) :: rest => (mark + low, mark + high) :: rest

/-- The sequences for a range of characters, in ascending order. -/
def byteSequences (low high : Nat) : List ByteRanges :=
  encodingForms.flatMap fun form =>
    let low := max low form.low
    let high := min high form.high
    if low ≤ high then (digitSequences form.further low high).map (marked form.mark) else []

/-- How many ranges two sequences share at their beginnings. -/
def shared : ByteRanges → ByteRanges → Nat
  | first :: firsts, second :: seconds => if first = second then shared firsts seconds + 1 else 0
  | _, _ => 0

/-- How many steps the sequences that follow another one take.  A step is taken
once for sequences that begin in the same way. -/
def steps : ByteRanges → List ByteRanges → Nat
  | _, [] => 0
  | previous, sequence :: rest =>
      sequence.length - shared previous sequence + steps sequence rest

/-- How many bytes the encoding of a character takes. -/
def encodedLength (code : Nat) : Nat :=
  if code ≤ 0x7F then 1 else if code ≤ 0x7FF then 2 else if code ≤ 0xFFFF then 3 else 4

end Text
end Manifest
