import Manifest.Pattern
import Manifest.Text.Encoding

/-!
# Size of patterns

A pattern stands for two automata over bytes, one that reads a text forwards
and one that reads it backwards.  A pattern is refused when one of them takes
more than ten mebibytes, so the memory is counted: every state has its share,
and a state may have ranges of bytes or branches besides.
-/

namespace Manifest
namespace Pattern

inductive Direction where
  | forward
  | backward
deriving DecidableEq

/-- The memory of a state. -/
def stateBytes : Nat := 32

/-- The memory of a range of bytes that leads on from a state. -/
def rangeBytes : Nat := 8

/-- The memory of a branch that leads on from a state. -/
def branchBytes : Nat := 4

/-! ## Sets of characters -/

/-- The memory of an automaton for a set beyond ASCII.  Forwards, the ways to
go on from a state are its ranges.  Backwards, every step is a state, and all
sequences branch off at the end. -/
def sequencesSize (direction : Direction) (sequences : List Text.ByteRanges) : Nat :=
  let steps := Text.steps [] sequences
  match direction with
  | .forward => (2 + steps - sequences.length) * stateBytes + steps * rangeBytes
  | .backward => (2 + steps) * stateBytes + sequences.length * branchBytes

/-- The memory for one character of a set.  The bytes of a single character
have a state each. -/
def setSize (direction : Direction) (set : Text.CharSet) : Nat :=
  let ranges := set.ranges
  let plain := 2 * stateBytes + ranges.length * rangeBytes
  match ranges with
  | [] => plain
  | (low, high) :: rest =>
      if rest.isEmpty && low = high then Text.encodedLength low * stateBytes
      else if ranges.all fun (_, high) => high ≤ 0x7F then plain
      else
        sequencesSize direction (ranges.flatMap fun (low, high) => Text.byteSequences low high)

/-! ## Patterns -/

/-- Whether a match may read nothing. -/
def mayReadNothing : Pattern → Bool
  | empty | assertion _ => true
  | one _ => false
  | group inner => inner.mayReadNothing
  | sequence first second => first.mayReadNothing && second.mayReadNothing
  | either left right => left.mayReadNothing || right.mayReadNothing
  | times inner least _ => least = 0 || inner.mayReadNothing

/-- The share of a pattern of a given size as one of several.  All alternatives
have the state where they part and the state where they meet in common. -/
def branchSize (size : Nat) : Pattern → Nat
  | either _ _ => size - 2 * stateBytes
  | _ => size + branchBytes

/-- The memory of any number of repetitions from a least one on. -/
def openSize (inner least : Nat) (mayReadNothing : Bool) : Nat :=
  if least = 0 && mayReadNothing then inner + 3 * stateBytes + 4 * branchBytes
  else max least 1 * inner + stateBytes + 2 * branchBytes

/-- The memory of repetitions between two bounds: those that are required, and
those that may be skipped. -/
def boundedSize (inner least most : Nat) : Nat :=
  let skippable := (most - least) * (inner + stateBytes + 2 * branchBytes)
  if least = most then least * inner
  else if least = 0 && most = 1 then skippable + stateBytes
  else max (least * inner) stateBytes + skippable + stateBytes

/-- The memory of a part of an automaton. -/
def size (direction : Direction) : Pattern → Nat
  | empty | assertion _ => stateBytes
  | one set => setSize direction set
  | group inner =>
      inner.size direction + if direction = .forward then 2 * stateBytes else 0
  | sequence first second => first.size direction + second.size direction
  | either left right =>
      2 * stateBytes + branchSize (left.size direction) left +
        branchSize (right.size direction) right
  | times inner least none => openSize (inner.size direction) least inner.mayReadNothing
  | times inner least (some most) => boundedSize (inner.size direction) least most

/-- The memory of a whole automaton.  In front of the pattern it passes over
any bytes, behind it there is a final state, and forwards the match is marked. -/
def automatonSize (direction : Direction) (pattern : Pattern) : Nat :=
  4 * stateBytes + rangeBytes + 2 * branchBytes + (group pattern).size direction

/-- The greatest size of an automaton. -/
def sizeLimit : Nat := 10485760

/-- Whether both automata keep to the limit. -/
def isWithinLimit (pattern : Pattern) : Bool :=
  pattern.automatonSize .forward ≤ sizeLimit && pattern.automatonSize .backward ≤ sizeLimit

end Pattern
end Manifest
