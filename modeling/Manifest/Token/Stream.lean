import Manifest.Token

/-!
# Token streams

A stream is a place in a token sequence.  The sequence is expected to finish
with the end of input, and reading there returns that token again and again
without moving.  A stream may look back, and go back, as far as the place
where it was created.

Distances and counts are machine words of 64 bits.  Places are no matter, as no
sequence in memory is so long that a word could not hold them, but a place and a
distance may be too much together, and so may the tokens that are to be taken.
-/

namespace Manifest

/-- A place in a token sequence. -/
structure Stream where
  tokens : Array Token
  /-- The place where the stream was created. -/
  origin : Nat
  position : Nat

namespace Stream

def ofTokens (tokens : List Token) : Stream := ⟨tokens.toArray, 0, 0⟩

/-- The place of the final token. -/
def last (stream : Stream) : Nat := stream.tokens.size - 1

/-- What an empty sequence reads as. -/
def endToken : Token := ⟨.endOfInput, 0, 0⟩

/-- Whether the sequence finishes with the end of input. -/
def endsWithEnd (stream : Stream) : Bool :=
  stream.tokens.back?.any fun token => token.lexeme == .endOfInput

/-- The token at a distance from the stream, forward or back.  Both directions
stop at the bounds of the stream.  `Word.peek` tells where the sum is a word. -/
def peek (stream : Stream) (distance : Int) : Token :=
  let index := min (max (stream.position + distance) stream.origin) stream.last
  stream.tokens[index.toNat]?.getD endToken

/-- The token under the stream. -/
def current (stream : Stream) : Token := stream.peek 0

def isAtEnd (stream : Stream) : Bool :=
  stream.current.lexeme == .endOfInput

/-- Read the token under the stream.  The final token stays under it. -/
def next (stream : Stream) : Token × Stream :=
  (stream.current,
    if stream.position < stream.last then { stream with position := stream.position + 1 }
    else stream)

/-- Go back over a number of tokens, but not behind the origin. -/
def backtrack? (stream : Stream) (count : Nat) : Option Stream :=
  if stream.position - stream.origin < count then none
  else some { stream with position := stream.position - count }

/-- Read tokens as long as they pass a test, at most so many, and never the
end of input. -/
def takeWhile (test : Lexeme → Bool) : Nat → Stream → List Token × Stream
  | 0, stream => ([], stream)
  | bound + 1, stream =>
      if !stream.isAtEnd && test stream.current.lexeme then
        let (token, moved) := stream.next
        let (taken, behind) := takeWhile test bound moved
        (token :: taken, behind)
      else ([], stream)

/-- Read tokens while a test holds. -/
def consumeWhile (stream : Stream) (test : Lexeme → Bool) : List Token × Stream :=
  takeWhile test stream.tokens.size stream

/-- Read a number of tokens, fewer in front of the end of input.  `Word.consume`
tells for which numbers there is room. -/
def consume (stream : Stream) (count : Nat) : List Token × Stream :=
  takeWhile (fun _ => true) count stream

/-- A stream of its own that begins here. -/
def range (stream : Stream) : Stream :=
  { stream with origin := stream.position }

/-! ## Machine words -/

/-- Why an operation halts. -/
inductive Halt where
  /-- A sum is no word. -/
  | overflow
  /-- No list is long enough. -/
  | capacity

/-- What becomes of a sum that is no word. -/
inductive Arithmetic where
  /-- It halts the program. -/
  | checked
  /-- It wraps round to the least words. -/
  | wrapping

namespace Word

/-- The first number that is too large for a word with a sign. -/
def bound : Nat := Nat.pow 2 63

/-- The first number of tokens for which no list has room: each is held by its
address of eight bytes, and no list takes so many bytes that a word with a sign
could not count them.  Memory is taken to suffice for any shorter list. -/
def room : Nat := bound / 8

/-- Look at the token at a distance.  A sum that wraps round is less by all words. -/
def peek (arithmetic : Arithmetic) (stream : Stream) (distance : Int64) : Except Halt Token :=
  if stream.position + distance.toInt < bound then .ok (stream.peek distance.toInt)
  else
    match arithmetic with
    | .checked => .error .overflow
    | .wrapping => .ok (stream.peek (distance.toInt - 2 * bound))

/-- Read a number of tokens, for all of which room is made before the first is read. -/
def consume (stream : Stream) (count : UInt64) : Except Halt (List Token × Stream) :=
  if count.toNat < room then .ok (stream.consume count.toNat) else .error .capacity

end Word
end Stream
end Manifest
