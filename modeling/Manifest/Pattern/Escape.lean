import Manifest.Pattern
import Manifest.Text.Blank
import Manifest.Text.Digit

/-!
# Escapes

Behind a backslash a letter has a meaning of its own, and what is neither a
letter nor a digit stands for itself.  Only the characters of ASCII can be
escaped.
-/

namespace Manifest
namespace Pattern

/-- What an escape stands for. -/
inductive Escape where
  | character (meant : Char)
  | anyOf (set : Text.CharSet)
  | assertion (condition : Assertion)

namespace Escape

/-! ## Codes -/

/-- The character of a code in hexadecimal digits. -/
def ofCode? (digits : List Char) : Option Char := do
  let digits ← digits.mapM Text.hexDigit?
  let code := digits.foldl (fun value digit => 16 * value + digit) 0
  if !digits.isEmpty && code.isValidChar then some (Char.ofNat code) else none

/-- Read a code that has a number of digits or stands in braces. -/
def readCode? (digits : Nat) : List Char → Option (Escape × List Char)
  | '\x7b' :: rest => do
      let inside := rest.takeWhile (· ≠ '\x7d')
      guard (inside.length < rest.length)
      return (character (← ofCode? inside), rest.drop (inside.length + 1))
  | text => do
      guard (digits ≤ text.length)
      return (character (← ofCode? (text.take digits)), text.drop digits)

/-! ## Boundaries of words -/

def boundaryNamed? : String → Option Assertion
  | "start" => some .wordStart
  | "end" => some .wordEnd
  | "start-half" => some .wordStartHalf
  | "end-half" => some .wordEndHalf
  | _ => none

/-- Read what may follow the letter of a boundary: a name in braces.  Braces
around anything but a name are no part of it. -/
def readBoundary? : List Char → Option (Escape × List Char)
  | '\x7b' :: letter :: rest =>
      let inName (character : Char) := character.isAlpha || character == '-'
      if inName letter then do
        let name := letter :: rest.takeWhile inName
        match rest.dropWhile inName with
        | '\x7d' :: rest => return (assertion (← boundaryNamed? (String.ofList name)), rest)
        | _ => none
      else some (assertion .wordBoundary, '\x7b' :: letter :: rest)
  | ['\x7b'] => none
  | text => some (assertion .wordBoundary, text)

/-! ## Single characters -/

/-- The meaning of a single character behind a backslash. -/
def ofCharacter? : Char → Option Escape
  | 'd' => some (anyOf Text.digitSet)
  | 'D' => some (anyOf Text.digitSet.complement)
  | 's' => some (anyOf Text.blankSet)
  | 'S' => some (anyOf Text.blankSet.complement)
  | 'w' => some (anyOf Text.wordSet)
  | 'W' => some (anyOf Text.wordSet.complement)
  | 'a' => some (character '\x07')
  | 'f' => some (character '\x0c')
  | 'n' => some (character '\n')
  | 'r' => some (character '\r')
  | 't' => some (character '\t')
  | 'v' => some (character '\x0b')
  | 'A' => some (assertion .textStart)
  | 'z' => some (assertion .textEnd)
  | 'B' => some (assertion .noWordBoundary)
  | '<' => some (assertion .wordStart)
  | '>' => some (assertion .wordEnd)
  | other =>
      if other.toNat ≤ 0x7F && !other.isAlphanum then some (character other) else none

/-- Read an escape behind its backslash. -/
def read? : List Char → Option (Escape × List Char)
  | [] => none
  | 'x' :: rest => readCode? 2 rest
  | 'u' :: rest => readCode? 4 rest
  | 'U' :: rest => readCode? 8 rest
  | 'b' :: rest => readBoundary? rest
  | letter :: rest => (ofCharacter? letter).map fun escape => (escape, rest)

end Escape
end Pattern
end Manifest
