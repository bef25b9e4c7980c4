/-!
# Places in a text

Offsets count bytes of UTF-8 and columns count characters.  A place advances
one character at a time, so that the three numbers can never disagree.
-/

namespace Manifest

/-- A place in a text; lines and columns are counted from zero. -/
structure Position where
  line : Nat
  column : Nat
  /-- Bytes before the place. -/
  offset : Nat
deriving DecidableEq, Inhabited

namespace Position

/-- The beginning of every text. -/
def start : Position := ⟨0, 0, 0⟩

/-- The place behind a character. -/
def after (position : Position) (character : Char) : Position :=
  if character = '\n' then ⟨position.line + 1, 0, position.offset + character.utf8Size⟩
  else ⟨position.line, position.column + 1, position.offset + character.utf8Size⟩

theorem offset_after (position : Position) (character : Char) :
    (position.after character).offset = position.offset + character.utf8Size := by
  rw [after]
  split <;> rfl

/-- The place behind several characters. -/
def afterAll (position : Position) (text : List Char) : Position :=
  text.foldl after position

/-- Walk through a text as far as a byte offset allows. -/
def walk (position : Position) : List Char → Nat → Position
  | [], _ => position
  | character :: rest, offset =>
      if position.offset + character.utf8Size ≤ offset then
        walk (position.after character) rest offset
      else position

/-- The place of a byte offset in a text.  An offset beyond the text is at its end. -/
def locate (text : String) (offset : Nat) : Position :=
  walk start text.toList offset

end Position

/-- A range of byte offsets, the end excluded. -/
structure Span where
  start : Nat
  stop : Nat
deriving DecidableEq, Inhabited

end Manifest
