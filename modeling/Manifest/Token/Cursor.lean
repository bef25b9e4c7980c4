import Manifest.Position
import Manifest.Text.Blank

/-!
# Reading a source

A cursor holds the text that has not been read and the place where it starts.
It moves forward only, by whole characters, so the text left is all that can
bound a reading.
-/

namespace Manifest

/-- A place in a source together with the text behind it. -/
structure Cursor where
  rest : List Char
  /-- How many characters are left. -/
  left : Nat
  left_eq : left = rest.length
  place : Position
  /-- Nothing but gaps stands before the place on its line. -/
  fresh : Bool

namespace Cursor

/-- The beginning of a source. -/
def ofText (text : List Char) : Cursor := ⟨text, text.length, rfl, .start, true⟩

/-- Read a number of characters. -/
def advance (cursor : Cursor) (count : Nat) : Cursor where
  rest := cursor.rest.drop count
  left := cursor.left - count
  left_eq := by rw [cursor.left_eq, List.length_drop]
  place := cursor.place.afterAll (cursor.rest.take count)
  fresh := (cursor.rest.take count).foldl
    (fun fresh character => character == '\n' || fresh && Text.isGap character) cursor.fresh

/-- Read the characters up to the first that fails a test. -/
def skipWhile (test : Char → Bool) (cursor : Cursor) : Cursor :=
  cursor.advance (cursor.rest.takeWhile test).length

/-- Read the gap in front of the cursor. -/
def skipGap (cursor : Cursor) : Cursor :=
  cursor.skipWhile Text.isGap

/-- The unread part of the line. -/
def line (cursor : Cursor) : List Char :=
  Text.line cursor.rest

/-- The text between a cursor and a later one. -/
def textTo (start stop : Cursor) : List Char :=
  start.rest.take (start.left - stop.left)

def offset (cursor : Cursor) : Nat := cursor.place.offset

def column (cursor : Cursor) : Nat := cursor.place.column

/-- A hyphen in front of a list item: first on its line, with a gap or the end
of the line behind it. -/
def atListHyphen (cursor : Cursor) : Bool :=
  cursor.fresh &&
    match cursor.rest with
    | '-' :: next :: _ => Text.isGap next || next == '\n'
    | _ => false

theorem left_advance (cursor : Cursor) (count : Nat) :
    (cursor.advance count).left = cursor.left - count := rfl

theorem left_skipWhile_le (test : Char → Bool) (cursor : Cursor) :
    (cursor.skipWhile test).left ≤ cursor.left :=
  Nat.sub_le _ _

theorem left_pos_of_rest_eq {cursor : Cursor} {first : Char} {behind : List Char}
    (found : cursor.rest = first :: behind) : 0 < cursor.left := by
  simp [cursor.left_eq, found]

/-- Move from the beginning of a line to the next content, over empty lines
and lines that hold only a comment. -/
def toContent (cursor : Cursor) : Cursor :=
  match _found : cursor.skipGap.rest with
  | '\n' :: _ => (cursor.skipGap.advance 1).toContent
  | '#' :: _ => ((cursor.skipGap.advance 1).skipWhile (· ≠ '\n') |>.advance 1).toContent
  | _ => cursor.skipGap
termination_by cursor.left
decreasing_by
  all_goals
    have skipped : cursor.skipGap.left ≤ cursor.left := left_skipWhile_le Text.isGap cursor
    have some := left_pos_of_rest_eq _found
  · rw [left_advance]
    omega
  · have behind := left_skipWhile_le (fun character => decide (character ≠ '\n'))
      (cursor.skipGap.advance 1)
    simp only [left_advance] at behind ⊢
    omega

end Cursor
end Manifest
