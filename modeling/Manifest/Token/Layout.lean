/-!
# Open levels

Indentation opens and closes levels.  A line at column `c` stands at level
`2 * c`.  The hyphen of a list item stands half a column deeper, at
`2 * c + 1`: so a list may begin in the column of the key that holds it, and
its items are still inside that key.
-/

namespace Manifest

/-- The levels that are open, innermost first.  The outermost level is zero
and stays open to the end. -/
abbrev Levels := List Nat

namespace Levels

/-- The level of a line. -/
def ofColumn (column : Nat) (hyphen : Bool) : Nat :=
  2 * column + hyphen.toNat

/-- The innermost open level. -/
def current : Levels → Nat
  | [] => 0
  | level :: _ => level

/-- Close every level that lies deeper than the given one, and count them. -/
def closeTo (level : Nat) : Levels → Nat × Levels
  | [] => (0, [])
  | top :: outer =>
      if level < top then
        let (closed, left) := closeTo level outer
        (closed + 1, left)
      else (0, top :: outer)

/-- How a line stands to the open levels. -/
inductive Move where
  /-- It opens a level of its own. -/
  | deeper (levels : Levels)
  /-- It continues the innermost level. -/
  | level
  /-- It returns to an outer level and closes some. -/
  | outward (closed : Nat) (levels : Levels)
  /-- It lies between two open levels. -/
  | misfit

/-- Where a line at the given level leads. -/
def move (levels : Levels) (level : Nat) : Move :=
  if levels.current < level then .deeper (level :: levels)
  else if level < levels.current then
    let (closed, left) := levels.closeTo level
    if left.current < level then .misfit else .outward closed left
  else .level

end Levels
end Manifest
