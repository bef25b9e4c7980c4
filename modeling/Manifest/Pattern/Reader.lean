import Manifest.Pattern.Class
import Manifest.Pattern.Engine
import Manifest.Pattern.Size

/-!
# Reading patterns

The groups that are still open lie on a stack.  A text is no pattern when a
group or class is not closed, when a repetition has nothing to repeat, when a
range or a count runs backwards, when an escape means nothing, or when it is
nested too deeply.  A pattern may also be too large.
-/

namespace Manifest
namespace Pattern

/-! ## Parts -/

/-- A part of a pattern, and how deeply it is nested. -/
structure Part where
  pattern : Pattern
  depth : Nat

namespace Part

/-- The depth of what holds several parts. -/
def depthAround (parts : List Part) : Nat :=
  parts.foldl (fun deepest part => max deepest part.depth) 0 + 1

/-- Parts one after another. -/
def inSequence : List Part → Part
  | [] => ⟨empty, 0⟩
  | [part] => part
  | parts =>
      ⟨parts.foldr (fun part later => part.pattern.followedBy later) empty, depthAround parts⟩

/-- One of several parts. -/
def choice : List Part → Part
  | [] => ⟨empty, 0⟩
  | [part] => part
  | first :: rest => ⟨first.pattern.anyOf (rest.map pattern), depthAround (first :: rest)⟩

end Part

/-! ## Groups -/

/-- A group that is being read. -/
structure OpenGroup where
  /-- Whether the match of the group is marked. -/
  marked : Bool
  /-- Alternatives that are finished, latest first. -/
  branches : List Part
  /-- Parts of the alternative under way, latest first. -/
  parts : List Part

namespace OpenGroup

def begin (marked : Bool) : OpenGroup := ⟨marked, [], []⟩

def add (group : OpenGroup) (part : Part) : OpenGroup :=
  { group with parts := part :: group.parts }

/-- The alternative under way. -/
def branch (group : OpenGroup) : Part := .inSequence group.parts.reverse

/-- Begin the next alternative. -/
def split (group : OpenGroup) : OpenGroup :=
  { group with branches := group.branch :: group.branches, parts := [] }

/-- What has been read of a group. -/
def content (group : OpenGroup) : Part := .choice (group.branch :: group.branches).reverse

/-- The part that a complete group makes up. -/
def close (group : OpenGroup) : Part :=
  let content := group.content
  ⟨if group.marked then .group content.pattern else content.pattern, content.depth + 1⟩

/-- Repeat the latest part. -/
def repeat? (group : OpenGroup) (least : Nat) (most : Option Nat) : Option OpenGroup :=
  match group.parts with
  | [] => none
  | part :: earlier =>
      let repeated : Part := ⟨part.pattern.repeated least most, part.depth + 1⟩
      some { group with parts := repeated :: earlier }

end OpenGroup

/-! ## Names -/

/-- Whether a text can name a group. -/
def isName : List Char → Bool
  | [] => false
  | first :: rest =>
      let isLetter (character : Char) :=
        Text.wordSet.contains character && !Text.isDigit character || character == '_'
      isLetter first && rest.all fun character =>
        isLetter character || Text.isDigit character || ".[]".toList.contains character

/-- What stands behind the parenthesis that opens a group. -/
structure Opening where
  marked : Bool
  name : Option (List Char)

/-- Read a name up to its closing bracket. -/
def readName? (text : List Char) : Option (Opening × List Char) := do
  let name := text.takeWhile (· ≠ '>')
  guard (name.length < text.length && isName name)
  return (⟨true, some name⟩, text.drop (name.length + 1))

/-- Read what tells the kind of a group. -/
def readOpening? : List Char → Option (Opening × List Char)
  | '?' :: ':' :: rest => some (⟨false, none⟩, rest)
  | '?' :: '<' :: rest | '?' :: 'P' :: '<' :: rest => readName? rest
  | '?' :: _ => none
  | rest => some (⟨true, none⟩, rest)

/-! ## Counts -/

/-- The greatest count that can be written. -/
def greatestCount : Nat := 0xFFFFFFFF

/-- Read a count, which blanks may surround. -/
def readCount? (text : List Char) : Option (Nat × List Char) := do
  let text := Text.trimStart text
  let digits := text.takeWhile Char.isDigit
  let count := digits.foldl (fun value digit => 10 * value + (digit.toNat - 48)) 0
  guard (!digits.isEmpty && count ≤ greatestCount)
  return (count, Text.trimStart (text.drop digits.length))

/-- Read the bounds of a repetition behind its opening brace. -/
def readBounds? (text : List Char) : Option (Nat × Option Nat × List Char) := do
  match ← readCount? text with
  | (least, '\x7d' :: rest) => return (least, some least, rest)
  | (least, ',' :: '\x7d' :: rest) => return (least, none, rest)
  | (least, ',' :: behind) =>
      match ← readCount? behind with
      | (most, '\x7d' :: rest) =>
          guard (least ≤ most)
          return (least, some most, rest)
      | _ => none
  | _ => none

/-- A question mark behind a repetition only changes which match is preferred. -/
def skipLazy : List Char → List Char
  | '?' :: rest => rest
  | text => text

/-! ## Patterns -/

/-- The part that an escape makes up. -/
def Escape.part : Escape → Part
  | character meant => ⟨one (.single meant), 0⟩
  | anyOf set => ⟨one set, 0⟩
  | assertion condition => ⟨.assertion condition, 0⟩

/-- Read the rest of a pattern with the names that are in use and the groups
around the innermost one. -/
def readGroups : Nat → (names : List (List Char)) → (outer : List OpenGroup) → OpenGroup →
    List Char → Option Part
  | 0, _, _, _, _ => none
  | fuel + 1, names, outer, inner, text =>
      let add (part : Part) (rest : List Char) : Option Part :=
        readGroups fuel names outer (inner.add part) rest
      let again (least : Nat) (most : Option Nat) (rest : List Char) : Option Part := do
        readGroups fuel names outer (← inner.repeat? least most) (skipLazy rest)
      match text with
      | [] => if outer.isEmpty then some inner.content else none
      | '(' :: rest => do
          let (opening, rest) ← readOpening? rest
          guard (!opening.name.any names.contains)
          readGroups fuel (opening.name.toList ++ names) (inner :: outer) (.begin opening.marked)
            rest
      | ')' :: rest =>
          match outer with
          | [] => none
          | around :: outer => readGroups fuel names outer (around.add inner.close) rest
      | '|' :: rest => readGroups fuel names outer inner.split rest
      | '*' :: rest => again 0 none rest
      | '+' :: rest => again 1 none rest
      | '?' :: rest => again 0 (some 1) rest
      | '\x7b' :: rest => do
          let (least, most, rest) ← readBounds? rest
          again least most rest
      | '[' :: rest => do
          let (nested, rest) ← readClass? rest
          add ⟨one nested.set, nested.depth⟩ rest
      | '.' :: rest => add ⟨one (Text.CharSet.single '\n').complement, 0⟩ rest
      | '^' :: rest => add ⟨assertion .textStart, 0⟩ rest
      | '$' :: rest => add ⟨assertion .textEnd, 0⟩ rest
      | '\\' :: rest => do
          let (escape, rest) ← Escape.read? rest
          add escape.part rest
      | character :: rest => add ⟨one (.single character), 0⟩ rest

/-- The greatest depth of nesting. -/
def depthLimit : Nat := 250

/-- Why a text is refused as a pattern. -/
inductive Error where
  | malformed
  | tooLarge
deriving DecidableEq

/-- Read a pattern.  Every step reads a character, so the length of the text
bounds their number. -/
def read (text : String) : Except Error Pattern :=
  match readGroups (text.toList.length + 1) [] [] (.begin false) text.toList with
  | none => .error .malformed
  | some part =>
      if depthLimit < part.depth then .error .malformed
      else if part.pattern.isWithinLimit then .ok part.pattern
      else .error .tooLarge

def Error.refusal : Error → Refusal
  | malformed => ⟨none⟩
  | tooLarge => ⟨some ("Compiled regex exceeds size limit of " ++ toString sizeLimit ++ " bytes.")⟩

/-- The engine that reads patterns by these rules.  It knows no flags within a
pattern and no classes that are named by a property of Unicode. -/
instance : Engine where
  compile text :=
    match read text with
    | .error error => .error error.refusal
    | .ok pattern => .ok pattern.occursIn

end Pattern
end Manifest
