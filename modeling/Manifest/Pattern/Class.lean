import Manifest.Pattern.Escape

/-!
# Classes

A class in brackets is an expression over sets of characters.  Its items are
characters, ranges, escapes, named classes and classes within it; what stands
side by side is taken together.  Operators between such groups of items work
from left to right, and a circumflex in front of all complements the result.

Reading a class also measures how deeply it is nested.
-/

namespace Manifest
namespace Pattern

/-! ## Named classes -/

/-- The ranges of a named class, which holds characters of ASCII only. -/
def namedRanges? : String → Option (List (Nat × Nat))
  | "alnum" => some [(0x30, 0x39), (0x41, 0x5A), (0x61, 0x7A)]
  | "alpha" => some [(0x41, 0x5A), (0x61, 0x7A)]
  | "ascii" => some [(0x00, 0x7F)]
  | "blank" => some [(0x09, 0x09), (0x20, 0x20)]
  | "cntrl" => some [(0x00, 0x1F), (0x7F, 0x7F)]
  | "digit" => some [(0x30, 0x39)]
  | "graph" => some [(0x21, 0x7E)]
  | "lower" => some [(0x61, 0x7A)]
  | "print" => some [(0x20, 0x7E)]
  | "punct" => some [(0x21, 0x2F), (0x3A, 0x40), (0x5B, 0x60), (0x7B, 0x7E)]
  | "space" => some [(0x09, 0x0D), (0x20, 0x20)]
  | "upper" => some [(0x41, 0x5A)]
  | "word" => some [(0x30, 0x39), (0x41, 0x5A), (0x5F, 0x5F), (0x61, 0x7A)]
  | "xdigit" => some [(0x30, 0x39), (0x41, 0x46), (0x61, 0x66)]
  | _ => none

/-- Read a named class behind its first bracket, if there is one. -/
def readNamed? : List Char → Option (Text.CharSet × List Char)
  | ':' :: text => do
      let (negated, text) := match text with
        | '^' :: rest => (true, rest)
        | _ => (false, text)
      let name := text.takeWhile (· ≠ ':')
      match text.drop name.length with
      | ':' :: ']' :: rest =>
          let set := Text.CharSet.ofRanges (← namedRanges? (String.ofList name))
          return (if negated then set.complement else set, rest)
      | _ => none
  | _ => none

/-! ## Items -/

/-- Read one character or escape. -/
def readMember? : List Char → Option (Escape × List Char)
  | [] => none
  | '\\' :: rest => Escape.read? rest
  | character :: rest => some (.character character, rest)

/-- The set of a member that stands alone.  A condition on places has none. -/
def Escape.asSet? : Escape → Option Text.CharSet
  | character meant => some (.single meant)
  | anyOf set => some set
  | assertion _ => none

/-- Read a member or a range between two characters.  A hyphen in front of the
closing bracket or of another hyphen makes no range. -/
def readItem? (text : List Char) : Option (Text.CharSet × List Char) := do
  let (first, rest) ← readMember? text
  match rest with
  | '-' :: behind =>
      if behind.head? = some ']' || behind.head? = some '-' then
        return (← first.asSet?, rest)
      else
        let (second, rest) ← readMember? behind
        match first, second with
        | .character low, .character high =>
            guard (low ≤ high)
            return (.range low.toNat high.toNat, rest)
        | _, _ => none
  | _ => return (← first.asSet?, rest)

/-! ## Classes under way -/

/-- A set of characters, and how deeply its expression is nested. -/
structure NestedSet where
  set : Text.CharSet
  depth : Nat

/-- Items that are taken together. -/
structure Items where
  set : Text.CharSet
  count : Nat
  /-- The depth of the deepest item. -/
  deepest : Nat

namespace Items

def empty : Items := ⟨.empty, 0, 0⟩

def add (items : Items) (item : NestedSet) : Items :=
  ⟨items.set.union item.set, items.count + 1, max items.deepest item.depth⟩

/-- Several items lie one level deeper than they do alone. -/
def nested (items : Items) : NestedSet :=
  ⟨items.set, if items.count ≤ 1 then items.deepest else items.deepest + 1⟩

end Items

/-- An operation on sets of characters. -/
abbrev SetOperation := Text.CharSet → Text.CharSet → Text.CharSet

/-- A class that is being read. -/
structure OpenClass where
  negated : Bool
  /-- What stands in front of the latest operator, and that operator. -/
  left : Option (NestedSet × SetOperation)
  items : Items

namespace OpenClass

def add (current : OpenClass) (item : NestedSet) : OpenClass :=
  { current with items := current.items.add item }

/-- What has been read of a class. -/
def content (current : OpenClass) : NestedSet :=
  let right := current.items.nested
  match current.left with
  | none => right
  | some (left, operation) =>
      ⟨operation left.set right.set, max left.depth right.depth + 1⟩

/-- Go on behind an operator. -/
def operate (current : OpenClass) (operation : SetOperation) : OpenClass :=
  ⟨current.negated, some (current.content, operation), .empty⟩

/-- The set of a class that is complete. -/
def close (current : OpenClass) : NestedSet :=
  let content := current.content
  ⟨if current.negated then content.set.complement else content.set, content.depth + 1⟩

/-- Begin a class behind its opening bracket.  Hyphens that come first stand
for themselves, and so does a closing bracket that comes first. -/
def begin (text : List Char) : OpenClass × List Char :=
  let (negated, text) := match text with
    | '^' :: rest => (true, rest)
    | _ => (false, text)
  let member (character : Char) : NestedSet := ⟨.single character, 0⟩
  let hyphens := text.takeWhile (· = '-')
  match hyphens, text with
  | [], ']' :: rest => (⟨negated, none, Items.empty.add (member ']')⟩, rest)
  | _, _ =>
      (⟨negated, none, hyphens.foldl (fun items hyphen => items.add (member hyphen)) .empty⟩,
        text.drop hyphens.length)

end OpenClass

/-- Read a class, with the classes around it on a stack. -/
def readClasses : Nat → List OpenClass → OpenClass → List Char → Option (NestedSet × List Char)
  | 0, _, _, _ => none
  | fuel + 1, outer, inner, text =>
      match text with
      | [] => none
      | ']' :: rest =>
          match outer with
          | [] => some (inner.close, rest)
          | around :: outer => readClasses fuel outer (around.add inner.close) rest
      | '&' :: '&' :: rest => readClasses fuel outer (inner.operate .inter) rest
      | '-' :: '-' :: rest => readClasses fuel outer (inner.operate .diff) rest
      | '~' :: '~' :: rest => readClasses fuel outer (inner.operate .symmDiff) rest
      | '[' :: rest =>
          match readNamed? rest with
          | some (set, rest) => readClasses fuel outer (inner.add ⟨set, 0⟩) rest
          | none =>
              let (nested, rest) := OpenClass.begin rest
              readClasses fuel (inner :: outer) nested rest
      | _ => do
          let (set, rest) ← readItem? text
          readClasses fuel outer (inner.add ⟨set, 0⟩) rest

/-- Read a class behind its opening bracket.  Every step reads a character, so
the length of the text bounds their number. -/
def readClass? (text : List Char) : Option (NestedSet × List Char) :=
  let (outermost, rest) := OpenClass.begin text
  readClasses (rest.length + 1) [] outermost rest

end Pattern
end Manifest
