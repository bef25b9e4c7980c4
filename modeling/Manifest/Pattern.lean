import Manifest.Text.Word

/-!
# Patterns of text

A pattern is a regular expression.  Matching looks at all places of a text at
once: for every place it finds the lengths of the matches that begin there.
These lengths are the bits of a number.  Every part of a pattern is worked out
only once in this way, however deeply repetitions are nested.
-/

namespace Manifest

/-! ## Places -/

/-- A place in a text, by the characters on its two sides. -/
structure Place where
  before : Option Char
  after : Option Char

namespace Place

/-- The places of a text that follows a character, its end among them. -/
def behind : Option Char → List Char → List Place
  | before, [] => [⟨before, none⟩]
  | before, character :: rest => ⟨before, some character⟩ :: behind (some character) rest

/-- The places of a text, from its start to its end. -/
def ofText (text : List Char) : List Place := behind none text

def isWord (side : Option Char) : Bool := side.any Text.wordSet.contains

end Place

/-- A condition on a place. -/
inductive Assertion where
  | textStart
  | textEnd
  | wordBoundary
  | noWordBoundary
  | wordStart
  | wordEnd
  /-- No word goes on from before the place. -/
  | wordStartHalf
  /-- No word goes on behind the place. -/
  | wordEndHalf

/-- Whether a place meets a condition. -/
def Assertion.holds (place : Place) : Assertion → Bool
  | textStart => place.before.isNone
  | textEnd => place.after.isNone
  | wordBoundary => Place.isWord place.before != Place.isWord place.after
  | noWordBoundary => Place.isWord place.before == Place.isWord place.after
  | wordStart => !Place.isWord place.before && Place.isWord place.after
  | wordEnd => Place.isWord place.before && !Place.isWord place.after
  | wordStartHalf => !Place.isWord place.before
  | wordEndHalf => !Place.isWord place.after

/-! ## Spans -/

/-- For every place of a text, from its start to its end, the lengths of the
matches that begin there: there is a match of some length when the bit of that
place is set. -/
abbrev Spans := List Nat

namespace Spans

/-- The lengths of the matches that first have one of the given lengths and
then go on as the spans say.  The first of the spans is that of the place
itself. -/
def goOn : (lengths : Nat) → Spans → Nat
  | _, [] => 0
  | lengths, here :: later =>
      if lengths = 0 then 0
      else (if lengths % 2 = 1 then here else 0) ||| 2 * goOn (lengths / 2) later

/-- One match after another. -/
def followedBy : Spans → Spans → Spans
  | first :: firsts, here :: later => goOn first (here :: later) :: followedBy firsts later
  | _, _ => []

/-- One match or another. -/
def orElse (left right : Spans) : Spans := List.zipWith (· ||| ·) left right

/-- The match that reads nothing, at every place. -/
def nothing (places : List Place) : Spans := places.map fun _ => 1

/-- A number of matches one after another. -/
def repeated (places : List Place) (once : Spans) : Nat → Spans
  | 0 => nothing places
  | count + 1 => once.followedBy (repeated places once count)

/-- Any number of matches one after another.  A match that reads nothing adds
nothing, and every other one leads to a later place. -/
def anyNumber : Spans → Spans
  | [] => []
  | lengths :: rest =>
      let later := anyNumber rest
      (1 ||| 2 * goOn (lengths / 2) later) :: later

end Spans

/-! ## Patterns -/

inductive Pattern where
  | empty
  /-- One character of a set. -/
  | one (set : Text.CharSet)
  | assertion (condition : Assertion)
  /-- A pattern whose match is marked. -/
  | group (inner : Pattern)
  | sequence (first second : Pattern)
  | either (left right : Pattern)
  /-- At least so many times, and at most so many times if there is a bound. -/
  | times (inner : Pattern) (least : Nat) (most : Option Nat)

namespace Pattern

/-- The spans of a pattern.  More matches than there are places are of no use:
some of them would read nothing, and such a match may be left out or added. -/
def spans (places : List Place) : Pattern → Spans
  | empty => Spans.nothing places
  | one set => places.map fun place => if place.after.any set.contains then 2 else 0
  | assertion condition => places.map fun place => if condition.holds place then 1 else 0
  | group inner => inner.spans places
  | sequence first second => (first.spans places).followedBy (second.spans places)
  | either left right => (left.spans places).orElse (right.spans places)
  | times inner least most =>
      let once := inner.spans places
      let required := Spans.repeated places once (min least places.length)
      required.followedBy <|
        match most with
        | none => once.anyNumber
        | some most =>
            Spans.repeated places (once.orElse (Spans.nothing places))
              (min (most - least) places.length)

/-- Whether a text contains a match. -/
def occursIn (pattern : Pattern) (text : String) : Bool :=
  (pattern.spans (Place.ofText text.toList)).any fun lengths => lengths != 0

/-! ## Construction -/

/-- Whether every match reads nothing. -/
def readsNothing : Pattern → Bool
  | empty | assertion _ => true
  | one _ => false
  | group inner => inner.readsNothing
  | sequence first second => first.readsNothing && second.readsNothing
  | either left right => left.readsNothing && right.readsNothing
  | times inner _ most => inner.readsNothing || most == some 0

/-- One pattern and then another.  The empty one adds nothing. -/
def followedBy : Pattern → Pattern → Pattern
  | empty, second => second
  | first, empty => first
  | first, second => sequence first second

def asSet? : Pattern → Option Text.CharSet
  | one set => some set
  | _ => none

/-- One of several patterns. -/
def alternatives : Pattern → List Pattern → Pattern
  | first, [] => first
  | first, second :: rest => either first (alternatives second rest)

/-- One of several patterns, which are joined if all of them are sets of
characters. -/
def anyOf (first : Pattern) (rest : List Pattern) : Pattern :=
  match first.asSet?, rest.mapM asSet? with
  | some set, some sets => one (sets.foldl .union set)
  | _, _ => alternatives first rest

/-- Repeat a pattern.  What reads nothing is needed once at most. -/
def repeated (inner : Pattern) (least : Nat) (most : Option Nat) : Pattern :=
  let (least, most) :=
    if inner.readsNothing then (min least 1, some (min (most.getD 1) 1)) else (least, most)
  if most = some 0 then empty
  else if least = 1 && most = some 1 then inner
  else times inner least most

end Pattern
end Manifest
