import Manifest.Document.Parser
import Manifest.Proofs.Stepwise

/-!
# Points in a sequence of lexemes

The grammar speaks about the lexemes that have been read and those that are
left.  A parser state stands at a point when its stream has the lexemes of
the point, and then each access to the stream is an access to the point.
Spans play no part: they only occur in messages.
-/

namespace Manifest

namespace Lexeme

/-- What ends a chain without being a part of it. -/
def endsChain : Lexeme → Bool
  | newline _ | outdent | endOfInput | comment _ | sectionStart | closeParen => true
  | _ => false

/-- What joins two terms. -/
def isOperator : Lexeme → Bool
  | hardMerge | softMerge | pipeline | patternMatch => true
  | _ => false

/-- What stands between the expressions of a section without meaning. -/
def isLineBreak : Lexeme → Bool
  | newline _ | comment _ => true
  | _ => false

def isAssignment : Lexeme → Bool
  | assignment _ => true
  | _ => false

def isComment : Lexeme → Bool
  | comment _ => true
  | _ => false

/-- The term that a lexeme is by itself. -/
def literal? : Lexeme → Option Expr
  | text value => some (.scalar (.text value))
  | number value => some (.scalar (.number value))
  | boolean value => some (.scalar (.boolean value))
  | emptyMapping => some (.scalar (.mapping []))
  | emptySequence => some (.vector [])
  | _ => none

end Lexeme

/-- A point between the lexemes that have been read, the latest first, and
those that follow. -/
structure Point where
  before : List Lexeme
  rest : List Lexeme

namespace Point

def ofLexemes (lexemes : List Lexeme) : Point := ⟨[], lexemes⟩

/-- The lexeme under the point. -/
def next (point : Point) : Lexeme := point.rest.headD .endOfInput

/-- The lexeme behind the next one. -/
def second (point : Point) : Lexeme := point.rest.tail.headD .endOfInput

/-- The lexeme that was read last.  In front of everything it is the next one. -/
def previous (point : Point) : Lexeme := point.before.headD point.next

/-- The point behind the next lexeme. -/
def step (point : Point) : Point := ⟨point.next :: point.before, point.rest.tail⟩

@[simp] theorem next_cons (before rest : List Lexeme) (lexeme : Lexeme) :
    (⟨before, lexeme :: rest⟩ : Point).next = lexeme := rfl

@[simp] theorem previous_cons (before rest : List Lexeme) (lexeme : Lexeme) :
    (⟨lexeme :: before, rest⟩ : Point).previous = lexeme := rfl

@[simp] theorem step_cons (before rest : List Lexeme) (lexeme : Lexeme) :
    (⟨before, lexeme :: rest⟩ : Point).step = ⟨lexeme :: before, rest⟩ := rfl

/-- The lexemes that are left end with the end of input. -/
def Ends (point : Point) : Prop := point.rest.getLast? = some .endOfInput

theorem Ends.rest_eq {point : Point} (ends : point.Ends) :
    point.rest = point.next :: point.rest.tail := by
  cases point with
  | mk before rest =>
    cases rest with
    | nil => cases ends
    | cons lexeme rest => rfl

/-- In front of anything but the end of input something follows. -/
theorem Ends.step {point : Point} (ends : point.Ends) (more : point.next ≠ .endOfInput) :
    point.step.Ends := by
  cases point with
  | mk before rest =>
    cases rest with
    | nil => cases ends
    | cons lexeme rest =>
      cases rest with
      | nil => exact absurd (Option.some.inj ends) more
      | cons following rest => exact (List.getLast?_cons_cons).symm.trans ends

end Point

/-- The stream of a parser state has the lexemes of a point. -/
structure Stands (state : ParserState) (point : Point) : Prop where
  origin : state.stream.origin = 0
  lexemes : state.stream.tokens.toList.map Token.lexeme = point.before.reverse ++ point.rest
  position : state.stream.position = point.before.length
  ends : point.Ends

namespace Stands

variable {state : ParserState} {point : Point}

theorem of_stream_eq {other : ParserState} (stands : Stands state point)
    (same : other.stream = state.stream) : Stands other point :=
  ⟨same ▸ stands.origin, same ▸ stands.lexemes, same ▸ stands.position, stands.ends⟩

/-- A lexeme stands under every point, the end of input if nothing else. -/
theorem point_eq (stands : Stands state point) :
    ∃ before lexeme rest, point = ⟨before, lexeme :: rest⟩ := by
  rcases point with ⟨before, rest⟩
  exact ⟨before, _, _, congrArg (Point.mk before) stands.ends.rest_eq⟩

theorem size_eq (stands : Stands state point) :
    state.stream.tokens.size = point.before.length + point.rest.length := by
  have count := congrArg List.length stands.lexemes
  simpa using count

/-- A token of the stream is the lexeme of the point with the same index. -/
theorem lexeme_get (stands : Stands state point) (index : Nat) :
    (state.stream.tokens[index]?.getD Stream.endToken).lexeme =
      (point.before.reverse ++ point.rest)[index]?.getD .endOfInput := by
  rw [← stands.lexemes, List.getElem?_map, Array.getElem?_toList]
  cases state.stream.tokens[index]? <;> rfl

/-- Looking at a token inside the bounds of the stream. -/
theorem peek_inside (stands : Stands state point) {distance : Int} (index : Nat)
    (target : (point.before.length : Int) + distance = index)
    (inside : index < point.before.length + point.rest.length) :
    (state.stream.peek distance).lexeme =
      (point.before.reverse ++ point.rest)[index]?.getD .endOfInput := by
  have bounded : (min (max ((state.stream.position : Int) + distance) state.stream.origin)
      state.stream.last).toNat = index := by
    have count := stands.size_eq
    simp only [Stream.last, stands.origin, stands.position]
    omega
  simp only [Stream.peek, bounded]
  exact stands.lexeme_get index

theorem peek_next (stands : Stands state point) :
    (state.stream.peek 0).lexeme = point.next := by
  have whole := stands.ends.rest_eq
  rw [stands.peek_inside point.before.length (by omega)
    (by rw [whole, List.length_cons]; omega), whole]
  simp

/-- In front of anything but the end of input the second token can be seen too. -/
theorem peek_second (stands : Stands state point) (more : point.next ≠ .endOfInput) :
    (state.stream.peek 1).lexeme = point.second := by
  have whole := stands.ends.rest_eq
  have behind : point.rest.tail = point.second :: point.rest.tail.tail :=
    (stands.ends.step more).rest_eq
  rw [stands.peek_inside (point.before.length + 1) (by omega)
    (by rw [whole, behind]; simp only [List.length_cons]; omega), whole, behind]
  simp

theorem peek_previous (stands : Stands state point) :
    (state.stream.peek (-1)).lexeme = point.previous := by
  cases read : point.before with
  | nil =>
    have same : state.stream.peek (-1) = state.stream.peek 0 := by
      have position := stands.position
      rw [read] at position
      rw [Stream.peek, Stream.peek, stands.origin, position]
      rfl
    rw [same, stands.peek_next, Point.previous, read, List.headD_nil]
  | cons latest earlier =>
    rw [stands.peek_inside earlier.length (by rw [read, List.length_cons]; omega)
      (by rw [read, List.length_cons]; omega), Point.previous, read]
    simp

/-- Reading the next token moves a state from a point to the one behind it. -/
theorem next (stands : Stands state point) (more : point.next ≠ .endOfInput) :
    Stands { state with stream := state.stream.next.2 } point.step := by
  have count := stands.size_eq
  have whole := stands.ends.rest_eq
  have behind : point.rest.tail = point.second :: point.rest.tail.tail :=
    (stands.ends.step more).rest_eq
  have inside : state.stream.position < state.stream.last := by
    have length := congrArg List.length (whole.trans (congrArg (point.next :: ·) behind))
    simp only [List.length_cons] at length
    simp only [Stream.last, stands.position]
    omega
  have moved : state.stream.next.2 = { state.stream with position := state.stream.position + 1 } :=
    if_pos inside
  refine ⟨?_, ?_, ?_, stands.ends.step more⟩
  · rw [moved]
    exact stands.origin
  · rw [moved, stands.lexemes, whole]
    simp [Point.step]
  · rw [moved]
    simp [Point.step, stands.position]

end Stands
end Manifest
