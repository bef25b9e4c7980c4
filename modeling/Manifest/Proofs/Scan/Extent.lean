import Manifest.Proofs.Scan.Spans

/-!
# Where tokens stand

What is read from a place on stands behind that place, and none of it ends behind the
cursor.  So the tokens of a line are told from those of the lines below by their spans.
-/

namespace Manifest
namespace Scanner

variable {place least : Nat} {tokens : List Token} {scanner next : Scanner} {lexeme : Lexeme}
  {span : Span}

/-- Everything that has been read in addition to some tokens stands between a place and the
cursor. -/
structure ReadFrom (place : Nat) (tokens : List Token) (scanner : Scanner) : Prop where
  added : ∃ added, scanner.tokens = added ++ tokens ∧
    ∀ token ∈ added, place ≤ token.span.start ∧ token.span.stop ≤ scanner.cursor.offset
  behind : ∀ start, scanner.pending = some start → place ≤ start.offset
  ahead : place ≤ scanner.cursor.offset

/-- Nothing has been read yet. -/
theorem readFrom_here (none : scanner.pending = none) :
    ReadFrom scanner.cursor.offset scanner.tokens scanner := by
  refine ⟨⟨[], rfl, List.forall_mem_nil _⟩, ?_, Nat.le_refl _⟩
  intro start some
  cases none.symm.trans some

namespace ReadFrom

/-- A token is read, and the cursor moves on. -/
theorem token (known : ReadFrom place tokens scanner) {later : Cursor} (levels : Levels)
    (forward : scanner.cursor.offset ≤ later.offset) (low : place ≤ span.start)
    (high : span.stop ≤ later.offset) : ReadFrom place tokens
      { scanner with tokens := ⟨lexeme, span⟩ :: scanner.tokens, cursor := later, levels } := by
  rcases known.added with ⟨added, whole, between⟩
  refine ⟨⟨⟨lexeme, span⟩ :: added, congrArg (_ :: ·) whole, ?_⟩, known.behind,
    Nat.le_trans known.ahead forward⟩
  refine List.forall_mem_cons.mpr ⟨⟨low, high⟩, fun token inside => ?_⟩
  exact ⟨(between token inside).1, Nat.le_trans (between token inside).2 forward⟩

theorem move (known : ReadFrom place tokens scanner) {later : Cursor} (levels : Levels)
    (forward : scanner.cursor.offset ≤ later.offset) :
    ReadFrom place tokens { scanner with cursor := later, levels } := by
  rcases known.added with ⟨added, whole, between⟩
  refine ⟨⟨added, whole, fun token inside => ?_⟩, known.behind,
    Nat.le_trans known.ahead forward⟩
  exact ⟨(between token inside).1, Nat.le_trans (between token inside).2 forward⟩

theorem skip (known : ReadFrom place tokens scanner) (count : Nat) :
    ReadFrom place tokens (scanner.skip count) :=
  known.move scanner.levels (scanner.cursor.offset_le_advance count)

theorem flush (known : ReadFrom place tokens scanner) : ReadFrom place tokens scanner.flush := by
  rw [Scanner.flush]
  split
  · exact known
  · rename_i start opened
    rcases known.added with ⟨added, whole, between⟩
    refine ⟨⟨_ :: added, congrArg (_ :: ·) whole, ?_⟩, by rintro _ ⟨⟩, known.ahead⟩
    exact List.forall_mem_cons.mpr ⟨⟨known.behind start opened, Nat.le_refl _⟩, between⟩

theorem emit (known : ReadFrom place tokens scanner) (low : place ≤ span.start)
    (high : span.stop ≤ scanner.cursor.offset) :
    ReadFrom place tokens (scanner.emit lexeme span) := by
  refine known.flush.token scanner.flush.levels (Nat.le_refl _) low ?_
  rw [cursor_flush]
  exact high

theorem emitOutdents (known : ReadFrom place tokens scanner) (low : place ≤ span.start)
    (high : span.stop ≤ scanner.cursor.offset) (count : Nat) :
    ReadFrom place tokens (Scanner.emitOutdents span count scanner) := by
  induction count generalizing scanner with
  | zero => exact known
  | succ count ih =>
    refine ih (known.emit low high) ?_
    rw [cursor_emit]
    exact high

/-! ## Rules -/

theorem read (known : ReadFrom place tokens scanner) (count : Nat) :
    ReadFrom place tokens (scanner.read count lexeme) :=
  (known.skip count).emit known.ahead (Nat.le_refl _)

theorem reject (known : ReadFrom place tokens scanner) (count : Nat) :
    ReadFrom place tokens (scanner.reject count) := by
  refine ⟨(known.skip count).added, fun start opened => ?_, (known.skip count).ahead⟩
  cases before : scanner.pending with
  | none =>
    rw [Scanner.reject, before] at opened
    cases opened
    exact known.ahead
  | some earlier =>
    rw [Scanner.reject, before] at opened
    cases opened
    exact known.behind earlier before

theorem takes (known : ReadFrom place tokens scanner) (takes : Takes least scanner next) :
    ReadFrom place tokens next := by
  cases takes with
  | read count lexeme => exact known.read count
  | reject count => exact known.reject count

theorem accepts (known : ReadFrom place tokens scanner) (accepts : Accepts scanner next) :
    ReadFrom place tokens next := by
  cases accepts with
  | once takes => exact known.takes takes
  | literal takes =>
    have signed : ReadFrom place tokens (scanner.read 1 (.assignment true)) := known.read 1
    exact (signed.move _ (Cursor.offset_le_advance _ _)).takes takes

theorem comment (known : ReadFrom place tokens scanner) :
    ReadFrom place tokens scanner.comment := by
  have forward := scanner.cursor.offset_le_advance scanner.cursor.line.length
  refine known.flush.token scanner.flush.levels ?_ known.ahead (Nat.le_refl _)
  rw [cursor_flush]
  exact forward

theorem listItem (known : ReadFrom place tokens scanner) (inner : scanner.cursor.rest ≠ [])
    (read : scanner.listItem = .ok next) : ReadFrom place tokens next := by
  have forward := Cursor.offset_lt_item inner
  have item : ∀ levels, ReadFrom place tokens { scanner.emit (.symbol "yield")
      ⟨scanner.cursor.offset, scanner.cursor.offset + 1⟩ with
      cursor := (scanner.cursor.advance 1).skipGap, levels } := by
    intro levels
    refine known.flush.token levels ?_ known.ahead forward
    rw [cursor_flush]
    exact Nat.le_of_lt forward
  rw [Scanner.listItem] at read
  dsimp only at read
  split at read
  · cases read
  · split at read
    · cases read
      exact (item _).emit known.ahead (Nat.le_refl _)
    · cases read
      exact item _

theorem beginLine (known : ReadFrom place tokens scanner) {lineEnd : Nat} {announce : Bool}
    (low : place ≤ lineEnd) (begun : scanner.beginLine lineEnd announce = .ok next) :
    ReadFrom place tokens next := by
  have moved := fun levels => known.move levels scanner.cursor.offset_le_toContent
  rw [Scanner.beginLine] at begun
  dsimp only at begun
  split at begun
  · cases begun
    exact (moved _).emit low (Nat.le_refl _)
  · cases begun
    exact (moved _).emitOutdents low (Nat.le_refl _) _
  · split at begun
    · cases begun
      exact (moved _).emit low (Nat.le_refl _)
    · cases begun
      exact moved _
  · cases begun

/-! ## Steps -/

theorem moves (known : ReadFrom place tokens scanner) (moves : scanner.Moves next) :
    ReadFrom place tokens next := by
  rcases List.exists_cons_of_ne_nil moves.1 with ⟨first, behind, found⟩
  rcases step_cases found moves.2 with ⟨_, begun⟩ | ⟨_, within⟩
  · exact (known.flush.skip 1).beginLine known.ahead begun
  · cases within with
    | gap => exact known.flush.skip 1
    | comment => exact known.comment
    | item _ read => exact known.listItem moves.1 read
    | content read => exact known.accepts (content_accepts read)
    | nothing => exact known.reject 1

theorem passed (known : ReadFrom place tokens scanner)
    (passed : Relation.ReflTransGen Moves scanner next) : ReadFrom place tokens next := by
  induction passed with
  | refl => exact known
  | tail _ moves ih => exact ih.moves moves

theorem finish (known : ReadFrom place tokens scanner) : ReadFrom place tokens scanner.finish := by
  have flushed := known.flush
  have low : place ≤ scanner.cursor.offset := known.ahead
  have high : scanner.cursor.offset ≤ scanner.flush.cursor.offset := by
    rw [cursor_flush]
  refine (flushed.emitOutdents low high _).emit low ?_
  rw [cursor_emitOutdents]
  exact high

end ReadFrom
end Scanner
end Manifest
