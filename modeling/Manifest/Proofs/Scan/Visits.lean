import Manifest.Proofs.Scan.Dedents
import Manifest.Proofs.Scan.Lookahead

/-!
# Every line is visited

A reading that ends well comes to the content of every line that has some, and to the
end of every line it has come to.
-/

namespace Manifest

/-! ## Lines of a text -/

namespace Cursor

/-- A cursor stands at the beginning of a line. -/
structure AtLine (cursor : Cursor) (offset : Nat) (line : Line) : Prop where
  starts : cursor.StartsLine
  offset_eq : cursor.offset = offset
  front : ∃ below, cursor.rest = line ++ '\n' :: below
  inner : '\n' ∉ line

/-- The first of the lines in front of a cursor, if there is anything in them. -/
theorem StartsLine.splitOn_cons {cursor : Cursor} (starts : cursor.StartsLine) {first : Line}
    {lines : List Line} (split : cursor.rest.splitOn '\n' = first :: lines)
    (some : first.hasContent = true ∨ lines ≠ []) :
    cursor.AtLine cursor.offset first ∧ (cursor.lineEnd.advance 1).rest.splitOn '\n' = lines := by
  have inside : cursor.rest ≠ [] := by
    intro none
    rw [none] at split
    cases split
    rcases some with content | more
    · cases content
    · exact more rfl
  rcases starts.closed.split inside with ⟨below, front⟩
  have inner : '\n' ∉ cursor.line := Text.newline_notMem_line cursor.rest
  rcases lineEnd_advance front inner with ⟨behind, _⟩
  rw [front, List.splitOn_append_cons_self_of_not_mem inner] at split
  cases split
  exact ⟨⟨starts, rfl, ⟨below, front⟩, inner⟩, congrArg _ behind⟩

end Cursor

namespace Scanner

variable {scanner next final : Scanner}

/-- A reading that ends well goes on wherever there is text left. -/
theorem exists_moves (finished : scanner.run = .ok final) (more : scanner.cursor.rest ≠ []) :
    ∃ next, scanner.Moves next ∧ next.run = .ok final := by
  rcases (passes_of_run finished).1.cases_head with same | ⟨next, moves, _⟩
  · subst same
    exact absurd (passes_of_run finished).2 more
  · exact ⟨next, moves, run_of_reads (.single moves) finished⟩

theorem Aligned.late (aligned : scanner.Aligned) (along : scanner.cursor.OnLine 1 next.cursor) :
    next.cursor.fresh = false :=
  along.fresh_eq_false aligned.begins

/-- The end of the line is reached. -/
theorem Aligned.exists_lineEnd (aligned : scanner.Aligned) :
    ∃ last, Relation.ReflTransGen Moves scanner last ∧ last.cursor = scanner.cursor.lineEnd := by
  cases line : scanner.cursor.line with
  | nil =>
    refine ⟨scanner, .refl, ?_⟩
    rw [Cursor.lineEnd, line, List.length_nil, Cursor.advance_zero]
  | cons first more =>
    rcases Cursor.exists_of_line line with ⟨behind, found, inner⟩
    rcases aligned.step found inner with ⟨next, stepped, _⟩
    have along : scanner.cursor.OnLine 1 next.cursor := by
      rcases step_cases found stepped with ⟨newline, _⟩ | ⟨_, within⟩
      · exact absurd newline inner
      · exact within.onLine found inner
    rcases line_foretells (aligned.late along) with ⟨last, passed, ends, _⟩
    exact ⟨last, .head ⟨found ▸ List.cons_ne_nil _ _, stepped⟩ passed,
      ends.trans along.lineEnd_eq⟩

/-- Behind the end of a line the next content is entered. -/
theorem cursor_newline {below : List Char} (moves : scanner.Moves next)
    (stands : scanner.cursor.rest = '\n' :: below) :
    next.cursor = (scanner.cursor.advance 1).toContent := by
  rcases step_cases stands moves.2 with ⟨_, begun⟩ | ⟨other, _⟩
  · rw [cursor_beginLine begun, skip, cursor_flush]
  · exact absurd rfl other

/-- The content of each line is entered at the place where it stands. -/
theorem Aligned.visits (aligned : scanner.Aligned) (finished : scanner.run = .ok final)
    {cursor : Cursor} (starts : cursor.StartsLine) (entered : scanner.cursor = cursor.toContent)
    {front behind : List Line} {line : Line}
    (split : cursor.rest.splitOn '\n' = front ++ line :: behind)
    (content : line.hasContent = true) :
    ∃ here start, Relation.ReflTransGen Moves scanner here ∧
      Cursor.AtLine start (cursor.offset + Line.offsetBehind front) line ∧
      here.cursor = start.skipGap := by
  induction front generalizing scanner cursor with
  | nil =>
    rcases starts.splitOn_cons split (.inl content) with ⟨atLine, _⟩
    refine ⟨scanner, cursor, .refl, atLine, ?_⟩
    rcases atLine.front with ⟨below, front⟩
    rw [entered, Cursor.toContent_of_content front atLine.inner content]
  | cons first front ih =>
    have more : front ++ line :: behind ≠ [] :=
      List.append_ne_nil_of_right_ne_nil _ (List.cons_ne_nil _ _)
    rcases starts.splitOn_cons split (.inr more) with ⟨atLine, rest⟩
    rcases atLine.front with ⟨below, found⟩
    have ended := Cursor.rest_lineEnd found atLine.inner
    have below_starts := Cursor.startsLine_advance (starts.closed.advance _) ended
    have offset : cursor.offset + Line.offsetBehind (first :: front) =
        (cursor.lineEnd.advance 1).offset + Line.offsetBehind front := by
      rw [(Cursor.lineEnd_advance found atLine.inner).2, Line.offsetBehind]
      omega
    rw [offset]
    by_cases blank : first.hasContent = true
    · rw [Cursor.toContent_of_content found atLine.inner blank] at entered
      rcases aligned.exists_lineEnd with ⟨last, passed, ends⟩
      rw [entered, Cursor.lineEnd_skipGap] at ends
      have stands : last.cursor.rest = '\n' :: below := by
        rw [ends]
        exact ended
      rcases exists_moves (run_of_reads passed finished) (stands ▸ List.cons_ne_nil _ _) with
        ⟨next, moves, goesOn⟩
      have again := cursor_newline moves stands
      rw [ends] at again
      rcases ih ((aligned.passed passed).moves moves).1 goesOn below_starts again rest with
        ⟨here, start, further, found⟩
      exact ⟨here, start, passed.trans (.head moves further), found⟩
    · rw [Cursor.toContent_of_blank found atLine.inner (Bool.eq_false_iff.mpr blank)] at entered
      exact ih aligned finished below_starts entered rest

end Scanner
end Manifest
