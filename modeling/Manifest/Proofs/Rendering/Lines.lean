import Manifest.Proofs.Scan.Cursor

/-!
# Views of a scanner

What a scanner does next depends on the text in front of it, on the column,
on the open levels and on whether its latest token is layout.  A view holds
these, and the lexemes so far.  Each lemma here leads from one view to the
next along a run.
-/

namespace Manifest

namespace Scanner

variable {scanner next : Scanner}

/-- The lexemes of the tokens so far. -/
def said (scanner : Scanner) : List Lexeme :=
  scanner.tokens.reverse.map Token.lexeme

/-- What a scanner has in front of it and behind it.  No unrecognized run is
open, and there was none. -/
structure Shows (scanner : Scanner) (text : List Char) (column : Nat) (levels : Levels)
    (said : List Lexeme) : Prop where
  rest : scanner.cursor.rest = text
  column_eq : scanner.cursor.column = column
  levels_eq : scanner.levels = levels
  said_eq : scanner.said = said
  calm : scanner.pending = none
  silent : scanner.diagnostics = []

namespace Shows

variable {text chunk behind : List Char} {column : Nat} {levels : Levels} {said : List Lexeme}
  {lexeme : Lexeme} {span : Span}

theorem flush (shows : scanner.Shows text column levels said) : scanner.flush = scanner :=
  flush_of_none shows.calm

theorem emit (shows : scanner.Shows text column levels said) :
    (scanner.emit lexeme span).Shows text column levels (said ++ [lexeme]) := by
  rw [Scanner.emit, shows.flush]
  refine ⟨shows.rest, shows.column_eq, shows.levels_eq, ?_, shows.calm, shows.silent⟩
  rw [Scanner.said, List.reverse_cons, List.map_append, ← shows.said_eq]
  rfl

theorem emitOutdents (shows : scanner.Shows text column levels said) (count : Nat) :
    (Scanner.emitOutdents span count scanner).Shows text column levels
      (said ++ List.replicate count .outdent) := by
  induction count generalizing scanner said with
  | zero =>
    rw [List.replicate_zero, List.append_nil]
    exact shows
  | succ count ih =>
    rw [Scanner.emitOutdents, List.replicate_succ, List.append_cons]
    exact ih shows.emit

theorem skip (shows : scanner.Shows (chunk ++ behind) column levels said) (line : '\n' ∉ chunk) :
    (scanner.skip chunk.length).Shows behind (column + chunk.length) levels said := by
  refine ⟨Cursor.rest_advance shows.rest, ?_, shows.levels_eq, shows.said_eq, shows.calm,
    shows.silent⟩
  rw [← shows.column_eq]
  exact Cursor.column_advance shows.rest line

theorem read (shows : scanner.Shows (chunk ++ behind) column levels said) (line : '\n' ∉ chunk) :
    (scanner.read chunk.length lexeme).Shows behind (column + chunk.length) levels
      (said ++ [lexeme]) :=
  (shows.skip line).emit

/-- Over a gap to what stands behind it. -/
theorem skipGap (shows : scanner.Shows (chunk ++ behind) column levels said)
    (gap : chunk.all Text.isGap = true)
    (stops : ∀ character, behind.head? = some character → Text.isGap character = false) :
    ({ scanner with cursor := scanner.cursor.skipGap } : Scanner).Shows behind
      (column + chunk.length) levels said := by
  have line : '\n' ∉ chunk := by
    intro inside
    have known := List.all_eq_true.mp gap _ inside
    cases known
  rw [Cursor.skipGap_eq shows.rest gap stops]
  exact shows.skip line

end Shows

end Scanner
end Manifest
