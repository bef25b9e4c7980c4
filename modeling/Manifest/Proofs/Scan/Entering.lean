import Manifest.Proofs.Scan.Misfits

/-!
# Entering a line

The next line with content is entered at its level.  This opens a level,
announces the line or says nothing, closes some levels, or fails.
-/

namespace Manifest

namespace Cursor

/-- A cursor stands at a character that begins content. -/
def AtText (cursor : Cursor) : Prop :=
  ∃ first, cursor.rest.head? = some first ∧
    Text.isGap first = false ∧ first ≠ '#' ∧ first ≠ '\n'

theorem not_atText_of_head {cursor : Cursor} {first : Char}
    (stands : cursor.rest.head? = some first)
    (other : Text.isGap first = true ∨ first = '#' ∨ first = '\n') : ¬ cursor.AtText := by
  rintro ⟨character, same, noGap, noComment, noLine⟩
  cases stands.symm.trans same
  rcases other with gap | comment | line
  · exact absurd (gap.symm.trans noGap) nofun
  · exact noComment comment
  · exact noLine line

theorem newline_ne_head_toContent (cursor : Cursor) :
    cursor.toContent.rest.head? ≠ some '\n' := by
  fun_induction toContent cursor with
  | case1 cursor rest found ih => exact ih
  | case2 cursor rest found ih => exact ih
  | case3 cursor notLine =>
    intro stands
    rcases List.head?_eq_some_iff.mp stands with ⟨rest, found⟩
    exact notLine rest found

/-- Every line that is entered has content. -/
theorem atText_toContent {cursor : Cursor} (some : cursor.toContent.rest ≠ []) :
    cursor.toContent.AtText := by
  rcases List.exists_cons_of_ne_nil some with ⟨first, behind, found⟩
  have stands : cursor.toContent.rest.head? = .some first := by
    rw [found]
    rfl
  rcases cursor.atContent_toContent first stands with ⟨noGap, noComment⟩
  refine ⟨first, stands, noGap, noComment, ?_⟩
  rintro rfl
  exact cursor.newline_ne_head_toContent stands

theorem left_toContent_le (cursor : Cursor) : cursor.toContent.left ≤ cursor.left := by
  have gap : ∀ cursor : Cursor, cursor.skipGap.left ≤ cursor.left :=
    left_skipWhile_le Text.isGap
  fun_induction toContent cursor with
  | case1 cursor rest found ih =>
    exact Nat.le_trans ih (Nat.le_trans (Nat.sub_le _ _) (gap cursor))
  | case2 cursor rest found ih =>
    refine Nat.le_trans ih (Nat.le_trans (Nat.sub_le _ _) ?_)
    exact Nat.le_trans (left_skipWhile_le _ _) (Nat.le_trans (Nat.sub_le _ _) (gap cursor))
  | case3 cursor => exact gap cursor

theorem Closed.toContent {cursor : Cursor} (closed : cursor.Closed) : cursor.toContent.Closed := by
  fun_induction Cursor.toContent cursor with
  | case1 cursor rest found ih => exact ih ((closed.advance _).advance 1)
  | case2 cursor rest found ih => exact ih ((((closed.advance _).advance 1).advance _).advance 1)
  | case3 cursor => exact closed.advance _

end Cursor

namespace Scanner

variable {scanner : Scanner}

theorem levels_flush (scanner : Scanner) : scanner.flush.levels = scanner.levels := by
  rw [flush]
  split <;> rfl

theorem levels_emit (scanner : Scanner) (lexeme : Lexeme) (span : Span) :
    (scanner.emit lexeme span).levels = scanner.levels :=
  scanner.levels_flush

theorem levels_emitOutdents (span : Span) (count : Nat) (scanner : Scanner) :
    (emitOutdents span count scanner).levels = scanner.levels := by
  induction count generalizing scanner with
  | zero => rfl
  | succ count ih => exact (ih _).trans scanner.levels_flush

theorem cursor_beginLine {next : Scanner} {lineEnd : Nat} {announce : Bool}
    (begun : scanner.beginLine lineEnd announce = .ok next) :
    next.cursor = scanner.cursor.toContent := by
  rw [beginLine] at begun
  dsimp only at begun
  split at begun
  · cases begun
    exact cursor_emit _ _ _
  · cases begun
    exact cursor_emitOutdents _ _ _
  · split at begun
    · cases begun
      exact cursor_emit _ _ _
    · cases begun
      rfl
  · cases begun

/-- The level of the next line with content.  The end of the source stands at
the outermost one. -/
def lineLevel (scanner : Scanner) : Nat :=
  if scanner.cursor.toContent.rest.isEmpty then 0 else scanner.cursor.toContent.level

theorem lineLevel_eq (some : scanner.cursor.toContent.rest ≠ []) :
    scanner.lineLevel = scanner.cursor.toContent.level :=
  if_neg (by simpa using some)

/-- The scanner at the next content, with some levels open. -/
def atNextLine (scanner : Scanner) (levels : Levels) : Scanner :=
  { scanner with cursor := scanner.cursor.toContent, levels }

theorem cursor_atNextLine (scanner : Scanner) (levels : Levels) :
    (scanner.atNextLine levels).cursor = scanner.cursor.toContent := rfl

theorem levels_atNextLine (scanner : Scanner) (levels : Levels) :
    (scanner.atNextLine levels).levels = levels := rfl

/-- What becomes of a scanner that enters a line. -/
inductive EntersLine (scanner : Scanner) (span : Span) : Except LexError Scanner → Prop
  | deeper : scanner.cursor.toContent.rest ≠ [] → scanner.levels.current < scanner.lineLevel →
      EntersLine scanner span
        (.ok ((scanner.atNextLine (scanner.lineLevel :: scanner.levels)).emit .indent span))
  | announced : scanner.cursor.toContent.rest ≠ [] →
      scanner.levels.current = scanner.lineLevel → scanner.suppressesNewline = false →
      EntersLine scanner span (.ok ((scanner.atNextLine scanner.levels).emit
        (.newline scanner.cursor.toContent.column) span))
  | silent : scanner.levels.current = scanner.lineLevel →
      EntersLine scanner span (.ok (scanner.atNextLine scanner.levels))
  | outward {inner outer : Levels} : scanner.levels = inner ++ outer →
      (∀ found ∈ inner, scanner.lineLevel < found) → outer.Nested →
      outer.current = scanner.lineLevel →
      EntersLine scanner span (.ok (emitOutdents span inner.length (scanner.atNextLine outer)))
  | misfit : scanner.cursor.toContent.rest ≠ [] → scanner.lineLevel < scanner.levels.current →
      scanner.lineLevel ∉ scanner.levels →
      EntersLine scanner span (.error scanner.cursor.toContent.fault)

theorem entersLine_beginLine (nested : scanner.levels.Nested) (lineEnd : Nat) (announce : Bool) :
    EntersLine scanner ⟨lineEnd, scanner.cursor.toContent.offset⟩
      (scanner.beginLine lineEnd announce) := by
  have leads := nested.leads scanner.lineLevel
  have ended : scanner.cursor.toContent.rest = [] → scanner.lineLevel = 0 := by
    intro none
    rw [lineLevel, none]
    rfl
  have level : (if scanner.cursor.toContent.rest.isEmpty = true then 0
      else Levels.ofColumn scanner.cursor.toContent.column
        scanner.cursor.toContent.atListHyphen) = scanner.lineLevel := rfl
  rw [beginLine]
  dsimp only
  rw [level]
  generalize scanner.levels.move scanner.lineLevel = move at leads
  cases leads with
  | deeper deeper =>
    refine .deeper (fun none => ?_) deeper
    rw [ended none] at deeper
    exact Nat.not_lt_zero _ deeper
  | level same =>
    dsimp only
    split
    · rename_i announced
      simp only [Bool.and_eq_true, Bool.not_eq_true'] at announced
      exact .announced (List.isEmpty_eq_false_iff.mp announced.1.2) same announced.2
    · exact .silent same
  | outward split closed left same => exact .outward split closed left same
  | misfit outward apart =>
    exact .misfit (fun none => apart (ended none ▸ nested.zero_mem)) outward apart

end Scanner
end Manifest
