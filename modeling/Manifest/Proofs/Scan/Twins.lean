import Manifest.Proofs.Scan.Entering
import Manifest.Proofs.Scan.Facing

/-!
# Readings side by side

Two sources differ in their margins alone.  While both readings face the same
line they read the same characters as the same tokens, and what they tell about
their places agrees as long as there is something left of the line.  Only what
no rule reads may reach into a margin, and then the first of the two readings
is stained.
-/

namespace Manifest

/-! ## Two options -/

section

variable {α β : Type} {related : α → β → Prop} {first second : Option α}
  {firstTwin secondTwin : Option β}

/-- One of two rules, tried in the same order on both sides. -/
theorem rel_orElse (one : first.Rel related firstTwin) (two : second.Rel related secondTwin) :
    (first <|> second).Rel related (firstTwin <|> secondTwin) := by
  cases one with
  | none => exact two
  | some same => exact .some same

theorem rel_getD {otherwise : α} {otherwiseTwin : β} (one : first.Rel related firstTwin)
    (two : related otherwise otherwiseTwin) :
    related (first.getD otherwise) (firstTwin.getD otherwiseTwin) := by
  cases one with
  | none => exact two
  | some same => exact same

end

/-! ## Two cursors -/

namespace Cursor

variable {cursor other : Cursor} {line : Line} {below more : List Char} {count : Nat}

/-- Two cursors face the same line.  While something is left of it, they stand
in the same column, and neither or both are fresh. -/
structure Beside (line : Line) (below more : List Char) (cursor other : Cursor) : Prop where
  faces : cursor.Faces line below
  twin : other.Faces line more
  column_eq : line ≠ [] → other.column = cursor.column
  fresh_eq : line ≠ [] → other.fresh = cursor.fresh

namespace Beside

/-- A mark begins for both cursors or for neither. -/
theorem startsMark_eq (beside : Beside line below more cursor other) {mark : List Char}
    (some : mark ≠ []) :
    (other.fresh && startsMark mark line) = (cursor.fresh && startsMark mark line) := by
  by_cases none : line = []
  · rcases List.exists_cons_of_ne_nil some with ⟨first, rest, rfl⟩
    rw [none]
    exact (Bool.and_false _).trans (Bool.and_false _).symm
  · rw [beside.fresh_eq none]

theorem atListHyphen_eq (beside : Beside line below more cursor other) :
    other.atListHyphen = cursor.atListHyphen := by
  rw [beside.faces.atListHyphen_eq, beside.twin.atListHyphen_eq,
    beside.startsMark_eq (List.cons_ne_nil _ _)]

theorem atSectionStart_eq (beside : Beside line below more cursor other) :
    Scanner.atSectionStart other = Scanner.atSectionStart cursor := by
  rw [beside.faces.atSectionStart_eq, beside.twin.atSectionStart_eq,
    beside.startsMark_eq (List.cons_ne_nil _ _)]

theorem advance (beside : Beside line below more cursor other) (short : count ≤ line.length) :
    Beside (line.drop count) below more (cursor.advance count) (other.advance count) := by
  have filled : line.drop count ≠ [] → line ≠ [] := by
    rintro some rfl
    exact some List.drop_nil
  refine ⟨beside.faces.advance short, beside.twin.advance short, fun some => ?_, fun some => ?_⟩
  · rw [beside.faces.column_advance short, beside.twin.column_advance short,
      beside.column_eq (filled some)]
  · rw [beside.faces.fresh_advance short, beside.twin.fresh_advance short,
      beside.fresh_eq (filled some)]

/-- Both cursors move equally far. -/
theorem offset_advance (beside : Beside line below more cursor other)
    (short : count ≤ line.length) : (cursor.advance count).offset + other.offset =
      (other.advance count).offset + cursor.offset := by
  rw [beside.faces.offset_advance short, beside.twin.offset_advance short]
  omega

theorem lineEnd (beside : Beside line below more cursor other) :
    Beside [] below more cursor.lineEnd other.lineEnd :=
  ⟨beside.faces.lineEnd, beside.twin.lineEnd, fun some => absurd rfl some,
    fun some => absurd rfl some⟩

theorem skipGap (beside : Beside line below more cursor other) :
    Beside line.content below more cursor.skipGap other.skipGap := by
  by_cases blank : line.content = []
  · exact ⟨beside.faces.skipGap, beside.twin.skipGap, fun some => absurd blank some,
      fun some => absurd blank some⟩
  · rw [beside.faces.skipGap_eq blank, beside.twin.skipGap_eq blank, ← line.drop_width]
    exact beside.advance line.width_le

theorem offset_skipGap (beside : Beside line below more cursor other) (some : line.content ≠ []) :
    cursor.skipGap.offset + other.offset = other.skipGap.offset + cursor.offset := by
  rw [beside.faces.skipGap_eq some, beside.twin.skipGap_eq some]
  exact beside.offset_advance line.width_le

end Beside
end Cursor

namespace Scanner

variable {scanner other next : Scanner} {line : Line} {below more : List Char} {count : Nat}
  {lexeme : Lexeme} {span twinSpan : Span}

/-! ## What has been read -/

/-- Two scanners have read the same, and no unrecognized character. -/
structure Echoes (scanner other : Scanner) : Prop where
  levels_eq : other.levels = scanner.levels
  lexemes_eq : other.tokens.map Token.lexeme = scanner.tokens.map Token.lexeme
  calm : scanner.pending = none
  twinCalm : other.pending = none
  silent : scanner.diagnostics = []
  twinSilent : other.diagnostics = []

namespace Echoes

/-- Where the scanners stand and which levels they open does not matter. -/
theorem move (echoes : Echoes scanner other) (cursor twin : Cursor) {levels twinLevels : Levels}
    (same : twinLevels = levels) : Echoes { scanner with cursor, levels }
      { other with cursor := twin, levels := twinLevels } :=
  ⟨same, echoes.lexemes_eq, echoes.calm, echoes.twinCalm, echoes.silent, echoes.twinSilent⟩

theorem emit (echoes : Echoes scanner other) :
    Echoes (scanner.emit lexeme span) (other.emit lexeme twinSpan) := by
  rw [Scanner.emit, Scanner.emit, flush_of_none echoes.calm, flush_of_none echoes.twinCalm]
  refine ⟨echoes.levels_eq, ?_, echoes.calm, echoes.twinCalm, echoes.silent, echoes.twinSilent⟩
  rw [List.map_cons, List.map_cons, echoes.lexemes_eq]

theorem emitOutdents (echoes : Echoes scanner other) (count : Nat) :
    Echoes (Scanner.emitOutdents span count scanner)
      (Scanner.emitOutdents twinSpan count other) := by
  induction count generalizing scanner other with
  | zero => exact echoes
  | succ count ih => exact ih echoes.emit

theorem finish (echoes : Echoes scanner other) :
    other.finish.tokens.map Token.lexeme = scanner.finish.tokens.map Token.lexeme ∧
      other.finish.diagnostics = [] := by
  have same : Echoes scanner.finish other.finish := by
    rw [Scanner.finish, Scanner.finish, echoes.levels_eq, flush_of_none echoes.calm,
      flush_of_none echoes.twinCalm]
    exact (echoes.emitOutdents _).emit
  exact ⟨same.lexemes_eq, same.twinSilent⟩

end Echoes

/-- A symbol that has been read last stands equally far behind both cursors. -/
def Trails (scanner other : Scanner) : Prop :=
  ∀ name stop, scanner.tokens.head? = some ⟨.symbol name, stop⟩ →
    ∀ twinStop, other.tokens.head? = some ⟨.symbol name, twinStop⟩ →
      scanner.cursor.offset + twinStop.stop = other.cursor.offset + stop.stop

theorem followsSymbol_iff : scanner.followsSymbol = true ↔ ∃ name span,
    scanner.tokens.head? = some ⟨.symbol name, span⟩ ∧ span.stop = scanner.cursor.offset := by
  rw [followsSymbol]
  rcases scanner.tokens with _ | ⟨⟨lexeme, span⟩, tokens⟩
  · simp
  · cases lexeme <;> simp

theorem exists_newest {name : String}
    (newest : (scanner.tokens.map Token.lexeme).head? = some (.symbol name)) :
    ∃ span, scanner.tokens.head? = some ⟨.symbol name, span⟩ := by
  rw [List.head?_map] at newest
  rcases Option.map_eq_some_iff.mp newest with ⟨⟨lexeme, span⟩, found, rfl⟩
  exact ⟨span, found⟩

theorem lexeme_of_newest {name : String}
    (newest : scanner.tokens.head? = some ⟨.symbol name, span⟩) :
    (scanner.tokens.map Token.lexeme).head? = some (.symbol name) := by
  rw [List.head?_map, newest]
  rfl

/-- Scanners that have read the same symbol last agree on whether it ends here. -/
theorem followsSymbol_of_trails (trails : Trails scanner other)
    (same : ∀ name, (other.tokens.map Token.lexeme).head? = some (.symbol name) ↔
      (scanner.tokens.map Token.lexeme).head? = some (.symbol name)) :
    other.followsSymbol = scanner.followsSymbol := by
  rw [Bool.eq_iff_iff, followsSymbol_iff, followsSymbol_iff]
  constructor
  · rintro ⟨name, twinSpan, twinNewest, ends⟩
    rcases exists_newest ((same name).mp (lexeme_of_newest twinNewest)) with ⟨span, newest⟩
    have far := trails name span newest twinSpan twinNewest
    exact ⟨name, span, newest, by omega⟩
  · rintro ⟨name, span, newest, ends⟩
    rcases exists_newest ((same name).mpr (lexeme_of_newest newest)) with ⟨twinSpan, twinNewest⟩
    have far := trails name span newest twinSpan twinNewest
    exact ⟨name, twinSpan, twinNewest, by omega⟩

theorem followsSymbol_eq (echoes : Echoes scanner other) (trails : Trails scanner other) :
    other.followsSymbol = scanner.followsSymbol :=
  followsSymbol_of_trails trails fun name => by rw [echoes.lexemes_eq]

/-- Two readings face the same line, and have read the same. -/
structure Beside (line : Line) (below more : List Char) (scanner other : Scanner) : Prop
    extends Echoes scanner other where
  cursors : scanner.cursor.Beside line below more other.cursor
  trails : line ≠ [] → Trails scanner other

namespace Beside

theorem skip (beside : Beside line below more scanner other) (short : count ≤ line.length) :
    Beside (line.drop count) below more (scanner.skip count) (other.skip count) where
  toEchoes := beside.move _ _ beside.levels_eq
  cursors := beside.cursors.advance short
  trails some := by
    have filled : line ≠ [] := by
      rintro rfl
      exact some List.drop_nil
    intro name stop newest twinStop twinNewest
    have behind := beside.trails filled name stop newest twinStop twinNewest
    have moved := beside.cursors.offset_advance short
    change (scanner.cursor.advance count).offset + _ = (other.cursor.advance count).offset + _
    omega

theorem read (beside : Beside line below more scanner other) (short : count ≤ line.length)
    (lexeme : Lexeme) :
    Beside (line.drop count) below more (scanner.read count lexeme) (other.read count lexeme) := by
  have moved := beside.skip short
  refine ⟨moved.toEchoes.emit, ?_, fun _ => ?_⟩
  · rw [Scanner.read, Scanner.read, cursor_emit, cursor_emit]
    exact moved.cursors
  · intro name stop newest twinStop twinNewest
    cases newest
    cases twinNewest
    rw [Scanner.read, Scanner.read, cursor_emit, cursor_emit]
    exact Nat.add_comm _ _

theorem skipGap (beside : Beside line below more scanner other) :
    Beside line.content below more scanner.skipGap other.skipGap := by
  by_cases blank : line.content = []
  · exact ⟨beside.move _ _ beside.levels_eq, beside.cursors.skipGap,
      fun some => absurd blank some⟩
  · have moved := beside.skip line.width_le
    rw [line.drop_width] at moved
    rw [Scanner.skipGap, Scanner.skipGap, beside.cursors.faces.skipGap_eq blank,
      beside.cursors.twin.skipGap_eq blank]
    exact moved

end Beside

/-! ## Stains -/

/-- Some character was not recognized. -/
def Stained (scanner : Scanner) : Prop :=
  scanner.pending ≠ none ∨ scanner.diagnostics ≠ []

theorem stained_reject (scanner : Scanner) (count : Nat) : (scanner.reject count).Stained :=
  .inl (Option.some_ne_none _)

/-- Either the first reading is stained or both read the same and are still on one line. -/
def Agree (below more : List Char) (next twin : Scanner) : Prop :=
  next.Stained ∨ ∃ line, Beside line below more next twin

namespace Beside

theorem agree (beside : Beside line below more scanner other) : Agree below more scanner other :=
  .inr ⟨line, beside⟩

/-! ## Rules of content -/

theorem mark (beside : Beside line below more scanner other) :
    scanner.mark.Rel (Agree below more) other.mark := by
  rw [mark_of_faces beside.cursors.faces, mark_of_faces beside.cursors.twin,
    beside.cursors.atSectionStart_eq]
  split
  · rename_i starts
    rw [beside.cursors.faces.atSectionStart_eq, Cursor.startsMark, Bool.and_eq_true,
      Bool.and_eq_true] at starts
    have short := (List.isPrefixOf_iff_prefix.mp starts.2.1).length_le
    exact .some (beside.read short _).agree
  · cases first : marks.find? (fun entry => entry.1.toList.isPrefixOf line) with
    | none => exact .none
    | some entry =>
      have starts : entry.1.toList.isPrefixOf line = true := by
        simpa using List.find?_some first
      have short := (List.isPrefixOf_iff_prefix.mp starts).length_le
      rw [String.length_toList] at short
      exact .some (beside.read short _).agree

theorem quoted (beside : Beside line below more scanner other) :
    scanner.quoted.Rel (Agree below more) other.quoted := by
  by_cases starts : ∃ first, line.head? = some first ∧ (first = '"' ∨ first = '\'')
  · rcases starts with ⟨first, stands, isQuote⟩
    rcases List.head?_eq_some_iff.mp stands with ⟨line, rfl⟩
    rcases quoted_of_faces beside.cursors.faces isQuote with ⟨closed, opened⟩
    rcases quoted_of_faces beside.cursors.twin isQuote with ⟨twinClosed, twinOpened⟩
    cases known : readQuoted first line with
    | none =>
      rcases opened known with ⟨count, read⟩
      rcases twinOpened known with ⟨twinCount, twinRead⟩
      rw [read, twinRead]
      exact .some (.inl (stained_reject _ _))
    | some inside =>
      rw [closed inside.1 inside.2 known, twinClosed inside.1 inside.2 known]
      have short : line.length + 1 - inside.2.length ≤ (first :: line).length := Nat.sub_le _ _
      exact .some (beside.read short _).agree
  · have single : line.head? ≠ some '\'' := fun stands => starts ⟨_, stands, .inr rfl⟩
    have double : line.head? ≠ some '"' := fun stands => starts ⟨_, stands, .inl rfl⟩
    rw [quoted_eq_none_of_faces beside.cursors.faces single double,
      quoted_eq_none_of_faces beside.cursors.twin single double]
    exact .none

theorem number (beside : Beside line below more scanner other) :
    scanner.number.Rel (Agree below more) other.number := by
  rw [number_of_faces beside.cursors.faces, number_of_faces beside.cursors.twin]
  cases splits : Scalar.splitNumeral line with
  | none => exact .none
  | some split =>
    rw [Option.bind_some, Option.bind_some]
    split
    · exact .none
    · cases Scalar.readNumeral split.1 with
      | none => exact .none
      | some value => exact .some (beside.read (length_numeral_le splits) _).agree

theorem symbol (beside : Beside line below more scanner other) :
    scanner.symbol.Rel (Agree below more) other.symbol := by
  rcases symbolText_of_faces beside.cursors.faces with ⟨starts, text⟩
  rcases symbolText_of_faces beside.cursors.twin with ⟨twinStarts, twinText⟩
  rw [Scanner.symbol, Scanner.symbol, starts, twinStarts, text, twinText]
  split
  · exact .some (beside.read (length_symbolText_le line) _).agree
  · exact .none

theorem literalValue (beside : Beside line below more scanner other) :
    Agree below more scanner.literalValue other.literalValue := by
  have moved := beside.skipGap
  rw [literalValue_of_faces moved.cursors.faces rfl, literalValue_of_faces moved.cursors.twin rfl]
  exact rel_getD moved.quoted
    (moved.read (Text.length_trimEnd_takeWhile_le line.content _) _).agree

theorem colon (beside : Beside line below more scanner other) :
    scanner.colon.Rel (Agree below more) other.colon := by
  by_cases starts : line.head? = some ':'
  · rcases List.head?_eq_some_iff.mp starts with ⟨_ | ⟨first, tail⟩, rfl⟩
    · rw [colon_of_end beside.cursors.faces, colon_of_end beside.cursors.twin]
      exact .some (beside.read (Nat.le_refl 1) _).agree
    · have follows := followsSymbol_eq beside.toEchoes (beside.trails (List.cons_ne_nil _ _))
      have one : 1 ≤ (':' :: first :: tail).length := Nat.succ_pos _
      have two : 2 ≤ (':' :: first :: tail).length := Nat.succ_le_succ (Nat.succ_pos _)
      rw [colon_of_faces beside.cursors.faces, colon_of_faces beside.cursors.twin, follows]
      split
      · exact .some (beside.read two _).agree
      · split
        · split
          · exact .some (beside.read one _).agree
          · exact .some (beside.read one _).literalValue
        · split
          · exact .some (beside.read one _).agree
          · exact .none
  · rw [colon_eq_none_of_faces beside.cursors.faces starts,
      colon_eq_none_of_faces beside.cursors.twin starts]
    exact .none

theorem content (beside : Beside line below more scanner other) :
    scanner.content.Rel (Agree below more) other.content :=
  rel_orElse beside.mark (rel_orElse beside.colon (rel_orElse beside.quoted
    (rel_orElse beside.number beside.symbol)))

end Beside

/-! ## Steps inside a line -/

/-- The scanner behind the hyphen of an item and the gap there. -/
def behindHyphen (scanner : Scanner) : Scanner :=
  { scanner.emit (.symbol "yield") ⟨scanner.cursor.offset, scanner.cursor.offset + 1⟩ with
    cursor := (scanner.cursor.advance 1).skipGap }

theorem listItem_eq (scanner : Scanner) : scanner.listItem =
    if scanner.levels.current ≠ Levels.ofColumn scanner.cursor.column true then
      .error (.misalignedListItem scanner.cursor.column
        ⟨scanner.cursor.offset, scanner.cursor.offset + 1⟩)
    else if holdsAssignment none scanner.behindHyphen.cursor.line then
      .ok (emit { scanner.behindHyphen with
          levels := Levels.ofColumn scanner.behindHyphen.cursor.column false ::
            scanner.behindHyphen.levels }
        .indent ⟨scanner.cursor.offset, scanner.behindHyphen.cursor.offset⟩)
    else .ok scanner.behindHyphen := rfl

namespace Beside

theorem comment {first : Char} {tail : List Char}
    (beside : Beside (first :: tail) below more scanner other) :
    Beside [] below more scanner.comment other.comment := by
  have same : Echoes scanner.comment other.comment := by
    rw [Scanner.comment, Scanner.comment, beside.cursors.faces.trim_comment,
      beside.cursors.twin.trim_comment]
    refine Echoes.move beside.toEchoes.emit _ _ ?_
    rw [levels_emit, levels_emit, beside.levels_eq]
  exact ⟨same, beside.cursors.lineEnd, fun some => absurd rfl some⟩

theorem behindHyphen (beside : Beside line below more scanner other) (one : 1 ≤ line.length) :
    Beside (Line.content (line.drop 1)) below more scanner.behindHyphen other.behindHyphen := by
  have moved := beside.cursors.advance one
  refine ⟨?_, moved.skipGap, fun some => ?_⟩
  · refine Echoes.move beside.toEchoes.emit _ _ ?_
    rw [levels_emit, levels_emit, beside.levels_eq]
  · have hyphen := beside.cursors.offset_advance one
    have gap := moved.offset_skipGap some
    intro name stop newest twinStop twinNewest
    cases newest
    cases twinNewest
    change (scanner.cursor.advance 1).skipGap.offset + (other.cursor.offset + 1) =
      (other.cursor.advance 1).skipGap.offset + (scanner.cursor.offset + 1)
    omega

theorem listItem (beside : Beside line below more scanner other)
    (hyphen : scanner.cursor.atListHyphen = true) (read : scanner.listItem = .ok next) :
    ∃ twin, other.listItem = .ok twin ∧ Agree below more next twin := by
  rw [beside.cursors.faces.atListHyphen_eq, Cursor.startsMark, Bool.and_eq_true,
    Bool.and_eq_true] at hyphen
  have one : 1 ≤ line.length := (List.isPrefixOf_iff_prefix.mp hyphen.2.1).length_le
  have filled : line ≠ [] := by
    rintro rfl
    exact absurd one (Nat.not_succ_le_zero 0)
  have item := beside.behindHyphen one
  rw [listItem_eq, item.cursors.faces.holdsAssignment_eq] at read
  rw [listItem_eq, beside.cursors.column_eq filled, beside.levels_eq,
    item.cursors.twin.holdsAssignment_eq]
  split at read
  · cases read
  · rename_i aligned
    rw [if_neg aligned]
    split at read
    · rename_i assignment
      cases read
      rw [if_pos assignment]
      have some : Line.content (line.drop 1) ≠ [] := by
        intro none
        rw [none] at assignment
        cases assignment
      refine ⟨_, rfl, .inr ⟨Line.content (line.drop 1), ?_, ?_, fun _ => ?_⟩⟩
      · refine Echoes.emit (item.move _ _ ?_)
        exact congrArg₂ (Levels.ofColumn · false :: ·) (item.cursors.column_eq some) item.levels_eq
      · rw [cursor_emit, cursor_emit]
        exact item.cursors
      · intro name stop newest
        cases newest
    · rename_i none
      cases read
      rw [if_neg none]
      exact ⟨_, rfl, item.agree⟩

/-- While something is left of the line, both scanners take the same step. -/
theorem step (beside : Beside line below more scanner other) (some : line ≠ [])
    (stepped : scanner.step = .ok next) :
    ∃ twin, other.step = .ok twin ∧ Agree below more next twin := by
  rcases line with _ | ⟨first, tail⟩
  · exact absurd rfl some
  have noLine : first ≠ '\n' := fun same =>
    beside.cursors.faces.inner (same ▸ List.mem_cons_self)
  rcases beside.cursors.faces.front with ⟨margin, _, front⟩
  rcases beside.cursors.twin.front with ⟨twinMargin, _, twinFront⟩
  rw [Scanner.step, front, List.cons_append] at stepped
  rw [Scanner.step, twinFront, List.cons_append, beside.cursors.atListHyphen_eq]
  dsimp only at stepped ⊢
  rw [if_neg noLine] at stepped ⊢
  split at stepped
  · rename_i gap
    cases stepped
    rw [if_pos gap, flush_of_none beside.calm, flush_of_none beside.twinCalm]
    exact ⟨_, rfl, (beside.skip (Nat.succ_pos _)).agree⟩
  · rename_i noGap
    rw [if_neg noGap]
    split at stepped
    · rename_i comment
      cases stepped
      rw [if_pos comment]
      exact ⟨_, rfl, beside.comment.agree⟩
    · rename_i noComment
      rw [if_neg noComment]
      split at stepped
      · rename_i hyphen
        rw [if_pos hyphen]
        exact beside.listItem hyphen stepped
      · rename_i noHyphen
        rw [if_neg noHyphen]
        cases stepped
        exact ⟨_, rfl, rel_getD beside.content (.inl (stained_reject _ _))⟩

end Beside
end Scanner
end Manifest
