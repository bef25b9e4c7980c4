import Manifest.Proofs.Scan.Extent
import Manifest.Proofs.Scan.Twins
import Manifest.Proofs.Scan.Visits

/-!
# Items that open a level

Behind the hyphen of an item the line is looked through for an assignment, and one that
is found opens a level.  The tokens of the line are read afterwards.  Whether they hold
the sign of an assignment is told by the line as well, and by nothing else.  The two
agree as long as no quote is escaped.
-/

namespace Manifest

/-- The tokens of a line open a level at a hyphen. -/
def OpensLevel (hyphen : Nat) (inline : List Token) : Prop :=
  ∃ stop, inline.head? = some ⟨.indent, hyphen, stop⟩

namespace Scanner

variable {scanner next final : Scanner}

/-! ## The item -/

theorem step_of_atListHyphen (hyphen : scanner.cursor.atListHyphen = true) :
    scanner.step = scanner.listItem := by
  rcases Cursor.exists_of_atListHyphen hyphen with ⟨_, second, behind, found, _⟩
  rw [step, found]
  dsimp only
  rw [if_neg (by decide), if_neg (by decide), if_neg (by decide), if_pos hyphen]

/-- The level that an item opens. -/
def levelToken (scanner : Scanner) : List Token :=
  let content := (scanner.cursor.advance 1).skipGap
  if holdsAssignment none content.line then
    [⟨.indent, scanner.cursor.offset, content.offset⟩]
  else []

theorem mem_levelToken {token : Token} (inside : token ∈ scanner.levelToken) :
    holdsAssignment none (scanner.cursor.advance 1).skipGap.line = true ∧
      token = ⟨.indent, scanner.cursor.offset, (scanner.cursor.advance 1).skipGap.offset⟩ := by
  rw [levelToken] at inside
  split at inside
  · exact ⟨by assumption, List.mem_singleton.mp inside⟩
  · cases inside

theorem reverse_levelToken (scanner : Scanner) :
    scanner.levelToken.reverse = scanner.levelToken := by
  rw [levelToken]
  split <;> rfl

theorem signs_levelToken (scanner : Scanner) : signs scanner.levelToken = false := by
  rw [levelToken]
  split <;> rfl

theorem tokens_emit {lexeme : Lexeme} {span : Span} (none : scanner.pending = none) :
    (scanner.emit lexeme span).tokens = ⟨lexeme, span⟩ :: scanner.tokens := by
  rw [emit, flush_of_none none]

/-- What has been read behind a hyphen. -/
theorem listItem_eq_ok (read : scanner.listItem = .ok next) :
    next.tokens = scanner.levelToken ++
      ⟨.symbol "yield", scanner.cursor.offset, scanner.cursor.offset + 1⟩ :: scanner.flush.tokens ∧
    next.pending = none := by
  have closed : scanner.behindHyphen.pending = none := scanner.pending_flush
  rw [listItem_eq] at read
  split at read
  · cases read
  · split at read
    · rename_i holds
      cases read
      have level : scanner.levelToken =
          [⟨.indent, scanner.cursor.offset, scanner.behindHyphen.cursor.offset⟩] := if_pos holds
      rw [level]
      exact ⟨tokens_emit closed, pending_emit _ _ _⟩
    · rename_i none
      cases read
      have level : scanner.levelToken = [] := if_neg none
      rw [level]
      exact ⟨rfl, closed⟩

/-! ## Its line -/

/-- At the end of a line it makes no difference whether the open run has been closed. -/
theorem Moves.of_flush {below : List Char} (moves : scanner.Moves next)
    (stands : scanner.cursor.rest = '\n' :: below) : scanner.flush.Moves next := by
  refine ⟨?_, ?_⟩
  · rw [cursor_flush]
    exact moves.1
  · have ended : scanner.flush.cursor.rest = '\n' :: below := by
      rw [cursor_flush]
      exact stands
    have stepped := moves.2
    rw [step, stands] at stepped
    rw [step, ended, flush_of_none scanner.pending_flush, cursor_flush]
    exact stepped

/-- The first token behind a hyphen opens a level there if the line asks for it, since the
others begin behind the hyphen. -/
theorem opensLevel_iff {inline : List Token}
    (behind : ∀ token ∈ inline, scanner.cursor.offset < token.span.start) :
    OpensLevel scanner.cursor.offset (scanner.levelToken ++ inline) ↔
      holdsAssignment none (scanner.cursor.advance 1).skipGap.line = true := by
  rw [levelToken]
  split
  · rename_i holds
    exact iff_of_true ⟨_, rfl⟩ holds
  · rename_i none
    refine iff_of_false ?_ none
    rintro ⟨stop, first⟩
    exact absurd (behind _ (List.mem_of_mem_head? first)) (Nat.lt_irrefl _)

/-- The tokens behind a hyphen: first those of its line, which the line foretells, and
then those of the lines below. -/
theorem Aligned.item_tokens (aligned : scanner.Aligned) (finished : scanner.run = .ok final)
    (hyphen : scanner.cursor.atListHyphen = true) {below : List Char}
    (ends : scanner.cursor.lineEnd.rest = '\n' :: below) :
    ∃ inline further, final.finish.tokens.reverse = scanner.flush.tokens.reverse ++
        ⟨.symbol "yield", scanner.cursor.offset, scanner.cursor.offset + 1⟩ ::
          (inline ++ further) ∧
      (∀ token ∈ inline, scanner.cursor.offset ≤ token.span.start ∧
        token.span.stop ≤ scanner.cursor.lineEnd.offset) ∧
      (∀ token ∈ further, scanner.cursor.lineEnd.offset ≤ token.span.start) ∧
      (OpensLevel scanner.cursor.offset inline ↔
        holdsAssignment none (scanner.cursor.advance 1).skipGap.line = true) ∧
      signs inline = readsAssignment none (scanner.cursor.advance 1).skipGap.line := by
  rcases Cursor.exists_of_atListHyphen hyphen with ⟨_, second, behind, found, _⟩
  have inner : scanner.cursor.rest ≠ [] := found ▸ List.cons_ne_nil _ _
  rcases aligned.listItem hyphen with ⟨next, read, _⟩
  have moves : scanner.Moves next := ⟨inner, (step_of_atListHyphen hyphen).trans read⟩
  have content := listItem_cursor read
  have along : scanner.cursor.OnLine 1 next.cursor :=
    (WithinLine.item hyphen read).onLine found (by decide)
  rcases listItem_eq_ok read with ⟨tokens, none⟩
  rcases line_foretells (aligned.late along) with ⟨last, passed, reached, added, whole, told⟩
  rw [along.lineEnd_eq] at reached
  have stands : last.cursor.rest = '\n' :: below := by
    rw [reached]
    exact ends
  rcases exists_moves (run_of_reads (.head moves passed) finished)
    (stands ▸ List.cons_ne_nil _ _) with ⟨entered, leaves, goesOn⟩
  have below : ReadFrom last.cursor.offset last.flush.tokens final.finish := by
    have here := readFrom_here last.pending_flush
    rw [cursor_flush] at here
    exact ((here.moves (leaves.of_flush stands)).passed (passes_of_run goesOn).1).finish
  have line : ReadFrom next.cursor.offset next.tokens last.flush :=
    ((readFrom_here none).passed passed).flush
  rcases below.added with ⟨further, wholeFurther, later⟩
  rcases line.added with ⟨inline, wholeInline, between⟩
  rw [cursor_flush, reached, content] at between
  -- besides what the line foretells there is only the run with which it may end
  rcases Foretells.flush last with ⟨run, closes, quiet⟩
  have same : inline = run ++ added := by
    refine List.append_cancel_right (?_ : inline ++ next.tokens = (run ++ added) ++ next.tokens)
    rw [← wholeInline, closes, whole, List.append_assoc]
  have behind : ∀ token ∈ inline.reverse, scanner.cursor.offset < token.span.start := by
    intro token inside
    exact Nat.lt_of_lt_of_le (Cursor.offset_lt_item inner)
      (between token (List.mem_reverse.mp inside)).1
  refine ⟨scanner.levelToken ++ inline.reverse, further.reverse, ?_, ?_, ?_, opensLevel_iff behind,
    ?_⟩
  · rw [wholeFurther, wholeInline, tokens]
    simp only [List.reverse_append, List.reverse_cons, reverse_levelToken, List.append_assoc,
      List.cons_append, List.nil_append]
  · intro token inside
    rcases List.mem_append.mp inside with level | inside
    · rcases mem_levelToken level with ⟨_, rfl⟩
      refine ⟨Nat.le_refl _, ?_⟩
      rw [← along.lineEnd_eq, content]
      exact Cursor.offset_le_advance _ _
    · exact ⟨Nat.le_of_lt (behind token inside), (between token (List.mem_reverse.mp inside)).2⟩
  · intro token inside
    rw [← reached]
    exact (later token (List.mem_reverse.mp inside)).1
  · rw [signs_append, signs_levelToken, Bool.false_or, signs, List.any_reverse, ← signs, same,
      signs_append, quiet, Bool.false_or, told, content]

end Scanner

/-! ## Whole sources -/

theorem Line.hasContent_of_isItem {line : Line} (item : line.isItem = true) :
    line.hasContent = true := by
  rw [isItem] at item
  rw [hasContent]
  split at item
  · rename_i found
    rw [found]
    rfl
  · cases item

/-- A source with an item is not empty. -/
theorem isEmpty_of_item {source : String} {front behind : List Line} {line : Line}
    (split : (normalize source.toList).splitOn '\n' = front ++ line :: behind)
    (item : line.isItem = true) : source.isEmpty = false := by
  refine Bool.eq_false_iff.mpr fun empty => ?_
  have lines : (normalize source.toList).splitOn '\n' = [[], []] := by
    rw [String.isEmpty_iff.mp empty]
    rfl
  have member : line ∈ [[], []] := by
    rw [← lines, split]
    exact List.mem_append_right _ List.mem_cons_self
  have blank : line = [] := by simpa using member
  rw [blank] at item
  cases item

namespace Cursor

variable {start : Cursor} {offset : Nat} {line : Line}

theorem AtLine.offset_skipGap (atLine : start.AtLine offset line) :
    start.skipGap.offset = offset + Text.bytes line.gap := by
  rcases atLine.front with ⟨below, found⟩
  rw [skipGap_line found, offset_advance (gap_split found), atLine.offset_eq]

theorem AtLine.offset_lineEnd (atLine : start.AtLine offset line) :
    start.skipGap.lineEnd.offset = offset + Text.bytes line := by
  rcases atLine.front with ⟨below, found⟩
  have same : start.line = line := by
    rw [Cursor.line, found]
    exact Text.line_append atLine.inner below
  rw [lineEnd_skipGap, lineEnd, same, offset_advance found, atLine.offset_eq]

end Cursor

/-- The tokens of an item stand between its hyphen and the end of its line.  They open a
level at the hyphen exactly if the text behind it is found to hold an assignment, and
they hold the sign of one exactly if the reading of that text comes to one.  Without an
escaped quote in front of the first sign these are the same. -/
theorem item_lookahead {source : String} {read : TokenizedSource}
    (tokenized : tokenize source = .ok read) {front behind : List Line} {line : Line}
    (split : (normalize source.toList).splitOn '\n' = front ++ line :: behind)
    (item : line.isItem = true) :
    let hyphen := Line.offsetBehind front + Text.bytes line.gap
    let lineEnd := Line.offsetBehind front + Text.bytes line
    let text := line.behindHyphen.content
    ∃ before inline below,
      read.tokens = before ++ ⟨.symbol "yield", hyphen, hyphen + 1⟩ :: (inline ++ below) ∧
      (∀ token ∈ inline, hyphen ≤ token.span.start ∧ token.span.stop ≤ lineEnd) ∧
      (∀ token ∈ below, lineEnd ≤ token.span.start) ∧
      (OpensLevel hyphen inline ↔ holdsAssignment none text = true) ∧
      (Scanner.signs inline = true ↔ readsAssignment none text = true) ∧
      (escapesQuote none text = false →
        (OpensLevel hyphen inline ↔ Scanner.signs inline = true)) := by
  intro hyphen lineEnd text
  have nonempty := isEmpty_of_item split item
  rcases tokenize_eq_ok nonempty tokenized with ⟨entered, final, begun, finished, rfl⟩
  have aligned : entered.Aligned := aligned_of_passes ⟨nonempty, entered, begun, .refl⟩
  rcases aligned.visits finished (startsLine_ofText source.toList) (Scanner.cursor_beginLine begun)
    split (Line.hasContent_of_isItem item) with ⟨here, start, passed, atLine, same⟩
  have zero : (Scanner.ofText (normalize source.toList)).cursor.offset = 0 := rfl
  rw [zero, Nat.zero_add] at atLine
  rcases atLine.front with ⟨below, found⟩
  have atHyphen : here.cursor.atListHyphen = true := by
    rw [same, Cursor.atListHyphen_skipGap atLine.starts.fresh found atLine.inner]
    exact item
  have ended : here.cursor.lineEnd.rest = '\n' :: below := by
    rw [same, Cursor.lineEnd_skipGap]
    exact Cursor.rest_lineEnd found atLine.inner
  have content : (here.cursor.advance 1).skipGap.line = text := by
    rw [same]
    exact Cursor.line_behindGap (Cursor.rest_behindHyphen found item)
      (Cursor.newline_notMem_behindHyphen atLine.inner)
  rcases (aligned.passed passed).item_tokens (Scanner.run_of_reads passed finished) atHyphen ended
    with ⟨inline, further, tokens, between, later, opens, signs⟩
  rw [content] at opens signs
  rw [same, atLine.offset_skipGap] at tokens between opens
  rw [atLine.offset_lineEnd] at between
  rw [same, atLine.offset_lineEnd] at later
  refine ⟨_, inline, further, tokens, between, later, opens, ?_, fun plain => ?_⟩
  · rw [signs]
  · rw [signs, readsAssignment_eq_holdsAssignment plain]
    exact opens

/-- A colon in single quotes, an escaped backslash in double quotes, an assignment, and
another one in a comment. -/
theorem item_lookahead_behind_quotes :
    ∃ read before inline below, tokenize "a:\n- ': ' \"b\\\\\" c: d # e: f" = .ok read ∧
      read.tokens = before ++ ⟨.symbol "yield", 3, 4⟩ :: (inline ++ below) ∧
      OpensLevel 3 inline ∧ Scanner.signs inline = true := by
  have some : (tokenize "a:\n- ': ' \"b\\\\\" c: d # e: f").toOption.any
      (fun _ => true) = true := by
    decide +kernel
  rcases any_toOption some with ⟨read, tokenized, _⟩
  have split : (normalize "a:\n- ': ' \"b\\\\\" c: d # e: f".toList).splitOn '\n' =
      ["a:".toList] ++ "- ': ' \"b\\\\\" c: d # e: f".toList :: [[]] := by
    decide +kernel
  rcases item_lookahead tokenized split (by decide +kernel) with
    ⟨before, inline, below, tokens, _, _, opens, _, same⟩
  have level := opens.mpr (by decide +kernel)
  exact ⟨read, before, inline, below, tokenized, tokens, level,
    (same (by decide +kernel)).mp level⟩

/-- Behind an escaped quote a colon in a string is taken for a sign, so a level is opened
for a line without any, and the sign behind such a string is not found. -/
theorem escaped_quote_misleads :
    (∃ read, tokenize "- \"a\\\"b: c\"\n" = .ok read ∧
      read.tokens.map Token.lexeme = [.indent, .symbol "yield", .indent, .text "a\"b: c",
        .outdent, .outdent, .endOfInput]) ∧
    ∃ read, tokenize "- \"a\\\"\" b: c\n" = .ok read ∧
      read.tokens.map Token.lexeme = [.indent, .symbol "yield", .text "a\"", .symbol "b",
        .assignment true, .text "c", .outdent, .endOfInput] := by
  constructor
  · have checked : ((tokenize "- \"a\\\"b: c\"\n").toOption.any fun read => decide (
        read.tokens.map Token.lexeme = [.indent, .symbol "yield", .indent, .text "a\"b: c",
          .outdent, .outdent, .endOfInput])) = true := by
      decide +kernel
    rcases any_toOption checked with ⟨read, tokenized, known⟩
    exact ⟨read, tokenized, of_decide_eq_true known⟩
  · have checked : ((tokenize "- \"a\\\"\" b: c\n").toOption.any fun read => decide (
        read.tokens.map Token.lexeme = [.indent, .symbol "yield", .text "a\"", .symbol "b",
          .assignment true, .text "c", .outdent, .endOfInput])) = true := by
      decide +kernel
    rcases any_toOption checked with ⟨read, tokenized, known⟩
    exact ⟨read, tokenized, of_decide_eq_true known⟩

end Manifest
