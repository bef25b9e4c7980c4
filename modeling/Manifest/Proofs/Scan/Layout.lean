import Manifest.Proofs.Scan.Entering
import Manifest.Proofs.Scan.Lines
import Manifest.Proofs.Scan.Spans

/-!
# The layout of tokens

The levels that are open are as many as have been announced and not closed
again, and what announces a line has content of that line behind it.  The
scanner keeps both, since it announces a line only in front of a character
that some rule reads or that begins an unrecognized run.
-/

namespace Manifest

namespace Lexeme

/-- The layout in front of content. -/
def announces : Lexeme → Bool
  | newline _ | indent => true
  | _ => false

theorem announces_of_content {lexeme : Lexeme} (content : lexeme.isContent = true) :
    lexeme.announces = false := by
  cases lexeme <;> first | rfl | cases content

theorem announces_of_layout {lexeme : Lexeme} (noLayout : lexeme.isLayout = false) :
    lexeme.announces = false := by
  cases lexeme <;> first | rfl | cases noLayout

end Lexeme

/-! ## Layered lexemes -/

/-- The newest of some lexemes.  The beginning counts as the end of a level. -/
def latest : List Lexeme → Lexeme
  | [] => .outdent
  | lexeme :: _ => lexeme

/-- Lexemes, newest first, with the levels that they leave open. -/
inductive Layered : Levels → List Lexeme → Prop
  | start : Layered [0] []
  | content {levels : Levels} {lexemes : List Lexeme} {lexeme : Lexeme} :
      lexeme.isContent = true → Layered levels lexemes → Layered levels (lexeme :: lexemes)
  /-- What may stand behind content, and nowhere else in its line. -/
  | trailing {levels : Levels} {lexemes : List Lexeme} {lexeme : Lexeme} :
      lexeme.isComment = true ∨ lexeme = .endOfInput → (latest lexemes).announces = false →
      Layered levels lexemes → Layered levels (lexeme :: lexemes)
  | newline {levels : Levels} {lexemes : List Lexeme} (column : Nat) :
      (latest lexemes).isLayout = false →
      Layered levels lexemes → Layered levels (.newline column :: lexemes)
  | indent {levels : Levels} {lexemes : List Lexeme} {level : Nat} :
      (latest lexemes).announces = false → levels.current < level →
      Layered levels lexemes → Layered (level :: levels) (.indent :: lexemes)
  | outdent {levels : Levels} {lexemes : List Lexeme} {level : Nat} :
      (latest lexemes).announces = false → levels ≠ [] →
      Layered (level :: levels) lexemes → Layered levels (.outdent :: lexemes)

namespace Layered

variable {levels : Levels} {lexemes earlier : List Lexeme} {lexeme : Lexeme}

theorem nested (layered : Layered levels lexemes) : levels.Nested := by
  induction layered with
  | start => exact Levels.nested_outermost
  | content _ _ ih => exact ih
  | trailing _ _ _ ih => exact ih
  | newline _ _ _ ih => exact ih
  | indent _ deeper _ ih => exact ih.cons deeper
  | outdent _ some _ ih => exact ih.of_cons some

/-- Levels that have been announced are open until they are closed. -/
theorem count_indent (layered : Layered levels lexemes) :
    lexemes.count .indent + 1 = lexemes.count .outdent + levels.length := by
  induction layered with
  | start => rfl
  | content content _ ih =>
    rename_i lexeme _
    rw [List.count_cons_of_ne (by rintro rfl; cases content),
      List.count_cons_of_ne (by rintro rfl; cases content), ih]
  | trailing trails _ _ ih =>
    rw [List.count_cons_of_ne (by rintro rfl; simp [Lexeme.isComment] at trails),
      List.count_cons_of_ne (by rintro rfl; simp [Lexeme.isComment] at trails), ih]
  | newline column _ _ ih =>
    rw [List.count_cons_of_ne (by rintro ⟨⟩), List.count_cons_of_ne (by rintro ⟨⟩), ih]
  | indent _ _ _ ih =>
    rw [List.count_cons_self, List.count_cons_of_ne (by rintro ⟨⟩), List.length_cons]
    omega
  | outdent _ _ _ ih =>
    rw [List.count_cons_self, List.count_cons_of_ne (by rintro ⟨⟩)]
    rw [List.length_cons] at ih
    omega

/-- Lexemes are layered at all times. -/
theorem suffix (layered : Layered levels lexemes) (behind : earlier <:+ lexemes) :
    ∃ levels, Layered levels earlier := by
  have tail : ∀ {levels lexeme lexemes}, Layered levels (lexeme :: lexemes) →
      ∃ levels, Layered levels lexemes := by
    intro levels lexeme lexemes layered
    cases layered <;> exact ⟨_, by assumption⟩
  induction lexemes generalizing levels with
  | nil =>
    rw [List.suffix_nil.mp behind]
    exact ⟨levels, layered⟩
  | cons lexeme lexemes ih =>
    rcases List.suffix_cons_iff.mp behind with rfl | behind
    · exact ⟨levels, layered⟩
    · rcases tail layered with ⟨before, layered⟩
      exact ih layered behind

/-- What is announced is content. -/
theorem announced (layered : Layered levels (lexeme :: lexemes))
    (announces : (latest lexemes).announces = true) : lexeme.isContent = true := by
  cases layered with
  | content content => exact content
  | trailing _ quiet => exact absurd (announces.symm.trans quiet) nofun
  | newline _ apart =>
    exact absurd (announces.symm.trans (Lexeme.announces_of_layout apart)) nofun
  | indent quiet => exact absurd (announces.symm.trans quiet) nofun
  | outdent quiet => exact absurd (announces.symm.trans quiet) nofun

theorem behind_newline {column : Nat} (layered : Layered levels (.newline column :: lexemes)) :
    (latest lexemes).isLayout = false := by
  cases layered with
  | content content => cases content
  | trailing trails => simp [Lexeme.isComment] at trails
  | newline _ apart => exact apart

end Layered

/-! ## In front of text -/

namespace Cursor

/-- What holds an assignment is no gap and no comment. -/
theorem atText_of_holdsAssignment {cursor : Cursor}
    (holds : holdsAssignment none cursor.skipGap.line = true) : cursor.skipGap.AtText := by
  cases found : cursor.skipGap.rest with
  | nil =>
    rw [line, found] at holds
    cases holds
  | cons first behind =>
    have stands : cursor.skipGap.rest.head? = some first := by
      rw [found]
      rfl
    refine ⟨first, stands, head_skipWhile stands, ?_, ?_⟩
    · rintro rfl
      rw [line, found] at holds
      cases holds
    · rintro rfl
      rw [line, found] at holds
      cases holds

/-- The content of an item begins behind its hyphen. -/
theorem column_item {cursor : Cursor} {behind : List Char} (found : cursor.rest = '-' :: behind) :
    cursor.column < (cursor.advance 1).skipGap.column := by
  have front : cursor.rest = ['-'] ++ behind := found
  have hyphen : (cursor.advance 1).column = cursor.column + 1 := column_advance front (by decide)
  rw [column_skipGap, hyphen]
  exact Nat.lt_of_lt_of_le (Nat.lt_succ_self _) (Nat.le_add_right _ _)

end Cursor

/-! ## Scanners that keep the layout -/

namespace Scanner

variable {scanner next : Scanner} {lexeme : Lexeme} {span : Span} {least : Nat}

/-- The lexemes of the tokens so far, newest first. -/
def written (scanner : Scanner) : List Lexeme :=
  scanner.tokens.map Token.lexeme

/-- What has been read is layered, and what has been announced stands in front. -/
structure LaidOut (scanner : Scanner) : Prop where
  layered : Layered scanner.levels scanner.written
  ahead : (latest scanner.written).announces = true → scanner.pending = none →
    scanner.cursor.AtText

theorem written_emit (none : scanner.pending = none) :
    (scanner.emit lexeme span).written = lexeme :: scanner.written := by
  rw [emit, flush_of_none none]
  rfl

theorem written_flush (scanner : Scanner) :
    scanner.flush = scanner ∧ scanner.pending = none ∨
      ∃ text, scanner.flush.written = .unknown text :: scanner.written := by
  rw [flush]
  split
  · exact .inl ⟨rfl, by assumption⟩
  · exact .inr ⟨_, rfl⟩

theorem layered_flush (layered : Layered scanner.levels scanner.written) :
    Layered scanner.flush.levels scanner.flush.written := by
  rw [levels_flush]
  rcases scanner.written_flush with ⟨same, _⟩ | ⟨text, written⟩
  · rw [same]
    exact layered
  · rw [written]
    exact .content rfl layered

/-- Away from content nothing has just been announced. -/
theorem LaidOut.quiet (laid : scanner.LaidOut) (away : ¬ scanner.cursor.AtText) :
    (latest scanner.flush.written).announces = false := by
  rcases scanner.written_flush with ⟨same, none⟩ | ⟨text, written⟩
  · rw [same]
    exact Bool.eq_false_iff.mpr fun announces => away (laid.ahead announces none)
  · rw [written]
    rfl

theorem laidOut_of_quiet (layered : Layered scanner.levels scanner.written)
    (quiet : (latest scanner.written).announces = false) : scanner.LaidOut :=
  ⟨layered, fun announces => absurd (announces.symm.trans quiet) nofun⟩

/-! ## Rules of content -/

theorem layered_emit (layered : Layered scanner.levels scanner.written)
    (content : lexeme.isContent = true) :
    Layered (scanner.emit lexeme span).levels (scanner.emit lexeme span).written :=
  .content content (layered_flush layered)

theorem layered_read (layered : Layered scanner.levels scanner.written) (count : Nat)
    (accepted : lexeme.isAccepted = true) :
    Layered (scanner.read count lexeme).levels (scanner.read count lexeme).written := by
  have moved : Layered (scanner.skip count).levels (scanner.skip count).written := layered
  exact layered_emit moved (Lexeme.isContent_of_isAccepted accepted)

theorem laidOut_takes (layered : Layered scanner.levels scanner.written)
    (takes : Takes least scanner next) : next.LaidOut := by
  cases takes with
  | read count lexeme _ accepted =>
    refine laidOut_of_quiet (layered_read layered count accepted) ?_
    exact Lexeme.announces_of_content (Lexeme.isContent_of_isAccepted accepted)
  | reject count => exact ⟨layered, fun _ => nofun⟩

theorem laidOut_content (layered : Layered scanner.levels scanner.written)
    (read : scanner.content = some next) : next.LaidOut := by
  cases content_accepts read with
  | once takes => exact laidOut_takes layered takes
  | literal takes =>
    have signed : Layered (scanner.read 1 (.assignment true)).skipGap.levels
        (scanner.read 1 (.assignment true)).skipGap.written := layered_read layered 1 rfl
    exact laidOut_takes signed takes

/-! ## Lines -/

/-- Levels are closed one after the other. -/
theorem layered_emitOutdents {inner outer : Levels} (none : scanner.pending = none)
    (layered : Layered (inner ++ outer) scanner.written) (some : outer ≠ [])
    (quiet : (latest scanner.written).announces = false) :
    Layered outer (emitOutdents span inner.length scanner).written ∧
      (latest (emitOutdents span inner.length scanner).written).announces = false ∧
      (emitOutdents span inner.length scanner).pending = Option.none := by
  induction inner generalizing scanner with
  | nil => exact ⟨layered, quiet, none⟩
  | cons top inner ih =>
    have closed : Layered (inner ++ outer) (scanner.emit .outdent span).written := by
      rw [written_emit none]
      exact .outdent quiet (List.append_ne_nil_of_right_ne_nil _ some) layered
    exact ih scanner.pending_flush closed rfl

theorem isLayout_latest (scanner : Scanner) (shown : scanner.suppressesNewline = false) :
    (latest scanner.written).isLayout = false := by
  rw [suppressesNewline] at shown
  rw [written]
  cases tokens : scanner.tokens with
  | nil =>
    rw [tokens] at shown
    cases shown
  | cons token earlier =>
    rw [tokens] at shown
    dsimp only at shown
    change token.lexeme.isLayout = false
    generalize token.lexeme = lexeme at shown
    cases lexeme <;> first | rfl | cases shown

theorem laidOut_beginLine {lineEnd : Nat} {announce : Bool}
    (layered : Layered scanner.levels scanner.written) (none : scanner.pending = none)
    (quiet : (latest scanner.written).announces = false)
    (begun : scanner.beginLine lineEnd announce = .ok next) : next.LaidOut := by
  have enters := entersLine_beginLine layered.nested lineEnd announce
  rw [begun] at enters
  cases enters with
  | deeper some deeper =>
    refine ⟨?_, fun _ _ => ?_⟩
    · rw [levels_emit, written_emit]
      · exact .indent quiet deeper layered
      · exact none
    · rw [cursor_emit]
      exact Cursor.atText_toContent some
  | announced some same shown =>
    refine ⟨?_, fun _ _ => ?_⟩
    · rw [levels_emit, written_emit]
      · exact .newline _ (scanner.isLayout_latest shown) layered
      · exact none
    · rw [cursor_emit]
      exact Cursor.atText_toContent some
  | silent => exact laidOut_of_quiet layered quiet
  | @outward inner outer split _ nested _ =>
    have closed := fun span => @layered_emitOutdents (scanner.atNextLine outer) span inner outer
      none (split ▸ layered) nested.ne_nil quiet
    refine laidOut_of_quiet ?_ (closed _).2.1
    rw [levels_emitOutdents]
    exact (closed _).1

/-! ## Steps -/

theorem laidOut_listItem {behind : List Char}
    (layered : Layered scanner.levels scanner.written)
    (found : scanner.cursor.rest = '-' :: behind) (read : scanner.listItem = .ok next) :
    next.LaidOut := by
  have item : ∀ span, Layered (scanner.emit (.symbol "yield") span).levels
      (scanner.emit (.symbol "yield") span).written := fun span => layered_emit layered rfl
  rw [listItem] at read
  dsimp only at read
  split at read
  · cases read
  · rename_i aligned
    split at read
    · rename_i holds
      cases read
      have deeper : scanner.levels.current <
          Levels.ofColumn (scanner.cursor.advance 1).skipGap.column false := by
        have behind := Cursor.column_item found
        rw [Decidable.not_not.mp aligned, Levels.ofColumn, Levels.ofColumn, Bool.toNat_true,
          Bool.toNat_false]
        omega
      refine ⟨?_, fun _ _ => ?_⟩
      · rw [levels_emit, written_emit]
        · refine .indent rfl ?_ (item _)
          rw [levels_emit]
          exact deeper
        · exact scanner.pending_flush
      · rw [cursor_emit]
        exact Cursor.atText_of_holdsAssignment holds
    · cases read
      exact laidOut_of_quiet (item _) rfl

theorem LaidOut.comment (laid : scanner.LaidOut) (stands : scanner.cursor.rest.head? = some '#') :
    scanner.comment.LaidOut := by
  have quiet := laid.quiet (Cursor.not_atText_of_head stands (.inr (.inl rfl)))
  exact laidOut_of_quiet (.trailing (.inl rfl) quiet (layered_flush laid.layered)) rfl

theorem LaidOut.moves (laid : scanner.LaidOut) (moves : scanner.Moves next) : next.LaidOut := by
  rcases List.exists_cons_of_ne_nil moves.1 with ⟨first, behind, found⟩
  have stands : scanner.cursor.rest.head? = some first := by
    rw [found]
    rfl
  have flushed := layered_flush laid.layered
  rcases step_cases found moves.2 with ⟨line, begun⟩ | ⟨_, within⟩
  · have quiet := laid.quiet (Cursor.not_atText_of_head stands (.inr (.inr line)))
    have moved : Layered (scanner.flush.skip 1).levels (scanner.flush.skip 1).written := flushed
    exact laidOut_beginLine moved scanner.pending_flush quiet begun
  · cases within with
    | gap gap =>
      exact laidOut_of_quiet flushed (laid.quiet (Cursor.not_atText_of_head stands (.inl gap)))
    | comment comment => exact laid.comment (comment ▸ stands)
    | item hyphen read =>
      rcases Cursor.exists_of_atListHyphen hyphen with ⟨_, next, behind, found, _⟩
      exact laidOut_listItem laid.layered found read
    | content read => exact laidOut_content laid.layered read
    -- the run that is open now will be the content that has been announced
    | nothing => exact ⟨laid.layered, fun _ => nofun⟩

theorem LaidOut.passed (laid : scanner.LaidOut)
    (passed : Relation.ReflTransGen Moves scanner next) : next.LaidOut := by
  induction passed with
  | refl => exact laid
  | tail _ moves ih => exact ih.moves moves

/-- At the end all levels are closed. -/
theorem LaidOut.finish (laid : scanner.LaidOut) (ended : scanner.cursor.rest = []) :
    Layered [0] scanner.finish.written := by
  have quiet := laid.quiet (by rintro ⟨first, stands, _⟩; rw [ended] at stands; cases stands)
  have layered := layered_flush laid.layered
  have split : scanner.flush.levels = scanner.levels.dropLast ++ [0] := by
    rw [levels_flush]
    exact (List.dropLast_append_getLast? 0 laid.layered.nested.outermost).symm
  rw [split] at layered
  have closed := fun span => @layered_emitOutdents scanner.flush span _ _ scanner.pending_flush
    layered (List.cons_ne_nil _ _) quiet
  rw [Scanner.finish, ← List.length_dropLast]
  rw [written_emit (closed _).2.2]
  exact .trailing (.inr rfl) (closed _).2.1 (closed _).1

end Scanner

/-! ## Whole sources -/

theorem laidOut_of_passes {source : String} {scanner : Scanner}
    (passes : Scanner.Passes source scanner) : scanner.LaidOut := by
  rcases passes with ⟨_, entered, begun, passed⟩
  exact (Scanner.laidOut_beginLine .start rfl rfl begun).passed passed

/-- The lexemes of a source are layered, and all levels are closed. -/
theorem tokenize_layered {source : String} {read : TokenizedSource}
    (tokenized : tokenize source = .ok read) :
    Layered [0] (read.tokens.map Token.lexeme).reverse := by
  cases empty : source.isEmpty with
  | true =>
    rw [tokenize, if_pos empty] at tokenized
    cases tokenized
    exact .trailing (.inr rfl) rfl .start
  | false =>
    rcases tokenize_eq_ok empty tokenized with ⟨entered, scanner, begun, finished, rfl⟩
    rcases Scanner.passes_of_run finished with ⟨passed, ended⟩
    have laid := laidOut_of_passes ⟨empty, entered, begun, passed⟩
    rw [List.map_reverse, List.reverse_reverse]
    exact laid.finish ended

/-- What stands in front of a token and the token itself are read first. -/
theorem layered_front {source : String} {read : TokenizedSource} {front behind : List Lexeme}
    {lexeme : Lexeme} (tokenized : tokenize source = .ok read)
    (split : read.tokens.map Token.lexeme = front ++ lexeme :: behind) :
    ∃ levels, Layered levels (lexeme :: front.reverse) := by
  refine (tokenize_layered tokenized).suffix ⟨behind.reverse, ?_⟩
  rw [split, List.reverse_append, List.reverse_cons, List.append_assoc]
  rfl

/-- The levels of a scanner are nested at all times, and one less than they are
have been announced and not been closed.  So in the tokens of a source no level
is closed before it is announced, and all are closed before the end of input,
which is the last token.  A line end stands behind a token that is no layout,
and content stands behind each line end and each level that is announced. -/
theorem tokenize_layout :
    (∀ (source : String) (scanner : Scanner),
      scanner = .ofText (normalize source.toList) ∨ Scanner.Passes source scanner →
      scanner.levels.Nested ∧
        scanner.written.count .indent =
          scanner.written.count .outdent + (scanner.levels.length - 1)) ∧
    ∀ (source : String) (read : TokenizedSource), tokenize source = .ok read →
      (∀ front, front <+: read.tokens.map Token.lexeme →
        front.count .outdent ≤ front.count .indent) ∧
      (read.tokens.map Token.lexeme).count .indent =
        (read.tokens.map Token.lexeme).count .outdent ∧
      (read.tokens.map Token.lexeme).count .endOfInput = 1 ∧
      (read.tokens.map Token.lexeme).getLast? = some .endOfInput ∧
      (∀ front column behind, read.tokens.map Token.lexeme = front ++ .newline column :: behind →
        ∃ previous, front.getLast? = some previous ∧ previous.isLayout = false) ∧
      ∀ front lexeme behind, read.tokens.map Token.lexeme = front ++ lexeme :: behind →
        lexeme.announces = true →
        ∃ next, behind.head? = some next ∧ next.isContent = true := by
  constructor
  · intro source scanner reached
    have layered : Layered scanner.levels scanner.written := by
      rcases reached with rfl | passes
      · exact .start
      · exact (laidOut_of_passes passes).layered
    have balance := layered.count_indent
    have open_ := List.length_pos_of_ne_nil layered.nested.ne_nil
    exact ⟨layered.nested, by omega⟩
  · intro source read tokenized
    have layered := tokenize_layered tokenized
    rcases tokenize_ends tokenized with ⟨content, ends, noEnd⟩
    refine ⟨fun front prior => ?_, ?_, ?_, ?_, fun front column behind split => ?_,
      fun front lexeme behind split announces => ?_⟩
    · rcases layered.suffix (List.reverse_suffix.mpr prior) with ⟨levels, layered⟩
      have balance := layered.count_indent
      have open_ := List.length_pos_of_ne_nil layered.nested.ne_nil
      rw [List.count_reverse, List.count_reverse] at balance
      omega
    · have balance := layered.count_indent
      rw [List.count_reverse, List.count_reverse] at balance
      exact Nat.succ.inj balance
    · rw [ends, List.count_append, List.count_eq_zero.mpr noEnd, List.count_singleton_self]
    · rw [ends, List.getLast?_concat]
    · rcases layered_front tokenized split with ⟨levels, layered⟩
      have apart := layered.behind_newline
      rw [List.getLast?_eq_head?_reverse]
      cases earlier : front.reverse with
      | nil =>
        rw [earlier] at apart
        cases apart
      | cons previous more =>
        rw [earlier] at apart
        exact ⟨previous, rfl, apart⟩
    · cases behind with
      | nil =>
        have last := congrArg List.getLast? (ends.symm.trans split)
        rw [List.getLast?_concat, List.getLast?_concat] at last
        cases last
        cases announces
      | cons next behind =>
        have further : read.tokens.map Token.lexeme = (front ++ [lexeme]) ++ next :: behind := by
          rw [split, List.append_assoc]
          rfl
        rcases layered_front tokenized further with ⟨levels, layered⟩
        rw [List.reverse_append] at layered
        exact ⟨next, rfl, layered.announced announces⟩

/-- A list below its key, an item with a mapping of its own, and unrecognized
characters on a line of their own. -/
theorem tokenize_layout_list_and_run :
    ∃ read scanner, tokenize "a:\n- b: x\n  c: y\n@\n" = .ok read ∧
      Scanner.Passes "a:\n- b: x\n  c: y\n@\n" scanner ∧ scanner.levels.Nested ∧
      read.tokens.map Token.lexeme = [.symbol "a", .assignment false, .indent, .symbol "yield",
        .indent, .symbol "b", .assignment true, .text "x", .newline 2, .symbol "c",
        .assignment true, .text "y", .outdent, .outdent, .unknown "@", .endOfInput] ∧
      (read.tokens.map Token.lexeme).count .indent =
        (read.tokens.map Token.lexeme).count .outdent := by
  have checked : ((tokenize "a:\n- b: x\n  c: y\n@\n").toOption.any fun read => decide (
      read.tokens.map Token.lexeme = [.symbol "a", .assignment false, .indent, .symbol "yield",
        .indent, .symbol "b", .assignment true, .text "x", .newline 2, .symbol "c",
        .assignment true, .text "y", .outdent, .outdent, .unknown "@", .endOfInput])) = true := by
    decide +kernel
  rcases any_toOption checked with ⟨read, tokenized, checked⟩
  rcases tokenize_eq_ok (by decide) tokenized with ⟨entered, scanner, begun, finished, _⟩
  have passes : Scanner.Passes "a:\n- b: x\n  c: y\n@\n" scanner :=
    ⟨by decide, entered, begun, (Scanner.passes_of_run finished).1⟩
  exact ⟨read, scanner, tokenized, passes, (tokenize_layout.1 _ _ (.inr passes)).1,
    of_decide_eq_true checked, (tokenize_layout.2 _ _ tokenized).2.1⟩

end Manifest
