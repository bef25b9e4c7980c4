import Mathlib.Data.List.Chain
import Manifest.Proofs.Scan.Steps

/-!
# The order of tokens

A comment stands behind content of its own line and is the last token of that
line: lines that hold only a comment are passed over as if they were empty.
The end of input is the last token.  Both follow from what a scanner has in
front of it when its newest token is a comment, or layout.
-/

namespace Manifest

namespace Lexeme

/-- Whether a token may follow another. -/
def mayFollow (previous lexeme : Lexeme) : Bool :=
  !(previous == .endOfInput) && (!lexeme.isComment || previous.isContent) &&
    (!previous.isComment || lexeme.isLayout || lexeme == .endOfInput)

theorem mayFollow_of_content {previous lexeme : Lexeme} (content : previous.isContent = true) :
    mayFollow previous lexeme = true := by
  cases previous <;> cases lexeme <;> first | rfl | cases content

/-- Content may follow anything but a comment and the end. -/
theorem content_mayFollow {previous lexeme : Lexeme} (content : lexeme.isContent = true)
    (noComment : previous.isComment = false) (noEnd : previous ≠ .endOfInput) :
    mayFollow previous lexeme = true := by
  cases lexeme <;> first
    | (cases content; done)
    | (cases previous <;> first
      | rfl
      | (cases noComment; done)
      | exact absurd rfl noEnd)

theorem layout_mayFollow {previous lexeme : Lexeme} (layout : lexeme.isLayout = true)
    (noEnd : previous ≠ .endOfInput) : mayFollow previous lexeme = true := by
  cases lexeme <;> first
    | (cases layout; done)
    | (cases previous <;> first
      | rfl
      | exact absurd rfl noEnd)

end Lexeme

/-! ## In front of content -/

namespace Cursor

/-- A cursor stands at content, or at the end of its line. -/
def AtContent (cursor : Cursor) : Prop :=
  ∀ character, cursor.rest.head? = some character →
    Text.isGap character = false ∧ character ≠ '#'

theorem rest_skipWhile (test : Char → Bool) (cursor : Cursor) :
    (cursor.skipWhile test).rest = cursor.rest.dropWhile test := by
  have whole := @List.takeWhile_append_dropWhile _ test cursor.rest
  calc (cursor.skipWhile test).rest
      = (cursor.rest.takeWhile test ++ cursor.rest.dropWhile test).drop
          (cursor.rest.takeWhile test).length := by
        rw [whole]
        rfl
    _ = cursor.rest.dropWhile test := List.drop_left

/-- Behind the characters that pass a test stands one that fails it. -/
theorem head_skipWhile {test : Char → Bool} {cursor : Cursor} {character : Char}
    (stands : (cursor.skipWhile test).rest.head? = some character) : test character = false := by
  have passed := List.head?_dropWhile_not test cursor.rest
  rw [← rest_skipWhile, stands] at passed
  exact passed

theorem atContent_toContent (cursor : Cursor) : cursor.toContent.AtContent := by
  fun_induction toContent cursor with
  | case1 cursor rest found ih => exact ih
  | case2 cursor rest found ih => exact ih
  | case3 cursor notLine notComment =>
    intro character stands
    refine ⟨head_skipWhile stands, ?_⟩
    rintro rfl
    rcases List.head?_eq_some_iff.mp stands with ⟨rest, found⟩
    exact notComment rest found

end Cursor

namespace Scanner

variable {scanner next : Scanner} {lexeme : Lexeme} {span : Span}

/-- The lexemes of the tokens so far, newest first.  The source is preceded by
the beginning of a line. -/
def lexemes (scanner : Scanner) : List Lexeme :=
  scanner.tokens.map Token.lexeme ++ [.newline 0]

def newest (scanner : Scanner) : Lexeme :=
  (scanner.tokens.head?.map Token.lexeme).getD (.newline 0)

/-- Every token may follow the one in front of it, and others may follow. -/
structure Ordered (scanner : Scanner) : Prop where
  chain : scanner.lexemes.IsChain fun lexeme previous => Lexeme.mayFollow previous lexeme = true
  opened : scanner.newest ≠ .endOfInput

theorem lexemes_eq (scanner : Scanner) :
    ∃ earlier, scanner.lexemes = scanner.newest :: earlier := by
  rw [lexemes, newest]
  cases scanner.tokens with
  | nil => exact ⟨[], rfl⟩
  | cons token tokens => exact ⟨tokens.map Token.lexeme ++ [.newline 0], rfl⟩

theorem Ordered.chain_cons (ordered : scanner.Ordered)
    (follows : Lexeme.mayFollow scanner.newest lexeme = true) :
    (lexeme :: scanner.lexemes).IsChain fun lexeme previous =>
      Lexeme.mayFollow previous lexeme = true := by
  rcases scanner.lexemes_eq with ⟨earlier, equal⟩
  have chain := ordered.chain
  rw [equal] at chain ⊢
  exact .cons_cons follows chain

/-- Content may follow. -/
structure Ready (scanner : Scanner) : Prop extends Ordered scanner where
  noComment : scanner.newest.isComment = false

theorem Ordered.of_tokens (ordered : scanner.Ordered) (same : next.tokens = scanner.tokens) :
    next.Ordered := by
  rcases ordered with ⟨chain, opened⟩
  rw [lexemes, ← same] at chain
  rw [newest, ← same] at opened
  exact ⟨chain, opened⟩

theorem Ready.of_tokens (ready : scanner.Ready) (same : next.tokens = scanner.tokens) :
    next.Ready := by
  refine ⟨ready.toOrdered.of_tokens same, ?_⟩
  rw [newest, same]
  exact ready.noComment

/-- Behind a comment the line ends, and behind layout content begins. -/
structure Orderly (scanner : Scanner) : Prop extends Ordered scanner where
  behindComment : scanner.newest.isComment = true →
    scanner.pending = none ∧ ∀ character, scanner.cursor.rest.head? = some character →
      character = '\n'
  behindLayout : scanner.newest.isLayout = true → scanner.pending = none →
    scanner.cursor.AtContent

theorem Orderly.ready (orderly : scanner.Orderly) {character : Char}
    (stands : scanner.cursor.rest.head? = some character) (inner : character ≠ '\n') :
    scanner.Ready := by
  refine ⟨orderly.toOrdered, Bool.eq_false_iff.mpr fun comment => ?_⟩
  exact inner ((orderly.behindComment comment).2 character stands)

theorem Ready.orderly_of_content (ready : scanner.Ready)
    (content : scanner.newest.isContent = true) : scanner.Orderly := by
  refine ⟨ready.toOrdered, fun comment => ?_, fun layout => ?_⟩
  · rw [ready.noComment] at comment
    cases comment
  · simp [Lexeme.isContent, layout] at content

theorem Ready.orderly_of_pending (ready : scanner.Ready) (pending : scanner.pending ≠ none) :
    scanner.Orderly := by
  refine ⟨ready.toOrdered, fun comment => ?_, fun _ none => absurd none pending⟩
  rw [ready.noComment] at comment
  cases comment

/-! ## Producing tokens -/

theorem flush_of_none (none : scanner.pending = none) : scanner.flush = scanner := by
  rw [flush, none]

theorem pending_flush (scanner : Scanner) : scanner.flush.pending = none := by
  rw [flush]
  split
  · assumption
  · rfl

theorem cursor_flush (scanner : Scanner) : scanner.flush.cursor = scanner.cursor := by
  rw [flush]
  split <;> rfl

theorem pending_emit (scanner : Scanner) (lexeme : Lexeme) (span : Span) :
    (scanner.emit lexeme span).pending = none :=
  scanner.pending_flush

theorem cursor_emit (scanner : Scanner) (lexeme : Lexeme) (span : Span) :
    (scanner.emit lexeme span).cursor = scanner.cursor :=
  scanner.cursor_flush

theorem cursor_emitOutdents (span : Span) (count : Nat) (scanner : Scanner) :
    (emitOutdents span count scanner).cursor = scanner.cursor := by
  induction count generalizing scanner with
  | zero => rfl
  | succ count ih => exact (ih _).trans (cursor_emit _ _ _)

/-- A run that is closed becomes content. -/
theorem newest_flush (scanner : Scanner) :
    scanner.flush = scanner ∧ scanner.pending = none ∨
      ∃ text, scanner.flush.newest = .unknown text := by
  rw [flush]
  split
  · exact .inl ⟨rfl, by assumption⟩
  · exact .inr ⟨_, rfl⟩

theorem Ordered.emit_flushed (ordered : scanner.flush.Ordered)
    (follows : Lexeme.mayFollow scanner.flush.newest lexeme = true)
    (inner : lexeme ≠ .endOfInput) : (scanner.emit lexeme span).Ordered :=
  ⟨ordered.chain_cons follows, inner⟩

theorem Ready.flush (ready : scanner.Ready) : scanner.flush.Ready := by
  rw [Scanner.flush]
  split
  · exact ready
  · refine ⟨⟨ready.chain_cons ?_, by rintro ⟨⟩⟩, rfl⟩
    exact Lexeme.content_mayFollow rfl ready.noComment ready.opened

/-- An open run begins behind something else than a comment. -/
theorem Orderly.flush (orderly : scanner.Orderly) : scanner.flush.Ordered := by
  rcases Bool.eq_false_or_eq_true scanner.newest.isComment with comment | noComment
  · rw [flush_of_none (orderly.behindComment comment).1]
    exact orderly.toOrdered
  · exact (Ready.flush ⟨orderly.toOrdered, noComment⟩).toOrdered

theorem Ready.emit (ready : scanner.Ready) (content : lexeme.isContent = true) :
    (scanner.emit lexeme span).Ready := by
  have follows := Lexeme.content_mayFollow content ready.flush.noComment ready.flush.opened
  refine ⟨Ordered.emit_flushed ready.flush.toOrdered follows ?_, ?_⟩
  · rintro rfl
    cases content
  · cases lexeme <;> first | rfl | cases content

theorem Ready.read (ready : scanner.Ready) (count : Nat) (content : lexeme.isContent = true) :
    (scanner.read count lexeme).Ready := by
  have moved : (scanner.skip count).Ready := ready.of_tokens rfl
  exact moved.emit content

/-! ## Rules of content -/

theorem Ready.reject (ready : scanner.Ready) (count : Nat) : (scanner.reject count).Orderly := by
  have moved : (scanner.reject count).Ready := ready.of_tokens rfl
  exact moved.orderly_of_pending (by rintro ⟨⟩)

theorem Ready.takes {least : Nat} (ready : scanner.Ready) (takes : Takes least scanner next) :
    next.Orderly := by
  cases takes with
  | read count lexeme _ accepted =>
    have content := Lexeme.isContent_of_isAccepted accepted
    exact (ready.read count content).orderly_of_content content
  | reject count => exact ready.reject count

theorem Ready.content (ready : scanner.Ready) (read : scanner.content = some next) :
    next.Orderly := by
  cases content_accepts read with
  | once takes => exact ready.takes takes
  | literal takes =>
    have signed : (scanner.read 1 (.assignment true)).skipGap.Ready :=
      (ready.read 1 rfl).of_tokens rfl
    exact signed.takes takes

/-! ## Lines -/

/-- Layout in front of content. -/
theorem Ordered.orderly_layout (ordered : scanner.Ordered) (none : scanner.pending = none)
    (content : scanner.cursor.AtContent) (layout : lexeme.isLayout = true) :
    (scanner.emit lexeme span).Orderly := by
  have same := flush_of_none none
  have follows := Lexeme.layout_mayFollow layout ordered.opened
  refine ⟨Ordered.emit_flushed (same.symm ▸ ordered) (same.symm ▸ follows) ?_, ?_, ?_⟩
  · rintro rfl
    cases layout
  · intro comment
    cases lexeme <;> first | (cases layout; done) | cases comment
  · intro _ _
    rw [cursor_emit]
    exact content

theorem orderly_emitOutdents (ordered : scanner.Ordered) (none : scanner.pending = none)
    (content : scanner.cursor.AtContent) {count : Nat} (some : count ≠ 0) :
    (emitOutdents span count scanner).Orderly := by
  induction count generalizing scanner with
  | zero => exact absurd rfl some
  | succ count ih =>
    have emitted : (scanner.emit .outdent span).Orderly :=
      ordered.orderly_layout none content rfl
    rw [emitOutdents]
    by_cases last : count = 0
    · rw [last]
      exact emitted
    · refine ih emitted.toOrdered (scanner.pending_emit _ _) ?_ last
      rw [cursor_emit]
      exact content

/-- An outer line closes a level. -/
theorem closed_ne_zero {levels left : Levels} {level closed : Nat}
    (moved : levels.move level = .outward closed left) : closed ≠ 0 := by
  rw [Levels.move] at moved
  split at moved
  · cases moved
  · split at moved
    · rename_i outer
      dsimp only at moved
      split at moved
      · cases moved
      · cases moved
        cases levels with
        | nil => exact absurd outer (Nat.not_lt_zero _)
        | cons top levels =>
          have deeper : level < top := outer
          rw [Levels.closeTo, if_pos deeper]
          exact Nat.succ_ne_zero _
    · cases moved

theorem suppressesNewline_of_comment (comment : scanner.newest.isComment = true) :
    scanner.suppressesNewline = false := by
  rw [newest] at comment
  rw [suppressesNewline]
  cases read : scanner.tokens with
  | nil =>
    rw [read] at comment
    cases comment
  | cons token tokens =>
    rw [read] at comment
    change token.lexeme.isComment = true at comment
    dsimp only
    generalize token.lexeme = lexeme at comment
    cases lexeme <;> first | rfl | cases comment

/-- The beginning of a line is announced, unless nothing stands in front of it
but layout, or nothing behind. -/
theorem orderly_beginLine {lineEnd : Nat} {announce : Bool} (ordered : scanner.Ordered)
    (none : scanner.pending = none)
    (announced : announce = true ∨ scanner.newest.isComment = false)
    (begun : scanner.beginLine lineEnd announce = .ok next) : next.Orderly := by
  have content := Cursor.atContent_toContent scanner.cursor
  rw [beginLine] at begun
  dsimp only at begun
  split at begun
  · cases begun
    exact Ordered.orderly_layout (ordered.of_tokens rfl) none content rfl
  · rename_i closed levels moved
    cases begun
    have entered : Ordered { scanner with cursor := scanner.cursor.toContent, levels } :=
      ordered.of_tokens rfl
    exact orderly_emitOutdents entered none content (closed_ne_zero moved)
  · split at begun
    · cases begun
      exact Ordered.orderly_layout (ordered.of_tokens rfl) none content rfl
    · rename_i silent
      cases begun
      refine ⟨ordered.of_tokens rfl, fun comment => ⟨none, ?_⟩, fun _ _ => content⟩
      intro character stands
      rcases List.head?_eq_some_iff.mp stands with ⟨behind, found⟩
      have comment : scanner.newest.isComment = true := comment
      have announced : announce = true := by
        refine announced.resolve_right fun noComment => ?_
        rw [comment] at noComment
        cases noComment
      refine absurd ?_ silent
      rw [announced, found]
      have shown := suppressesNewline_of_comment comment
      exact congrArg (!·) shown
  · cases begun

/-! ## Steps -/

/-- A comment stands behind content, and reaches to the end of its line. -/
theorem Orderly.comment (orderly : scanner.Orderly)
    (stands : scanner.cursor.rest.head? = some '#') : scanner.comment.Orderly := by
  have ready := orderly.ready stands (by decide)
  have content : scanner.flush.newest.isContent = true := by
    rcases scanner.newest_flush with ⟨same, none⟩ | ⟨text, unknown⟩
    · have noLayout : scanner.newest.isLayout = false := by
        refine Bool.eq_false_iff.mpr fun layout => ?_
        exact (orderly.behindLayout layout none '#' stands).2 rfl
      rw [same, Lexeme.isContent, ready.noComment, noLayout]
      simpa using ready.opened
    · rw [unknown]
      rfl
  have follows := fun text => @Lexeme.mayFollow_of_content _ (.comment text) content
  refine ⟨(Ordered.emit_flushed ready.flush.toOrdered (follows _) ?_).of_tokens rfl,
    fun _ => ⟨scanner.pending_flush, ?_⟩, by rintro ⟨⟩⟩
  · rintro ⟨⟩
  · intro character behind
    have passed : decide (character ≠ '\n') = false := Cursor.head_skipWhile behind
    simpa using passed

/-- Behind a hyphen stands the content of its line. -/
theorem Ready.listItem (ready : scanner.Ready) (read : scanner.listItem = .ok next) :
    next.Orderly := by
  have item : ∀ span, (scanner.emit (.symbol "yield") span).Ready := fun span => ready.emit rfl
  rw [Scanner.listItem] at read
  dsimp only at read
  split at read
  · cases read
  · split at read
    · rename_i holds
      cases read
      refine Ordered.orderly_layout ((item _).toOrdered.of_tokens rfl) scanner.pending_flush ?_ rfl
      intro character stands
      refine ⟨Cursor.head_skipWhile stands, ?_⟩
      rintro rfl
      rcases List.head?_eq_some_iff.mp stands with ⟨behind, found⟩
      rw [Cursor.line, found] at holds
      cases holds
    · cases read
      refine Ready.orderly_of_content ?_ rfl
      exact (item _).of_tokens rfl

/-- A gap closes a run. -/
theorem Orderly.skipGap (orderly : scanner.Orderly) (ready : scanner.Ready) {character : Char}
    (stands : scanner.cursor.rest.head? = some character) (gap : Text.isGap character = true) :
    (scanner.flush.skip 1).Orderly := by
  have flushed : (scanner.flush.skip 1).Ready := ready.flush.of_tokens rfl
  rcases scanner.newest_flush with ⟨same, none⟩ | ⟨text, unknown⟩
  · refine ⟨flushed.toOrdered, fun comment => ?_, fun layout => ?_⟩
    · rw [flushed.noComment] at comment
      cases comment
    · rw [same] at layout
      have content := (orderly.behindLayout layout none character stands).1
      rw [gap] at content
      cases content
  · refine flushed.orderly_of_content ?_
    rw [show (scanner.flush.skip 1).newest = .unknown text from unknown]
    rfl

theorem Orderly.step (orderly : scanner.Orderly) (stepped : scanner.step = .ok next) :
    next.Orderly := by
  cases found : scanner.cursor.rest with
  | nil =>
    rw [Scanner.step, found] at stepped
    cases stepped
    exact orderly
  | cons first behind =>
    have stands : scanner.cursor.rest.head? = some first := by
      rw [found]
      rfl
    rcases step_cases found stepped with ⟨_, begun⟩ | ⟨inner, within⟩
    · have flushed : (scanner.flush.skip 1).Ordered := orderly.flush.of_tokens rfl
      exact orderly_beginLine flushed scanner.pending_flush (.inl rfl) begun
    · have ready := orderly.ready stands inner
      cases within with
      | gap gap => exact orderly.skipGap ready stands gap
      | comment comment => exact orderly.comment (comment ▸ stands)
      | item _ read => exact ready.listItem read
      | content read => exact ready.content read
      | nothing => exact ready.reject 1

theorem Orderly.run (orderly : scanner.Orderly) (finished : scanner.run = .ok next) :
    next.Orderly := by
  fun_induction Scanner.run scanner with
  | case1 =>
    cases finished
    exact orderly
  | case2 => cases finished
  | case3 scanner _ middle stepped _ ih => exact ih (orderly.step stepped) finished
  | case4 => cases finished

/-! ## Whole sources -/

theorem ordered_emitOutdents (ordered : scanner.Ordered) (none : scanner.pending = none)
    (count : Nat) : (emitOutdents span count scanner).Ordered ∧
      (emitOutdents span count scanner).pending = Option.none := by
  induction count generalizing scanner with
  | zero => exact ⟨ordered, none⟩
  | succ count ih =>
    have same := flush_of_none none
    have follows := @Lexeme.layout_mayFollow _ .outdent rfl ordered.opened
    refine ih (Ordered.emit_flushed (same.symm ▸ ordered) (same.symm ▸ follows) ?_)
      scanner.pending_flush
    rintro ⟨⟩

/-- The end of input is the last token. -/
theorem Orderly.finish (orderly : scanner.Orderly) :
    (∃ last earlier, scanner.finish.tokens = last :: earlier ∧ last.lexeme = .endOfInput) ∧
      scanner.finish.lexemes.IsChain fun lexeme previous =>
        Lexeme.mayFollow previous lexeme = true := by
  have closed := fun span => @ordered_emitOutdents scanner.flush span orderly.flush
    scanner.pending_flush (scanner.levels.length - 1)
  refine ⟨⟨_, _, rfl, rfl⟩, ?_⟩
  rw [Scanner.finish]
  generalize (⟨scanner.cursor.offset, scanner.cursor.offset⟩ : Span) = span
  rcases closed span with ⟨ordered, none⟩
  rw [Scanner.emit, flush_of_none none]
  refine ordered.chain_cons ?_
  have noEnd := ordered.opened
  generalize (emitOutdents span (scanner.levels.length - 1) scanner.flush).newest = newest at noEnd
  cases newest <;> first | rfl | exact absurd rfl noEnd

end Scanner

/-- How the tokens of a source come about. -/
theorem tokenize_eq_ok {source : String} {read : TokenizedSource}
    (some : source.isEmpty = false) (tokenized : tokenize source = .ok read) :
    ∃ entered scanner,
      (Scanner.ofText (normalize source.toList)).beginLine 0 false = .ok entered ∧
      entered.run = .ok scanner ∧
      read = ⟨String.ofList (normalize source.toList), scanner.finish.tokens.reverse,
        scanner.finish.diagnostics.reverse⟩ := by
  rw [tokenize, if_neg (by simp [some])] at tokenized
  cases begun : (Scanner.ofText (normalize source.toList)).beginLine 0 false with
  | error => simp [begun, bind, Except.bind] at tokenized
  | ok entered =>
    cases finished : entered.run with
    | error => simp [begun, finished, bind, Except.bind] at tokenized
    | ok scanner =>
      refine ⟨entered, scanner, rfl, finished, ?_⟩
      simp only [begun, finished, bind, Except.bind, pure, Except.pure, Except.ok.injEq]
        at tokenized
      exact tokenized.symm

/-- Every token of a source may follow the one in front of it, and the last is
the end of input. -/
theorem tokenize_ordered {source : String} {read : TokenizedSource}
    (tokenized : tokenize source = .ok read) :
    (.newline 0 :: read.tokens.map Token.lexeme).IsChain
        (fun previous lexeme => Lexeme.mayFollow previous lexeme = true) ∧
      (read.tokens.map Token.lexeme).getLast? = some .endOfInput := by
  cases empty : source.isEmpty with
  | true =>
    rw [tokenize, if_pos empty] at tokenized
    cases tokenized
    exact ⟨.cons_cons rfl (.singleton _), rfl⟩
  | false =>
    rcases tokenize_eq_ok empty tokenized with ⟨entered, scanner, begun, finished, rfl⟩
    have start : (Scanner.ofText (normalize source.toList)).Ordered :=
      ⟨.singleton _, by rintro ⟨⟩⟩
    have orderly := (Scanner.orderly_beginLine start rfl (.inr rfl) begun).run finished
    rcases orderly.finish with ⟨⟨last, earlier, tokens, ends⟩, chain⟩
    constructor
    · have reversed := List.isChain_reverse.mpr chain
      rw [Scanner.lexemes, List.reverse_append, ← List.map_reverse] at reversed
      exact reversed
    · rw [tokens, List.reverse_cons, List.map_append]
      simp [ends]

/-- The end of input stands nowhere but behind all other tokens. -/
theorem tokenize_ends {source : String} {read : TokenizedSource}
    (tokenized : tokenize source = .ok read) :
    ∃ front, read.tokens.map Token.lexeme = front ++ [.endOfInput] ∧ .endOfInput ∉ front := by
  rcases tokenize_ordered tokenized with ⟨chain, last⟩
  rcases List.getLast?_eq_some_iff.mp last with ⟨front, split⟩
  refine ⟨front, split, fun inside => ?_⟩
  rcases List.append_of_mem inside with ⟨earlier, later, rfl⟩
  rw [split, List.append_assoc, List.cons_append, ← List.cons_append] at chain
  have behind := (List.isChain_append.mp chain).2.1
  cases later with
  | nil => cases (List.isChain_cons_cons.mp behind).1
  | cons lexeme later => cases (List.isChain_cons_cons.mp behind).1

end Manifest
