import Manifest.Proofs.Scan.Dedents
import Manifest.Proofs.Scan.Lines
import Manifest.Proofs.Scan.Scalars
import Manifest.Proofs.Scan.Slices

/-!
# Tokens and their text

Every token of a source covers whole characters of it, and says what is written there.
A failure is about whole characters as well.
-/

namespace Manifest
namespace Scanner

variable {text chunk : List Char} {scanner next : Scanner}

namespace Traced

/-! ## Rules of content -/

theorem read_front {lexeme : Lexeme} (traced : scanner.Traced text)
    (front : chunk <+: scanner.cursor.rest) (tells : lexeme.Tells chunk) :
    (scanner.read chunk.length lexeme).Traced text := by
  rcases front with ⟨behind, front⟩
  exact traced.read front.symm tells

theorem mark (traced : scanner.Traced text) (read : scanner.mark = some next) :
    next.Traced text := by
  rw [Scanner.mark] at read
  split at read
  · rename_i starts
    cases read
    rcases hyphens_of_atSectionStart starts with ⟨behind, front⟩
    exact traced.read front (.sign rfl)
  · rcases Option.map_eq_some_iff.mp read with ⟨⟨sign, lexeme⟩, found, rfl⟩
    have spelled : ∀ entry ∈ marks, entry.2.sign? = some entry.1 := by decide
    have starts : sign.toList.isPrefixOf scanner.cursor.rest = true := by
      simpa using List.find?_some found
    have tells : lexeme.Tells sign.toList := by
      refine .sign ?_
      rw [String.ofList_toList]
      exact spelled _ (List.mem_of_find?_eq_some found)
    exact traced.read_front (List.isPrefixOf_iff_prefix.mp starts) tells

theorem quoted (traced : scanner.Traced text) (read : scanner.quoted = some next) :
    next.Traced text := by
  rw [Scanner.quoted] at read
  split at read
  · cases read
  · rename_i quote behind found
    split at read
    · rename_i isQuote
      dsimp only at read
      split at read
      · rename_i value after inside
        cases read
        rcases readQuoted_closed inside with ⟨held, line, closed⟩
        have length : (Text.line behind).length + 1 - after.length =
            (quote :: held ++ [quote]).length := by
          rw [line]
          simp only [List.length_append, List.length_cons, List.length_nil]
          omega
        rw [length]
        refine traced.read_front ?_ (.quoted (by simpa using isQuote) closed)
        have front : held ++ [quote] <+: Text.line behind :=
          ⟨after, by rw [line, List.append_assoc]; rfl⟩
        rw [found, List.cons_append, List.prefix_cons_inj]
        exact front.trans (List.takeWhile_prefix _)
      · cases read
        exact traced.reject _
    · cases read

/-- An unquoted scalar does not begin with a quote. -/
theorem noQuote_of_quoted (none : scanner.quoted = none) :
    scanner.cursor.rest.head? ≠ some '"' ∧ scanner.cursor.rest.head? ≠ some '\'' := by
  rw [Scanner.quoted] at none
  split at none
  · rename_i ended
    rw [ended]
    exact ⟨by simp, by simp⟩
  · rename_i quote behind found
    split at none
    · dsimp only at none
      split at none <;> cases none
    · rename_i other
      simpa [found] using other

theorem tells_classify (double : chunk.head? ≠ some '"') (single : chunk.head? ≠ some '\'') :
    (Scalar.classify chunk).Tells chunk := by
  rw [Scalar.classify]
  split
  · rename_i value read
    exact Lexeme.tells_number read
  · split
    · exact .boolean (Scalar.map_fold_eq (by assumption))
    · exact .unquoted double single

theorem literalValue (traced : scanner.Traced text) : scanner.literalValue.Traced text := by
  have begun : scanner.skipGap.Traced text :=
    traced.move scanner.cursor.past_skipGap scanner.levels
  rw [Scanner.literalValue]
  dsimp only
  split
  · rename_i read
    exact begun.quoted read
  · rename_i unquoted
    rcases noQuote_of_quoted unquoted with ⟨noDouble, noSingle⟩
    have front : Text.trimEnd (scanner.cursor.skipGap.line.takeWhile (· ≠ '#')) <+:
        scanner.cursor.skipGap.rest :=
      ((Text.isPrefix_trimEnd _).trans (List.takeWhile_prefix _)).trans (List.takeWhile_prefix _)
    refine begun.read_front front ?_
    generalize Text.trimEnd _ = chunk at front
    split
    · rename_i same
      rw [same]
      exact .sign rfl
    · split
      · rename_i same
        rw [same]
        exact .sign rfl
      · have head : ∀ {quote : Char}, scanner.cursor.skipGap.rest.head? ≠ some quote →
            chunk.head? ≠ some quote := by
          intro quote other same
          rcases front with ⟨behind, front⟩
          rw [← front, List.head?_append, same] at other
          exact other rfl
        exact tells_classify (head noDouble) (head noSingle)

theorem colon (traced : scanner.Traced text) (read : scanner.colon = some next) :
    next.Traced text := by
  rw [Scanner.colon] at read
  split at read
  · rename_i behind found
    have sign : scanner.cursor.rest = [':'] ++ behind := found
    have one : ∀ {lexeme : Lexeme}, lexeme.sign? = some ":" →
        (scanner.read 1 lexeme).Traced text := fun spelled => traced.read sign (.sign spelled)
    split at read
    · cases read
      exact one rfl
    · rename_i character behind
      dsimp only at read
      split at read
      · rename_i same
        cases read
        have define : scanner.cursor.rest = [':', '='] ++ behind := by
          rw [found, same]
          rfl
        exact traced.read define .define
      · split at read
        · cases read
          exact one rfl
        · split at read
          · split at read
            · cases read
              exact one rfl
            · cases read
              exact (one rfl).literalValue
          · split at read
            · cases read
              exact one rfl
            · cases read
  · cases read

theorem number (traced : scanner.Traced text) (read : scanner.number = some next) :
    next.Traced text := by
  rw [Scanner.number] at read
  split at read
  · cases read
  · rename_i splits
    split at read
    · cases read
    · rcases Option.map_eq_some_iff.mp read with ⟨value, numeral, rfl⟩
      exact traced.read (splitNumeral_split splits).1 (Lexeme.tells_number numeral)

theorem symbol (traced : scanner.Traced text) (read : scanner.symbol = some next) :
    next.Traced text := by
  rw [Scanner.symbol] at read
  split at read
  · cases read
    rcases symbolText_split scanner.cursor.rest with ⟨behind, front, _⟩
    refine traced.read front ?_
    split
    · exact .boolean (Scalar.map_fold_eq (by assumption))
    · exact .symbol _
  · cases read

theorem content (traced : scanner.Traced text) (read : scanner.content = some next) :
    next.Traced text := by
  rcases orElse_eq_some read with mark | read
  · exact traced.mark mark
  rcases orElse_eq_some read with colon | read
  · exact traced.colon colon
  rcases orElse_eq_some read with quoted | read
  · exact traced.quoted quoted
  rcases orElse_eq_some read with number | symbol
  · exact traced.number number
  · exact traced.symbol symbol

/-! ## Lines -/

theorem comment (traced : scanner.Traced text) {behind : List Char}
    (found : scanner.cursor.rest = '#' :: behind) : scanner.comment.Traced text := by
  have line : scanner.cursor.line = '#' :: Text.line behind := by
    rw [Cursor.line, found, Text.line_cons (by decide)]
  have past := scanner.cursor.past_advance scanner.cursor.line.length
  have taken : scanner.cursor.rest.take scanner.cursor.line.length = scanner.cursor.line :=
    (List.prefix_iff_eq_take.mp (List.takeWhile_prefix _)).symm
  rw [taken] at past
  have tells : (Lexeme.comment (String.ofList (Text.trim (scanner.cursor.line.drop 1)))).Tells
      scanner.cursor.line := by
    rw [line]
    exact .comment (Text.trims_trim (Text.line behind))
  exact traced.emit_move (traced.stands.cuts_past past) tells past _

theorem listItem (traced : scanner.Traced text) (hyphen : scanner.cursor.atListHyphen = true) :
    Keeps text scanner.listItem := by
  rcases (Cursor.exists_of_atListHyphen hyphen).2 with ⟨next, behind, found, _⟩
  have front : scanner.cursor.rest = ['-'] ++ next :: behind := found
  have cuts : Span.Cuts ⟨scanner.cursor.offset, scanner.cursor.offset + 1⟩ text ['-'] :=
    traced.stands.cuts front
  have past := (scanner.cursor.past_advance 1).trans
    (Cursor.past_skipGap (scanner.cursor.advance 1))
  have moved := traced.emit_move cuts .hyphen past
  rw [Scanner.listItem]
  dsimp only
  split
  · exact .fails cuts
  · split
    · exact .goesOn ((moved _).emit (traced.stands.cuts_past past) (.indent _))
    · exact .goesOn (moved _)

/-- A line is entered behind the end of another one, which is announced. -/
theorem beginLine {start : Cursor} {announce : Bool} (traced : scanner.Traced text)
    (begun : start.StandsIn text) (past : Cursor.Past chunk start scanner.cursor)
    (ended : announce = true → '\n' ∈ chunk) :
    Keeps text (scanner.beginLine start.offset announce) := by
  rcases scanner.cursor.past_toContent with ⟨more, further⟩
  have moved := fun levels => traced.move further levels
  have whole := past.trans further
  have cuts := begun.cuts_past whole
  rw [Scanner.beginLine]
  dsimp only
  split
  · exact .goesOn ((moved _).emit cuts (.indent _))
  · exact .goesOn ((moved _).emitOutdents cuts _)
  · split
    · rename_i shown
      simp only [Bool.and_eq_true] at shown
      refine .goesOn ((moved scanner.levels).emit cuts ?_)
      rcases Position.column_afterAll_of_mem
        (List.mem_append_left more (ended shown.1.1)) start.place with
        ⟨front, gap, split, inner, column⟩
      rw [← whole.place_eq] at column
      rw [Cursor.column, column, split]
      exact .newline front gap inner
    · exact .goesOn (moved scanner.levels)
  · have fault : ∃ part, Span.Cuts ⟨scanner.cursor.toContent.offset,
        scanner.cursor.toContent.offset +
          (scanner.cursor.toContent.rest.head?.map Char.utf8Size).getD 0⟩ text part := by
      have stands := traced.stands.past further
      cases found : scanner.cursor.toContent.rest with
      | nil => exact ⟨[], stands.cuts rfl⟩
      | cons first behind =>
        have front : scanner.cursor.toContent.rest = [first] ++ behind := found
        exact ⟨[first], stands.cuts front⟩
    rcases fault with ⟨part, fault⟩
    split
    · exact .fails fault
    · exact .fails fault

/-! ## Steps -/

theorem step (traced : scanner.Traced text) : Keeps text scanner.step := by
  rw [Scanner.step]
  split
  · exact .goesOn traced
  rename_i first behind found
  have flushed := traced.flush.skip 1
  split
  · rename_i line
    have past := scanner.cursor.past_advance 1
    have cursor : (scanner.flush.skip 1).cursor = scanner.cursor.advance 1 := by
      rw [Scanner.skip, cursor_flush]
    rw [found] at past
    rw [← cursor] at past
    exact flushed.beginLine traced.stands past fun _ => by simp [line]
  split
  · exact .goesOn flushed
  split
  · rename_i mark
    rw [mark] at found
    exact .goesOn (traced.comment found)
  split
  · rename_i hyphen
    exact traced.listItem hyphen
  · cases read : scanner.content with
    | none => exact .goesOn (traced.reject 1)
    | some next => exact .goesOn (traced.content read)

theorem run (traced : scanner.Traced text) : Keeps text scanner.run := by
  fun_induction Scanner.run scanner with
  | case1 scanner => exact .goesOn traced
  | case2 scanner _ failure stepped =>
    rcases traced.step.cuts stepped with ⟨part, cuts⟩
    exact .fails cuts
  | case3 scanner _ next stepped _ ih => exact ih (traced.step.traced stepped)
  | case4 scanner =>
    have here : Span.Cuts ⟨scanner.cursor.offset, scanner.cursor.offset⟩ text [] :=
      traced.stands.cuts rfl
    exact .fails here

theorem finish (traced : scanner.Traced text) : scanner.finish.Traced text := by
  have stop : Span.Cuts ⟨scanner.cursor.offset, scanner.cursor.offset⟩ text [] :=
    traced.stands.cuts rfl
  exact (traced.flush.emitOutdents stop _).emit stop .endOfInput

end Traced

theorem traced_ofText (text : List Char) : (ofText text).Traced text :=
  ⟨⟨[], Cursor.past_refl _⟩, fun _ inside => absurd inside List.not_mem_nil, by
    rintro _ ⟨⟩⟩

end Scanner

/-! ## Whole sources -/

theorem tokenize_eq_error {source : String} {failure : LexError}
    (failed : tokenize source = .error failure) :
    (Scanner.ofText (normalize source.toList)).beginLine 0 false = .error failure ∨
      ∃ entered, (Scanner.ofText (normalize source.toList)).beginLine 0 false = .ok entered ∧
        entered.run = .error failure := by
  rw [tokenize] at failed
  split at failed
  · cases failed
  cases begun : (Scanner.ofText (normalize source.toList)).beginLine 0 false with
  | error found =>
    simp only [begun, bind, Except.bind, Except.error.injEq] at failed
    exact .inl (congrArg Except.error failed)
  | ok entered =>
    cases finished : entered.run with
    | error found =>
      simp only [begun, finished, bind, Except.bind, Except.error.injEq] at failed
      exact .inr ⟨entered, rfl, finished.trans (congrArg Except.error failed)⟩
    | ok final => simp [begun, finished, bind, Except.bind, pure, Except.pure] at failed

/-- The span of every token of a source covers whole characters of the normalized source,
and these tell what the token tells.  The span of a failure covers whole characters as
well. -/
theorem tokenize_faithful (source : String) :
    (∀ read, tokenize source = .ok read → ∀ token ∈ read.tokens,
      token.span.Located read.source ∧
        ∃ part, (∀ other, token.span.Cuts read.source.toList other ↔ other = part) ∧
          token.lexeme.Tells part) ∧
    ∀ failure, tokenize source = .error failure →
      failure.span.Located (String.ofList (normalize source.toList)) ∧
        ∃ part, ∀ other, failure.span.Cuts (normalize source.toList) other ↔ other = part := by
  have only : ∀ {span : Span} {text part : List Char}, span.Cuts text part →
      ∀ other, span.Cuts text other ↔ other = part :=
    fun cuts other => ⟨fun again => again.unique cuts, fun same => same ▸ cuts⟩
  cases empty : source.isEmpty with
  | true =>
    rw [tokenize, if_pos empty]
    refine ⟨fun read tokenized token inside => ?_, by simp⟩
    cases tokenized
    cases List.mem_singleton.mp inside
    have nothing : Span.Cuts ⟨0, 0⟩ [] [] := ⟨[], [], rfl, rfl, rfl⟩
    exact ⟨nothing.located, [], only nothing, .endOfInput⟩
  | false =>
    have start := Scanner.traced_ofText (normalize source.toList)
    have entered : Scanner.Keeps (normalize source.toList)
        ((Scanner.ofText (normalize source.toList)).beginLine 0 false) :=
      start.beginLine start.stands (Cursor.past_refl _) (by simp)
    refine ⟨fun read tokenized token inside => ?_, fun failure failed => ?_⟩
    · rcases tokenize_eq_ok empty tokenized with ⟨first, final, begun, finished, rfl⟩
      have traced := ((entered.traced begun).run.traced finished).finish
      rcases traced.tokens token (List.mem_reverse.mp inside) with ⟨part, cuts, tells⟩
      dsimp only
      rw [String.toList_ofList]
      exact ⟨cuts.located, part, only cuts, tells⟩
    · have fault : ∃ part, failure.span.Cuts (normalize source.toList) part := by
        rcases tokenize_eq_error failed with failed | ⟨first, begun, failed⟩
        · exact entered.cuts failed
        · exact (entered.traced begun).run.cuts failed
      rcases fault with ⟨part, cuts⟩
      exact ⟨cuts.located, part, only cuts⟩

/-- A quoted string between wide characters, and a line behind one that does not fit. -/
theorem tokenize_faithful_wide :
    (∃ read, tokenize "é:\n- 'ö' # ü" = .ok read ∧
      Span.Located ⟨6, 10⟩ read.source ∧
      ∃ part, Span.Cuts ⟨6, 10⟩ read.source.toList part ∧ (Lexeme.text "ö").Tells part) ∧
    tokenize "é:\n  b\n c" = .error (.inconsistentIndent 1 ⟨9, 10⟩) ∧
      Span.Located ⟨9, 10⟩ (String.ofList (normalize "é:\n  b\n c".toList)) := by
  have checked : (tokenize "é:\n- 'ö' # ü").toOption.any (fun read =>
      decide (⟨.text "ö", 6, 10⟩ ∈ read.tokens)) = true := by
    decide +kernel
  have failed : tokenize "é:\n  b\n c" = .error (.inconsistentIndent 1 ⟨9, 10⟩) := by
    rw [tokenize_eq_error_iff_firstMisfit]
    decide +kernel
  rcases any_toOption checked with ⟨read, tokenized, checked⟩
  rcases (tokenize_faithful _).1 read tokenized _ (of_decide_eq_true checked) with
    ⟨located, part, only, tells⟩
  exact ⟨⟨read, tokenized, located, part, (only part).mpr rfl, tells⟩, failed,
    ((tokenize_faithful _).2 _ failed).1⟩

end Manifest
