import Manifest.Proofs.Scan.Misfits
import Manifest.Proofs.Scan.Numerals
import Manifest.Proofs.Scan.Order
import Manifest.Proofs.Trimming

/-!
# What spans cover

A span covers whole characters of a text.  A scanner moves over whole characters
only, so the spans of its tokens and of its failures begin and end between two of
them, and a token says what is written between these places.
-/

namespace Manifest

/-! ## Bytes and characters -/

namespace Text

theorem bytes_append (front behind : List Char) :
    bytes (front ++ behind) = bytes front + bytes behind := by
  induction front with
  | nil => rw [List.nil_append, bytes, Nat.zero_add]
  | cons character front ih => rw [List.cons_append, bytes, ih, bytes, Nat.add_assoc]

/-- A text splits at a number of bytes in one way only. -/
theorem append_inj_of_bytes {front other behind rest : List Char}
    (same : front ++ behind = other ++ rest) (long : bytes front = bytes other) :
    front = other ∧ behind = rest := by
  induction front generalizing other with
  | nil =>
    cases other with
    | nil => exact ⟨rfl, same⟩
    | cons character other =>
      have wide := character.utf8Size_pos
      rw [bytes, bytes] at long
      omega
  | cons character front ih =>
    cases other with
    | nil =>
      have wide := character.utf8Size_pos
      rw [bytes, bytes] at long
      omega
    | cons first other =>
      rcases List.cons.inj same with ⟨rfl, more⟩
      rcases ih more (Nat.add_left_cancel long) with ⟨rfl, rfl⟩
      exact ⟨rfl, rfl⟩

theorem utf8ByteSize_ofList (text : List Char) :
    (String.ofList text).utf8ByteSize = bytes text := by
  induction text with
  | nil => rfl
  | cons character text ih =>
    rw [String.ofList_cons, String.utf8ByteSize_append, ih, String.utf8ByteSize_singleton, bytes]

end Text

namespace Position

/-- Between two characters a walk stops at the place of the offset. -/
theorem walk_append (position : Position) (before behind : List Char) :
    position.walk (before ++ behind) (position.offset + Text.bytes before) =
      position.afterAll before := by
  induction before generalizing position with
  | nil =>
    cases behind with
    | nil => rfl
    | cons character behind =>
      have wide := character.utf8Size_pos
      rw [List.nil_append, walk, if_neg (by rw [Text.bytes]; omega)]
      rfl
  | cons character before ih =>
    have moved : position.offset + Text.bytes (character :: before) =
        (position.after character).offset + Text.bytes before := by
      rw [Text.bytes, ← Nat.add_assoc, offset_after]
    rw [List.cons_append, walk, if_pos (by rw [Text.bytes]; omega), moved, ih]
    rfl

theorem locate_of_append {text : String} {front behind : List Char}
    (split : text.toList = front ++ behind) :
    locate text (Text.bytes front) = start.afterAll front := by
  have walked := start.walk_append front behind
  rwa [show start.offset = 0 from rfl, Nat.zero_add, ← split] at walked

/-- Behind a line end the column counts the characters that follow. -/
theorem column_afterAll_of_mem {text : List Char} (inside : '\n' ∈ text) (position : Position) :
    ∃ front behind, text = front ++ '\n' :: behind ∧ '\n' ∉ behind ∧
      (position.afterAll text).column = behind.length := by
  induction text generalizing position with
  | nil => cases inside
  | cons character text ih =>
    by_cases further : '\n' ∈ text
    · rcases ih further (position.after character) with ⟨front, behind, rfl, last, column⟩
      exact ⟨character :: front, behind, rfl, last, column⟩
    · have ended : '\n' = character := (List.mem_cons.mp inside).resolve_right further
      subst ended
      refine ⟨[], text, rfl, further, ?_⟩
      exact (column_afterAll further (position.after '\n')).trans (Nat.zero_add _)

end Position

namespace Span

/-- A span covers a part of a text. -/
def Cuts (span : Span) (text part : List Char) : Prop :=
  ∃ before behind, text = before ++ part ++ behind ∧ span.start = Text.bytes before ∧
    span.stop = span.start + Text.bytes part

/-- What a span covers is determined by its ends. -/
theorem Cuts.unique {span : Span} {text part other : List Char} (cuts : span.Cuts text part)
    (again : span.Cuts text other) : part = other := by
  rcases cuts with ⟨before, behind, rfl, start, stop⟩
  rcases again with ⟨front, rest, same, begins, ends⟩
  rw [List.append_assoc, List.append_assoc] at same
  rcases Text.append_inj_of_bytes same (start.symm.trans begins) with ⟨_, more⟩
  exact (Text.append_inj_of_bytes more (Nat.add_left_cancel (stop.symm.trans ends))).1

/-- The ends of a span are in order, and a place in a source is found for both. -/
structure Located (span : Span) (source : String) : Prop where
  start_le : span.start ≤ span.stop
  stop_le : span.stop ≤ source.utf8ByteSize
  start_eq : (Position.locate source span.start).offset = span.start
  stop_eq : (Position.locate source span.stop).offset = span.stop

theorem Cuts.located {span : Span} {text part : List Char} (cuts : span.Cuts text part) :
    span.Located (String.ofList text) := by
  rcases cuts with ⟨before, behind, rfl, start, stop⟩
  have place : ∀ front behind : List Char,
      (Position.locate (String.ofList (front ++ behind)) (Text.bytes front)).offset =
        Text.bytes front := by
    intro front behind
    rw [Position.locate_of_append String.toList_ofList, Position.offset_afterAll]
    exact Nat.zero_add _
  have reached : span.stop = Text.bytes (before ++ part) := by
    rw [stop, start, Text.bytes_append]
  refine ⟨stop ▸ Nat.le_add_right _ _, ?_, ?_, ?_⟩
  · rw [Text.utf8ByteSize_ofList, Text.bytes_append, reached]
    exact Nat.le_add_right _ _
  · rw [start, List.append_assoc]
    exact place _ _
  · rw [reached]
    exact place _ _

end Span

/-! ## Cursors -/

namespace Cursor

variable {text chunk more : List Char} {cursor middle later : Cursor}

/-- A cursor stands behind some characters that another one has in front. -/
structure Past (chunk : List Char) (cursor later : Cursor) : Prop where
  rest_eq : cursor.rest = chunk ++ later.rest
  place_eq : later.place = cursor.place.afterAll chunk

theorem past_refl (cursor : Cursor) : Past [] cursor cursor :=
  ⟨rfl, rfl⟩

theorem Past.trans (first : Past chunk cursor middle) (second : Past more middle later) :
    Past (chunk ++ more) cursor later := by
  refine ⟨?_, ?_⟩
  · rw [first.rest_eq, second.rest_eq, List.append_assoc]
  · rw [second.place_eq, first.place_eq]
    exact List.foldl_append.symm

theorem past_advance (cursor : Cursor) (count : Nat) :
    Past (cursor.rest.take count) cursor (cursor.advance count) :=
  ⟨(List.take_append_drop count cursor.rest).symm, rfl⟩

theorem past_skipGap (cursor : Cursor) :
    Past (cursor.rest.takeWhile Text.isGap) cursor cursor.skipGap := by
  have past := cursor.past_advance (cursor.rest.takeWhile Text.isGap).length
  rw [← List.prefix_iff_eq_take.mp (List.takeWhile_prefix _)] at past
  exact past

theorem past_toContent (cursor : Cursor) : ∃ chunk, Past chunk cursor cursor.toContent := by
  fun_induction toContent cursor with
  | case1 cursor rest found ih =>
    rcases ih with ⟨chunk, past⟩
    exact ⟨_, (cursor.past_skipGap.trans (past_advance _ 1)).trans past⟩
  | case2 cursor rest found ih =>
    rcases ih with ⟨chunk, past⟩
    exact ⟨_, (((cursor.past_skipGap.trans (past_advance _ 1)).trans (past_advance _ _)).trans
      (past_advance _ 1)).trans past⟩
  | case3 cursor => exact ⟨_, cursor.past_skipGap⟩

theorem Past.offset_eq (past : Past chunk cursor later) :
    later.offset = cursor.offset + Text.bytes chunk := by
  rw [offset, past.place_eq]
  exact cursor.place.offset_afterAll chunk

/-- A cursor has come to a place in a text. -/
def StandsIn (cursor : Cursor) (text : List Char) : Prop :=
  ∃ before, Past before (ofText text) cursor

theorem StandsIn.past (stands : cursor.StandsIn text) (past : Past chunk cursor later) :
    later.StandsIn text := by
  rcases stands with ⟨before, front⟩
  exact ⟨before ++ chunk, front.trans past⟩

/-- What a cursor has in front of it is a part of the text. -/
theorem StandsIn.cuts (stands : cursor.StandsIn text) (front : cursor.rest = chunk ++ more) :
    Span.Cuts ⟨cursor.offset, cursor.offset + Text.bytes chunk⟩ text chunk := by
  rcases stands with ⟨before, past⟩
  refine ⟨before, more, ?_, ?_, rfl⟩
  · rw [List.append_assoc, ← front]
    exact past.rest_eq
  · exact past.offset_eq.trans (Nat.zero_add _)

theorem StandsIn.cuts_past (stands : cursor.StandsIn text) (past : Past chunk cursor later) :
    Span.Cuts ⟨cursor.offset, later.offset⟩ text chunk := by
  rw [past.offset_eq]
  exact stands.cuts past.rest_eq

end Cursor

/-! ## What tokens say -/

namespace Lexeme

/-- How a sign is written.  An assignment can be written with a further sign. -/
def sign? : Lexeme → Option String
  | assignment _ | accessor => some ":"
  | sectionStart => some "---"
  | emptyMapping => some "\x7b\x7d"
  | emptySequence => some "[]"
  | openParen => some "("
  | closeParen => some ")"
  | lift => some "^"
  | pipeline => some "|"
  | hardMerge => some "+"
  | softMerge => some "+?"
  | patternMatch => some "?"
  | arrow => some "->"
  | _ => none

/-- What a token says is told by the text that it covers. -/
inductive Tells : List Char → Lexeme → Prop
  | symbol (text : List Char) : Tells text (symbol (String.ofList text))
  | hyphen : Tells ['-'] (symbol "yield")
  | unknown (text : List Char) : Tells text (unknown (String.ofList text))
  /-- A comment tells what stands between blanks behind its sign. -/
  | comment {text inside : List Char} : Text.Trims text inside →
      Tells ('#' :: text) (comment (String.ofList inside))
  | number (numeral : Numeral) : Tells numeral.spelling (number numeral.value)
  /-- A boolean is one of its two words in any case. -/
  | boolean {text : List Char} {truth : Bool} :
      text.map Scalar.fold = (toString truth).toList → Tells text (boolean truth)
  | unquoted {text : List Char} : text.head? ≠ some '"' → text.head? ≠ some '\'' →
      Tells text (Lexeme.text (String.ofList text))
  | quoted {quote : Char} {inside value : List Char} : quote = '"' ∨ quote = '\'' →
      readQuoted quote (inside ++ [quote]) = some (value, []) →
      Tells (quote :: inside ++ [quote]) (Lexeme.text (String.ofList value))
  | sign {text : List Char} {lexeme : Lexeme} : lexeme.sign? = some (String.ofList text) →
      Tells text lexeme
  | define : Tells [':', '='] (assignment false)
  /-- A line end covers empty lines and comments as well, and the gap of the next line. -/
  | newline (front gap : List Char) : '\n' ∉ gap →
      Tells (front ++ '\n' :: gap) (newline gap.length)
  | indent (text : List Char) : Tells text indent
  | outdent (text : List Char) : Tells text outdent
  | endOfInput : Tells [] endOfInput

/-- What is read as a number is a numeral. -/
theorem tells_number {text : List Char} {value : Number}
    (read : Scalar.readNumeral text = some value) : Tells text (number value) := by
  rcases Scalar.exists_numeral read with ⟨numeral, rfl, rfl⟩
  exact .number numeral

end Lexeme

/-! ## Readings -/

namespace Scanner

variable {text part chunk : List Char} {scanner next : Scanner} {lexeme : Lexeme} {span : Span}

/-- Every token says what stands at its place, and an open run has begun in the text. -/
structure Traced (text : List Char) (scanner : Scanner) : Prop where
  stands : scanner.cursor.StandsIn text
  tokens : ∀ token ∈ scanner.tokens, ∃ part, token.span.Cuts text part ∧ token.lexeme.Tells part
  opened : ∀ start, scanner.pending = some start → start.StandsIn text ∧
    ∃ run, Cursor.Past run start scanner.cursor

/-- A part of a reading goes on so, or it fails at a place in the text. -/
inductive Keeps (text : List Char) : Except LexError Scanner → Prop
  | goesOn {next : Scanner} : next.Traced text → Keeps text (.ok next)
  | fails {failure : LexError} {part : List Char} : failure.span.Cuts text part →
      Keeps text (.error failure)

theorem Keeps.traced {outcome : Except LexError Scanner} (keeps : Keeps text outcome)
    (reached : outcome = .ok next) : next.Traced text := by
  subst reached
  cases keeps
  assumption

theorem Keeps.cuts {outcome : Except LexError Scanner} {failure : LexError}
    (keeps : Keeps text outcome) (failed : outcome = .error failure) :
    ∃ part, failure.span.Cuts text part := by
  subst failed
  cases keeps
  exact ⟨_, by assumption⟩

namespace Traced

theorem flush (traced : scanner.Traced text) : scanner.flush.Traced text := by
  rw [Scanner.flush]
  split
  · exact traced
  · rename_i start opened
    rcases traced.opened start opened with ⟨begun, run, past⟩
    rw [Cursor.textTo_eq past.rest_eq]
    refine ⟨traced.stands, List.forall_mem_cons.mpr ⟨?_, traced.tokens⟩, ?_⟩
    · exact ⟨run, begun.cuts_past past, .unknown run⟩
    · rintro _ ⟨⟩

theorem emit (traced : scanner.Traced text) (cuts : span.Cuts text part)
    (tells : lexeme.Tells part) : (scanner.emit lexeme span).Traced text := by
  have flushed := traced.flush
  exact ⟨flushed.stands, List.forall_mem_cons.mpr ⟨⟨part, cuts, tells⟩, flushed.tokens⟩,
    flushed.opened⟩

theorem emitOutdents (traced : scanner.Traced text) (cuts : span.Cuts text part) (count : Nat) :
    (Scanner.emitOutdents span count scanner).Traced text := by
  induction count generalizing scanner with
  | zero => exact traced
  | succ count ih => exact ih (traced.emit cuts (.outdent part))

/-- A scanner moves on. -/
theorem move {later : Cursor} (traced : scanner.Traced text)
    (past : Cursor.Past chunk scanner.cursor later) (levels : Levels) :
    { scanner with cursor := later, levels }.Traced text := by
  refine ⟨traced.stands.past past, traced.tokens, fun start opened => ?_⟩
  rcases traced.opened start opened with ⟨begun, run, behind⟩
  exact ⟨begun, run ++ chunk, behind.trans past⟩

/-- A scanner moves on behind a token. -/
theorem emit_move {later : Cursor} (traced : scanner.Traced text) (cuts : span.Cuts text part)
    (tells : lexeme.Tells part) (past : Cursor.Past chunk scanner.cursor later)
    (levels : Levels) : { scanner.emit lexeme span with cursor := later, levels }.Traced text :=
  (traced.emit cuts tells).move (scanner.cursor_emit lexeme span ▸ past) levels

theorem skip (traced : scanner.Traced text) (count : Nat) : (scanner.skip count).Traced text :=
  traced.move (scanner.cursor.past_advance count) scanner.levels

theorem read {behind : List Char} (traced : scanner.Traced text)
    (front : scanner.cursor.rest = chunk ++ behind) (tells : lexeme.Tells chunk) :
    (scanner.read chunk.length lexeme).Traced text := by
  have taken := scanner.cursor.past_advance chunk.length
  rw [front, List.take_left] at taken
  exact (traced.skip chunk.length).emit (traced.stands.cuts_past taken) tells

theorem reject (traced : scanner.Traced text) (count : Nat) :
    (scanner.reject count).Traced text := by
  have moved := traced.skip count
  refine ⟨moved.stands, moved.tokens, fun start opened => ?_⟩
  cases none : scanner.pending with
  | some begun =>
    rw [Scanner.reject, none] at opened
    cases opened
    exact moved.opened begun none
  | none =>
    rw [Scanner.reject, none] at opened
    cases opened
    exact ⟨traced.stands, _, scanner.cursor.past_advance count⟩

end Traced
end Scanner
end Manifest
