import Manifest.Token.Cursor
import Manifest.Token.Layout
import Manifest.Token.Scalar

/-!
# From a source to its tokens

The scanner reads a source from front to back.  Characters that no rule reads
are gathered in a run; the next token, gap or line end closes the run, which
then becomes one `unknown` token and one diagnostic.  Only a line that does
not fit the open levels stops the scanner.
-/

namespace Manifest

/-- The state of a reading. -/
structure Scanner where
  cursor : Cursor
  levels : Levels
  /-- Tokens read so far, newest first. -/
  tokens : List Token
  /-- Diagnostics so far, newest first. -/
  diagnostics : List Diagnostic
  /-- Where the open run of unrecognized characters began. -/
  pending : Option Cursor

/-! ## Words and quotes -/

def isSymbolStart (character : Char) : Bool :=
  character.isAlpha || character == '_' || character == '$'

def isSymbolChar (character : Char) : Bool :=
  character.isAlphanum || character == '_' || character == '$' || character == '-' ||
    character == '.' || character == '/'

/-- The symbol in front of a text.  A function arrow ends it. -/
def symbolText : List Char → List Char
  | [] => []
  | '-' :: '>' :: _ => []
  | character :: rest => if isSymbolChar character then character :: symbolText rest else []

/-- The character that a backslash and a letter stand for. -/
def unescape : Char → Char
  | 'n' => '\n'
  | 't' => '\t'
  | 'r' => '\r'
  | character => character

/-- Read the inside of a quoted string up to its closing quote.  A single
quote is doubled to stand for itself; between double quotes a backslash
escapes the next character. -/
def readQuoted (quote : Char) : List Char → Option (List Char × List Char)
  | [] => none
  | character :: rest =>
      let keep (value : Char) (read : Option (List Char × List Char)) :=
        read.map fun (text, behind) => (value :: text, behind)
      if character = quote then
        match rest with
        | [] => some ([], [])
        | next :: behind =>
            if quote = '\'' && next = '\'' then keep '\'' (readQuoted quote behind)
            else some ([], rest)
      else if character = '\\' && quote = '"' then
        match rest with
        | [] => none
        | escaped :: behind => keep (unescape escaped) (readQuoted quote behind)
      else keep character (readQuoted quote rest)

/-- Whether a line holds the sign of an assignment outside of quotes, in front
of any comment.  The first argument is the quote that is open. -/
def holdsAssignment : Option Char → List Char → Bool
  | _, [] => false
  | some quote, character :: rest =>
      holdsAssignment (if character = quote then none else some quote) rest
  | none, character :: rest =>
      if character = '"' || character = '\'' then holdsAssignment (some character) rest
      else if character = '#' then false
      else if character = ':' && rest.head?.all (fun next => Text.isGap next || next == '=') then
        true
      else holdsAssignment none rest

namespace Scanner

/-! ## Producing tokens -/

/-- Close the open run of unrecognized characters at the cursor. -/
def flush (scanner : Scanner) : Scanner :=
  match scanner.pending with
  | none => scanner
  | some start =>
      let text := String.ofList (start.textTo scanner.cursor)
      { scanner with
        pending := none
        tokens := ⟨.unknown text, start.offset, scanner.cursor.offset⟩ :: scanner.tokens
        diagnostics := ⟨text, start.place, scanner.cursor.place⟩ :: scanner.diagnostics }

/-- Append a token behind the open run. -/
def emit (scanner : Scanner) (lexeme : Lexeme) (span : Span) : Scanner :=
  let flushed := scanner.flush
  { flushed with tokens := ⟨lexeme, span⟩ :: flushed.tokens }

/-- Read a number of characters without a token. -/
def skip (scanner : Scanner) (count : Nat) : Scanner :=
  { scanner with cursor := scanner.cursor.advance count }

/-- Read a number of characters as one token.  An open run reaches to the end
of these characters, since it is closed behind them. -/
def read (scanner : Scanner) (count : Nat) (lexeme : Lexeme) : Scanner :=
  let moved := scanner.skip count
  moved.emit lexeme ⟨scanner.cursor.offset, moved.cursor.offset⟩

/-- Add characters to the run of unrecognized ones, which begins here unless
it is already open. -/
def reject (scanner : Scanner) (count : Nat) : Scanner :=
  { scanner.skip count with pending := some (scanner.pending.getD scanner.cursor) }

/-! ## Lines and levels -/

/-- Whether a line end says nothing here, at the beginning or next to layout. -/
def suppressesNewline (scanner : Scanner) : Bool :=
  match scanner.tokens with
  | [] => true
  | token :: _ =>
      match token.lexeme with
      | .newline _ | .indent | .outdent => true
      | _ => false

/-- Close a number of levels. -/
def emitOutdents (span : Span) : Nat → Scanner → Scanner
  | 0, scanner => scanner
  | count + 1, scanner => emitOutdents span count (scanner.emit .outdent span)

/-- Enter the next line with content.  The end of the source stands at the
outermost level, so that trailing lines only close what is open. -/
def beginLine (scanner : Scanner) (lineEnd : Nat) (announce : Bool) : Except LexError Scanner :=
  let cursor := scanner.cursor.toContent
  let hyphen := cursor.atListHyphen
  let atEnd := cursor.rest.isEmpty
  let level := if atEnd then 0 else Levels.ofColumn cursor.column hyphen
  let span : Span := ⟨lineEnd, cursor.offset⟩
  let moved := { scanner with cursor }
  match scanner.levels.move level with
  | .deeper levels => .ok ({ moved with levels }.emit .indent span)
  | .outward closed levels => .ok (emitOutdents span closed { moved with levels })
  | .level =>
      .ok (if announce && !atEnd && !moved.suppressesNewline then
        moved.emit (.newline cursor.column) span
      else moved)
  | .misfit =>
      let width := (cursor.rest.head?.map Char.utf8Size).getD 0
      let fault : Span := ⟨cursor.offset, cursor.offset + width⟩
      .error (if hyphen then .misalignedListItem cursor.column fault
        else .inconsistentIndent cursor.column fault)

/-- A list item is read as the word `yield`.  When its line holds an
assignment, the content opens a level in its own column. -/
def listItem (scanner : Scanner) : Except LexError Scanner :=
  let hyphen := scanner.cursor
  if scanner.levels.current ≠ Levels.ofColumn hyphen.column true then
    .error (.misalignedListItem hyphen.column ⟨hyphen.offset, hyphen.offset + 1⟩)
  else
    let item := scanner.emit (.symbol "yield") ⟨hyphen.offset, hyphen.offset + 1⟩
    let content := (hyphen.advance 1).skipGap
    let moved := { item with cursor := content }
    if holdsAssignment none content.line then
      let opened := { moved with levels := Levels.ofColumn content.column false :: moved.levels }
      .ok (opened.emit .indent ⟨hyphen.offset, content.offset⟩)
    else .ok moved

/-! ## Rules -/

def comment (scanner : Scanner) : Scanner :=
  let line := scanner.cursor.line
  let stop := scanner.cursor.advance line.length
  let text := String.ofList (Text.trim (line.drop 1))
  { scanner.emit (.comment text) ⟨scanner.cursor.offset, stop.offset⟩ with cursor := stop }

/-- The marks that are read wherever they stand, longer ones first. -/
def marks : List (String × Lexeme) :=
  [("{}", .emptyMapping), ("[]", .emptySequence), ("->", .arrow), ("+?", .softMerge),
    ("(", .openParen), (")", .closeParen), ("^", .lift), ("|", .pipeline), ("+", .hardMerge),
    ("?", .patternMatch)]

/-- Three hyphens that stand alone at the beginning of a line. -/
def atSectionStart (cursor : Cursor) : Bool :=
  cursor.fresh &&
    match cursor.rest with
    | '-' :: '-' :: '-' :: behind => behind.head?.all fun next => Text.isGap next || next == '\n'
    | _ => false

def mark (scanner : Scanner) : Option Scanner :=
  if atSectionStart scanner.cursor then some (scanner.read 3 .sectionStart)
  else
    (marks.find? fun (text, _) => text.toList.isPrefixOf scanner.cursor.rest).map
      fun (text, lexeme) => scanner.read text.length lexeme

/-- A string in quotes.  Without a closing quote the rest of the line is
unrecognized. -/
def quoted (scanner : Scanner) : Option Scanner :=
  match scanner.cursor.rest with
  | [] => none
  | quote :: behind =>
      if quote = '"' || quote = '\'' then
        let line := Text.line behind
        match readQuoted quote line with
        | some (value, after) =>
            some (scanner.read (line.length + 1 - after.length) (.text (String.ofList value)))
        | none => some (scanner.reject (line.length + 1))
      else none

/-- The scalar behind a literal assignment: a string in quotes, or the line up
to a comment. -/
def literalValue (scanner : Scanner) : Scanner :=
  let scanner := { scanner with cursor := scanner.cursor.skipGap }
  match scanner.quoted with
  | some read => read
  | none =>
      let text := Text.trimEnd (scanner.cursor.line.takeWhile (· ≠ '#'))
      let lexeme : Lexeme :=
        if text = ['\x7b', '\x7d'] then .emptyMapping
        else if text = ['[', ']'] then .emptySequence
        else Scalar.classify text
      scanner.read text.length lexeme

/-- Whether the token in front is a symbol that ends at the cursor. -/
def followsSymbol (scanner : Scanner) : Bool :=
  match scanner.tokens with
  | ⟨.symbol _, span⟩ :: _ => span.stop == scanner.cursor.offset
  | _ => false

/-- The forms of an assignment, and the accessor between two names. -/
def colon (scanner : Scanner) : Option Scanner :=
  match scanner.cursor.rest with
  | ':' :: behind =>
      match behind with
      | [] => some (scanner.read 1 (.assignment false))
      | next :: _ =>
          if next = '=' then some (scanner.read 2 (.assignment false))
          else if next = '\n' then some (scanner.read 1 (.assignment false))
          else if Text.isGap next then
            let tail := Text.trimStart (Text.line behind)
            if tail.isEmpty || tail.head? == some '#' then some (scanner.read 1 (.assignment false))
            else some (scanner.read 1 (.assignment true)).literalValue
          else if isSymbolStart next && scanner.followsSymbol then some (scanner.read 1 .accessor)
          else none
  | _ => none

def number (scanner : Scanner) : Option Scanner :=
  match Scalar.splitNumeral scanner.cursor.rest with
  | none => none
  | some (text, behind) =>
      if behind.head?.any isSymbolChar then none
      else (Scalar.readNumeral text).map fun value => scanner.read text.length (.number value)

def symbol (scanner : Scanner) : Option Scanner :=
  if scanner.cursor.rest.head?.any isSymbolStart then
    let text := symbolText scanner.cursor.rest
    let lexeme : Lexeme :=
      match Scalar.readBoolean text with
      | some value => .boolean value
      | none => .symbol (String.ofList text)
    some (scanner.read text.length lexeme)
  else none

/-- The rules of content, in the order in which they are tried. -/
def content (scanner : Scanner) : Option Scanner :=
  scanner.mark <|> scanner.colon <|> scanner.quoted <|> scanner.number <|> scanner.symbol

/-- Read one piece of the source. -/
def step (scanner : Scanner) : Except LexError Scanner :=
  match scanner.cursor.rest with
  | [] => .ok scanner
  | next :: _ =>
      if next = '\n' then (scanner.flush.skip 1).beginLine scanner.cursor.offset true
      else if Text.isGap next then .ok (scanner.flush.skip 1)
      else if next = '#' then .ok scanner.comment
      else if scanner.cursor.atListHyphen then scanner.listItem
      else .ok (scanner.content.getD (scanner.reject 1))

/-- Read to the end of the source.  Every step shortens the text that is left. -/
def run (scanner : Scanner) : Except LexError Scanner :=
  if scanner.cursor.rest.isEmpty then .ok scanner
  else
    match scanner.step with
    | .error failure => .error failure
    | .ok next =>
        if next.cursor.left < scanner.cursor.left then next.run
        else .error (.noProgress scanner.cursor.offset)
termination_by scanner.cursor.left

/-- Close the run and the levels that are still open. -/
def finish (scanner : Scanner) : Scanner :=
  let stop : Span := ⟨scanner.cursor.offset, scanner.cursor.offset⟩
  (emitOutdents stop (scanner.levels.length - 1) scanner.flush).emit .endOfInput stop

/-- The state in front of a source. -/
def ofText (text : List Char) : Scanner := ⟨.ofText text, [0], [], [], none⟩

end Scanner

/-! ## Whole sources -/

/-- Write every carriage return in front of a line feed as part of that line feed. -/
def joinLineEnds : List Char → List Char
  | '\r' :: '\n' :: rest => '\n' :: joinLineEnds rest
  | character :: rest => character :: joinLineEnds rest
  | [] => []

/-- Every line ends with a single line feed, the last one too. -/
def normalize (source : List Char) : List Char :=
  let lines := joinLineEnds source
  if lines.getLast? = some '\n' then lines else lines ++ ['\n']

/-- A source with its tokens.  Spans refer to the normalized source. -/
structure TokenizedSource where
  source : String
  tokens : List Token
  diagnostics : List Diagnostic

/-- Read a source into tokens. -/
def tokenize (source : String) : Except LexError TokenizedSource :=
  if source.isEmpty then .ok ⟨"", [⟨.endOfInput, 0, 0⟩], []⟩
  else do
    let text := normalize source.toList
    let entered ← (Scanner.ofText text).beginLine 0 false
    let scanner ← entered.run
    let finished := scanner.finish
    return ⟨String.ofList text, finished.tokens.reverse, finished.diagnostics.reverse⟩

end Manifest
