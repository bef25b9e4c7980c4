import Manifest.Number
import Manifest.Position

/-!
# Tokens

The layout of a manifest is part of its token sequence: a deeper line is
announced by `indent`, the return to an outer level by `outdent`, and a line
at the same level by `newline`.
-/

namespace Manifest

/-- What a token says. -/
inductive Lexeme where
  /-- The sign after a key.  It is literal when a scalar follows on the same line. -/
  | assignment (literal : Bool)
  /-- A further line at the current level, with its column. -/
  | newline (indent : Nat)
  | indent
  | outdent
  | symbol (name : String)
  | sectionStart
  | emptyMapping
  | emptySequence
  | openParen
  | closeParen
  | comment (text : String)
  | lift
  | pipeline
  | hardMerge
  | softMerge
  | patternMatch
  /-- The colon between two names. -/
  | accessor
  | arrow
  | text (value : String)
  | number (value : Number)
  | boolean (value : Bool)
  /-- A run of characters that no rule reads. -/
  | unknown (text : String)
  | endOfInput
deriving DecidableEq

namespace Lexeme

/-- How messages call a token. -/
def name : Lexeme → String
  | assignment true => "literal assignment"
  | assignment false => "assignment"
  | newline _ => "newline"
  | indent => "indent"
  | outdent => "outdent"
  | symbol _ => "symbol"
  | sectionStart => "section start"
  | emptyMapping => "empty object"
  | emptySequence => "empty list"
  | openParen => "'('"
  | closeParen => "')'"
  | comment _ => "comment"
  | lift => "lift"
  | pipeline => "pipeline"
  | hardMerge => "hard merge"
  | softMerge => "soft merge"
  | patternMatch => "pattern match"
  | accessor => "accessor"
  | arrow => "function arrow"
  | text _ => "string literal"
  | number _ => "number literal"
  | boolean _ => "boolean literal"
  | unknown _ => "unrecognized input"
  | endOfInput => "end of input"

/-- Whether a term of an expression can begin here. -/
def startsTerm : Lexeme → Bool
  | symbol _ | text _ | number _ | boolean _ | emptyMapping | emptySequence | openParen | lift
  | indent => true
  | _ => false

end Lexeme

/-- A lexeme and the bytes of the source it stands for. -/
structure Token where
  lexeme : Lexeme
  span : Span
deriving DecidableEq

/-- A run of unrecognized characters between two places.  It never stops the reading. -/
structure Diagnostic where
  text : String
  start : Position
  stop : Position
deriving DecidableEq

namespace Diagnostic

def code (_ : Diagnostic) : String := "unrecognized-input"

def message (diagnostic : Diagnostic) : String :=
  "Unrecognized input \"" ++ diagnostic.text ++ "\""

/-- Where and what, on one line. -/
def describe (diagnostic : Diagnostic) : String :=
  let place (position : Position) := toString position.line ++ ":" ++ toString position.column
  let range :=
    if diagnostic.start = diagnostic.stop then place diagnostic.start
    else place diagnostic.start ++ "-" ++ place diagnostic.stop
  range ++ ": " ++ diagnostic.message ++ " (" ++ diagnostic.code ++ ")"

end Diagnostic

/-- The failures that stop the reading of a source. -/
inductive LexError where
  | misalignedListItem (column : Nat) (span : Span)
  | inconsistentIndent (column : Nat) (span : Span)
  | noProgress (offset : Nat)
deriving DecidableEq

namespace LexError

def message : LexError → String
  | misalignedListItem column _ =>
      "list item at column " ++ toString column ++
        " does not line up with the enclosing indentation"
  | inconsistentIndent column _ =>
      "dedent to column " ++ toString column ++ " does not match any enclosing indentation"
  | noProgress offset => "lexer made no progress at offset " ++ toString offset

def span : LexError → Span
  | misalignedListItem _ span => span
  | inconsistentIndent _ span => span
  | noProgress offset => ⟨offset, offset⟩

end LexError
end Manifest
