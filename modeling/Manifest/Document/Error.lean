import Manifest.Token

/-!
# Failures of parsing

Each constructor is one cause.  The place is the offending token, where there
is one.
-/

namespace Manifest

inductive ParseError where
  | unexpectedToken (found : String) (context : String) (span : Span)
  | unrecognizedInput (text : String) (span : Span)
  | emptySection (span : Span)
  | stackUnderflow (operator : String) (span : Span)
  | stackShape (count : Nat) (span : Span)
  | invalidParameter (span : Span)
  | backtrack (requested position : Nat)
  | missingEnd
  /-- The nesting allowance is used up.  It grows with the tokens, so that no
  token sequence needs more. -/
  | tooDeep
deriving DecidableEq

namespace ParseError

/-- A token that does not fit.  Unrecognized characters are reported as such. -/
def unexpected (token : Token) (context : String) : ParseError :=
  match token.lexeme with
  | .unknown text => unrecognizedInput text token.span
  | lexeme => unexpectedToken lexeme.name context token.span

def message : ParseError → String
  | unexpectedToken found context _ => "unexpected " ++ found ++ " while parsing " ++ context
  | unrecognizedInput text _ => "unrecognized input \"" ++ text ++ "\""
  | emptySection _ => "section contains no expressions"
  | stackUnderflow operator _ => "operator " ++ operator ++ " has no left operand"
  | stackShape count _ => "expected a single expression but found " ++ toString count
  | invalidParameter _ => "function parameters must be bare identifiers"
  | backtrack requested position =>
      "cannot backtrack " ++ toString requested ++ " token(s) from position " ++ toString position
  | missingEnd => "token sequence does not end with end-of-input"
  | tooDeep => "tokens are nested too deeply"

def span : ParseError → Option Span
  | unexpectedToken _ _ span => some span
  | unrecognizedInput _ span => some span
  | emptySection span => some span
  | stackUnderflow _ span => some span
  | stackShape _ span => some span
  | invalidParameter span => some span
  | backtrack _ _ => none
  | missingEnd => none
  | tooDeep => none

end ParseError
end Manifest
