import Manifest.Document.Parser
import Manifest.Program.Evaluate
import Manifest.Token.Scan

/-!
# From sources to values

Compiling reads a source into tokens, the tokens into a document and the
document into a program.  Several documents are compiled on their own, and
their values are joined.
-/

namespace Manifest

/-- A failure together with the stage that it belongs to. -/
inductive CompileError where
  | lex (error : LexError)
  | parse (error : ParseError)
  | eval (error : EvalError)
deriving DecidableEq

namespace CompileError

def stage : CompileError → String
  | lex _ => "lex"
  | parse _ => "parse"
  | eval _ => "eval"

def message : CompileError → String
  | lex error => "lex error: " ++ error.message
  | parse error => "parse error: " ++ error.message
  | eval error => "evaluation error: " ++ error.message

/-- The place of the failure, if its stage knows one. -/
def span : CompileError → Option Span
  | lex error => some error.span
  | parse error => error.span
  | eval _ => none

end CompileError

/-- A program with the diagnostics of its source. -/
structure Compiled where
  program : Program
  diagnostics : List Diagnostic

/-- Compile a source. -/
def compile (source : String) : Except CompileError Compiled :=
  match tokenize source with
  | .error error => .error (.lex error)
  | .ok read =>
      match Document.ofTokens read.tokens with
      | .error error => .error (.parse error)
      | .ok document => .ok ⟨⟨document⟩, read.diagnostics⟩

/-- A value with the diagnostics of its source. -/
structure Evaluated where
  value : Value
  diagnostics : List Diagnostic

/-- Compile a source and evaluate it. -/
def compileSource (source : String) (bindings : Value.Bindings) : Except CompileError Evaluated :=
  match compile source with
  | .error error => .error error
  | .ok compiled =>
      match compiled.program.evaluate bindings with
      | .error error => .error (.eval error)
      | .ok value => .ok ⟨value, compiled.diagnostics⟩

/-- A source with the name that reports call it by. -/
structure NamedSource where
  name : String
  source : String

/-- A failure in one of several documents. -/
structure DocumentError where
  name : String
  error : CompileError

def DocumentError.message (failure : DocumentError) : String :=
  failure.name ++ ": " ++ failure.error.message

/-- The values of several documents.  The first failure ends the work. -/
def documentValues (bindings : Value.Bindings) : List NamedSource →
    Except DocumentError (List Value)
  | [] => .ok []
  | document :: rest =>
      match compileSource document.source bindings with
      | .error error => .error ⟨document.name, error⟩
      | .ok evaluated => (documentValues bindings rest).map (evaluated.value :: ·)

/-- Compile several documents and join their values. -/
def compileDocuments (documents : List NamedSource) (bindings : Value.Bindings) :
    Except DocumentError Value :=
  (documentValues bindings documents).map Value.concat

end Manifest
