import Manifest.CommandLine.Files
import Manifest.CommandLine.Options
import Manifest.CommandLine.Report
import Manifest.Json.Reader
import Manifest.Pattern.Reader
import Manifest.Schema.Conform
import Manifest.Yaml.Writer

/-!
# A run of the command line

A run reads its bindings, then all its documents, and compiles the documents
in order.  Only when everything has succeeded does it write the value; in
every other case it writes a complaint and nothing else.  The arguments, JSON,
YAML and patterns are left to libraries.
-/

namespace Manifest
namespace CommandLine

variable [ArgumentReader] [Json.Library] [Yaml.Library] [Pattern.Engine]

/-- What a run leaves behind. -/
structure Outcome where
  code : Nat
  stdout : String
  stderr : String

/-- Read the bindings that an option names. -/
def readBindings (files : Files) : Option String → Except String Value.Bindings
  | none => .ok []
  | some path =>
      match files.readText path with
      | .error reason => .error (Files.complaint path reason)
      | .ok text =>
          match Json.readBindings text with
          | .error error => .error (path ++ ": " ++ error.message)
          | .ok bindings => .ok bindings

/-- The values of documents, or the report of the first failure.  Both come
with the reports of diagnostics so far. -/
def documentsReport (bindings : Value.Bindings) : List NamedSource →
    String × Except String (List Value)
  | [] => ("", .ok [])
  | document :: rest =>
      match compileSource document.source bindings with
      | .error error => ("", .error (failureReport document.name document.source error))
      | .ok evaluated =>
          let warnings := String.join
            (evaluated.diagnostics.map (diagnosticReport document.name document.source))
          let (more, result) := documentsReport bindings rest
          (warnings ++ more, result.map (evaluated.value :: ·))

/-- A single document gives its value; several are joined. -/
def combine : List Value → Value
  | [only] => only
  | values => .concat values

/-- One line about one fault. -/
def faultLine (fault : Fault) : String :=
  fault.place ++ ": " ++ fault.message ++ " (" ++ fault.code ++ ")\n"

/-- The text of a value in a format. -/
def render (format : Format) (value : Value) : Except String String :=
  match format with
  | .json => .ok (Json.written value)
  | .yaml => Yaml.Library.write value

/-- A text without the blanks at its end, as one line or more. -/
def printed (text : String) : String :=
  String.ofList (Text.trimEnd text.toList) ++ "\n"

/-- Finish a run that cannot go on. -/
def complain (text : String) : Outcome := ⟨1, "", "error: " ++ text ++ "\n"⟩

/-- Finish a run with a value. -/
def conclude (options : Options) (warnings : String) (value : Value) : Outcome :=
  let faults := if options.checkResources then value.resourceFaults else []
  if faults.isEmpty then
    match render options.format value with
    | .ok text => ⟨0, printed text, warnings⟩
    | .error text => ⟨1, "", warnings ++ (complain text).stderr⟩
  else ⟨2, "", warnings ++ String.join (faults.map faultLine)⟩

/-- Run with options that have been read. -/
def runWith (options : Options) (files : Files) : Outcome :=
  match readBindings files options.bindings with
  | .error text => complain text
  | .ok bindings =>
      let inputs :=
        if options.readsStandardInput then files.fromStandardInput else files.inputs options.paths
      match inputs with
      | .error text => complain text
      | .ok documents =>
          match documentsReport bindings documents with
          | (warnings, .error report) => ⟨1, "", warnings ++ report⟩
          | (warnings, .ok values) => conclude options warnings (combine values)

/-- Run with arguments. -/
def run (arguments : List String) (files : Files) : Outcome :=
  match ArgumentReader.read arguments with
  | .misuse complaint => ⟨2, "", complaint⟩
  | .display text => ⟨0, text, ""⟩
  | .compile options => runWith options files

end CommandLine
end Manifest
