import Manifest.Compile

/-!
# Reports about documents

A failure is shown with its line and an underlining, where its place is
known.
-/

namespace Manifest
namespace CommandLine

/-- The line of a source with a given number, without its line end. -/
def lineAt (source : String) (number : Nat) : List Char :=
  let lines := source.toList.splitOn '\n'
  let line := (lines[number]?).getD []
  if number + 1 < lines.length && line.getLast? == some '\r' then line.dropLast else line

/-- The mark under a range of a line.  A range that is empty or goes on behind
the line reaches to the end of the line. -/
def underline (line : List Char) (start stop : Position) : List Char :=
  let last :=
    if start.line = stop.line && start.column < stop.column then stop.column
    else if start.column < line.length then line.length
    else start.column + 1
  List.replicate start.column ' ' ++ '^' :: List.replicate (last - start.column - 1) '_'

/-- A line of a source with a range underlined. -/
def underlined (source : String) (start stop : Position) : String :=
  let line := lineAt source start.line
  String.ofList line ++ "\n" ++ String.ofList (underline line start stop) ++ "\n"

/-- The stage of a failure in capitals. -/
def stageTitle : CompileError → String
  | .lex _ => "LEX"
  | .parse _ => "PARSE"
  | .eval _ => "EVAL"

/-- The report of a failure.  Places refer to the source with normalized line ends. -/
def failureReport (name source : String) (error : CompileError) : String :=
  let normalized := String.ofList (joinLineEnds source.toList)
  let title := stageTitle error ++ " ERROR IN " ++ name
  let head := match error.span with
    | none => title ++ ":\n"
    | some span =>
        let start := Position.locate normalized span.start
        let stop := Position.locate normalized span.stop
        title ++ " AT LINE " ++ toString (start.line + 1) ++ ":\n" ++
          underlined normalized start stop
  head ++ error.message ++ "\n\n"

/-- The report of a diagnostic. -/
def diagnosticReport (name source : String) (diagnostic : Diagnostic) : String :=
  "WARNING IN " ++ name ++ " AT LINE " ++ toString (diagnostic.start.line + 1) ++ ":\n" ++
    underlined source diagnostic.start diagnostic.stop ++ diagnostic.message ++ "\n\n"

end CommandLine
end Manifest
