/-!
# Options of a run

What a run is asked for stands in its arguments, which a library reads.  Here
arguments are paths and options, in any order.  An option takes its value from
the next argument or behind an equals sign, and it is given only once.  Behind
two hyphens every argument is a path.
-/

namespace Manifest
namespace CommandLine

inductive Format where
  | json
  | yaml
deriving DecidableEq

structure Options where
  paths : List String
  /-- The file that holds the bindings. -/
  bindings : Option String
  /-- The format that is asked for. -/
  chosen : Option Format
  checkResources : Bool
  verbose : Bool

namespace Options

def empty : Options := ⟨[], none, none, false, false⟩

/-- The format in which the value is written. -/
def format (options : Options) : Format := options.chosen.getD .json

/-- Whether a path stands for the standard input. -/
def isStandardInput (path : String) : Bool :=
  match path.toList.splitOn '/' with
  | first :: behind => first == ['-'] && behind.all fun part => part == [] || part == ['.']
  | [] => false

/-- Whether the only input is the standard input. -/
def readsStandardInput (options : Options) : Bool :=
  match options.paths with
  | [] => true
  | [path] => isStandardInput path
  | _ => false

end Options

/-! ## Requests -/

/-- What arguments ask for. -/
inductive Request where
  | compile (options : Options)
  /-- Nothing but a text, as the version is. -/
  | display (text : String)
  /-- They make no sense. -/
  | misuse (complaint : String)

/-- A library that reads arguments.  Nothing is assumed of it. -/
class ArgumentReader where
  read : (arguments : List String) → Request

/-! ## Reading -/

/-- Why arguments make no sense. -/
inductive UsageError where
  | unknownOption (argument : String)
  | missingValue (option : String)
  | repeatedOption (option : String)
  | invalidFormat (text : String)
deriving DecidableEq

def UsageError.message : UsageError → String
  | unknownOption argument => "unexpected argument '" ++ argument ++ "' found"
  | missingValue option => "a value is required for '" ++ option ++ "' but none was supplied"
  | repeatedOption option => "the argument '" ++ option ++ "' cannot be used multiple times"
  | invalidFormat text => "invalid value '" ++ text ++ "' for '--format <FORMAT>'"

/-- What ends the reading of arguments. -/
inductive Stop where
  | help
  | version
  | misuse (error : UsageError)

/-- How the program calls itself. -/
def versionText : String := "kyml 0.0.2\n"

/-- How the program is used. -/
def helpText : String :=
  "Compile kyml manifests to plain YAML/JSON data\n\n" ++
  "Usage: kyml [OPTIONS] [PATHS]...\n\n" ++
  "Arguments:\n" ++
  "  [PATHS]...  Source files or directories of `*.kyml` files. " ++
    "Reads stdin when empty or `-`\n\n" ++
  "Options:\n" ++
  "      --bindings <BINDINGS>  JSON object of initial bindings\n" ++
  "      --format <FORMAT>      Output format [default: json] [possible values: json, yaml]\n" ++
  "      --check-resources      " ++
    "Check that every emitted document has string `apiVersion` and `kind`\n" ++
  "  -v, --verbose              Log pipeline stages to stderr\n" ++
  "  -h, --help                 Print help\n" ++
  "  -V, --version              Print version\n"

def Stop.request : Stop → Request
  | help => .display helpText
  | version => .display versionText
  | misuse error => .misuse ("error: " ++ error.message ++ "\n")

namespace Options

/-- An argument that is a path: a lone hyphen stands for the standard input. -/
def isPath (argument : String) : Bool :=
  argument == "-" || argument.toList.head? != some '-'

/-- The value of an option that is written behind an equals sign. -/
def attached? (option argument : String) : Option String :=
  let mark := option.toList ++ ['=']
  if mark.isPrefixOf argument.toList then
    some (String.ofList (argument.toList.drop mark.length))
  else none

def refuse (error : UsageError) : Except Stop Options := .error (.misuse error)

def addPath (options : Options) (path : String) : Except Stop Options :=
  if path.isEmpty then refuse (.missingValue "[PATHS]...")
  else .ok { options with paths := options.paths ++ [path] }

def setBindings (options : Options) (path : String) : Except Stop Options :=
  if options.bindings.isSome then refuse (.repeatedOption "--bindings <BINDINGS>")
  else if path.isEmpty then refuse (.missingValue "--bindings <BINDINGS>")
  else .ok { options with bindings := some path }

def setFormat (options : Options) (text : String) : Except Stop Options :=
  if options.chosen.isSome then refuse (.repeatedOption "--format <FORMAT>")
  else if text = "json" then .ok { options with chosen := some .json }
  else if text = "yaml" then .ok { options with chosen := some .yaml }
  else refuse (.invalidFormat text)

def setCheckResources (options : Options) : Except Stop Options :=
  if options.checkResources then refuse (.repeatedOption "--check-resources")
  else .ok { options with checkResources := true }

def setVerbose (options : Options) : Except Stop Options :=
  if options.verbose then refuse (.repeatedOption "--verbose")
  else .ok { options with verbose := true }

/-- Read the letters behind a single hyphen. -/
def readLetters (options : Options) : List Char → Except Stop Options
  | [] => .ok options
  | 'h' :: _ => .error .help
  | 'V' :: _ => .error .version
  | 'v' :: rest => do (← options.setVerbose).readLetters rest
  | letter :: _ => refuse (.unknownOption (String.ofList ['-', letter]))

/-- Read one argument that stands for itself. -/
def readOne (options : Options) (argument : String) : Except Stop Options :=
  match attached? "--bindings" argument, attached? "--format" argument with
  | some path, _ => options.setBindings path
  | none, some text => options.setFormat text
  | none, none =>
      match argument.toList with
      | '-' :: '-' :: _ => refuse (.unknownOption argument)
      | '-' :: letter :: rest => options.readLetters (letter :: rest)
      | _ => options.addPath argument

/-- Read arguments one after the other.  Asking for the help or the version ends the
reading. -/
def read (options : Options) : List String → Except Stop Options
  | [] => .ok options
  | "--" :: rest => rest.foldlM addPath options
  | "--help" :: _ => .error .help
  | "--version" :: _ => .error .version
  | "--verbose" :: rest => do (← options.setVerbose).read rest
  | "--check-resources" :: rest => do (← options.setCheckResources).read rest
  | ["--bindings"] => refuse (.missingValue "--bindings <BINDINGS>")
  | ["--format"] => refuse (.missingValue "--format <FORMAT>")
  | "--bindings" :: path :: rest => do
      if isPath path then (← options.setBindings path).read rest
      else refuse (.missingValue "--bindings <BINDINGS>")
  | "--format" :: text :: rest => do (← options.setFormat text).read rest
  | argument :: rest => do (← options.readOne argument).read rest

end Options

/-- The arguments that the program takes. -/
instance : ArgumentReader where
  read arguments :=
    match Options.read .empty arguments with
    | .ok options => .compile options
    | .error stop => stop.request

end CommandLine
end Manifest
