import Manifest.Compile

/-!
# Inputs of a run

A run looks at files and directories, but it never changes them.  So it
depends on nothing but what stands behind each path, which is all that is
kept of the file system here.
-/

namespace Manifest
namespace CommandLine

/-- Why a path cannot be read as a text. -/
inductive ReadFailure where
  | missing
  | isDirectory
  | notADirectory
  | notText
  | other (text : String)
deriving DecidableEq

def ReadFailure.message : ReadFailure → String
  | missing => "No such file or directory (os error 2)"
  | isDirectory => "Is a directory (os error 21)"
  | notADirectory => "Not a directory (os error 20)"
  | notText => "stream did not contain valid UTF-8"
  | other text => text

/-- What stands behind a path. -/
inductive Entry where
  | file (content : String)
  /-- A directory with the names in it, in no particular order. -/
  | directory (names : List String)
  | failure (reason : ReadFailure)

/-- The surroundings of a run. -/
structure Files where
  look : String → Entry
  standardInput : Except ReadFailure String

/-- The ending of a manifest's file name. -/
def manifestEnding : String := "kyml"

/-- Whether a file name has an ending and it is that of manifests.  A point in
front of the whole name begins no ending. -/
def isManifestName (name : String) : Bool :=
  match name.toList.reverse.span (· ≠ '.') with
  | (ending, _ :: stem) => String.ofList ending.reverse == manifestEnding && !stem.isEmpty
  | _ => false

/-- The path of a name in a directory. -/
def joinPath (directory name : String) : String :=
  if directory.toList.getLast? == some '/' then directory ++ name else directory ++ "/" ++ name

namespace Files

/-- The parts of a path, without those that lead nowhere else. -/
def pathParts (path : String) : List String :=
  ((path.toList.splitOn '/').map String.ofList).filter fun part => part != "" && part != "."

/-- What stands behind a path when there are only files with the given paths
and texts.  A directory is there when a path leads through it. -/
def lookAmong (texts : List (String × String)) (path : String) : Entry :=
  let wanted := pathParts path
  let parts := texts.map fun (name, content) => (pathParts name, content)
  match parts.find? fun entry => entry.1 == wanted with
  | some (_, content) =>
      if path.toList.getLast? == some '/' then .failure .notADirectory else .file content
  | none =>
      let below := parts.filterMap fun (name, _) =>
        if wanted.isPrefixOf name then (name.drop wanted.length).head? else none
      if !below.isEmpty || wanted.isEmpty && path != "" then .directory below.eraseDups
      else if parts.any fun entry => entry.1.isPrefixOf wanted then .failure .notADirectory
      else .failure .missing

/-- Surroundings that consist of given texts. -/
def ofTexts (texts : List (String × String)) (standardInput : String) : Files :=
  ⟨lookAmong texts, .ok standardInput⟩

/-- The text of a file. -/
def readText (files : Files) (path : String) : Except ReadFailure String :=
  match files.look path with
  | .file content => .ok content
  | .directory _ => .error .isDirectory
  | .failure reason => .error reason

/-- The complaint about a path that cannot be read. -/
def complaint (path : String) (reason : ReadFailure) : String :=
  "cannot read " ++ path ++ ": " ++ reason.message

/-- Read one document. -/
def document (files : Files) (path : String) : Except String NamedSource :=
  match files.readText path with
  | .ok source => .ok ⟨path, source⟩
  | .error reason => .error (complaint path reason)

/-- Read documents in order, up to the first that cannot be read. -/
def documents (files : Files) : List String → Except String (List NamedSource)
  | [] => .ok []
  | path :: rest =>
      match files.document path with
      | .error text => .error text
      | .ok document => (files.documents rest).map (document :: ·)

/-- The paths of the manifests that an argument stands for.  A directory
stands for those in it, in the order of their names. -/
def expand (files : Files) (path : String) : List String :=
  match files.look path with
  | .directory names =>
      ((names.filter isManifestName).mergeSort fun left right => left ≤ right).map (joinPath path)
  | _ => [path]

/-- Read the documents of several arguments. -/
def inputs (files : Files) : List String → Except String (List NamedSource)
  | [] => .ok []
  | path :: rest =>
      match files.documents (files.expand path) with
      | .error text => .error text
      | .ok first => (files.inputs rest).map (first ++ ·)

/-- The document on the standard input. -/
def fromStandardInput (files : Files) : Except String (List NamedSource) :=
  match files.standardInput with
  | .ok source => .ok [⟨"<stdin>", source⟩]
  | .error reason => .error ("cannot read stdin: " ++ reason.message)

end Files
end CommandLine
end Manifest
