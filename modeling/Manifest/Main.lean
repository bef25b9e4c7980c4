import Manifest.CommandLine.Run

/-!
# The program

The files that the arguments name are looked up first; the run itself then
decides everything.
-/

namespace Manifest
namespace CommandLine

/-- The reason of a failed reading. -/
def ReadFailure.ofError : IO.Error → ReadFailure
  | .noFileOrDirectory .. => .missing
  | .noSuchThing .. => .missing
  | .inappropriateType .. => .notADirectory
  | error => .other error.toString

/-- The text of a byte sequence. -/
def decode (bytes : ByteArray) : Except ReadFailure String :=
  match String.fromUTF8? bytes with
  | some text => .ok text
  | none => .error .notText

/-- Look at one path. -/
def lookUp (path : String) : IO Entry := do
  let place := (← IO.currentDir) / path
  try
    if ← place.isDir then
      return .directory ((← place.readDir).toList.map fun found => found.fileName)
    else
      match decode (← IO.FS.readBinFile place) with
      | .ok text => return .file text
      | .error reason => return .failure reason
  catch error => return .failure (.ofError error)

/-- Look at a path and, if it is a directory, at the manifests in it. -/
def lookUpAll (path : String) : IO (List (String × Entry)) := do
  match ← lookUp path with
  | .directory names =>
      let inside ← (names.filter isManifestName).mapM fun name => do
        let entry ← lookUp (joinPath path name)
        return (joinPath path name, entry)
      return (path, .directory names) :: inside
  | entry => return [(path, entry)]

/-- The whole standard input. -/
def readStandardInput : IO (Except ReadFailure String) := do
  let input ← IO.getStdin
  let mut bytes := ByteArray.empty
  repeat
    let chunk ← input.read 65536
    if chunk.isEmpty then break
    bytes := bytes ++ chunk
  return decode bytes

/-- Everything that a run with these options may look at. -/
def surroundings (options : Options) : IO Files := do
  let entries ← (options.bindings.toList ++ options.paths).mapM lookUpAll
  let input ← if options.readsStandardInput then readStandardInput else pure (.ok "")
  let known := entries.flatten
  return ⟨fun path => (known.lookup path).getD (.failure .missing), input⟩

end CommandLine
end Manifest

open Manifest.CommandLine in
/-- Run with the arguments of the process and leave its exit code behind. -/
def main (arguments : List String) : IO UInt32 := do
  let files ← match ArgumentReader.read arguments with
    | .compile options => surroundings options
    | _ => pure (Files.ofTexts [] "")
  let outcome := run arguments files
  IO.print outcome.stdout
  IO.eprint outcome.stderr
  return outcome.code.toUInt32
