import Manifest.Json.Writer
import Manifest.Schema.Conform
import Manifest.Token

/-!
# Findings as JSON

Tools read diagnostics and faults as arrays of objects.  The members of each
object stand in a fixed order.
-/

namespace Manifest
namespace Json

/-- A place in a source. -/
def position (position : Position) : String :=
  object [("line", toString position.line), ("column", toString position.column),
    ("offset", toString position.offset)]

/-- The diagnostics of a source. -/
def diagnostics (found : List Diagnostic) : String :=
  array (found.map fun diagnostic =>
    object [("code", quote diagnostic.code), ("message", quote diagnostic.message),
      ("begin", position diagnostic.start), ("end", position diagnostic.stop)])

/-- The faults of a value. -/
def faults (found : List Fault) : String :=
  array (found.map fun fault =>
    object [("code", quote fault.code), ("message", quote fault.message),
      ("path", array (fault.path.map quote))])

end Json
end Manifest
