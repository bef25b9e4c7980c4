/-!
# Engines for patterns

Whether a text contains a match of a written pattern is decided by an engine.  Nothing is
assumed of it: it may refuse a text for any reason, and matches what it likes.
-/

namespace Manifest
namespace Pattern

/-- Why a text is refused as a pattern, in words where they are known. -/
structure Refusal where
  words : Option String

/-- An engine refuses a text, or compiles it to a test for matches. -/
class Engine where
  compile : (pattern : String) → Except Refusal (String → Bool)

/-- Whether a text contains a match of a written pattern. -/
def Engine.test [Engine] (pattern text : String) : Except Refusal Bool :=
  (compile pattern).map fun occursIn => occursIn text

end Pattern
end Manifest
