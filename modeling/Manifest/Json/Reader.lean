import Manifest.Json.Token
import Manifest.Json.Writer

/-!
# Values from JSON

The tokens of a JSON text are put together from left to right.  The sequences
and mappings that are still open lie on a stack, so that the depth of a text
is the height of the stack.
-/

namespace Manifest
namespace Json

/-- A container that is still open. -/
inductive Container where
  /-- A sequence with its items so far, latest first. -/
  | items (done : List Value)
  /-- A mapping with its fields so far. -/
  | fields (done : Fields Value)
  /-- A mapping that waits for the value of a key. -/
  | field (done : Fields Value) (key : String)

/-- What may come next. -/
inductive Expects where
  | value
  /-- A value, or the end of an empty sequence. -/
  | firstItem
  | key
  /-- A key, or the end of an empty mapping. -/
  | firstKey
  | colon
  /-- The end of the innermost container, or a comma. -/
  | more
  /-- Nothing: the text stands for this value. -/
  | nothing (result : Value)

/-- The state of a reading. -/
structure Assembly where
  stack : List Container
  expects : Expects

namespace Assembly

/-- Put a finished value in its place. -/
def deliver (value : Value) : List Container → Option Assembly
  | [] => some ⟨[], .nothing value⟩
  | .items done :: outer => some ⟨.items (value :: done) :: outer, .more⟩
  | .field done key :: outer => some ⟨.fields (Fields.insert done key value) :: outer, .more⟩
  | .fields _ :: _ => none

/-- Take the token of a value, or of its beginning.  The stack may not reach
the given limit. -/
def begin (limit : Nat) (stack : List Container) : Token → Option Assembly
  | .null => deliver .unit stack
  | .boolean truth => deliver (.boolean truth) stack
  | .number number => deliver (.number number) stack
  | .text content => deliver (.text (String.ofList content)) stack
  | .openSequence =>
      if stack.length + 1 < limit then some ⟨.items [] :: stack, .firstItem⟩ else none
  | .openMapping =>
      if stack.length + 1 < limit then some ⟨.fields [] :: stack, .firstKey⟩ else none
  | _ => none

/-- Close the innermost container. -/
def close (stack : List Container) (token : Token) : Option Assembly :=
  match stack, token with
  | .items done :: outer, .closeSequence => deliver (.sequence done.reverse) outer
  | .fields done :: outer, .closeMapping => deliver (.mapping done) outer
  | _, _ => none

/-- Take one token. -/
def step (limit : Nat) (assembly : Assembly) (token : Token) : Option Assembly :=
  match assembly.expects, assembly.stack, token with
  | .value, stack, _ => begin limit stack token
  | .firstItem, stack, .closeSequence => close stack token
  | .firstItem, stack, _ => begin limit stack token
  | .firstKey, stack, .closeMapping => close stack token
  | .firstKey, .fields done :: outer, .text key
  | .key, .fields done :: outer, .text key =>
      some ⟨.field done (String.ofList key) :: outer, .colon⟩
  | .colon, stack, .colon => some ⟨stack, .value⟩
  | .more, .items done :: outer, .comma => some ⟨.items done :: outer, .value⟩
  | .more, .fields done :: outer, .comma => some ⟨.fields done :: outer, .key⟩
  | .more, stack, _ => close stack token
  | _, _, _ => none

/-- Take all tokens. -/
def run (limit : Nat) : Assembly → List Token → Option Assembly
  | assembly, [] => some assembly
  | assembly, token :: rest => (step limit assembly token).bind fun next => run limit next rest

/-- The value of a token sequence whose nesting stays below a limit. -/
def value? (limit : Nat) (tokens : List Token) : Option Value :=
  match run limit ⟨[], .value⟩ tokens with
  | some ⟨_, .nothing value⟩ => some value
  | _ => none

end Assembly

/-- Read a text whose nesting stays below a limit. -/
def readWithin (limit : Nat) (text : String) : Option Value := do
  Assembly.value? limit (← Token.scan text.toList)

/-- Sequences and mappings may be nested in less than this many levels. -/
def depthLimit : Nat := 128

/-- The value of a JSON text. -/
def read (text : String) : Option Value :=
  readWithin depthLimit text

/-! ## Libraries -/

/-- A library that reads and writes JSON.  Nothing is assumed of it. -/
class Library where
  read : (text : String) → Option Value
  /-- The indented text of a value. -/
  write : Value → Option String

instance : Library where
  read := read
  write value := some (pretty value)

/-- The indented text of a value, which is never missing. -/
def written [Library] (value : Value) : String := (Library.write value).getD "null"

/-! ## Bindings -/

/-- The reasons for which a text holds no bindings. -/
inductive BindingsError where
  | json
  | notAnObject (found : String)
deriving DecidableEq

def BindingsError.message : BindingsError → String
  | json => "invalid JSON"
  | notAnObject found => "bindings must be a JSON object, found " ++ found

/-- Read the bindings of a document. -/
def readBindings [Library] (text : String) : Except BindingsError Value.Bindings :=
  match Library.read text with
  | none => .error .json
  | some (.mapping fields) => .ok fields
  | some other => .error (.notAnObject other.kind)

end Json
end Manifest
