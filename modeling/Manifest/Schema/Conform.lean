import Manifest.Pattern.Engine
import Manifest.Schema

/-!
# Conformance of values

A value either conforms to a schema or it does not; `admits` decides.  The
faults say more: they name every place where a value departs from a schema,
and how.  Patterns are left to an engine.
-/

namespace Manifest

variable [Pattern.Engine]

namespace Schema

/-! ## Decision -/

/-- Whether a number lies between two bounds, which belong to the range. -/
def inRange (least greatest : Option Number) (number : Number) : Bool :=
  least.all (fun bound => bound ≤ number) && greatest.all (fun bound => number ≤ bound)

mutual
/-- Whether a value conforms to a schema.  A pattern that is not valid admits
nothing. -/
def admits : Schema → Value → Bool
  | any, _ | unresolved, _ => true
  | unit, .unit => true
  | text none, .text _ => true
  | text (some pattern), .text content =>
      (Pattern.Engine.test pattern content).toOption == some true
  | number least greatest, .number found => inRange least greatest found
  | boolean, .boolean _ => true
  | struct fields, .mapping values => admitsFields fields values
  | vector elements, .sequence items =>
      elements.isEmpty || items.all fun item => admitsSome elements item
  | union members, value => admitsSome members value
  | resource, .mapping values =>
      (match Fields.get? values "apiVersion" with
        | some (.text _) => true
        | _ => false) &&
      (match Fields.get? values "kind" with
        | some (.text _) => true
        | _ => false)
  | _, _ => false
termination_by structural schema => schema

/-- Whether a value conforms to one of several schemas. -/
def admitsSome : List Schema → Value → Bool
  | [], _ => false
  | schema :: rest, value => admits schema value || admitsSome rest value
termination_by structural schemas => schemas

/-- Whether every required field is there and conforms. -/
def admitsFields : List (String × List Schema) → Fields Value → Bool
  | [], _ => true
  | (name, alternatives) :: rest, values =>
      (match Fields.get? values name with
        | some value => admitsSome alternatives value
        | none => false) && admitsFields rest values
termination_by structural fields => fields
end

end Schema

/-! ## Faults -/

/-- How a value departs from a schema. -/
inductive Departure where
  | wrongKind (expected : Schema) (found : Value)
  | missingField (name : String)
  | outOfRange (number : Number) (least greatest : Option Number)
  | patternMismatch (content pattern : String)
  | invalidPattern (pattern : String) (refusal : Pattern.Refusal)

/-- A departure and the steps that lead to it. -/
structure Fault where
  path : List String
  departure : Departure

namespace Fault

def code (fault : Fault) : String :=
  match fault.departure with
  | .wrongKind _ _ => "wrong-type"
  | .missingField _ => "missing-required"
  | .outOfRange _ _ _ => "out-of-range"
  | .patternMismatch _ _ => "pattern-mismatch"
  | .invalidPattern _ _ => "invalid-type"

/-- What is added in the words of the engine about a pattern that it refuses. -/
def refusalText (refusal : Pattern.Refusal) : String :=
  match refusal.words with
  | none => ""
  | some words => ": " ++ words

def message (fault : Fault) : String :=
  match fault.departure with
  | .wrongKind expected found => "Expected " ++ expected.describe ++ " but found " ++ found.kind
  | .missingField name => "Missing required field \"" ++ name ++ "\""
  | .outOfRange number least greatest =>
      "Value " ++ number.plainText ++ " is outside the range " ++
        Schema.boundsText least greatest
  | .patternMismatch content pattern =>
      "Value \"" ++ content ++ "\" does not match pattern \"" ++ pattern ++ "\""
  | .invalidPattern pattern refusal =>
      "Invalid regex pattern \"" ++ pattern ++ "\"" ++ refusalText refusal

/-- The path as one text. -/
def place (fault : Fault) : String :=
  if fault.path.isEmpty then "$" else ".".intercalate fault.path

end Fault

namespace Schema

/-- The step into an item of a sequence. -/
def indexStep (index : Nat) : String := "[" ++ toString index ++ "]"

/-- The fault of a value whose form is not the expected one. -/
def formFaults (path : List String) (schema : Schema) (value : Value) : List Fault :=
  if schema.admits value then [] else [⟨path, .wrongKind schema value⟩]

/-- The faults of a string that has to contain a match of a pattern. -/
def patternFaults (path : List String) (pattern content : String) : List Fault :=
  match Pattern.Engine.test pattern content with
  | .error refusal => [⟨path, .invalidPattern pattern refusal⟩]
  | .ok true => []
  | .ok false => [⟨path, .patternMismatch content pattern⟩]

/-- Whether a number lies below the one bound or above the other. -/
def outsideRange (least greatest : Option Number) (number : Number) : Bool :=
  least.any (fun bound => number < bound) || greatest.any (fun bound => bound < number)

/-- The faults of a field that has to hold a string. -/
def textFieldFaults (path : List String) (values : Fields Value) (name : String) : List Fault :=
  match Fields.get? values name with
  | none => [⟨path ++ [name], .missingField name⟩]
  | some value => formFaults (path ++ [name]) (text none) value

mutual
/-- The faults of a value at a path. -/
def faults (path : List String) : Schema → Value → List Fault
  | any, _ | unresolved, _ => []
  | text pattern, .text content =>
      match pattern with
      | none => []
      | some pattern => patternFaults path pattern content
  | number least greatest, .number found =>
      if outsideRange least greatest found then [⟨path, .outOfRange found least greatest⟩]
      else []
  | struct fields, .mapping values => fieldFaults path values fields
  | resource, .mapping values =>
      textFieldFaults path values "apiVersion" ++ textFieldFaults path values "kind"
  | vector elements, .sequence items =>
      if elements.isEmpty then []
      else items.zipIdx.flatMap fun (item, index) =>
        faultsOfSome (path ++ [indexStep index]) item elements
  | union members, value => faultsOfSome path value members
  | schema, value => formFaults path schema value
termination_by structural schema => schema

/-- The faults of a value for which several schemas are possible.  A single
one reports its own faults unless it is a union, and without any the value has
to be a unit. -/
def faultsOfSome (path : List String) (value : Value) : List Schema → List Fault
  | [] => formFaults path unit value
  | [union members] => formFaults path (union members) value
  | [only] => if admits only value then [] else faults path only value
  | first :: second :: rest => formFaults path (union (first :: second :: rest)) value
termination_by structural schemas => schemas

/-- The faults of required fields, in the order of the schema. -/
def fieldFaults (path : List String) (values : Fields Value) :
    List (String × List Schema) → List Fault
  | [] => []
  | (name, alternatives) :: rest =>
      (match Fields.get? values name with
        | some value => faultsOfSome (path ++ [name]) value alternatives
        | none => [⟨path ++ [name], .missingField name⟩]) ++ fieldFaults path values rest
termination_by structural fields => fields
end

/-- Every fault of a value. -/
def validate (schema : Schema) (value : Value) : List Fault :=
  schema.faults [] value

end Schema

/-- The faults of emitted resources.  The items of a sequence are checked one
by one, and a unit means that nothing was emitted. -/
def Value.resourceFaults : Value → List Fault
  | .unit => []
  | .sequence items =>
      items.zipIdx.flatMap fun (item, index) =>
        Schema.faults [Schema.indexStep index] .resource item
  | other => Schema.faults [] .resource other

end Manifest
