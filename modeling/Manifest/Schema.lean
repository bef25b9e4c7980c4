import Manifest.Expr.Cardinality
import Manifest.Number.Decimal

/-!
# Schemas

A schema says which values may stand in a place.  Where several schemas are
possible they form a list of alternatives, in the order in which they were
found and without repetition.
-/

namespace Manifest

inductive Schema where
  | unit
  /-- A string, which may have to contain a match of a pattern. -/
  | text (pattern : Option String)
  | number (least greatest : Option Number)
  | boolean
  /-- A mapping whose fields are all required, each with its alternatives. -/
  | struct (fields : List (String × List Schema))
  /-- A sequence whose items are of the alternatives.  Without alternatives
  nothing is said about the items. -/
  | vector (items : List Schema)
  | union (members : List Schema)
  | any
  /-- A name about which nothing is known. -/
  | unresolved
  /-- A mapping with the string fields `apiVersion` and `kind`. -/
  | resource

namespace Schema

instance : Inhabited Schema := ⟨unit⟩

/-- Several schemas for one place. -/
abbrev Alternatives := List Schema

/-- The name of the form of a schema. -/
def tag : Schema → String
  | unit => "unit"
  | text _ => "string"
  | number _ _ => "number"
  | boolean => "boolean"
  | struct _ => "struct"
  | vector _ => "vector"
  | union _ => "union"
  | any => "any"
  | unresolved => "unresolved"
  | resource => "KubernetesResource"

/-- Bounds are compared by value, so that both zeros are the same bound. -/
def sameBound : Option Number → Option Number → Bool
  | none, none => true
  | some left, some right => left.sameValue right
  | _, _ => false

mutual
/-- Equality of form.  The order of alternatives counts. -/
def same : Schema → Schema → Bool
  | unit, unit | boolean, boolean | any, any | unresolved, unresolved | resource, resource => true
  | text left, text right => left == right
  | number least greatest, number otherLeast otherGreatest =>
      sameBound least otherLeast && sameBound greatest otherGreatest
  | struct left, struct right => sameFields left right
  | vector left, vector right => sameAll left right
  | union left, union right => sameAll left right
  | _, _ => false
termination_by structural left => left

def sameAll : List Schema → List Schema → Bool
  | [], [] => true
  | left :: lefts, right :: rights => same left right && sameAll lefts rights
  | _, _ => false
termination_by structural left => left

def sameFields : List (String × List Schema) → List (String × List Schema) → Bool
  | [], [] => true
  | (key, left) :: lefts, (other, right) :: rights =>
      key == other && sameAll left right && sameFields lefts rights
  | _, _ => false
termination_by structural left => left
end

namespace Alternatives

def contains (alternatives : Alternatives) (schema : Schema) : Bool :=
  alternatives.any fun other => other.same schema

/-- Add a schema unless it is there. -/
def insert (alternatives : Alternatives) (schema : Schema) : Alternatives :=
  if contains alternatives schema then alternatives else alternatives ++ [schema]

/-- Add schemas one after the other. -/
def extend (alternatives : Alternatives) (more : List Schema) : Alternatives :=
  more.foldl insert alternatives

def ofList (schemas : List Schema) : Alternatives := extend [] schemas

/-- One schema for several alternatives. -/
def toSchema : Alternatives → Schema
  | [] => .unit
  | [only] => only
  | members => .union members

end Alternatives

/-! ## Text -/

/-- The bounds of a number, as far as there are any. -/
def boundsText (least greatest : Option Number) : String :=
  let bound (number : Option Number) := (number.map Number.plainText).getD ""
  if least.isSome || greatest.isSome then
    "number[" ++ bound least ++ ".." ++ bound greatest ++ "]"
  else "number"

mutual
/-- The text of a schema in messages. -/
def describe : Schema → String
  | text (some pattern) => "string(/" ++ pattern ++ "/)"
  | text none => "string"
  | number least greatest => boundsText least greatest
  | struct fields => "\x7b" ++ describeFields fields ++ "\x7d"
  | vector items => "[" ++ describeAll "|" items ++ "]"
  | union members => describeAll " | " members
  | unit => "unit"
  | boolean => "boolean"
  | any => "any"
  | unresolved => "unresolved"
  | resource => "KubernetesResource"
termination_by structural schema => schema

def describeAll (separator : String) : List Schema → String
  | [] => ""
  | [only] => describe only
  | schema :: rest => describe schema ++ separator ++ describeAll separator rest
termination_by structural schemas => schemas

def describeFields : List (String × List Schema) → String
  | [] => ""
  | [(key, alternatives)] => key ++ ": " ++ describeAll "|" alternatives
  | (key, alternatives) :: rest =>
      key ++ ": " ++ describeAll "|" alternatives ++ ", " ++ describeFields rest
termination_by structural fields => fields
end

/-! ## Analyses -/

mutual
/-- How many values a schema admits in one place.  A union says it if its
members agree. -/
def cardinality : Schema → Cardinality
  | unit => .unit
  | vector _ => .vector
  | any | unresolved => .unknown
  | union members => commonCardinality members
  | text _ | number _ _ | boolean | struct _ | resource => .scalar
termination_by structural schema => schema

def commonCardinality : List Schema → Cardinality
  | [] => .unknown
  | [only] => cardinality only
  | first :: rest =>
      if cardinality first = commonCardinality rest then cardinality first else .unknown
termination_by structural schemas => schemas
end

mutual
/-- The narrowest schema of a value. -/
def ofValue : Value → Schema
  | .unit => unit
  | .text _ => text none
  | .number _ => number none none
  | .boolean _ => boolean
  | .sequence items => vector (Alternatives.ofList (ofItems items))
  | .mapping fields => struct (ofFields fields)
termination_by structural value => value

def ofItems : List Value → List Schema
  | [] => []
  | item :: rest => ofValue item :: ofItems rest
termination_by structural items => items

def ofFields : List (String × Value) → List (String × List Schema)
  | [] => []
  | (key, value) :: rest => (key, [ofValue value]) :: ofFields rest
termination_by structural fields => fields
end

/-! ## Assignability -/

/-- A field that is known to hold a string. -/
def hasTextField (fields : Fields Alternatives) (name : String) : Bool :=
  match Fields.get? fields name with
  | none => false
  | some alternatives =>
      !alternatives.isEmpty && alternatives.all fun schema => schema.tag == "string"

/-- Whether two schemas without unions fit by their form. -/
def fitsForm : Schema → Schema → Bool
  | struct fields, resource => hasTextField fields "apiVersion" && hasTextField fields "kind"
  | resource, struct _ => true
  | source, target => source.tag == target.tag

mutual
/-- Whether a schema that is no union fits a target: of a union, some member. -/
def fits (source : Schema) : Schema → Bool
  | any => true
  | union members => fitsSome source members
  | target => fitsForm source target
termination_by structural target => target

def fitsSome (source : Schema) : List Schema → Bool
  | [] => false
  | target :: rest => fits source target || fitsSome source rest
termination_by structural targets => targets
end

mutual
/-- Whether a value of one schema may stand where another is expected: of a
union, every member. -/
def assignableTo : (source target : Schema) → Bool
  | union members, target => allAssignableTo members target
  | source, target => fits source target
termination_by structural source => source

def allAssignableTo : (sources : List Schema) → (target : Schema) → Bool
  | [], _ => true
  | source :: rest, target => assignableTo source target && allAssignableTo rest target
termination_by structural sources => sources
end

end Schema
end Manifest
