import Manifest.Program.Evaluate
import Manifest.Schema

/-!
# Schemas of expressions

The schema of an expression is inferred from the schemas of the names it
uses.  Inside a section the names are entered from the first to the last, so
each expression sees the names before it.
-/

namespace Manifest

/-- The schemas of visible names, latest first. -/
abbrev SchemaTable := List (String × Schema)

namespace SchemaTable

def get? (table : SchemaTable) (name : String) : Option Schema :=
  (table.find? fun entry => entry.1 == name).map Prod.snd

/-- Enter a name, which hides an earlier entry. -/
def enter (table : SchemaTable) (name : String) (schema : Schema) : SchemaTable :=
  (name, schema) :: table

/-- The schemas of a caller's bindings. -/
def ofBindings (bindings : Value.Bindings) : SchemaTable :=
  bindings.map fun (name, value) => (name, .ofValue value)

end SchemaTable

/-- What has been inferred of a section so far. -/
structure SectionSchema where
  fields : Fields Schema.Alternatives
  /-- The schemas of the yields, if there is a yield. -/
  yields : Option Schema.Alternatives
  trailing : Option Schema

namespace SectionSchema

def empty : SectionSchema := ⟨[], none, none⟩

/-- An assignment adds its schema to the alternatives of its key. -/
def assign (found : SectionSchema) (key : String) (hidden : Bool) (schema : Schema) :
    SectionSchema :=
  let known := (Fields.get? found.fields key).getD []
  { found with
    fields := if hidden then found.fields else Fields.insert found.fields key (known.insert schema)
    trailing := none }

def yield (found : SectionSchema) (schema : Schema) : SectionSchema :=
  { found with
    yields := some (Schema.Alternatives.insert (found.yields.getD []) schema)
    trailing := none }

/-- The schema of the whole section. -/
def schema (found : SectionSchema) : Schema :=
  match found.yields with
  | some alternatives => .vector alternatives
  | none => found.trailing.getD (.struct found.fields)

end SectionSchema

namespace Schema

/-- A lifted value is a sequence, of itself alone unless it is one already. -/
def lifted : Schema → Schema
  | vector items => vector items
  | other => vector [other]

/-- A merge has the schema of its left side; two sequences join theirs. -/
def merged : Schema → Schema → Schema
  | vector left, vector right => vector (Alternatives.extend left right)
  | left, _ => left

/-- The schema of a field. -/
def field (target : Schema) (name : String) : Schema :=
  match target with
  | struct fields =>
      match Fields.get? fields name with
      | some alternatives => Alternatives.toSchema alternatives
      | none => unresolved
  | resource => if name = "apiVersion" || name = "kind" then text none else unresolved
  | _ => unresolved

end Schema

mutual
/-- The schema of an expression. -/
def Expr.schema (table : SchemaTable) : Expr → Schema
  | .unit => .unit
  | .scalar value => .ofValue value
  | .vector items => .vector (Schema.Alternatives.ofList (itemSchemas table items))
  | .application name _ _ => (table.get? name).getD .unresolved
  | .function _ => .any
  | .lift operand => (operand.schema table).lifted
  | .merge left right _ => (left.schema table).merged (right.schema table)
  | .yield operand | .assignment _ operand | .scope _ operand => operand.schema table
  | .block sections => blockSchema table sections
  | .access target name => (target.schema table).field name
  | .pipeline _ _ | .patternMatch _ _ => .unresolved
termination_by structural expression => expression

def itemSchemas (table : SchemaTable) : List Expr → List Schema
  | [] => []
  | item :: rest => item.schema table :: itemSchemas table rest
termination_by structural items => items

/-- The schema of a block.  Later sections see the names of the first one. -/
def blockSchema (table : SchemaTable) : List (Section Expr) → Schema
  | [] => .unit
  | [only] => only.schema table
  | front :: second :: rest =>
      .vector (laterSchemas (front.enterNames table) [front.schema table] (second :: rest))
termination_by structural sections => sections

def laterSchemas (table : SchemaTable) (found : Schema.Alternatives) :
    List (Section Expr) → Schema.Alternatives
  | [] => found
  | part :: rest => laterSchemas table (found.insert (part.schema table)) rest
termination_by structural sections => sections

/-- The names of a section, entered into a table. -/
def Section.enterNames (table : SchemaTable) : Section Expr → SchemaTable
  | ⟨_, expressions⟩ => enterAll table expressions
termination_by structural part => part

def enterAll (table : SchemaTable) : List Expr → SchemaTable
  | [] => table
  | .assignment key operand :: rest => enterAll (table.enter key (operand.schema table)) rest
  | _ :: rest => enterAll table rest
termination_by structural expressions => expressions

/-- The schema of a section. -/
def Section.schema (table : SchemaTable) : Section Expr → Schema
  | ⟨_, expressions⟩ => inferAll table .empty expressions
termination_by structural part => part

def inferAll (table : SchemaTable) (found : SectionSchema) : List Expr → Schema
  | [] => found.schema
  | .assignment key operand :: rest =>
      let schema := operand.schema table
      inferAll (table.enter key schema) (found.assign key (isHidden key operand) schema) rest
  | .yield operand :: rest => inferAll table (found.yield (operand.schema table)) rest
  | other :: rest => inferAll table { found with trailing := some (other.schema table) } rest
termination_by structural expressions => expressions
end

/-- The schema of a program's values for given bindings. -/
def Program.schema (program : Program) (bindings : Value.Bindings) : Schema :=
  program.document.root.schema (.ofBindings bindings)

end Manifest
