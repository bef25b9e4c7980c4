import Manifest.Proofs.Evaluation.Names
import Manifest.Schema.Conform
import Manifest.Schema.Infer

/-!
# Settled documents

A schema is inferred from the first expression of a section to the last, and
each expression sees the names in front of it.  Evaluation gives a name the
value of its last assignment, wherever the name is used.  So a name is stale in
front of an assignment of its section that is still to come: what is known
about it there belongs to another value.

A document is settled if nothing is inferred from stale names, nor in two
places where the rules say less than a value needs: a lift of something that
may or may not be a sequence, and a field whose key ends as a function.
-/

namespace Manifest

variable [Pattern.Engine]

namespace Schema

/-- Every value conforms. -/
def isOpen : Schema → Bool
  | any | unresolved => true
  | _ => false

mutual
/-- Every value conforms to the schema or to one of its members. -/
def isFree : Schema → Bool
  | any | unresolved => true
  | union members => someFree members
  | _ => false
termination_by structural schema => schema

def someFree : List Schema → Bool
  | [] => false
  | schema :: rest => isFree schema || someFree rest
termination_by structural schemas => schemas
end

mutual
/-- A sequence may conform to the schema. -/
def maySequence : Schema → Bool
  | any | unresolved | vector _ => true
  | union members => someMaySequence members
  | _ => false
termination_by structural schema => schema

def someMaySequence : List Schema → Bool
  | [] => false
  | schema :: rest => maySequence schema || someMaySequence rest
termination_by structural schemas => schemas
end

/-- Lifting is foretold: it is known whether the values are sequences, or
nothing is said about the items. -/
def liftable : Schema → Bool
  | union members => someFree members || !someMaySequence members
  | _ => true

end Schema

namespace Section

/-- A section is the mapping of its assignments. -/
def isMapping (expressions : List Expr) : Bool :=
  !expressions.any Expr.isYield && expressions.getLast?.all Expr.isAssignment

/-- A key that ends as a function is a unit in the mapping, which conforms to
what is inferred of the key. -/
def keepsFields (expressions : List Expr) : Schema → Bool
  | .struct fields => !isMapping expressions || fields.all fun (key, alternatives) =>
      !(lastOperand? expressions key).any Expr.isFunction ||
        alternatives.any fun schema => schema.admits .unit
  | _ => true

/-- The names that are stale in front of the remaining expressions of a section. -/
def staleAmong (expressions : List Expr) (outer : List String) (rest : List Expr) : List String :=
  assigned rest ++ outer.filter fun name => !assigns expressions name

end Section

mutual
/-- Whatever is inferred of an expression is inferred from settled names. -/
def Expr.settled (table : SchemaTable) (stale : List String) : Expr → Bool
  | .unit | .scalar _ | .function _ | .pipeline _ _ | .patternMatch _ _ => true
  | .vector items => settledItems table stale items
  | .application name _ _ => !stale.contains name || ((table.get? name).getD .unresolved).isOpen
  | .lift operand => operand.settled table stale && (operand.schema table).liftable
  | .merge left right _ => ((left.schema table).merged (right.schema table)).isOpen
  | .yield operand | .assignment _ operand | .scope _ operand => operand.settled table stale
  | .block sections => (blockSchema table sections).isOpen || blockSettled table stale sections
  | .access target name =>
      ((target.schema table).field name).isOpen || target.settled table stale
termination_by structural expression => expression

def settledItems (table : SchemaTable) (stale : List String) : List Expr → Bool
  | [] => true
  | item :: rest => item.settled table stale && settledItems table stale rest
termination_by structural items => items

/-- Later sections see the names of the first one, which are all settled there. -/
def blockSettled (table : SchemaTable) (stale : List String) : List (Section Expr) → Bool
  | [] => true
  | front :: rest =>
      front.settled table stale &&
        laterSettled (front.enterNames table)
          (stale.filter fun name => !Section.assigns front.expressions name) rest
termination_by structural sections => sections

def laterSettled (table : SchemaTable) (stale : List String) : List (Section Expr) → Bool
  | [] => true
  | part :: rest => part.settled table stale && laterSettled table stale rest
termination_by structural sections => sections

def Section.settled (table : SchemaTable) (stale : List String) : Section Expr → Bool
  | ⟨_, expressions⟩ =>
      Section.keepsFields expressions (inferAll table .empty expressions) &&
        settledAll (Section.staleAmong expressions stale) table expressions
termination_by structural part => part

/-- Of the assignments to a name only the last is ever evaluated, and of the
other expressions only one at the end is the value of its section. -/
def settledAll (staleIn : List Expr → List String) (table : SchemaTable) : List Expr → Bool
  | [] => true
  | .assignment key operand :: rest =>
      (Section.assigns rest key || operand.settled table (staleIn rest)) &&
        settledAll staleIn (table.enter key (operand.schema table)) rest
  | .yield operand :: rest => operand.settled table (staleIn rest) && settledAll staleIn table rest
  | other :: rest =>
      (!rest.isEmpty || other.settled table (staleIn rest)) && settledAll staleIn table rest
termination_by structural expressions => expressions
end

/-- What is inferred of a program is inferred from settled names. -/
def Program.settled (program : Program) (bindings : Value.Bindings) : Bool :=
  program.document.root.settled (.ofBindings bindings) []

end Manifest
