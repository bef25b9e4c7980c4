import Manifest.Value

/-!
# Expressions

A document is a tree of expressions.  Blocks are divided into sections, and
every section owns a lexical scope; the tree refers to scopes by their number.
-/

namespace Manifest

/-- The two ways to settle a conflict of scalars in a merge. -/
inductive MergeMode where
  /-- The right side wins. -/
  | hard
  /-- The left side stays. -/
  | soft
deriving DecidableEq

/-- A function of one parameter.  Further parameters are further functions in
the body. -/
structure Lambda (α : Type) where
  parameter : String
  body : α

/-- A run of expressions with a scope of their own. -/
structure Section (α : Type) where
  scope : Nat
  expressions : List α

inductive Expr where
  | unit
  | scalar (value : Value)
  | vector (items : List Expr)
  | assignment (key : String) (operand : Expr)
  /-- A name with operands.  The definition is the function that the name
  stands for in the surrounding text, if it stands for one there. -/
  | application (name : String) (operands : List Expr) (definition : Option (Lambda Expr))
  | function (lambda : Lambda Expr)
  | lift (operand : Expr)
  | merge (left right : Expr) (mode : MergeMode)
  | yield (operand : Expr)
  | block (sections : List (Section Expr))
  | scope (id : Nat) (operand : Expr)
  | pipeline (left right : Expr)
  | patternMatch (subject pattern : Expr)
  | access (target : Expr) (field : String)

namespace Expr

instance : Inhabited Expr := ⟨unit⟩

/-- A name without operands. -/
def reference (name : String) : Expr :=
  application name [] none

def isAssignment : Expr → Bool
  | assignment _ _ => true
  | _ => false

def isYield : Expr → Bool
  | yield _ => true
  | _ => false

def isFunction : Expr → Bool
  | function _ => true
  | _ => false

mutual
/-- How many expressions an expression consists of.  The definitions that
names carry are not counted; they stand elsewhere in the same document. -/
def size : Expr → Nat
  | unit | scalar _ => 1
  | vector items => sizeList items + 1
  | assignment _ operand | lift operand | yield operand | scope _ operand => operand.size + 1
  | application _ operands _ => sizeList operands + 1
  | function lambda => sizeBody lambda + 1
  | merge left right _ | pipeline left right | patternMatch left right =>
      left.size + right.size + 1
  | block sections => sizeSections sections + 1
  | access target _ => target.size + 1
termination_by structural expression => expression

def sizeList : List Expr → Nat
  | [] => 0
  | expression :: rest => expression.size + sizeList rest
termination_by structural expressions => expressions

def sizeBody : Lambda Expr → Nat
  | ⟨_, body⟩ => body.size
termination_by structural lambda => lambda

def sizeSections : List (Section Expr) → Nat
  | [] => 0
  | part :: rest => sizeSection part + sizeSections rest
termination_by structural sections => sections

def sizeSection : Section Expr → Nat
  | ⟨_, expressions⟩ => sizeList expressions
termination_by structural part => part
end

end Expr

namespace Section

/-- Every expression is an assignment, and there is at least one. -/
def isStructShaped (part : Section Expr) : Bool :=
  !part.expressions.isEmpty && part.expressions.all Expr.isAssignment

def yieldCount (part : Section Expr) : Nat :=
  (part.expressions.filter Expr.isYield).length

end Section

/-- Whether a section's mapping leaves a key out: names that begin with an
underscore and functions stay inside. -/
def isHidden (key : String) (operand : Expr) : Bool :=
  key.toList.head? == some '_' || operand.isFunction

end Manifest
