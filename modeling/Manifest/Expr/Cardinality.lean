import Manifest.Expr

/-!
# Cardinality

How many values an expression stands for can often be told from its form.
Names and accesses are left open, since only the evaluation knows them.
-/

namespace Manifest

inductive Cardinality where
  /-- No value. -/
  | unit
  /-- One value. -/
  | scalar
  /-- A sequence of values. -/
  | vector
  | unknown
deriving DecidableEq

namespace Cardinality

/-- A sequence counts as several values, and a unit as none. -/
def ofValue : Value → Cardinality
  | .unit => unit
  | .sequence _ => vector
  | _ => scalar

end Cardinality

mutual
def Expr.cardinality : Expr → Cardinality
  | .unit => .unit
  | .scalar _ => .scalar
  | .vector _ | .lift _ => .vector
  | .merge left _ _ => left.cardinality
  | .yield operand | .assignment _ operand | .scope _ operand => operand.cardinality
  | .block sections => blockCardinality sections
  | .application _ _ _ | .function _ | .pipeline _ _ | .patternMatch _ _ | .access _ _ => .unknown
termination_by structural expression => expression

/-- Several sections make a sequence, and a single one decides by its own form. -/
def blockCardinality : List (Section Expr) → Cardinality
  | [] => .unit
  | [only] => only.cardinality
  | _ :: _ :: _ => .vector
termination_by structural sections => sections

/-- A yield always makes a sequence, also when it is the only one. -/
def Section.cardinality : Section Expr → Cardinality
  | ⟨scope, expressions⟩ =>
      if (⟨scope, expressions⟩ : Section Expr).yieldCount > 0 then .vector
      else lastCardinality expressions
termination_by structural part => part

/-- Without yields the last expression decides.  An assignment in the last
place makes a mapping. -/
def lastCardinality : List Expr → Cardinality
  | [] => .unit
  | [last] => if last.isAssignment then .scalar else last.cardinality
  | _ :: rest => lastCardinality rest
termination_by structural expressions => expressions
end

end Manifest
