import Mathlib.Logic.Basic
import Manifest.Proofs.Evaluation.Names

/-!
# Documents without definitions

A name carries the function that it stands for in the surrounding text, if it
stands for one there.  Without these definitions an expression has the same
form, and the names of its sections stand for the same things without theirs.
-/

namespace Manifest

mutual
/-- An expression in which no name carries a definition. -/
def Expr.bare : Expr → Expr
  | .unit => .unit
  | .scalar value => .scalar value
  | .vector items => .vector (bareAll items)
  | .assignment key operand => .assignment key operand.bare
  | .application name operands _ => .application name (bareAll operands) none
  | .function lambda => .function lambda.bare
  | .lift operand => .lift operand.bare
  | .merge left right mode => .merge left.bare right.bare mode
  | .yield operand => .yield operand.bare
  | .block sections => .block (bareSections sections)
  | .scope id operand => .scope id operand.bare
  | .pipeline left right => .pipeline left.bare right.bare
  | .patternMatch subject pattern => .patternMatch subject.bare pattern.bare
  | .access target field => .access target.bare field
termination_by structural expression => expression

def bareAll : List Expr → List Expr
  | [] => []
  | expression :: rest => expression.bare :: bareAll rest
termination_by structural expressions => expressions

def Lambda.bare : Lambda Expr → Lambda Expr
  | ⟨parameter, body⟩ => ⟨parameter, body.bare⟩
termination_by structural lambda => lambda

def bareSections : List (Section Expr) → List (Section Expr)
  | [] => []
  | part :: rest => part.bare :: bareSections rest
termination_by structural sections => sections

def Section.bare : Section Expr → Section Expr
  | ⟨scope, expressions⟩ => ⟨scope, bareAll expressions⟩
termination_by structural part => part
end

/-- A document in which no name carries a definition. -/
def Document.bare (document : Document) : Document :=
  { document with root := document.root.bare }

def Program.bare (program : Program) : Program :=
  ⟨program.document.bare⟩

theorem bareAll_eq (expressions : List Expr) : bareAll expressions = expressions.map Expr.bare := by
  induction expressions with
  | nil => rfl
  | cons expression rest ih => exact congrArg (expression.bare :: ·) ih

theorem Section.expressions_bare (part : Section Expr) :
    part.bare.expressions = bareAll part.expressions := by
  cases part
  rfl

mutual
/-- Nothing is left to be left out. -/
theorem Expr.bare_bare : (expression : Expr) → expression.bare.bare = expression.bare
  | .unit | .scalar _ => rfl
  | .vector items => congrArg Expr.vector (bareAll_bareAll items)
  | .assignment key operand => congrArg (Expr.assignment key) operand.bare_bare
  | .application name operands _ =>
      congrArg (Expr.application name · none) (bareAll_bareAll operands)
  | .function lambda => congrArg Expr.function lambda.bare_bare
  | .lift operand => congrArg Expr.lift operand.bare_bare
  | .merge left right mode =>
      congrArg₂ (Expr.merge · · mode) left.bare_bare right.bare_bare
  | .yield operand => congrArg Expr.yield operand.bare_bare
  | .block sections => congrArg Expr.block (bareSections_bareSections sections)
  | .scope id operand => congrArg (Expr.scope id) operand.bare_bare
  | .pipeline left right => congrArg₂ Expr.pipeline left.bare_bare right.bare_bare
  | .patternMatch subject pattern =>
      congrArg₂ Expr.patternMatch subject.bare_bare pattern.bare_bare
  | .access target field => congrArg (Expr.access · field) target.bare_bare
termination_by structural expression => expression

theorem bareAll_bareAll : (expressions : List Expr) →
    bareAll (bareAll expressions) = bareAll expressions
  | [] => rfl
  | expression :: rest => congrArg₂ List.cons expression.bare_bare (bareAll_bareAll rest)
termination_by structural expressions => expressions

theorem Lambda.bare_bare : (lambda : Lambda Expr) → lambda.bare.bare = lambda.bare
  | ⟨parameter, body⟩ => congrArg (Lambda.mk parameter) body.bare_bare
termination_by structural lambda => lambda

theorem bareSections_bareSections : (sections : List (Section Expr)) →
    bareSections (bareSections sections) = bareSections sections
  | [] => rfl
  | part :: rest => congrArg₂ List.cons part.bare_bare (bareSections_bareSections rest)
termination_by structural sections => sections

theorem Section.bare_bare : (part : Section Expr) → part.bare.bare = part.bare
  | ⟨scope, expressions⟩ => congrArg (Section.mk scope) (bareAll_bareAll expressions)
termination_by structural part => part
end

/-! ## Form -/

namespace Expr

theorem isFunction_bare (expression : Expr) :
    expression.bare.isFunction = expression.isFunction := by
  cases expression <;> rfl

theorem isAssignment_bare (expression : Expr) :
    expression.bare.isAssignment = expression.isAssignment := by
  cases expression <;> rfl

theorem isYield_bare (expression : Expr) : expression.bare.isYield = expression.isYield := by
  cases expression <;> rfl

end Expr

theorem isHidden_bare (key : String) (operand : Expr) :
    isHidden key operand.bare = isHidden key operand := by
  rw [isHidden, isHidden, operand.isFunction_bare]

theorem Section.yieldCount_bare (part : Section Expr) : part.bare.yieldCount = part.yieldCount := by
  rw [yieldCount, yieldCount, expressions_bare, bareAll_eq, List.filter_map, List.length_map]
  refine congrArg List.length (List.filter_congr fun expression _ => ?_)
  exact expression.isYield_bare

mutual
theorem Expr.cardinality_bare : (expression : Expr) →
    expression.bare.cardinality = expression.cardinality
  | .unit | .scalar _ | .vector _ | .lift _ | .application _ _ _ | .function _ | .pipeline _ _
  | .patternMatch _ _ | .access _ _ => rfl
  | .merge left _ _ => left.cardinality_bare
  | .yield operand | .assignment _ operand | .scope _ operand => operand.cardinality_bare
  | .block sections => blockCardinality_bare sections
termination_by structural expression => expression

theorem blockCardinality_bare : (sections : List (Section Expr)) →
    blockCardinality (bareSections sections) = blockCardinality sections
  | [] => rfl
  | [only] => only.cardinality_bare
  | _ :: _ :: _ => rfl
termination_by structural sections => sections

theorem Section.cardinality_bare : (part : Section Expr) → part.bare.cardinality = part.cardinality
  | ⟨scope, expressions⟩ => by
    have count := Section.yieldCount_bare ⟨scope, expressions⟩
    have last := lastCardinality_bare expressions
    simp only [Section.bare] at count ⊢
    rw [Section.cardinality, Section.cardinality, count, last]
termination_by structural part => part

theorem lastCardinality_bare : (expressions : List Expr) →
    lastCardinality (bareAll expressions) = lastCardinality expressions
  | [] => rfl
  | [last] => by
    have same := last.cardinality_bare
    simp only [bareAll, lastCardinality, last.isAssignment_bare, same]
  | _ :: second :: rest => lastCardinality_bare (second :: rest)
termination_by structural expressions => expressions
end

mutual
theorem Expr.size_bare : (expression : Expr) → expression.bare.size = expression.size
  | .unit | .scalar _ => rfl
  | .vector items => congrArg (· + 1) (sizeList_bare items)
  | .assignment _ operand | .lift operand | .yield operand | .scope _ operand
  | .access operand _ => congrArg (· + 1) operand.size_bare
  | .application _ operands _ => congrArg (· + 1) (sizeList_bare operands)
  | .function lambda => congrArg (· + 1) lambda.size_bare
  | .merge left right _ | .pipeline left right | .patternMatch left right => by
    have first := left.size_bare
    have second := right.size_bare
    simp only [Expr.bare, Expr.size, first, second]
  | .block sections => congrArg (· + 1) (sizeSections_bare sections)
termination_by structural expression => expression

theorem sizeList_bare : (expressions : List Expr) →
    Expr.sizeList (bareAll expressions) = Expr.sizeList expressions
  | [] => rfl
  | expression :: rest => by
    have first := expression.size_bare
    have others := sizeList_bare rest
    simp only [bareAll, Expr.sizeList, first, others]
termination_by structural expressions => expressions

theorem Lambda.size_bare : (lambda : Lambda Expr) →
    Expr.sizeBody lambda.bare = Expr.sizeBody lambda
  | ⟨_, body⟩ => body.size_bare
termination_by structural lambda => lambda

theorem sizeSections_bare : (sections : List (Section Expr)) →
    Expr.sizeSections (bareSections sections) = Expr.sizeSections sections
  | [] => rfl
  | part :: rest => by
    have first := part.size_bare
    have others := sizeSections_bare rest
    simp only [bareSections, Expr.sizeSections, first, others]
termination_by structural sections => sections

theorem Section.size_bare : (part : Section Expr) →
    Expr.sizeSection part.bare = Expr.sizeSection part
  | ⟨_, expressions⟩ => sizeList_bare expressions
termination_by structural part => part
end

/-! ## Names -/

def Slot.bare : Slot → Slot
  | .pending operand => .pending operand.bare
  | .resolving => .resolving
  | .ready value => .ready value
  | .function lambda => .function lambda.bare

theorem Slot.ofOperand_bare (operand : Expr) :
    Slot.ofOperand operand.bare = (Slot.ofOperand operand).bare := by
  cases operand <;> rfl

namespace Section

theorem lastOperand?_bare (expressions : List Expr) (name : String) :
    lastOperand? (bareAll expressions) name = (lastOperand? expressions name).map Expr.bare := by
  induction expressions with
  | nil => rfl
  | cons expression rest ih =>
    cases expression with
    | assignment key operand =>
      change (lastOperand? (bareAll rest) name).or (if key = name then some operand.bare else none)
        = ((lastOperand? rest name).or (if key = name then some operand else none)).map Expr.bare
      rw [ih, Option.map_or]
      split <;> rfl
    | _ => exact ih

end Section
end Manifest
