import Manifest.Proofs.Evaluation.Bare
import Manifest.Proofs.Grammar.Closure

/-!
# Documents without functions

A document that is read from tokens without an arrow has no functions, and no
name in it carries a definition.  Names of such a document wait for values or
have them.
-/

namespace Manifest

namespace Expr

/-- Neither a function nor a name with a definition. -/
def isFirstOrder : Expr → Bool
  | .function _ => false
  | .application _ _ definition => definition.isNone
  | _ => true

/-- No part is a function or a name with a definition. -/
abbrev FirstOrder (expression : Expr) : Prop :=
  expression.Every fun part => part.isFirstOrder = true

namespace FirstOrder

variable {operands : List Expr} {definition : Option (Lambda Expr)} {lambda : Lambda Expr}
  {name : String}

theorem not_function (plain : (Expr.function lambda).FirstOrder) : False :=
  Bool.false_ne_true plain.own

theorem definition_eq (plain : (Expr.application name operands definition).FirstOrder) :
    definition = none :=
  Option.isNone_iff_eq_none.mp plain.own

theorem operand (plain : (Expr.application name operands definition).FirstOrder) {operand : Expr}
    (member : operand ∈ operands) : operand.FirstOrder :=
  plain.child (List.mem_append_left _ member)

theorem member {sections : List (Section Expr)} (plain : (Expr.block sections).FirstOrder)
    {part : Section Expr} (inside : part ∈ sections) {expression : Expr}
    (among : expression ∈ part.expressions) : expression.FirstOrder :=
  plain.child (List.mem_flatMap.mpr ⟨part, inside, among⟩)

end FirstOrder
end Expr

mutual
/-- There are no definitions to be left out. -/
theorem Expr.bare_of_firstOrder : (expression : Expr) → expression.FirstOrder →
    expression.bare = expression
  | .unit, _ | .scalar _, _ => rfl
  | .vector items, plain =>
      congrArg Expr.vector (bareAll_of_firstOrder items fun _ member => plain.child member)
  | .application name operands definition, plain => by
    have same := bareAll_of_firstOrder operands fun _ member => plain.operand member
    rw [Expr.bare, same, plain.definition_eq]
  | .function _, plain => plain.not_function.elim
  | .assignment key operand, plain =>
      congrArg (Expr.assignment key) (operand.bare_of_firstOrder (plain.child List.mem_cons_self))
  | .lift operand, plain =>
      congrArg Expr.lift (operand.bare_of_firstOrder (plain.child List.mem_cons_self))
  | .yield operand, plain =>
      congrArg Expr.yield (operand.bare_of_firstOrder (plain.child List.mem_cons_self))
  | .scope id operand, plain =>
      congrArg (Expr.scope id) (operand.bare_of_firstOrder (plain.child List.mem_cons_self))
  | .access target field, plain =>
      congrArg (Expr.access · field) (target.bare_of_firstOrder (plain.child List.mem_cons_self))
  | .merge left right mode, plain =>
      congrArg₂ (Expr.merge · · mode) (left.bare_of_firstOrder (plain.child List.mem_cons_self))
        (right.bare_of_firstOrder (plain.child (List.mem_cons_of_mem _ List.mem_cons_self)))
  | .pipeline left right, plain =>
      congrArg₂ Expr.pipeline (left.bare_of_firstOrder (plain.child List.mem_cons_self))
        (right.bare_of_firstOrder (plain.child (List.mem_cons_of_mem _ List.mem_cons_self)))
  | .patternMatch subject pattern, plain =>
      congrArg₂ Expr.patternMatch (subject.bare_of_firstOrder (plain.child List.mem_cons_self))
        (pattern.bare_of_firstOrder (plain.child (List.mem_cons_of_mem _ List.mem_cons_self)))
  | .block sections, plain =>
      congrArg Expr.block
        (bareSections_of_firstOrder sections fun _ inside _ member => plain.member inside member)
termination_by structural expression => expression

theorem bareAll_of_firstOrder : (expressions : List Expr) →
    (∀ expression ∈ expressions, expression.FirstOrder) → bareAll expressions = expressions
  | [], _ => rfl
  | expression :: rest, plain =>
      congrArg₂ List.cons (expression.bare_of_firstOrder (plain _ List.mem_cons_self))
        (bareAll_of_firstOrder rest fun _ member => plain _ (List.mem_cons_of_mem _ member))
termination_by structural expressions => expressions

theorem bareSections_of_firstOrder : (sections : List (Section Expr)) →
    (∀ part ∈ sections, ∀ expression ∈ part.expressions, expression.FirstOrder) →
    bareSections sections = sections
  | [], _ => rfl
  | part :: rest, plain =>
      congrArg₂ List.cons (part.bare_of_firstOrder (plain _ List.mem_cons_self))
        (bareSections_of_firstOrder rest fun _ member => plain _ (List.mem_cons_of_mem _ member))
termination_by structural sections => sections

theorem Section.bare_of_firstOrder : (part : Section Expr) →
    (∀ expression ∈ part.expressions, expression.FirstOrder) → part.bare = part
  | ⟨scope, expressions⟩, plain =>
      congrArg (Section.mk scope) (bareAll_of_firstOrder expressions plain)
termination_by structural part => part
end

open Grammar in
theorem builds_firstOrder : Builds Expr.FirstOrder := by
  refine builds_every (fun reads => ?_) (fun _ => rfl) (fun function => ?_) ?_
  · rename_i lexeme result
    cases lexeme <;> cases reads <;> rfl
  · rename_i name operands definition
    cases definition with
    | none => rfl
    | some lambda => cases function lambda rfl
  · intro expression _ _ application function
    cases expression with
    | application => exact absurd rfl (application _ _ _)
    | function => exact absurd rfl (function _)
    | _ => rfl

/-- Without an arrow there are no functions. -/
theorem Document.firstOrder {tokens : List Token} {document : Document}
    (parsed : Document.ofTokens tokens = .ok document)
    (arrowless : ∀ token ∈ tokens, token.lexeme ≠ .arrow) : document.root.FirstOrder := by
  refine Document.builds builds_firstOrder ?_ parsed
  rintro ⟨token, inside, arrow⟩
  exact absurd arrow (arrowless token inside)

/-! ## Names -/

/-- A name that is no function, nor waits for an expression with functions. -/
def Slot.FirstOrder : Slot → Prop
  | .pending operand => operand.FirstOrder
  | .function _ => False
  | .resolving | .ready _ => True

theorem Slot.firstOrder_ofOperand {operand : Expr} (plain : operand.FirstOrder) :
    (Slot.ofOperand operand).FirstOrder := by
  cases operand with
  | function lambda => exact plain.not_function.elim
  | _ => exact plain

/-- So are all names of a section. -/
theorem Evaluator.firstOrder_slots {expressions : List Expr}
    (plain : ∀ expression ∈ expressions, expression.FirstOrder) {parent : Option Nat}
    {name : String} {slot : Slot}
    (holds : (slots ⟨[], parent⟩ expressions).get? name = some slot) : slot.FirstOrder := by
  rw [get?_slots_names, show Frame.get? ⟨[], parent⟩ name = none from rfl, Option.or_none] at holds
  rcases Option.map_eq_some_iff.mp holds with ⟨operand, last, rfl⟩
  have own := plain (.assignment name operand) (Section.mem_of_lastOperand? last)
  exact Slot.firstOrder_ofOperand (own.child (List.mem_singleton.mpr rfl))

namespace Memory

/-- No name in memory has to do with functions. -/
def FirstOrder (memory : Memory) : Prop :=
  ∀ frame name slot, memory.slot? frame name = some slot → slot.FirstOrder

end Memory
end Manifest
