import Manifest.Expr

/-!
# Parts of expressions

An expression consists of the expressions below it, the bodies of functions
and of the definitions that names carry included.  A property of all parts is
proved once for each form of expression and is then at hand wherever the
evaluation goes.
-/

namespace Manifest
namespace Expr

/-- The expressions directly below an expression. -/
def children : Expr → List Expr
  | .unit | .scalar _ => []
  | .vector items => items
  | .assignment _ operand | .lift operand | .yield operand | .scope _ operand => [operand]
  | .application _ operands definition => operands ++ (definition.map Lambda.body).toList
  | .function lambda => [lambda.body]
  | .merge left right _ | .pipeline left right | .patternMatch left right => [left, right]
  | .block sections => sections.flatMap Section.expressions
  | .access target _ => [target]

theorem sizeOf_lt_of_children {child whole : Expr} (member : child ∈ whole.children) :
    sizeOf child < sizeOf whole := by
  cases whole with
  | unit | scalar value => cases member
  | vector items =>
    have smaller : sizeOf child < sizeOf items := List.sizeOf_lt_of_mem member
    rw [vector.sizeOf_spec]
    omega
  | assignment key operand | lift operand | «yield» operand | «scope» id operand | access operand =>
    cases List.mem_singleton.mp member
    simp only [assignment.sizeOf_spec, lift.sizeOf_spec, yield.sizeOf_spec, scope.sizeOf_spec,
      access.sizeOf_spec]
    omega
  | application name operands definition =>
    rw [application.sizeOf_spec]
    rcases List.mem_append.mp member with operand | body
    · have smaller := List.sizeOf_lt_of_mem operand
      omega
    · cases definition with
      | none => cases body
      | some lambda =>
        cases List.mem_singleton.mp body
        rw [Option.some.sizeOf_spec, Lambda.mk.sizeOf_spec]
        omega
  | function lambda =>
    cases List.mem_singleton.mp member
    rw [function.sizeOf_spec, Lambda.mk.sizeOf_spec]
    omega
  | merge left right | pipeline left right | patternMatch left right =>
    have side : child = left ∨ child = right := by
      rcases List.mem_cons.mp member with same | other
      · exact .inl same
      · exact .inr (List.mem_singleton.mp other)
    simp only [merge.sizeOf_spec, pipeline.sizeOf_spec, patternMatch.sizeOf_spec]
    rcases side with rfl | rfl <;> omega
  | block sections =>
    rcases List.mem_flatMap.mp member with ⟨part, inside, stands⟩
    have smaller := List.sizeOf_lt_of_mem inside
    have smallest := List.sizeOf_lt_of_mem stands
    rw [Section.mk.sizeOf_spec] at smaller
    rw [block.sizeOf_spec]
    omega

/-- What holds of an expression when it holds of those directly below it holds of all. -/
theorem of_children {P : Expr → Prop}
    (step : ∀ whole : Expr, (∀ child ∈ whole.children, P child) → P whole) (whole : Expr) :
    P whole :=
  step whole fun child member =>
    have := sizeOf_lt_of_children member
    of_children step child
termination_by sizeOf whole

/-- An expression stands somewhere in another, or is the other one. -/
inductive Within (part : Expr) : Expr → Prop
  | self : Within part part
  | deeper {child whole : Expr} : child ∈ whole.children → Within part child → Within part whole

/-- Every part of an expression has a property. -/
def Every (P : Expr → Prop) (whole : Expr) : Prop :=
  ∀ part, Within part whole → P part

variable {P : Expr → Prop} {whole : Expr}

theorem every_iff :
    Every P whole ↔ P whole ∧ ∀ child ∈ whole.children, Every P child := by
  constructor
  · intro every
    refine ⟨every whole .self, ?_⟩
    intro child member part within
    exact every part (.deeper member within)
  · rintro ⟨own, children⟩ part within
    cases within with
    | self => exact own
    | deeper member inside => exact children _ member part inside

theorem Every.own (every : Every P whole) : P whole := every whole .self

theorem Every.child (every : Every P whole) {child : Expr} (member : child ∈ whole.children) :
    Every P child :=
  (every_iff.mp every).2 child member

theorem Every.part (every : Every P whole) {part : Expr} (within : Within part whole) :
    Every P part := by
  induction within with
  | self => exact every
  | deeper member _ ih => exact ih (every.child member)

end Expr
end Manifest
