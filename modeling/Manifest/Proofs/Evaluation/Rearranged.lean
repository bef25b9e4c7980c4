import Mathlib.Data.List.Forall2
import Manifest.Proofs.Evaluation.Bare

/-!
# Rearranged expressions

A section that consists of assignments to different names may have them in any
order.  An expression is rearranged if sections in it are, at any depth.  The
definitions that its names carry are left out of account: they are copies of
what stands elsewhere.
-/

namespace Manifest

mutual
/-- The same expression, with sections of assignments in another order and
names that may carry other definitions. -/
inductive Rearranged : Expr → Expr → Prop
  | unit : Rearranged .unit .unit
  | scalar (value : Value) : Rearranged (.scalar value) (.scalar value)
  | vector {items others : List Expr} : List.Forall₂ Rearranged items others →
      Rearranged (.vector items) (.vector others)
  | assignment (key : String) {operand other : Expr} : Rearranged operand other →
      Rearranged (.assignment key operand) (.assignment key other)
  | application (name : String) (definition another : Option (Lambda Expr))
      {operands others : List Expr} : List.Forall₂ Rearranged operands others →
      Rearranged (.application name operands definition) (.application name others another)
  | function (parameter : String) {body other : Expr} : Rearranged body other →
      Rearranged (.function ⟨parameter, body⟩) (.function ⟨parameter, other⟩)
  | lift {operand other : Expr} : Rearranged operand other →
      Rearranged (.lift operand) (.lift other)
  | merge (mode : MergeMode) {left right otherLeft otherRight : Expr} :
      Rearranged left otherLeft → Rearranged right otherRight →
      Rearranged (.merge left right mode) (.merge otherLeft otherRight mode)
  | yield {operand other : Expr} : Rearranged operand other →
      Rearranged (.yield operand) (.yield other)
  | block {sections others : List (Section Expr)} :
      List.Forall₂ RearrangedSection sections others →
      Rearranged (.block sections) (.block others)
  | scope (id : Nat) {operand other : Expr} : Rearranged operand other →
      Rearranged (.scope id operand) (.scope id other)
  | pipeline {left right otherLeft otherRight : Expr} :
      Rearranged left otherLeft → Rearranged right otherRight →
      Rearranged (.pipeline left right) (.pipeline otherLeft otherRight)
  | patternMatch {subject pattern otherSubject otherPattern : Expr} :
      Rearranged subject otherSubject → Rearranged pattern otherPattern →
      Rearranged (.patternMatch subject pattern) (.patternMatch otherSubject otherPattern)
  | access (field : String) {target other : Expr} : Rearranged target other →
      Rearranged (.access target field) (.access other field)

inductive RearrangedSection : Section Expr → Section Expr → Prop
  | kept (scope : Nat) {expressions others : List Expr} :
      List.Forall₂ Rearranged expressions others →
      RearrangedSection ⟨scope, expressions⟩ ⟨scope, others⟩
  | permuted (scope : Nat) {expressions others permuted : List Expr} :
      (∀ expression ∈ expressions, expression.isAssignment = true) →
      (Section.assigned expressions).Nodup →
      List.Forall₂ Rearranged expressions others → others.Perm permuted →
      RearrangedSection ⟨scope, expressions⟩ ⟨scope, permuted⟩
end

mutual
/-- Nothing has to be moved. -/
theorem Rearranged.refl : (expression : Expr) → Rearranged expression expression
  | .unit => .unit
  | .scalar value => .scalar value
  | .vector items => .vector (refl_all items)
  | .assignment key operand => .assignment key (.refl operand)
  | .application name operands definition =>
      .application name definition definition (refl_all operands)
  | .function lambda => refl_lambda lambda
  | .lift operand => .lift (.refl operand)
  | .merge left right mode => .merge mode (.refl left) (.refl right)
  | .yield operand => .yield (.refl operand)
  | .block sections => .block (refl_sections sections)
  | .scope id operand => .scope id (.refl operand)
  | .pipeline left right => .pipeline (.refl left) (.refl right)
  | .patternMatch subject pattern => .patternMatch (.refl subject) (.refl pattern)
  | .access target field => .access field (.refl target)
termination_by structural expression => expression

theorem Rearranged.refl_all : (expressions : List Expr) →
    List.Forall₂ Rearranged expressions expressions
  | [] => .nil
  | expression :: rest => .cons (.refl expression) (refl_all rest)
termination_by structural expressions => expressions

theorem Rearranged.refl_lambda : (lambda : Lambda Expr) →
    Rearranged (.function lambda) (.function lambda)
  | ⟨parameter, body⟩ => .function parameter (.refl body)
termination_by structural lambda => lambda

theorem Rearranged.refl_sections : (sections : List (Section Expr)) →
    List.Forall₂ RearrangedSection sections sections
  | [] => .nil
  | part :: rest => .cons (refl_section part) (refl_sections rest)
termination_by structural sections => sections

theorem Rearranged.refl_section : (part : Section Expr) → RearrangedSection part part
  | ⟨number, expressions⟩ => .kept number (refl_all expressions)
termination_by structural part => part
end

variable {expression other operand another : Expr} {expressions others permuted : List Expr}
  {name : String}

/-! ## Form -/

namespace Rearranged

theorem isFunction_eq (related : Rearranged expression other) :
    other.isFunction = expression.isFunction := by
  cases related <;> rfl

theorem isAssignment_eq (related : Rearranged expression other) :
    other.isAssignment = expression.isAssignment := by
  cases related <;> rfl

theorem isYield_eq (related : Rearranged expression other) :
    other.isYield = expression.isYield := by
  cases related <;> rfl

theorem isHidden_eq (related : Rearranged operand another) (key : String) :
    isHidden key another = isHidden key operand := by
  rw [isHidden, isHidden, related.isFunction_eq]

theorem yieldCount_eq {scope : Nat} (related : List.Forall₂ Rearranged expressions others) :
    (⟨scope, others⟩ : Section Expr).yieldCount =
      (⟨scope, expressions⟩ : Section Expr).yieldCount := by
  induction related with
  | nil => rfl
  | cons head _ ih =>
    rw [Section.yieldCount, Section.yieldCount, List.filter_cons, List.filter_cons,
      head.isYield_eq]
    split
    · exact congrArg (· + 1) ih
    · exact ih

end Rearranged

namespace Section

/-- Without assignments to one name twice, every assignment is the last one. -/
theorem lastOperand?_eq_some_iff (distinct : (assigned expressions).Nodup) :
    lastOperand? expressions name = some operand ↔ .assignment name operand ∈ expressions := by
  induction expressions with
  | nil =>
    constructor
    · intro none
      cases none
    · intro none
      cases none
  | cons expression rest ih =>
    cases expression with
    | assignment key held =>
      rcases List.nodup_cons.mp distinct with ⟨fresh, distinct⟩
      rw [mem_assigned] at fresh
      rw [lastOperand?, List.mem_cons, ← ih distinct]
      by_cases same : key = name
      · subst same
        rw [if_pos rfl, lastOperand?_eq_none (Bool.eq_false_iff.mpr fresh), Option.none_or]
        constructor
        · intro equal
          cases equal
          exact .inl rfl
        · rintro (equal | none)
          · cases equal
            rfl
          · cases none
      · rw [if_neg same, Option.or_none]
        refine ⟨.inr, fun either => either.resolve_left fun equal => ?_⟩
        cases equal
        exact same rfl
    | _ =>
      rw [List.mem_cons, ← ih distinct]
      exact ⟨.inr, fun either => either.resolve_left (by rintro ⟨⟩)⟩

theorem assigned_eq (expressions : List Expr) :
    assigned expressions = expressions.filterMap fun
      | .assignment key _ => some key
      | _ => none := by
  induction expressions with
  | nil => rfl
  | cons expression rest ih =>
    cases expression with
    | assignment key operand => exact congrArg (key :: ·) ih
    | _ => exact ih

/-- The order of assignments to different names does not matter to the names. -/
theorem lastOperand?_perm (distinct : (assigned expressions).Nodup)
    (perm : expressions.Perm permuted) :
    lastOperand? permuted name = lastOperand? expressions name := by
  have keys : (assigned expressions).Perm (assigned permuted) := by
    rw [assigned_eq, assigned_eq]
    exact perm.filterMap _
  refine Option.ext fun operand => ?_
  rw [lastOperand?_eq_some_iff (keys.nodup distinct), lastOperand?_eq_some_iff distinct]
  exact perm.symm.mem_iff

end Section

namespace Rearranged

theorem assigned_eq (related : List.Forall₂ Rearranged expressions others) :
    Section.assigned others = Section.assigned expressions := by
  induction related with
  | nil => rfl
  | cons head _ ih =>
    cases head with
    | assignment key _ => exact congrArg (key :: ·) ih
    | _ => exact ih

theorem assignments (related : List.Forall₂ Rearranged expressions others)
    (assignments : ∀ expression ∈ expressions, expression.isAssignment = true) :
    ∀ expression ∈ others, expression.isAssignment = true := by
  induction related with
  | nil => exact assignments
  | cons head _ ih =>
    rcases List.forall_mem_cons.mp assignments with ⟨first, rest⟩
    exact List.forall_mem_cons.mpr ⟨head.isAssignment_eq.trans first, ih rest⟩

end Rearranged

/-! ## Cardinality -/

/-- A section of assignments is a mapping, unless it is empty. -/
theorem lastCardinality_of_assignments
    (assignments : ∀ expression ∈ expressions, expression.isAssignment = true) :
    lastCardinality expressions = if expressions.isEmpty then .unit else .scalar := by
  induction expressions with
  | nil => rfl
  | cons expression rest ih =>
    rcases List.forall_mem_cons.mp assignments with ⟨first, assignments⟩
    cases rest with
    | nil =>
      rw [lastCardinality, if_pos first]
      rfl
    | cons second rest => exact ih assignments

theorem yieldCount_of_assignments {scope : Nat}
    (assignments : ∀ expression ∈ expressions, expression.isAssignment = true) :
    (⟨scope, expressions⟩ : Section Expr).yieldCount = 0 := by
  rw [Section.yieldCount, List.length_eq_zero_iff, List.filter_eq_nil_iff]
  intro expression member
  have assigns := assignments expression member
  cases expression with
  | assignment key operand => exact Bool.false_ne_true
  | _ => cases assigns

mutual
theorem Rearranged.cardinality_eq : (expression : Expr) → ∀ {other : Expr},
    Rearranged expression other → other.cardinality = expression.cardinality
  | .unit, _, related | .scalar _, _, related | .vector _, _, related | .lift _, _, related
  | .application _ _ _, _, related | .function _, _, related | .pipeline _ _, _, related
  | .patternMatch _ _, _, related | .access _ _, _, related => by
    cases related
    all_goals rfl
  | .merge left _ _, _, related => by
    cases related with
    | merge _ first _ =>
      have same := Rearranged.cardinality_eq left first
      exact same
  | .yield operand, _, related => by
    cases related with
    | «yield» inner =>
      have same := Rearranged.cardinality_eq operand inner
      exact same
  | .assignment _ operand, _, related => by
    cases related with
    | assignment _ inner =>
      have same := Rearranged.cardinality_eq operand inner
      exact same
  | .scope _ operand, _, related => by
    cases related with
    | «scope» _ inner =>
      have same := Rearranged.cardinality_eq operand inner
      exact same
  | .block sections, _, related => by
    cases related with
    | block all => exact blockCardinality_eq sections all
termination_by structural expression => expression

theorem blockCardinality_eq : (sections : List (Section Expr)) → ∀ {others : List (Section Expr)},
    List.Forall₂ RearrangedSection sections others →
    blockCardinality others = blockCardinality sections
  | [], _, related => by
    cases related
    rfl
  | [only], _, related => by
    cases related with
    | cons first rest =>
      cases rest
      exact RearrangedSection.cardinality_eq only first
  | _ :: _ :: _, _, related => by
    cases related with
    | cons _ rest =>
      cases rest
      rfl
termination_by structural sections => sections

theorem RearrangedSection.cardinality_eq : (part : Section Expr) → ∀ {other : Section Expr},
    RearrangedSection part other → other.cardinality = part.cardinality
  | ⟨scope, expressions⟩, _, related => by
    cases related with
    | kept _ all =>
      rw [Section.cardinality, Section.cardinality, Rearranged.yieldCount_eq all,
        lastCardinality_eq expressions all]
    | permuted _ assignments _ all perm =>
      have others := Rearranged.assignments all assignments
      have moved := fun expression member => others expression (perm.symm.subset member)
      rw [Section.cardinality, Section.cardinality, yieldCount_of_assignments moved,
        yieldCount_of_assignments assignments, lastCardinality_of_assignments moved,
        lastCardinality_of_assignments assignments, ← perm.isEmpty_eq]
      cases all <;> rfl
termination_by structural part => part

theorem lastCardinality_eq : (expressions : List Expr) → ∀ {others : List Expr},
    List.Forall₂ Rearranged expressions others →
    lastCardinality others = lastCardinality expressions
  | [], _, related => by
    cases related
    rfl
  | [last], _, related => by
    cases related with
    | cons first rest =>
      cases rest
      rw [lastCardinality, lastCardinality, first.isAssignment_eq,
        Rearranged.cardinality_eq last first]
  | _ :: second :: rest, _, related => by
    cases related with
    | cons _ behind =>
      have same := lastCardinality_eq (second :: rest) behind
      cases behind
      exact same
termination_by structural expressions => expressions
end

/-! ## Without definitions -/

mutual
/-- Leaving definitions out moves nothing. -/
theorem Rearranged.bare : (expression : Expr) → ∀ {other : Expr},
    Rearranged expression other → Rearranged expression other.bare
  | .unit, _, related | .scalar _, _, related => by
    cases related
    constructor
  | .vector items, _, related => by
    cases related with
    | vector all => exact .vector (bare_all items all)
  | .assignment _ operand, _, related => by
    cases related with
    | assignment _ inner => exact .assignment _ (bare operand inner)
  | .application _ operands _, _, related => by
    cases related with
    | application _ _ _ all => exact .application _ _ _ (bare_all operands all)
  | .function lambda, _, related => bare_lambda lambda related
  | .lift operand, _, related => by
    cases related with
    | lift inner => exact .lift (bare operand inner)
  | .merge left right _, _, related => by
    cases related with
    | merge _ first second => exact .merge _ (bare left first) (bare right second)
  | .yield operand, _, related => by
    cases related with
    | «yield» inner => exact .yield (bare operand inner)
  | .block sections, _, related => by
    cases related with
    | block all => exact .block (bare_sections sections all)
  | .scope _ operand, _, related => by
    cases related with
    | «scope» _ inner => exact .scope _ (bare operand inner)
  | .pipeline left right, _, related => by
    cases related with
    | pipeline first second => exact .pipeline (bare left first) (bare right second)
  | .patternMatch subject pattern, _, related => by
    cases related with
    | patternMatch first second => exact .patternMatch (bare subject first) (bare pattern second)
  | .access target _, _, related => by
    cases related with
    | access _ inner => exact .access _ (bare target inner)
termination_by structural expression => expression

theorem Rearranged.bare_all : (expressions : List Expr) → ∀ {others : List Expr},
    List.Forall₂ Rearranged expressions others →
    List.Forall₂ Rearranged expressions (bareAll others)
  | [], _, related => by
    cases related
    exact .nil
  | expression :: rest, _, related => by
    cases related with
    | cons first behind => exact .cons (bare expression first) (bare_all rest behind)
termination_by structural expressions => expressions

theorem Rearranged.bare_lambda : (lambda : Lambda Expr) → ∀ {other : Expr},
    Rearranged (.function lambda) other → Rearranged (.function lambda) other.bare
  | ⟨_, body⟩, _, related => by
    cases related with
    | function _ inner => exact .function _ (bare body inner)
termination_by structural lambda => lambda

theorem Rearranged.bare_sections : (sections : List (Section Expr)) →
    ∀ {others : List (Section Expr)}, List.Forall₂ RearrangedSection sections others →
    List.Forall₂ RearrangedSection sections (bareSections others)
  | [], _, related => by
    cases related
    exact .nil
  | part :: rest, _, related => by
    cases related with
    | cons first behind => exact .cons (bare_section part first) (bare_sections rest behind)
termination_by structural sections => sections

theorem Rearranged.bare_section : (part : Section Expr) → ∀ {other : Section Expr},
    RearrangedSection part other → RearrangedSection part other.bare
  | ⟨_, expressions⟩, _, related => by
    cases related with
    | kept _ all => exact .kept _ (bare_all expressions all)
    | permuted _ assignments distinct all perm =>
      refine .permuted _ assignments distinct (bare_all expressions all) ?_
      rw [bareAll_eq, bareAll_eq]
      exact perm.map Expr.bare
termination_by structural part => part
end

/-! ## Scenes -/

/-- What a name stands for is rearranged. -/
inductive RearrangedSlot : Slot → Slot → Prop
  | pending {operand other : Expr} : Rearranged operand other →
      RearrangedSlot (.pending operand) (.pending other)
  | function (parameter : String) {body other : Expr} : Rearranged body other →
      RearrangedSlot (.function ⟨parameter, body⟩) (.function ⟨parameter, other⟩)
  | ready (value : Value) : RearrangedSlot (.ready value) (.ready value)

/-- The same names stand for something rearranged. -/
def RearrangedLayer (layer other : Layer) : Prop :=
  ∀ name, Option.Rel RearrangedSlot (layer.get? name) (other.get? name)

abbrev RearrangedScene (scene other : Scene) : Prop :=
  List.Forall₂ RearrangedLayer scene other

theorem RearrangedSlot.ofOperand (related : Rearranged operand another) :
    RearrangedSlot (.ofOperand operand) (.ofOperand another) := by
  cases related with
  | function parameter inner => exact .function parameter inner
  | _ =>
    refine .pending ?_
    constructor <;> assumption

theorem Rearranged.lastOperand? (related : List.Forall₂ Rearranged expressions others)
    (name : String) :
    Option.Rel Rearranged (Section.lastOperand? expressions name)
      (Section.lastOperand? others name) := by
  induction related with
  | nil => exact .none
  | cons head _ ih =>
    cases head with
    | assignment key inner =>
      rw [Section.lastOperand?, Section.lastOperand?]
      revert ih
      generalize Section.lastOperand? _ name = found, Section.lastOperand? _ name = place
      rintro (later | _)
      · exact .some later
      · split
        · exact .some inner
        · exact .none
    | _ => exact ih

namespace RearrangedLayer

theorem ofArgument (parameter : String) (argument : Value) :
    RearrangedLayer (.ofArgument parameter argument) (.ofArgument parameter argument) := by
  intro name
  rw [Layer.get?, Layer.ofArgument, List.find?_singleton]
  split
  · exact .some (.ready argument)
  · exact .none

theorem ofBindings (bindings : Value.Bindings) :
    RearrangedLayer (.ofBindings bindings) (.ofBindings bindings) := by
  intro name
  rw [Layer.get?, Layer.ofBindings, List.find?_map]
  cases bindings.find? _ with
  | none => exact .none
  | some entry => exact .some (.ready entry.2)

theorem ofExpressions (related : List.Forall₂ Rearranged expressions others) :
    RearrangedLayer (.ofSection expressions) (.ofSection others) := by
  intro name
  rw [Layer.get?_ofSection, Layer.get?_ofSection]
  have operands := Rearranged.lastOperand? related name
  revert operands
  generalize Section.lastOperand? expressions name = found, Section.lastOperand? others name = place
  rintro (inner | _)
  · exact .some (.ofOperand inner)
  · exact .none

/-- The names of a section do not depend on the order of its assignments. -/
theorem ofPermuted (related : List.Forall₂ Rearranged expressions others)
    (distinct : (Section.assigned expressions).Nodup) (perm : others.Perm permuted) :
    RearrangedLayer (.ofSection expressions) (.ofSection permuted) := by
  intro name
  have distinct : (Section.assigned others).Nodup := by
    rw [Rearranged.assigned_eq related]
    exact distinct
  have moved : Section.lastOperand? permuted name = Section.lastOperand? others name :=
    Section.lastOperand?_perm distinct perm
  have kept := ofExpressions related name
  rw [Layer.get?_ofSection permuted, moved, ← Layer.get?_ofSection]
  exact kept

theorem ofSection {part other : Section Expr} (related : RearrangedSection part other) :
    RearrangedLayer (.ofSection part.expressions) (.ofSection other.expressions) := by
  cases related with
  | kept _ all => exact ofExpressions all
  | permuted _ _ distinct all perm => exact ofPermuted all distinct perm

end RearrangedLayer

/-- A name is found in the same place. -/
theorem RearrangedScene.find? {scene other owner : Scene} {slot : Slot}
    (related : RearrangedScene scene other) (found : scene.find? name = some (owner, slot)) :
    ∃ place held, other.find? name = some (place, held) ∧ RearrangedScene owner place ∧
      RearrangedSlot slot held := by
  induction related with
  | nil => cases found
  | @cons layer moved outer others head behind ih =>
    rw [Scene.find?] at found ⊢
    have held := head name
    cases own : layer.get? name with
    | some slot =>
      rw [own] at held found
      cases found
      cases there : moved.get? name with
      | some other =>
        rw [there] at held
        cases held with
        | some slot => exact ⟨_, other, rfl, .cons head behind, slot⟩
      | none =>
        rw [there] at held
        cases held
    | none =>
      rw [own] at held found
      cases there : moved.get? name with
      | some other =>
        rw [there] at held
        cases held
      | none => exact ih found

end Manifest
