import Manifest.Proofs.Cardinality
import Manifest.Proofs.Inference.Sections

/-!
# The two analyses agree

How many values an expression stands for is read off its form, and off the schema
that is inferred for it.  The form says less, since it does not look names up, but
where it says something the schema says the same, whatever the table holds.
-/

namespace Manifest

/-! ## Operations on schemas -/

namespace Schema

theorem cardinality_ofValue {value : Value} (plain : value.IsPlain) :
    (ofValue value).cardinality = .scalar := by
  cases value with
  | unit => exact absurd rfl plain.1
  | sequence items => cases plain.2
  | _ => rfl

theorem cardinality_lifted (operand : Schema) : operand.lifted.cardinality = .vector := by
  cases operand <;> rfl

theorem cardinality_merged (target addition : Schema) :
    (target.merged addition).cardinality = target.cardinality := by
  cases target <;> cases addition <;> rfl

end Schema

/-! ## Sections -/

namespace Section

variable {expressions : List Expr} {last : Expr} {table : SchemaTable} {found : SectionSchema}

/-- Of a section without yields no yields are inferred. -/
theorem collect_yields_eq_none (quiet : expressions.any Expr.isYield = false)
    (none : found.yields = none) : (collect table found expressions).yields = .none := by
  induction expressions generalizing table found with
  | nil => exact none
  | cons expression rest ih =>
    rw [List.any_cons, Bool.or_eq_false_iff] at quiet
    cases expression with
    | «yield» operand => cases quiet.1
    | _ => exact ih quiet.2 none

/-- The last expression of a section decides what is inferred to trail. -/
theorem collect_last :
    (last.isAssignment = true →
      (collect table found (expressions ++ [last])).trailing = none) ∧
    (last.isAssignment = false → last.isYield = false →
      ∃ inside, (collect table found (expressions ++ [last])).trailing =
        some (last.schema inside)) := by
  induction expressions generalizing table found with
  | nil =>
    constructor
    · intro assignment
      cases last with
      | assignment key operand => rfl
      | _ => cases assignment
    · intro noAssignment noYield
      refine ⟨table, ?_⟩
      cases last with
      | assignment key operand => cases noAssignment
      | «yield» operand => cases noYield
      | _ => rfl
  | cons expression rest ih => cases expression <;> exact ih

theorem any_isYield_of_yieldCount {part : Section Expr} :
    part.yieldCount > 0 ↔ part.expressions.any Expr.isYield = true := by
  rw [yieldCount, List.any_eq_true]
  exact List.length_filter_pos_iff

/-- A section agrees with its schema if its expressions do, whatever the names in front
of them have added to the table. -/
theorem cardinality_schema {part : Section Expr} (filled : part.expressions ≠ [])
    (agree : ∀ expression ∈ part.expressions, ∀ table, expression.cardinality ≠ .unknown →
      (expression.schema table).cardinality = expression.cardinality)
    (known : part.cardinality ≠ .unknown) :
    (part.schema table).cardinality = part.cardinality := by
  rcases part with ⟨scope, expressions⟩
  rw [Section.schema, inferAll_eq, SectionSchema.schema]
  rw [Section.cardinality] at known ⊢
  by_cases yields : (⟨scope, expressions⟩ : Section Expr).yieldCount > 0
  · rw [if_pos yields]
    cases inferred : (collect table .empty expressions).yields with
    | some alternatives => rfl
    | none =>
      have quiet := (yields_collect inferred).2
      cases (any_isYield_of_yieldCount.mp yields).symm.trans quiet
  · rw [if_neg yields] at known ⊢
    have quiet := Bool.eq_false_iff.mpr fun yes => yields (any_isYield_of_yieldCount.mpr yes)
    rw [collect_yields_eq_none quiet rfl]
    rcases List.eq_nil_or_concat expressions with rfl | ⟨front, last, rfl⟩
    · exact absurd rfl filled
    · rw [List.concat_eq_append] at agree known quiet ⊢
      rw [lastCardinality_append] at known ⊢
      have member : last ∈ front ++ [last] := List.mem_append_right front (List.mem_cons_self ..)
      cases assignment : last.isAssignment with
      | true =>
        rw [collect_last.1 assignment]
        rfl
      | false =>
        rw [assignment] at known
        have noYield := List.any_eq_false.mp quiet last member
        rcases collect_last.2 assignment (Bool.eq_false_iff.mpr noYield) with ⟨inside, trails⟩
        rw [trails]
        exact agree last member inside known

end Section

/-! ## Expressions -/

/-- Where the form of an expression tells how many values there are, the inferred schema
tells the same. -/
theorem cardinality_schema_eq {expression : Expr}
    (wellFormed : expression.Every Expr.WellFormed) (table : SchemaTable)
    (known : expression.cardinality ≠ .unknown) :
    (expression.schema table).cardinality = expression.cardinality := by
  induction expression using Expr.of_children generalizing table with
  | step whole ih =>
    cases whole with
    | unit => rfl
    | scalar value => exact Schema.cardinality_ofValue wellFormed.own
    | vector items => rfl
    | lift operand => exact Schema.cardinality_lifted _
    | «yield» operand | assignment key operand | «scope» id operand =>
      have member : operand ∈ [operand] := List.mem_singleton.mpr rfl
      rw [Expr.cardinality] at known ⊢
      exact ih operand member (wellFormed.child member) table known
    | merge target addition mode =>
      have member : target ∈ [target, addition] := List.mem_cons_self ..
      rw [Expr.cardinality] at known ⊢
      rw [Expr.schema, Schema.cardinality_merged]
      exact ih target member (wellFormed.child member) table known
    | block sections =>
      rw [Expr.cardinality] at known ⊢
      cases sections with
      | nil => rfl
      | cons front rest =>
        cases rest with
        | nil =>
          have first : front ∈ [front] := List.mem_singleton.mpr rfl
          refine Section.cardinality_schema (wellFormed.own front first) ?_ known
          intro inner stands table known
          have member : inner ∈ (Expr.block [front]).children :=
            List.mem_flatMap.mpr ⟨front, first, stands⟩
          exact ih inner member (wellFormed.child member) table known
        | cons second rest => rfl
    | application | function | pipeline | patternMatch | access => exact absurd rfl known

/-- A list of one item is a sequence to both, whatever is known about the item. -/
theorem cardinality_schema_eq_of_item :
    ∃ expression : Expr, expression.cardinality = .vector ∧
      ∀ table, (expression.schema table).cardinality = .vector := by
  let item : Expr := .application "n" [] none
  let expression : Expr := .block [⟨0, [.yield item]⟩]
  have wellFormed : expression.Every Expr.WellFormed := by
    refine Expr.every_iff.mpr ⟨?_, ?_⟩
    · intro part member
      cases List.mem_singleton.mp member
      exact List.cons_ne_nil _ _
    · intro child member
      cases List.mem_singleton.mp (show child ∈ [.yield item] from member)
      refine Expr.every_iff.mpr ⟨trivial, ?_⟩
      intro operand stands
      cases List.mem_singleton.mp stands
      exact Expr.every_iff.mpr ⟨trivial, List.forall_mem_nil _⟩
  refine ⟨expression, rfl, fun table => ?_⟩
  exact cardinality_schema_eq wellFormed table (by decide)

end Manifest
