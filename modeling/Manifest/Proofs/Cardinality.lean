import Manifest.Compile
import Manifest.Proofs.Evaluation.Harvest
import Manifest.Proofs.Grammar.Closure

/-!
# Foretold cardinalities

The cardinality of an expression is read off its form, and its value is found
by evaluation.  The two agree with one exception: a merge is foretold to be
what its left side is, but merging something into a unit gives that something.
So a merge with a unit on its left is foretold to be a unit and is one only if
its right side is a unit as well.
-/

namespace Manifest

namespace Cardinality

/-- What a cardinality says about a value. -/
def Predicts : Cardinality → Value → Prop
  | .unit, value => value = .unit
  | .scalar, value => value ≠ .unit ∧ value.isSequence = false
  | .vector, value => value.isSequence = true
  | .unknown, _ => True

end Cardinality

mutual
/-- The merge into a unit that decides the cardinality of an expression, if
one does. -/
def Expr.unitMerge? : Expr → Option Expr
  | .merge left right mode =>
      if left.cardinality = .unit then some (.merge left right mode) else none
  | .yield operand | .assignment _ operand | .scope _ operand => operand.unitMerge?
  | .block sections => blockUnitMerge? sections
  | .unit | .scalar _ | .vector _ | .lift _ | .application _ _ _ | .function _ | .pipeline _ _
  | .patternMatch _ _ | .access _ _ => none
termination_by structural expression => expression

/-- Only a single section lets its value through. -/
def blockUnitMerge? : List (Section Expr) → Option Expr
  | [] => none
  | [only] => only.unitMerge?
  | _ :: _ :: _ => none
termination_by structural sections => sections

def Section.unitMerge? : Section Expr → Option Expr
  | ⟨scope, expressions⟩ =>
      if (⟨scope, expressions⟩ : Section Expr).yieldCount > 0 then none
      else lastUnitMerge? expressions
termination_by structural part => part

/-- Without yields the last expression decides. -/
def lastUnitMerge? : List Expr → Option Expr
  | [] => none
  | [last] => if last.isAssignment then none else last.unitMerge?
  | _ :: rest => lastUnitMerge? rest
termination_by structural expressions => expressions
end

namespace Value

/-- A value as it is written in one token, neither a unit nor a sequence. -/
def IsPlain (value : Value) : Prop := value ≠ .unit ∧ value.isSequence = false

end Value

namespace Expr

/-- Scalars are plain, and sections are not empty. -/
def WellFormed : Expr → Prop
  | .scalar value => value.IsPlain
  | .block sections => ∀ part ∈ sections, part.expressions ≠ []
  | _ => True

/-- Every part of a document is well formed. -/
theorem every_wellFormed {tokens : List Token} {document : Document}
    (parsed : Document.ofTokens tokens = .ok document) :
    Every WellFormed document.root := by
  refine Document.closed (Grammar.closed_every ?_ ?_ ?_) parsed
  · intro lexeme result reads
    cases lexeme <;> cases reads <;> simp [WellFormed, Value.IsPlain, Value.isSequence]
  · intro sections filled
    exact filled
  · intro expression noScalar noBlock
    cases expression with
    | scalar value => exact absurd rfl (noScalar value)
    | block sections => exact absurd rfl (noBlock sections)
    | _ => trivial

end Expr

theorem lastCardinality_append (front : List Expr) (last : Expr) :
    lastCardinality (front ++ [last]) =
      if last.isAssignment then .scalar else last.cardinality := by
  induction front with
  | nil => rfl
  | cons expression front ih =>
    cases front with
    | nil => rfl
    | cons second front => exact ih

theorem lastUnitMerge?_append (front : List Expr) (last : Expr) :
    lastUnitMerge? (front ++ [last]) =
      if last.isAssignment then none else last.unitMerge? := by
  induction front with
  | nil => rfl
  | cons expression front ih =>
    cases front with
    | nil => rfl
    | cons second front => exact ih

/-! ## Merges -/

namespace Value

variable {mode : MergeMode} {path : List String} {left right merged : Value}

/-- Everything that a merge can do. -/
theorem merge_eq_ok (ok : left.merge mode path right = .ok merged) :
    (∃ fields incoming result, left = .mapping fields ∧ right = .mapping incoming ∧
      merged = .mapping result) ∨
    (∃ items more, left = .sequence items ∧ right = .sequence more ∧
      merged = .sequence (items ++ more)) ∨
    (left = .unit ∧ merged = right) ∨
    (right = .unit ∧ merged = left) ∨
    (left.IsPlain ∧ right.IsPlain ∧ (merged = left ∨ merged = right)) := by
  rw [merge.eq_def] at ok
  split at ok
  · split at ok
    · cases ok
      exact .inl ⟨_, _, _, rfl, rfl, rfl⟩
    · cases ok
  · cases ok
    exact .inr (.inl ⟨_, _, rfl, rfl, rfl⟩)
  · cases ok
    exact .inr (.inr (.inl ⟨rfl, rfl⟩))
  · cases ok
    exact .inr (.inr (.inr (.inl ⟨rfl, rfl⟩)))
  · rename_i noUnit noRightUnit _ _
    split at ok
    · cases ok
    · rename_i noContainer
      rw [Bool.or_eq_true, not_or] at noContainer
      have leftPlain : left.IsPlain := by
        refine ⟨noUnit, ?_⟩
        cases left <;> first | rfl | exact absurd rfl noContainer.1
      have rightPlain : right.IsPlain := by
        refine ⟨noRightUnit, ?_⟩
        cases right <;> first | rfl | exact absurd rfl noContainer.2
      refine .inr (.inr (.inr (.inr ⟨leftPlain, rightPlain, ?_⟩)))
      cases mode with
      | hard =>
        cases ok
        exact .inr rfl
      | soft =>
        cases ok
        exact .inl rfl

/-- Only units merge into a unit. -/
theorem merge_eq_unit (ok : left.merge mode path right = .ok merged) :
    merged = .unit ↔ left = .unit ∧ right = .unit := by
  rcases merge_eq_ok ok with
    ⟨_, _, _, rfl, rfl, rfl⟩ | ⟨_, _, rfl, rfl, rfl⟩ | ⟨rfl, rfl⟩ | ⟨rfl, rfl⟩ |
      ⟨leftPlain, rightPlain, rfl | rfl⟩
  · simp
  · simp
  · simp
  · simp
  · simp [leftPlain.1]
  · simp [rightPlain.1]

/-- What is neither a unit nor a sequence stays so when something is merged
into it. -/
theorem IsPlain.merge (plain : left.IsPlain) (ok : left.merge mode path right = .ok merged) :
    merged.IsPlain := by
  rcases merge_eq_ok ok with
    ⟨_, _, _, rfl, rfl, rfl⟩ | ⟨_, _, rfl, rfl, rfl⟩ | ⟨rfl, rfl⟩ | ⟨rfl, rfl⟩ |
      ⟨leftPlain, rightPlain, rfl | rfl⟩
  · exact ⟨by simp, rfl⟩
  · cases plain.2
  · exact absurd rfl plain.1
  · exact plain
  · exact leftPlain
  · exact rightPlain

end Value

theorem appendTo_isSequence {left right value : Value} {before after : Memory}
    (appended : Evaluator.appendTo left right before = .ok value after) :
    value.isSequence = true := by
  cases left with
  | sequence items => cases right <;> cases appended <;> rfl
  | _ => cases appended

/-- Without a sequence on the left two values are merged as such. -/
theorem mergeValues_eq_ok {expected : Cardinality} {mode : MergeMode} {left right value : Value}
    {before after : Memory}
    (merged : Evaluator.mergeValues expected mode left right before = .ok value after)
    (noSequence : expected = .unit ∨ expected = .scalar) :
    left.merge mode [] right = .ok value ∧ before = after := by
  have plain : Evaluator.mergeValues expected mode left right =
      Evaluator.mergeValues .scalar mode left right := by
    rcases noSequence with rfl | rfl <;> rfl
  rw [plain] at merged
  unfold Evaluator.mergeValues at merged
  cases result : left.merge mode [] right with
  | ok found =>
    rw [result] at merged
    cases merged
    exact ⟨rfl, rfl⟩
  | error conflict =>
    rw [result] at merged
    cases merged

/-! ## Sections -/

namespace Section

variable {part : Section Expr} {eval : Evaluator} {frame : Nat} {before after : Memory}
  {harvest : Harvest}

/-- A section with a yield is the sequence of its yields. -/
theorem value_isSequence (yields : part.yieldCount > 0)
    (gathered : eval.gatherAll frame .empty part.expressions before = .ok harvest after) :
    harvest.value.isSequence = true := by
  have counted := Evaluator.gatherAll_yields gathered
  have some : harvest.yields ≠ [] := by
    intro none
    rw [none] at counted
    simp only [yieldCount, Harvest.empty, List.length_nil] at counted yields
    omega
  rw [Harvest.value, List.isEmpty_eq_false_iff.mpr some]
  rfl

/-- A section without yields is what trails, or the mapping of its assignments. -/
theorem value_of_no_yield (none : ¬ part.yieldCount > 0)
    (gathered : eval.gatherAll frame .empty part.expressions before = .ok harvest after) :
    (∀ expression ∈ part.expressions, expression.isYield = false) ∧
      harvest.value = harvest.trailing.getD (.mapping harvest.fields) := by
  have zero := Nat.eq_zero_of_not_pos none
  have counted := Evaluator.gatherAll_yields gathered
  constructor
  · intro expression member
    rw [yieldCount, List.length_eq_zero_iff, List.filter_eq_nil_iff] at zero
    exact Bool.eq_false_iff.mpr (zero expression member)
  · have empty : harvest.yields = [] := by
      rw [← List.length_eq_zero_iff, counted, Harvest.empty, List.length_nil, Nat.zero_add]
      exact zero
    rw [Harvest.value, empty]
    rfl

end Section

/-! ## Runs -/

/-- What a run shows about a cardinality that was foretold.  Where a merge into
a unit decides, its two sides have been evaluated, and the value is a unit if
and only if both of them are. -/
structure Foretold (cardinality : Cardinality) (unitMerge : Option Expr) (value : Value)
    (after : Memory) : Prop where
  predicts : unitMerge = none → cardinality.Predicts value
  merges : ∀ merge, unitMerge = some merge → cardinality = .unit ∧
    ∃ left right mode, merge = .merge left right mode ∧ left.cardinality = .unit ∧
      ∃ depth frame before middle leftValue rightValue,
        evaluate depth left frame before = .ok leftValue middle ∧
        evaluate depth right frame middle = .ok rightValue after ∧
        (value = .unit ↔ leftValue = .unit ∧ rightValue = .unit)

namespace Foretold

variable {depth frame : Nat} {before after : Memory} {value : Value}

theorem of_predicts {cardinality : Cardinality} (predicts : cardinality.Predicts value) :
    Foretold cardinality none value after :=
  ⟨fun _ => predicts, fun _ same => by cases same⟩

/-- Nothing but a unit is foretold where a merge into a unit decides. -/
theorem unitMerge_eq_none {cardinality : Cardinality} {unitMerge : Option Expr}
    (foretold : Foretold cardinality unitMerge value after) (other : cardinality ≠ .unit) :
    unitMerge = none := by
  cases merges : unitMerge with
  | none => rfl
  | some merge => exact absurd (foretold.merges merge merges).1 other

theorem merge {left right : Expr} {mode : MergeMode}
    (leftForetold : ∀ {leftValue middle}, evaluate depth left frame before = .ok leftValue middle →
      Foretold left.cardinality left.unitMerge? leftValue middle)
    (ran : evaluate (depth + 1) (.merge left right mode) frame before = .ok value after) :
    Foretold (Expr.merge left right mode).cardinality (Expr.merge left right mode).unitMerge? value
      after := by
  rcases Stepwise.bind_eq_ok.mp ran with ⟨leftValue, middle, leftRan, rest⟩
  rcases Stepwise.bind_eq_ok.mp rest with ⟨rightValue, last, rightRan, merged⟩
  have foretold := leftForetold leftRan
  rw [Expr.cardinality, Expr.unitMerge?]
  cases known : left.cardinality with
  | unknown => exact of_predicts trivial
  | vector =>
    rw [known] at merged
    exact of_predicts (appendTo_isSequence merged)
  | scalar =>
    have none := foretold.unitMerge_eq_none (by simp [known])
    have plain := foretold.predicts none
    rw [known] at plain
    rcases mergeValues_eq_ok merged (.inr known) with ⟨ok, _⟩
    exact of_predicts (Value.IsPlain.merge plain ok)
  | unit =>
    rcases mergeValues_eq_ok merged (.inl known) with ⟨ok, rfl⟩
    rw [if_pos rfl]
    refine ⟨fun same => (by cases same), ?_⟩
    intro merge same
    cases same
    exact ⟨rfl, ⟨left, right, mode, rfl, known, depth, frame, before, middle, leftValue,
      rightValue, leftRan, rightRan, Value.merge_eq_unit ok⟩⟩

/-- A single section is what its yields are, or else what its last expression
is. -/
theorem of_gatherAll {part : Section Expr} (filled : part.expressions ≠ [])
    (lasts : ∀ {last middle value}, last ∈ part.expressions →
      evaluate depth last frame middle = .ok value after →
      Foretold last.cardinality last.unitMerge? value after)
    {harvest : Harvest}
    (gathered : (evaluate depth).gatherAll frame .empty part.expressions before =
      .ok harvest after) :
    Foretold part.cardinality part.unitMerge? harvest.value after := by
  rcases part with ⟨scope, expressions⟩
  rw [Section.cardinality, Section.unitMerge?]
  by_cases yields : (⟨scope, expressions⟩ : Section Expr).yieldCount > 0
  · rw [if_pos yields, if_pos yields]
    exact of_predicts (Section.value_isSequence yields gathered)
  · rw [if_neg yields, if_neg yields]
    rcases Section.value_of_no_yield yields gathered with ⟨noYield, same⟩
    rw [same]
    have split := (List.dropLast_concat_getLast filled).symm
    simp only at split
    have member : expressions.getLast filled ∈ expressions := List.getLast_mem filled
    generalize expressions.getLast filled = last at split member
    generalize expressions.dropLast = front at split
    subst split
    rcases Evaluator.gatherAll_last gathered with ⟨atAssignment, otherwise⟩
    rw [lastCardinality_append, lastUnitMerge?_append]
    cases assignment : last.isAssignment with
    | true =>
      rw [atAssignment assignment]
      exact of_predicts ⟨by simp, rfl⟩
    | false =>
      rcases otherwise assignment (noYield last member) with ⟨value, middle, trails, ran⟩
      rw [trails]
      exact lasts member ran

theorem block {sections : List (Section Expr)}
    (filled : ∀ part ∈ sections, part.expressions ≠ [])
    (lasts : ∀ {last frame middle value after}, last ∈ (Expr.block sections).children →
      evaluate depth last frame middle = .ok value after →
      Foretold last.cardinality last.unitMerge? value after)
    (ran : evaluate (depth + 1) (.block sections) frame before = .ok value after) :
    Foretold (Expr.block sections).cardinality (Expr.block sections).unitMerge? value after := by
  rw [Expr.cardinality, Expr.unitMerge?]
  cases sections with
  | nil =>
    rcases Stepwise.pure_eq_ok.mp ran with ⟨rfl, _⟩
    exact of_predicts rfl
  | cons front rest =>
    cases rest with
    | nil =>
      rcases Stepwise.bind_eq_ok.mp ran with ⟨⟨found, inside⟩, middle, evaluated, done⟩
      rcases Stepwise.pure_eq_ok.mp done with ⟨rfl, rfl⟩
      rcases Evaluator.sectionValue_eq_ok evaluated with ⟨opened, harvest, gathered, rfl⟩
      refine of_gatherAll (filled front (List.mem_singleton.mpr rfl)) ?_ gathered
      intro last between value member lastRan
      exact lasts (List.mem_flatMap.mpr ⟨front, List.mem_singleton.mpr rfl, member⟩) lastRan
    | cons second rest =>
      rcases Stepwise.bind_eq_ok.mp ran with ⟨⟨first, inside⟩, middle, _, others⟩
      rcases Stepwise.bind_eq_ok.mp others with ⟨values, last, _, done⟩
      rcases Stepwise.pure_eq_ok.mp done with ⟨rfl, _⟩
      exact of_predicts rfl

/-- Every run of a well-formed expression. -/
theorem of_run {part : Expr} (wellFormed : Expr.Every Expr.WellFormed part)
    (ran : evaluate depth part frame before = .ok value after) :
    Foretold part.cardinality part.unitMerge? value after := by
  induction depth generalizing part frame before value after with
  | zero => cases ran
  | succ depth ih =>
    cases part with
    | unit =>
      rcases Stepwise.pure_eq_ok.mp ran with ⟨rfl, _⟩
      exact of_predicts rfl
    | scalar found =>
      rcases Stepwise.pure_eq_ok.mp ran with ⟨rfl, _⟩
      exact of_predicts wellFormed.own
    | vector items =>
      rcases Stepwise.bind_eq_ok.mp ran with ⟨values, middle, _, done⟩
      rcases Stepwise.pure_eq_ok.mp done with ⟨rfl, _⟩
      exact of_predicts rfl
    | lift operand =>
      rcases Stepwise.bind_eq_ok.mp ran with ⟨inner, middle, _, done⟩
      cases inner <;> cases done <;> exact of_predicts rfl
    | assignment key operand =>
      have same : (Expr.assignment key operand).cardinality = operand.cardinality := by
        rw [Expr.cardinality]
      have merges : (Expr.assignment key operand).unitMerge? = operand.unitMerge? := by
        rw [Expr.unitMerge?]
      rw [same, merges]
      exact ih (wellFormed.child (List.mem_singleton.mpr rfl)) ran
    | yield operand =>
      have same : (Expr.yield operand).cardinality = operand.cardinality := by
        rw [Expr.cardinality]
      have merges : (Expr.yield operand).unitMerge? = operand.unitMerge? := by
        rw [Expr.unitMerge?]
      rw [same, merges]
      exact ih (wellFormed.child (List.mem_singleton.mpr rfl)) ran
    | scope id operand =>
      have same : (Expr.scope id operand).cardinality = operand.cardinality := by
        rw [Expr.cardinality]
      have merges : (Expr.scope id operand).unitMerge? = operand.unitMerge? := by
        rw [Expr.unitMerge?]
      rw [same, merges]
      exact ih (wellFormed.child (List.mem_singleton.mpr rfl)) ran
    | merge left right mode =>
      exact merge (fun leftRan => ih (wellFormed.child (List.mem_cons_self ..)) leftRan) ran
    | block sections =>
      exact block wellFormed.own (fun member lastRan => ih (wellFormed.child member) lastRan) ran
    | application | function | pipeline | patternMatch | access => exact of_predicts trivial

end Foretold

/-! ## Programs -/

/-- Where no merge into a unit decides, the value of a program and of every
part of it that is evaluated is of the foretold cardinality.  Where one does,
the cardinality is right exactly if both sides of that merge were units. -/
theorem cardinality_foretold {source : String} {compiled : Compiled}
    (compiles : compile source = .ok compiled) :
    (∀ bindings value, compiled.program.evaluate bindings = .ok value →
      compiled.program.document.root.unitMerge? = none →
        compiled.program.cardinality.Predicts value) ∧
    ∀ part, Expr.Within part compiled.program.document.root →
      ∀ depth frame before value after, evaluate depth part frame before = .ok value after →
        (part.unitMerge? = none → part.cardinality.Predicts value) ∧
        ∀ merge, part.unitMerge? = some merge →
          ∃ left right mode, merge = .merge left right mode ∧ left.cardinality = .unit ∧
            ∃ depth frame before middle leftValue rightValue,
              evaluate depth left frame before = .ok leftValue middle ∧
              evaluate depth right frame middle = .ok rightValue after ∧
              (part.cardinality.Predicts value ↔ leftValue = .unit ∧ rightValue = .unit) := by
  have wellFormed : Expr.Every Expr.WellFormed compiled.program.document.root := by
    rw [compile] at compiles
    split at compiles
    · cases compiles
    · split at compiles
      · cases compiles
      · rename_i document parsed
        cases compiles
        exact Expr.every_wellFormed parsed
  constructor
  · intro bindings value evaluated none
    rw [Program.evaluate] at evaluated
    split at evaluated
    · rename_i found final ran
      cases evaluated
      exact (Foretold.of_run wellFormed ran).predicts none
    · cases evaluated
  · intro part within depth frame before value after ran
    have foretold := Foretold.of_run (wellFormed.part within) ran
    refine ⟨foretold.predicts, ?_⟩
    intro merge decides
    rcases foretold.merges merge decides with ⟨unit, left, right, mode, same, known, sides⟩
    refine ⟨left, right, mode, same, known, ?_⟩
    rw [unit]
    exact sides

/-- Two sections are foretold to be a sequence, and they are one. -/
theorem cardinality_foretold_two_sections :
    ∃ compiled value, compile "k: 1 + ()\n---\n[] + k\n" = .ok compiled ∧
      compiled.program.evaluate [] = .ok value ∧ compiled.program.cardinality = .vector ∧
      compiled.program.cardinality.Predicts value := by
  have checked : (match compile "k: 1 + ()\n---\n[] + k\n" with
      | .ok compiled =>
        compiled.program.document.root.unitMerge?.isNone &&
          decide (compiled.program.cardinality = .vector) &&
          (compiled.program.evaluate []).toOption.isSome
      | .error _ => false) = true := by
    decide +kernel
  cases compiles : compile "k: 1 + ()\n---\n[] + k\n" with
  | error failure =>
    rw [compiles] at checked
    cases checked
  | ok compiled =>
    rw [compiles] at checked
    simp only [Bool.and_eq_true, decide_eq_true_eq, Option.isNone_iff_eq_none] at checked
    rcases checked with ⟨⟨none, vector⟩, some⟩
    cases evaluated : compiled.program.evaluate [] with
    | error failure =>
      rw [evaluated] at some
      cases some
    | ok value =>
      exact ⟨compiled, value, rfl, evaluated, vector,
        (cardinality_foretold compiles).1 [] value evaluated none⟩

/-- A number that is merged into a unit is foretold to be a unit. -/
theorem number_merged_into_unit_foretold_unit :
    ∃ compiled value, compile "() + 1\n" = .ok compiled ∧
      compiled.program.evaluate [] = .ok value ∧ ¬ compiled.program.cardinality.Predicts value := by
  have checked : (match compile "() + 1\n" with
      | .ok compiled =>
        decide (compiled.program.cardinality = .unit) &&
          (compiled.program.evaluate []).toOption.any fun value => !value.isUnit
      | .error _ => false) = true := by
    decide +kernel
  cases compiles : compile "() + 1\n" with
  | error failure =>
    rw [compiles] at checked
    cases checked
  | ok compiled =>
    rw [compiles] at checked
    simp only [Bool.and_eq_true, decide_eq_true_eq] at checked
    rcases checked with ⟨unit, some⟩
    cases evaluated : compiled.program.evaluate [] with
    | error failure =>
      rw [evaluated] at some
      cases some
    | ok value =>
      refine ⟨compiled, value, rfl, evaluated, ?_⟩
      rw [unit]
      intro predicts
      cases (predicts : value = .unit)
      rw [evaluated] at some
      cases some

end Manifest
