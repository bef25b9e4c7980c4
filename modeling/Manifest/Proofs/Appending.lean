import Manifest.Proofs.Cardinality
import Manifest.Proofs.Evaluation.Failures

/-!
# Appending always finds a sequence

Something is appended to the left side of a merge where that side is known to be a
sequence, from its form or from its value.  What has the form of a sequence comes to
one, in every memory and also in trees that no text is parsed to, so appending finds
the sequence that it needs.
-/

namespace Manifest

open Stepwise

variable {depth frame : Nat} {before after : Memory} {value : Value}

/-! ## The form of a sequence -/

/-- What a section of sequence form comes to is decided by its yields, or else by its
last expression. -/
theorem Section.isSequence_of_vector {eval : Evaluator} {part : Section Expr} {harvest : Harvest}
    (vector : part.cardinality = .vector)
    (lasts : ∀ {last middle value}, last.cardinality = .vector →
      eval last frame middle = .ok value after → value.isSequence = true)
    (gathered : eval.gatherAll frame .empty part.expressions before = .ok harvest after) :
    harvest.value.isSequence = true := by
  rcases part with ⟨scope, expressions⟩
  rw [Section.cardinality] at vector
  by_cases yields : (⟨scope, expressions⟩ : Section Expr).yieldCount > 0
  · exact Section.value_isSequence yields gathered
  · rw [if_neg yields] at vector
    rcases Section.value_of_no_yield yields gathered with ⟨noYield, same⟩
    rcases List.eq_nil_or_concat expressions with rfl | ⟨front, last, rfl⟩
    · cases vector
    · rw [List.concat_eq_append] at vector noYield gathered
      rw [lastCardinality_append] at vector
      cases assignment : last.isAssignment with
      | true =>
        rw [assignment] at vector
        cases vector
      | false =>
        rw [assignment] at vector
        have member : last ∈ front ++ [last] := List.mem_append_right front (List.mem_cons_self ..)
        rcases (Evaluator.gatherAll_last gathered).2 assignment (noYield last member) with
          ⟨value, middle, trails, ran⟩
        rw [same, trails]
        exact lasts vector ran

/-- Whatever has the form of a sequence comes to a sequence. -/
theorem Expr.isSequence_of_vector {expression : Expr} (vector : expression.cardinality = .vector)
    (ran : evaluate depth expression frame before = .ok value after) :
    value.isSequence = true := by
  induction depth generalizing expression frame before value after with
  | zero => cases ran
  | succ depth ih =>
    cases expression with
    | vector items =>
      rcases bind_eq_ok.mp ran with ⟨values, middle, _, done⟩
      rcases pure_eq_ok.mp done with ⟨rfl, _⟩
      rfl
    | lift operand =>
      rcases bind_eq_ok.mp ran with ⟨inner, middle, _, done⟩
      cases inner <;> cases done <;> rfl
    | «yield» operand | assignment key operand | «scope» id operand =>
      rw [Expr.cardinality] at vector
      exact ih vector ran
    | merge left right mode =>
      rw [Expr.cardinality] at vector
      rcases bind_eq_ok.mp ran with ⟨leftValue, middle, _, rest⟩
      rcases bind_eq_ok.mp rest with ⟨rightValue, last, _, merged⟩
      rw [vector] at merged
      exact appendTo_isSequence merged
    | block sections =>
      rw [Expr.cardinality] at vector
      cases sections with
      | nil => cases vector
      | cons front rest =>
        cases rest with
        | nil =>
          rcases bind_eq_ok.mp ran with ⟨⟨found, inside⟩, middle, evaluated, done⟩
          rcases pure_eq_ok.mp done with ⟨rfl, rfl⟩
          rcases Evaluator.sectionValue_eq_ok evaluated with ⟨opened, harvest, gathered, rfl⟩
          exact Section.isSequence_of_vector vector ih gathered
        | cons second rest =>
          rcases bind_eq_ok.mp ran with ⟨⟨first, inside⟩, middle, _, others⟩
          rcases bind_eq_ok.mp others with ⟨values, last, _, done⟩
          rcases pure_eq_ok.mp done with ⟨rfl, _⟩
          rfl
    | unit | scalar | application | function | pipeline | patternMatch | access => cases vector

/-! ## Merging -/

/-- Appending fails only where there is no sequence to append to. -/
theorem appendTo_spares {left : String} {target : Value} (sequence : target.isSequence = true)
    (addition : Value) :
    (Evaluator.appendTo target addition).Spares (.notASequence left) := by
  cases target with
  | sequence items => cases addition <;> exact Machine.Spares.pure _
  | _ => cases sequence

/-- A left side that is known to be a sequence has to be one. -/
theorem mergeValues_spares {left : String} {expected : Cardinality} {target : Value}
    (known : expected = .vector → target.isSequence = true) (mode : MergeMode)
    (addition : Value) :
    (Evaluator.mergeValues expected mode target addition).Spares (.notASequence left) := by
  -- where nothing is appended, merging fails in its own way
  have merges : (Evaluator.mergeValues .scalar mode target addition).Spares
      (.notASequence left) := by
    unfold Evaluator.mergeValues
    dsimp only
    rw [if_neg Bool.false_ne_true]
    cases target.merge mode [] addition with
    | ok merged => exact Machine.Spares.pure merged
    | error conflict => exact Machine.Spares.throw (by rintro ⟨⟩)
  cases expected with
  | vector => exact appendTo_spares (known rfl) addition
  | unit | scalar => exact merges
  | unknown =>
    cases sequence : target.isSequence with
    | true =>
      rw [Evaluator.mergeValues, if_pos sequence]
      exact appendTo_spares sequence addition
    | false =>
      rw [Evaluator.mergeValues, if_neg (by simp [sequence])]
      exact merges

/-- No tree is evaluated to a missing sequence, at any depth. -/
theorem evaluate_spares (left : String) (depth : Nat) :
    Evaluator.Spares (evaluate depth) left := by
  induction depth with
  | zero => exact fun _ _ => Machine.Spares.throw (by rintro ⟨⟩)
  | succ depth ih =>
    intro expression frame
    apply ih.step_of_merges
    rintro target addition mode rfl
    -- The value of the left side is needed here, not only that it spares the failure.
    intro before after failed
    rcases bind_eq_error.mp failed with failed | ⟨targetValue, middle, targetRan, rest⟩
    · exact ih target frame before after failed
    · rcases bind_eq_error.mp rest with failed | ⟨additionValue, last, _, failed⟩
      · exact ih addition frame middle after failed
      · exact mergeValues_spares (fun vector => Expr.isSequence_of_vector vector targetRan) mode
          additionValue last after failed

/-- Evaluation never fails because a value is not the sequence it was taken for.  What
has the form of a sequence is one whenever it comes to a value. -/
theorem never_notASequence (expression : Expr) (depth frame : Nat) (before : Memory) :
    (∀ left after,
      evaluate depth expression frame before ≠ .error (.notASequence left) after) ∧
    (expression.cardinality = .vector →
      ∀ value after, evaluate depth expression frame before = .ok value after →
        ∃ items, value = .sequence items) := by
  constructor
  · intro left after
    exact evaluate_spares left depth expression frame before after
  · intro vector value after ran
    have sequence := Expr.isSequence_of_vector vector ran
    cases value with
    | sequence items => exact ⟨items, rfl⟩
    | _ => cases sequence

/-- A section that yields `true` is a sequence, to which `false` can be appended. -/
theorem never_notASequence_of_yield :
    ∃ expression value after, expression.cardinality = .vector ∧
      evaluate 5 expression 0 (.ofBindings []) = .ok value after ∧
      ∃ items, value = .sequence items := by
  let yielding : Expr := .block [⟨0, [.yield (.scalar (.boolean true))]⟩]
  let expression : Expr := .merge yielding (.scalar (.boolean false)) .soft
  have ran : ∃ value after, evaluate 5 expression 0 (.ofBindings []) = .ok value after :=
    ⟨_, _, rfl⟩
  rcases ran with ⟨value, after, ran⟩
  exact ⟨expression, value, after, rfl, ran,
    (never_notASequence expression 5 0 (.ofBindings [])).2 rfl value after ran⟩

end Manifest
