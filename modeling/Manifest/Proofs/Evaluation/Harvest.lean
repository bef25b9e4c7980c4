import Manifest.Program.Evaluate
import Manifest.Proofs.Stepwise

/-!
# What a section produces

The expressions of a section are evaluated in order, and each one leaves a
trace of its own form: an assignment a field, a yield an item, and any other
expression a value that counts if it is the last.
-/

namespace Manifest
namespace Evaluator

open Stepwise

variable {eval : Evaluator} {frame : Nat} {harvest result : Harvest} {before after : Memory}

/-- What one expression adds to what a section has produced so far. -/
theorem gather_eq_ok {expression : Expr}
    (gathered : eval.gather frame harvest expression before = .ok result after) :
    (∃ key operand, expression = .assignment key operand ∧ result.yields = harvest.yields ∧
      result.trailing = none) ∨
    (∃ operand value, expression = .yield operand ∧ eval operand frame before = .ok value after ∧
      result = { harvest with yields := harvest.yields ++ [value], trailing := none }) ∨
    (expression.isAssignment = false ∧ expression.isYield = false ∧
      ∃ value, eval expression frame before = .ok value after ∧
        result = { harvest with trailing := some value }) := by
  cases expression with
  | assignment key operand =>
    refine .inl ⟨key, operand, rfl, ?_⟩
    rw [gather] at gathered
    split at gathered
    · rcases pure_eq_ok.mp gathered with ⟨rfl, _⟩
      exact ⟨rfl, rfl⟩
    · rcases bind_eq_ok.mp gathered with ⟨value, middle, _, harvested⟩
      rcases pure_eq_ok.mp harvested with ⟨rfl, _⟩
      exact ⟨rfl, rfl⟩
  | yield operand =>
    rw [gather] at gathered
    rcases bind_eq_ok.mp gathered with ⟨value, middle, evaluated, harvested⟩
    rcases pure_eq_ok.mp harvested with ⟨rfl, rfl⟩
    exact .inr (.inl ⟨operand, value, rfl, evaluated, rfl⟩)
  | _ =>
    rw [gather] at gathered
    · rcases bind_eq_ok.mp gathered with ⟨value, middle, evaluated, harvested⟩
      rcases pure_eq_ok.mp harvested with ⟨rfl, rfl⟩
      exact .inr (.inr ⟨rfl, rfl, value, evaluated, rfl⟩)
    all_goals simp

/-- A section has items exactly if it has yields. -/
theorem gatherAll_yields {expressions : List Expr}
    (gathered : eval.gatherAll frame harvest expressions before = .ok result after) :
    result.yields.length = harvest.yields.length + (expressions.filter Expr.isYield).length := by
  induction expressions generalizing harvest before with
  | nil =>
    rcases pure_eq_ok.mp gathered with ⟨rfl, _⟩
    rfl
  | cons expression rest ih =>
    rw [gatherAll] at gathered
    rcases bind_eq_ok.mp gathered with ⟨between, middle, first, others⟩
    rw [ih others]
    rcases gather_eq_ok first with
      ⟨key, operand, rfl, same, _⟩ | ⟨operand, value, rfl, _, rfl⟩ | ⟨_, noYield, value, _, rfl⟩
    · rw [same, List.filter_cons_of_neg (by simp [Expr.isYield])]
    · rw [List.filter_cons_of_pos (by simp [Expr.isYield])]
      simp only [List.length_append, List.length_cons, List.length_nil]
      omega
    · rw [List.filter_cons_of_neg (by simp [noYield])]

/-- The last expression of a section decides what trails. -/
theorem gatherAll_last {expressions : List Expr} {last : Expr}
    (gathered : eval.gatherAll frame harvest (expressions ++ [last]) before = .ok result after) :
    (last.isAssignment = true → result.trailing = none) ∧
      (last.isAssignment = false → last.isYield = false →
        ∃ value middle, result.trailing = some value ∧
          eval last frame middle = .ok value after) := by
  induction expressions generalizing harvest before with
  | nil =>
    rw [List.nil_append, gatherAll] at gathered
    rcases bind_eq_ok.mp gathered with ⟨between, middle, first, nothing⟩
    rcases pure_eq_ok.mp nothing with ⟨rfl, rfl⟩
    rcases gather_eq_ok first with
      ⟨key, operand, rfl, _, none⟩ | ⟨operand, value, rfl, _, rfl⟩ |
        ⟨noAssignment, _, value, evaluated, rfl⟩
    · exact ⟨fun _ => none, fun noAssignment => by cases noAssignment⟩
    · exact ⟨fun _ => rfl, fun _ noYield => by cases noYield⟩
    · refine ⟨fun assignment => ?_, fun _ _ => ⟨value, before, rfl, evaluated⟩⟩
      rw [noAssignment] at assignment
      cases assignment
  | cons expression rest ih =>
    rw [List.cons_append, gatherAll] at gathered
    rcases bind_eq_ok.mp gathered with ⟨between, middle, _, others⟩
    exact ih others

/-- A section is evaluated in a frame of its own. -/
theorem sectionValue_eq_ok {part : Section Expr} {value : Value} {inside : Nat}
    (evaluated : eval.sectionValue frame part before = .ok (value, inside) after) :
    ∃ opened harvest, eval.gatherAll inside .empty part.expressions opened = .ok harvest after ∧
      harvest.value = value := by
  rw [sectionValue] at evaluated
  rcases bind_eq_ok.mp evaluated with ⟨frame, opened, _, rest⟩
  rcases bind_eq_ok.mp rest with ⟨harvest, middle, gathered, done⟩
  rcases pure_eq_ok.mp done with ⟨same, rfl⟩
  cases same
  exact ⟨opened, harvest, gathered, rfl⟩

end Evaluator
end Manifest
