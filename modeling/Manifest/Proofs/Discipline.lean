import Manifest.Proofs.Evaluation.Discipline
import Manifest.Proofs.Flattening

/-!
# Memory in order

Whether an evaluation ends with a value or with a failure, the arguments that waited
before wait again, and nothing but the evaluation of names has happened to the frames
that were there.  The arguments that wait have no part in the outcome.
-/

namespace Manifest

/-- Memory with other arguments in place of those that wait. -/
def Memory.withArguments (memory : Memory) (stack : List Value) : Memory :=
  { memory with arguments := stack }

/-- The end of a run with other arguments in place of those that wait. -/
def Machine.End.withArguments {α : Type} (stack : List Value) : Machine.End α → Machine.End α
  | .ok result after => .ok result (after.withArguments stack)
  | .error failure after => .error failure (after.withArguments stack)

/-- A run that keeps order is a run above no arguments at all, and so the same above any. -/
theorem Orderly.withArguments {α : Type} {step : Machine α}
    (orderly : ∀ stack, Orderly (· = stack) fun _ => step) (before : Memory)
    (stack : List Value) :
    step (before.withArguments stack) = Machine.End.withArguments stack (step before) := by
  let empty : Memory := before.withArguments []
  rcases orderly [] 0 empty with ⟨same, tidy⟩
  have cleared : (lastMemory (step empty)).arguments = [] := tidy.waits rfl
  have above (floor : List Value) :
      Machine.End.onto floor (step empty) = Machine.End.withArguments floor (step empty) := by
    cases ran : step empty with
    | ok result after =>
      rw [ran] at cleared
      exact congrArg (EStateM.Result.ok result) (congrArg (Memory.mk after.frames ·)
        (congrArg (· ++ floor) cleared))
    | error failure after =>
      rw [ran] at cleared
      exact congrArg (EStateM.Result.error failure) (congrArg (Memory.mk after.frames ·)
        (congrArg (· ++ floor) cleared))
  have here : step before = Machine.End.withArguments before.arguments (step empty) :=
    (same before.arguments).trans (above _)
  have there : step (before.withArguments stack) = Machine.End.withArguments stack (step empty) :=
    (same stack).trans (above _)
  rw [there, here]
  cases step empty <;> rfl

/-- A name whose evaluation fails is pending again, with the operand it had. -/
theorem slot?_of_failed {depth frame owner : Nat} {name : String} {before after : Memory}
    {operand : Expr} {failure : EvalError}
    (found : before.owner? frame name = some (owner, .pending operand))
    (failed : (evaluate depth).resolve name frame before = .error failure after) :
    after.slot? owner name = some (.pending operand) := by
  have inside := Memory.lt_size_of_slot? (Memory.slot?_of_owner? found)
  rw [Evaluator.resolve_of_pending found] at failed
  have within : Orderly (fun _ => True) fun _ => evaluate depth operand owner :=
    (orderly_evaluate depth).operand operand owner
  have size := (within 0 (before.setSlot owner name .resolving)).2.advances.size_le
  dsimp only at size
  cases ran : evaluate depth operand owner (before.setSlot owner name .resolving) with
  | ok value middle =>
    rw [ran] at failed
    cases failed
  | error failure middle =>
    rw [ran] at failed size
    cases failed
    rw [Memory.size_setSlot] at size
    exact Memory.slot?_setSlot_self (Nat.lt_of_lt_of_le inside size)

/-- The arguments that waited wait again, names of frames that were there are as they were
or have been evaluated, none is under way that was not so before, a name that fails is
pending again, and the outcome is the same whatever arguments wait. -/
theorem evaluation_keeps_order (depth : Nat) (expression : Expr) (frame : Nat) (before : Memory) :
    let after := lastMemory (evaluate depth expression frame before)
    after.arguments = before.arguments ∧
    (∀ index < before.frames.size, ∀ name,
      Slot.Becomes (before.slot? index name) (after.slot? index name)) ∧
    (∀ index name, after.slot? index name = some .resolving →
      before.slot? index name = some .resolving) ∧
    (∀ name owner operand failure later,
      before.owner? frame name = some (owner, .pending operand) →
      (evaluate depth).resolve name frame before = .error failure later →
      later.slot? owner name = some (.pending operand)) ∧
    ∀ stack, evaluate depth expression frame (before.withArguments stack) =
      Machine.End.withArguments stack (evaluate depth expression frame before) := by
  have orderly : ∀ stack, Orderly (· = stack) fun _ => evaluate depth expression frame :=
    orderly_evaluate depth expression frame
  rcases orderly before.arguments 0 before with ⟨_, advances, waits⟩
  exact ⟨waits rfl, advances.slot, advances.resolving,
    fun _ _ _ _ _ => slot?_of_failed, Orderly.withArguments orderly before⟩

/-- A call fails while its operands are pushed.  What was evaluated until then is kept, the
name that failed is pending again, and what was pushed is gone. -/
theorem failed_call_keeps_order : ∃ memory : Memory,
    let call := Expr.application "f" [.reference "broken", .reference "fine", .scalar .unit] none
    let after := lastMemory (evaluate 5 call 0 memory)
    failure? (evaluate 5 call 0 memory) = some (.unresolvedIdentifier "lost") ∧
    memory.arguments = [.boolean true] ∧ after.arguments = [.boolean true] ∧
    Slot.Becomes (memory.slot? 0 "broken") (after.slot? 0 "broken") ∧
    ∀ stack, evaluate 5 call 0 (memory.withArguments stack) =
      Machine.End.withArguments stack (evaluate 5 call 0 memory) := by
  let memory : Memory := ⟨#[⟨[("f", .function ⟨"x", .reference "x"⟩),
    ("fine", .pending (.scalar (.boolean false))),
    ("broken", .pending (.reference "lost"))], none⟩], [.boolean true]⟩
  have failed : failure? (evaluate 5 (.application "f"
      [.reference "broken", .reference "fine", .scalar .unit] none) 0 memory) =
      some (.unresolvedIdentifier "lost") := by
    decide +kernel
  have order := evaluation_keeps_order 5
    (.application "f" [.reference "broken", .reference "fine", .scalar .unit] none) 0 memory
  exact ⟨memory, failed, rfl, order.1, order.2.1 0 Nat.one_pos "broken", order.2.2.2.2⟩

end Manifest
