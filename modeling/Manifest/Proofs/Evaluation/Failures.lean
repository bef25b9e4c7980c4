import Manifest.Program.Evaluate
import Manifest.Proofs.Evaluation.Memory

/-!
# Failures that do not arise

A step that is put together from steps that never fail in some way never fails in
that way either, also where the failure of one of them is caught and raised again.
Apart from merging, no rule of the evaluator asks for a sequence.  So the rules
raise that failure only where a merge or the evaluation of an operand does.
-/

namespace Manifest

open Stepwise

/-- A step never fails in this way. -/
def Machine.Spares {α : Type} (failure : EvalError) (step : Machine α) : Prop :=
  ∀ before after, step before ≠ .error failure after

namespace Machine.Spares

variable {α β : Type} {failure other : EvalError} {step : Machine α} {next : α → Machine β}

/-- A step that always has a result. -/
theorem of_ok (succeeds : ∀ before, ∃ result after, step before = .ok result after) :
    step.Spares failure := by
  intro before after failed
  rcases succeeds before with ⟨result, last, ran⟩
  cases ran.symm.trans failed

theorem pure (result : α) : Spares failure (Pure.pure result : Machine α) :=
  of_ok fun before => ⟨result, before, rfl⟩

theorem throw (different : other ≠ failure) :
    Spares failure (MonadExcept.throw other : Machine α) := by
  intro before after failed
  cases failed
  exact different rfl

theorem bind (first : step.Spares failure) (second : ∀ result, (next result).Spares failure) :
    (step >>= next).Spares failure := by
  intro before after failed
  rcases bind_eq_error.mp failed with failed | ⟨result, middle, _, failed⟩
  · exact first before after failed
  · exact second result middle after failed

/-- What is caught is some other failure, so it may be raised again. -/
theorem attempt_bind {next : Except EvalError α → Machine β} (first : step.Spares failure)
    (second : ∀ result, result ≠ .error failure → (next result).Spares failure) :
    (Machine.attempt step >>= next).Spares failure := by
  intro before after failed
  cases ran : step before with
  | ok result middle =>
    rw [bind_of_ok _ (attempt_of_ok ran)] at failed
    exact second (.ok result) (by rintro ⟨⟩) middle after failed
  | error other middle =>
    rw [bind_of_ok _ (attempt_of_error ran)] at failed
    refine second (.error other) ?_ middle after failed
    rintro same
    cases same
    exact first before middle ran

/-! ## Steps on memory -/

theorem openFrame (frame : Frame) : (Machine.openFrame frame).Spares failure :=
  of_ok fun _ => ⟨_, _, rfl⟩

theorem setSlot (frame : Nat) (name : String) (slot : Slot) :
    (Machine.setSlot frame name slot).Spares failure :=
  of_ok fun _ => ⟨_, _, rfl⟩

theorem waiting : Machine.waiting.Spares failure :=
  of_ok fun _ => ⟨_, _, rfl⟩

theorem pushArgument (value : Value) : (Machine.pushArgument value).Spares failure :=
  of_ok fun _ => ⟨_, _, rfl⟩

theorem dropArguments (base : Nat) : (Machine.dropArguments base).Spares failure :=
  of_ok fun _ => ⟨_, _, rfl⟩

theorem popArgument? (base : Nat) : (Machine.popArgument? base).Spares failure := by
  apply of_ok
  intro before
  by_cases low : before.arguments.length ≤ base
  · exact ⟨_, _, popArgument?_of_le low⟩
  · cases waits : before.arguments with
    | nil =>
      rw [waits] at low
      exact absurd (Nat.zero_le base) low
    | cons argument rest => exact ⟨_, _, popArgument?_of_lt waits low⟩

end Machine.Spares

/-! ## The rules of the evaluator -/

/-- An evaluator of operands never fails for want of a sequence. -/
def Evaluator.Spares (eval : Evaluator) (left : String) : Prop :=
  ∀ expression frame, (eval expression frame).Spares (.notASequence left)

namespace Evaluator.Spares

variable {eval : Evaluator} {left : String} (spares : eval.Spares left)

include spares

theorem resolve (name : String) (frame : Nat) :
    (eval.resolve name frame).Spares (.notASequence left) := by
  intro before after failed
  rw [Evaluator.resolve, get_bind] at failed
  cases found : before.owner? frame name with
  | none =>
    rw [found] at failed
    cases failed
  | some place =>
    rcases place with ⟨owner, slot⟩
    rw [found] at failed
    cases slot with
    | pending operand =>
      refine Machine.Spares.bind (.setSlot owner name .resolving) (fun _ => ?_) before after failed
      refine .attempt_bind (spares operand owner) fun result other => ?_
      cases result with
      | ok value =>
        dsimp only
        exact .bind (.setSlot owner name (.ready value)) fun _ => .pure _
      | error failure =>
        dsimp only
        refine .bind (.setSlot owner name (.pending operand)) fun _ => .throw ?_
        rintro rfl
        exact other rfl
    | _ => cases failed

theorem force (name : String) (frame : Nat) :
    (eval.force name frame).Spares (.notASequence left) := by
  refine .bind (spares.resolve name frame) fun resolved => ?_
  cases resolved <;> exact .pure _

/-- A call fails by itself only where no argument waits. -/
theorem call (name : String) (base : Nat) (parameter : String) (body : Expr) (frame : Nat) :
    (eval.call name base parameter body frame).Spares (.notASequence left) := by
  induction parameter, body, frame using Evaluator.call.induct with
  | case1 parameter inner body frame ih =>
    refine .bind (.popArgument? base) fun popped => ?_
    cases popped with
    | none => exact .throw (by rintro ⟨⟩)
    | some argument => exact .bind (.openFrame _) ih
  | case2 parameter body frame noFunction =>
    simp only [Evaluator.call]
    refine .bind (.popArgument? base) fun popped => ?_
    cases popped with
    | none => exact .throw (by rintro ⟨⟩)
    | some argument => exact .bind (.openFrame _) fun inside => spares body inside

theorem apply (name : String) (definition : Option (Lambda Expr)) (frame base : Nat) :
    (eval.apply name definition frame base).Spares (.notASequence left) := by
  refine .attempt_bind (spares.resolve name frame) fun result other => ?_
  cases result with
  | ok resolved =>
    cases resolved with
    | value value => exact .pure value
    | function lambda owner => exact spares.call name base _ _ owner
  | error failure =>
    cases failure with
    | unresolvedIdentifier missing =>
      cases definition with
      | none => exact .throw (by rintro ⟨⟩)
      | some lambda => exact spares.call name base _ _ frame
    | notASequence found =>
      refine .throw ?_
      rintro same
      exact other (congrArg Except.error same)
    | _ => exact .throw (by rintro ⟨⟩)

theorem operandValue (frame base : Nat) (operand : Expr) :
    (eval.operandValue frame base operand).Spares (.notASequence left) := by
  cases operand with
  | application name operands definition =>
    cases operands with
    | nil => exact spares.apply name definition frame base
    | cons first rest => exact spares _ frame
  | _ => exact spares _ frame

theorem pushOperands (frame base : Nat) (operands : List Expr) :
    (eval.pushOperands frame base operands).Spares (.notASequence left) := by
  induction operands with
  | nil => exact .pure ()
  | cons operand rest ih =>
    exact .bind ih fun _ => .bind (spares.operandValue frame base operand) fun value =>
      .pushArgument value

theorem application (name : String) (operands : List Expr) (definition : Option (Lambda Expr))
    (frame : Nat) :
    (eval.application name operands definition frame).Spares (.notASequence left) := by
  refine .bind .waiting fun base => ?_
  refine .attempt_bind (.bind (spares.pushOperands frame base operands) fun _ =>
    spares.apply name definition frame base) fun result other => ?_
  refine .bind (.dropArguments base) fun leftover => ?_
  cases result with
  | ok value =>
    cases leftover with
    | true => exact .throw (by rintro ⟨⟩)
    | false => exact .pure value
  | error failure =>
    refine .throw ?_
    rintro rfl
    exact other rfl

theorem gather (frame : Nat) (harvest : Harvest) (expression : Expr) :
    (eval.gather frame harvest expression).Spares (.notASequence left) := by
  cases expression with
  | assignment key operand =>
    simp only [Evaluator.gather]
    split
    · exact .pure _
    · exact .bind (spares.force key frame) fun value => .pure _
  | _ => exact .bind (spares _ frame) fun value => .pure _

theorem gatherAll (frame : Nat) (harvest : Harvest) (expressions : List Expr) :
    (eval.gatherAll frame harvest expressions).Spares (.notASequence left) := by
  induction expressions generalizing harvest with
  | nil => exact .pure harvest
  | cons expression rest ih => exact .bind (spares.gather frame harvest expression) ih

theorem sectionValue (frame : Nat) (part : Section Expr) :
    (eval.sectionValue frame part).Spares (.notASequence left) :=
  .bind (.openFrame _) fun inside =>
    .bind (spares.gatherAll inside .empty part.expressions) fun _ => .pure _

theorem sectionValues (frame : Nat) (sections : List (Section Expr)) :
    (eval.sectionValues frame sections).Spares (.notASequence left) := by
  induction sections with
  | nil => exact .pure []
  | cons part rest ih =>
    exact .bind (spares.sectionValue frame part) fun _ => .bind ih fun _ => .pure _

theorem blockValue (frame : Nat) (sections : List (Section Expr)) :
    (eval.blockValue frame sections).Spares (.notASequence left) := by
  cases sections with
  | nil => exact .pure _
  | cons front rest =>
    cases rest with
    | nil => exact .bind (spares.sectionValue frame front) fun _ => .pure _
    | cons second rest =>
      exact .bind (spares.sectionValue frame front) fun found =>
        .bind (spares.sectionValues found.2 (second :: rest)) fun _ => .pure _

theorem items (frame : Nat) (items : List Expr) :
    (eval.items frame items).Spares (.notASequence left) := by
  induction items with
  | nil => exact .pure []
  | cons item rest ih => exact .bind (spares item frame) fun _ => .bind ih fun _ => .pure _

omit spares in
theorem fieldOf (target : Value) (field : String) :
    (Evaluator.fieldOf target field).Spares (.notASequence left) := by
  unfold Evaluator.fieldOf
  split
  · split
    · exact .pure _
    · exact .throw (by rintro ⟨⟩)
  · exact .throw (by rintro ⟨⟩)

/-- Every rule spares the failure, except for the rule of merging, which needs to know
what has come of the left side. -/
theorem step_of_merges (expression : Expr) (frame : Nat)
    (merges : ∀ target addition mode, expression = .merge target addition mode →
      (eval.step expression frame).Spares (.notASequence left)) :
    (eval.step expression frame).Spares (.notASequence left) := by
  cases expression with
  | unit | scalar => exact .pure _
  | vector items => exact .bind (spares.items frame items) fun _ => .pure _
  | «yield» operand | assignment key operand | «scope» id operand => exact spares operand frame
  | lift operand =>
    refine .bind (spares operand frame) fun value => ?_
    cases value <;> exact .pure _
  | block sections => exact spares.blockValue frame sections
  | merge target addition mode => exact merges target addition mode rfl
  | application name operands definition =>
    exact spares.application name operands definition frame
  | function lambda =>
    exact .bind .waiting fun base => spares.call lambda.parameter base _ _ frame
  | access target field =>
    exact .bind (spares target frame) fun value => fieldOf value field
  | pipeline | patternMatch => exact .throw (by rintro ⟨⟩)

end Evaluator.Spares
end Manifest
