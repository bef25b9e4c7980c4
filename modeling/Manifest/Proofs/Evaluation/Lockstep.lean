import Manifest.Proofs.Evaluation.Adequacy
import Manifest.Proofs.Evaluation.Bare

/-!
# Evaluation without definitions

The definition that a name carries is called only where the name is not
resolved.  So an evaluation and the evaluation of the same expression without
definitions go in lockstep, from one memory to the same memory without
definitions, until the second one fails because a name is not resolved.
-/

namespace Manifest

open Stepwise

/-! ## Memory without definitions -/

def Frame.bare (frame : Frame) : Frame :=
  ⟨frame.slots.map fun (name, slot) => (name, slot.bare), frame.parent⟩

def Memory.bare (memory : Memory) : Memory :=
  ⟨memory.frames.map Frame.bare, memory.arguments⟩

/-- A resolved name without the definitions in its body. -/
def Resolved.bare : Resolved → Resolved
  | .value held => .value held
  | .function lambda frame => .function lambda.bare frame

namespace Frame

theorem get?_bare (frame : Frame) (name : String) :
    frame.bare.get? name = (frame.get? name).map Slot.bare := by
  rw [get?, get?, bare, List.find?_map, Option.map_map, Option.map_map]
  rfl

theorem set_bare (frame : Frame) (name : String) (slot : Slot) :
    (frame.set name slot).bare = frame.bare.set name slot.bare := by
  rcases frame with ⟨slots, parent⟩
  rw [set, set, bare, bare]
  refine congrArg (Frame.mk · parent) ?_
  dsimp only
  induction slots with
  | nil => rfl
  | cons entry rest ih =>
    rcases entry with ⟨other, held⟩
    rw [List.map_cons, set.go, set.go]
    split
    · rfl
    · exact congrArg (_ :: ·) ih

theorem slots_bare (frame : Frame) (expressions : List Expr) :
    Evaluator.slots frame.bare (bareAll expressions) =
      (Evaluator.slots frame expressions).bare := by
  induction expressions generalizing frame with
  | nil => rfl
  | cons expression rest ih =>
    cases expression with
    | assignment key operand =>
      rw [Evaluator.slots_cons, ← ih, set_bare, ← Slot.ofOperand_bare]
      exact Evaluator.slots_cons _ _ _ _
    | _ => exact ih frame

end Frame

namespace Memory

variable (memory : Memory)

theorem size_bare : memory.bare.frames.size = memory.frames.size :=
  Array.size_map

theorem getElem?_bare (frame : Nat) :
    memory.bare.frames[frame]? = memory.frames[frame]?.map Frame.bare :=
  Array.getElem?_map

theorem owner?_bare (frame : Nat) (name : String) :
    memory.bare.owner? frame name =
      (memory.owner? frame name).map fun (owner, slot) => (owner, slot.bare) := by
  induction frame using Nat.strongRecOn with
  | ind frame ih =>
    rw [owner?, owner?, getElem?_bare]
    cases memory.frames[frame]? with
    | none => rfl
    | some found =>
      dsimp only [Option.map_some]
      rw [found.get?_bare]
      cases found.get? name with
      | some slot => rfl
      | none =>
        dsimp only [Option.map_none, Frame.bare]
        cases found.parent with
        | none => rfl
        | some parent =>
          dsimp only
          split
          · rename_i older
            exact ih parent older
          · rfl

theorem setSlot_bare (frame : Nat) (name : String) (slot : Slot) :
    (memory.setSlot frame name slot).bare = memory.bare.setSlot frame name slot.bare := by
  refine congrArg (Memory.mk · memory.arguments) (Array.ext_getElem? fun index => ?_)
  dsimp only [setSlot]
  rw [Array.getElem?_map, Array.getElem?_modify, Array.getElem?_modify, getElem?_bare]
  split
  · cases memory.frames[index]? with
    | none => rfl
    | some found => exact congrArg some (found.set_bare name slot)
  · rfl

theorem ofBindings_bare (bindings : Value.Bindings) :
    (ofBindings bindings).bare = ofBindings bindings := by
  rw [bare, ofBindings, Frame.ofBindings, List.map_toArray, List.map_singleton, Frame.bare,
    List.map_map]
  rfl

end Memory

/-! ## Lockstep -/

/-- The result of a step without definitions. -/
def bareResult {α β : Type} (change : α → β) :
    EStateM.Result EvalError Memory α → EStateM.Result EvalError Memory β
  | .ok result after => .ok (change result) after.bare
  | .error failure after => .error failure after.bare

/-- A step fails because a name is not resolved. -/
def Unresolved {α : Type} (result : EStateM.Result EvalError Memory α) : Prop :=
  ∃ name after, result = .error (.unresolvedIdentifier name) after

/-- Without definitions a step has the same result, unless a name is not resolved. -/
def Lockstep {α β : Type} (change : α → β) (step : Machine α) (plain : Machine β) : Prop :=
  ∀ memory : Memory,
    plain memory.bare = bareResult change (step memory) ∨ Unresolved (plain memory.bare)

namespace Lockstep

variable {α β γ δ : Type} {change : α → β} {more : γ → δ} {step : Machine α} {plain : Machine β}
  {next : α → Machine γ} {plainNext : β → Machine δ}

theorem pure (result : α) : Lockstep change (Pure.pure result) (Pure.pure (change result)) :=
  fun _ => .inl rfl

theorem throw (failure : EvalError) :
    Lockstep change (MonadExcept.throw failure) (MonadExcept.throw failure) :=
  fun _ => .inl rfl

/-- Where nothing is resolved, nothing is claimed. -/
theorem of_unresolved (unresolved : ∀ memory, Unresolved (plain memory)) :
    Lockstep change step plain :=
  fun memory => .inr (unresolved memory.bare)

theorem bind (first : Lockstep change step plain)
    (second : ∀ result, Lockstep more (next result) (plainNext (change result))) :
    Lockstep more (step >>= next) (plain >>= plainNext) := by
  intro memory
  rcases first memory with same | ⟨name, after, lost⟩
  · cases ran : step memory with
    | ok result after =>
      rw [ran] at same
      rw [bind_of_ok _ ran, bind_of_ok _ same]
      exact second result after
    | error failure after =>
      rw [ran] at same
      rw [show (step >>= next) memory = .error failure after from bind_eq_error.mpr (.inl ran),
        show (plain >>= plainNext) memory.bare = .error failure after.bare from
          bind_eq_error.mpr (.inl same)]
      exact .inl rfl
  · exact .inr ⟨name, after, bind_eq_error.mpr (.inl lost)⟩

/-- A failure that is caught is handed on where a name is not resolved. -/
theorem attempt_bind {next : Except EvalError α → Machine γ}
    {plainNext : Except EvalError β → Machine δ} (first : Lockstep change step plain)
    (second : ∀ result, Lockstep more (next result) (plainNext (result.map change)))
    (hands : ∀ name memory, Unresolved (plainNext (.error (.unresolvedIdentifier name)) memory)) :
    Lockstep more (Machine.attempt step >>= next) (Machine.attempt plain >>= plainNext) := by
  intro memory
  rcases first memory with same | ⟨name, after, lost⟩
  · cases ran : step memory with
    | ok result after =>
      rw [ran] at same
      rw [bind_of_ok _ (Machine.attempt_of_ok ran), bind_of_ok _ (Machine.attempt_of_ok same)]
      exact second (.ok result) after
    | error failure after =>
      rw [ran] at same
      rw [bind_of_ok _ (Machine.attempt_of_error ran), bind_of_ok _ (Machine.attempt_of_error same)]
      exact second (.error failure) after
  · rw [bind_of_ok _ (Machine.attempt_of_error lost)]
    exact .inr (hands name after)

/-- A step that reads no memory. -/
theorem of_settled {step : Machine Value} (settled : step.Settled) : Lockstep id step step := by
  intro memory
  cases settled with
  | ok value known =>
    rw [known, known]
    exact .inl rfl
  | error failure _ known =>
    rw [known, known]
    exact .inl rfl

/-! ## Steps on memory -/

theorem setSlot (frame : Nat) (name : String) (slot : Slot) :
    Lockstep id (Machine.setSlot frame name slot) (Machine.setSlot frame name slot.bare) := by
  intro memory
  rw [Machine.setSlot_eq, Machine.setSlot_eq, ← Memory.setSlot_bare]
  exact .inl rfl

theorem openFrame (frame : Frame) :
    Lockstep id (Machine.openFrame frame) (Machine.openFrame frame.bare) := by
  intro memory
  rw [Machine.openFrame_eq, Machine.openFrame_eq, memory.size_bare, bareResult, Memory.bare,
    Memory.bare, Array.map_push]
  exact .inl rfl

theorem waiting : Lockstep id Machine.waiting Machine.waiting :=
  fun _ => .inl rfl

theorem pushArgument (value : Value) :
    Lockstep id (Machine.pushArgument value) (Machine.pushArgument value) :=
  fun _ => .inl rfl

theorem popArgument? (base : Nat) :
    Lockstep id (Machine.popArgument? base) (Machine.popArgument? base) := by
  intro memory
  by_cases low : memory.arguments.length ≤ base
  · have plain : memory.bare.arguments.length ≤ base := low
    rw [Machine.popArgument?_of_le low, Machine.popArgument?_of_le plain]
    exact .inl rfl
  · cases waiting : memory.arguments with
    | nil => exact absurd (waiting ▸ Nat.zero_le base) low
    | cons argument rest =>
      have plain : memory.bare.arguments = argument :: rest := waiting
      rw [Machine.popArgument?_of_lt waiting low, Machine.popArgument?_of_lt plain low]
      exact .inl rfl

theorem dropArguments (base : Nat) :
    Lockstep id (Machine.dropArguments base) (Machine.dropArguments base) :=
  fun _ => .inl rfl

end Lockstep

/-! ## The functions of the evaluator -/

/-- Two evaluators of operands go in lockstep. -/
def Parallel (eval plain : Evaluator) : Prop :=
  ∀ expression frame, Lockstep id (eval expression frame) (plain expression.bare frame)

theorem unresolved_throw {α : Type} (name : String) (memory : Memory) :
    Unresolved ((throw (.unresolvedIdentifier name) : Machine α) memory) :=
  ⟨name, memory, rfl⟩

namespace Parallel

variable {eval plain : Evaluator} (parallel : Parallel eval plain)

include parallel

theorem resolve (name : String) (frame : Nat) :
    Lockstep Resolved.bare (eval.resolve name frame) (plain.resolve name frame) := by
  intro memory
  rw [Evaluator.resolve, Evaluator.resolve, get_bind, get_bind, memory.owner?_bare]
  rcases memory.owner? frame name with _ | ⟨owner, slot⟩
  · exact .inl rfl
  · cases slot with
    | ready value => exact .inl rfl
    | function lambda => exact .inl rfl
    | resolving => exact .inl rfl
    | pending operand =>
      refine Lockstep.bind (.setSlot owner name .resolving)
        (fun _ => .attempt_bind (parallel operand owner) (fun result => ?_) fun lost after => ?_)
        memory
      · cases result with
        | ok value => exact .bind (.setSlot owner name (.ready value)) fun _ => .pure _
        | error failure => exact .bind (.setSlot owner name (.pending operand)) fun _ => .throw _
      · exact ⟨lost, _, rfl⟩

theorem force (name : String) (frame : Nat) :
    Lockstep id (eval.force name frame) (plain.force name frame) := by
  refine .bind (parallel.resolve name frame) fun resolved => ?_
  cases resolved with
  | value value => exact .pure _
  | function lambda frame => exact .pure _

omit parallel in
/-- The next argument is bound in a frame of its own. -/
theorem bindArgument {base frame : Nat} {parameter : String} {failure : EvalError}
    {next plainNext : Nat → Machine Value}
    (behind : ∀ inner, Lockstep id (next inner) (plainNext inner)) :
    Lockstep id
      (do
        let some argument ← Machine.popArgument? base | throw failure
        let inner ← Machine.openFrame ⟨[(parameter, .ready argument)], some frame⟩
        next inner : Machine Value)
      (do
        let some argument ← Machine.popArgument? base | throw failure
        let inner ← Machine.openFrame ⟨[(parameter, .ready argument)], some frame⟩
        plainNext inner : Machine Value) := by
  refine .bind (.popArgument? base) fun popped => ?_
  cases popped with
  | none => exact .throw failure
  | some argument => exact .bind (.openFrame _) fun inner => behind inner

theorem call (name : String) (base : Nat) (parameter : String) (body : Expr) (frame : Nat) :
    Lockstep id (eval.call name base parameter body frame)
      (plain.call name base parameter body.bare frame) := by
  fun_induction Evaluator.call eval name base parameter body frame with
  | case1 parameter inner body frame ih => exact bindArgument ih
  | case2 parameter body frame noFunction =>
    have plainly : plain.call name base parameter body.bare frame = (do
        let some argument ← Machine.popArgument? base | throw (.missingArgument name)
        let inner ← Machine.openFrame ⟨[(parameter, .ready argument)], some frame⟩
        plain body.bare inner) := by
      cases body with
      | function lambda => exact absurd rfl (noFunction lambda.parameter lambda.body)
      | _ => rfl
    rw [plainly]
    exact bindArgument (parallel body)

theorem apply (name : String) (definition : Option (Lambda Expr)) (frame base : Nat) :
    Lockstep id (eval.apply name definition frame base) (plain.apply name none frame base) := by
  refine .attempt_bind (parallel.resolve name frame) (fun result => ?_) fun lost memory =>
    unresolved_throw lost memory
  cases result with
  | ok resolved =>
    cases resolved with
    | value value => exact .pure value
    | function lambda owner =>
      rcases lambda with ⟨parameter, body⟩
      exact parallel.call name base parameter body owner
  | error failure =>
    cases failure with
    | unresolvedIdentifier missing => exact .of_unresolved (unresolved_throw missing)
    | _ => exact .throw _

theorem operandValue (frame base : Nat) (operand : Expr) :
    Lockstep id (eval.operandValue frame base operand)
      (plain.operandValue frame base operand.bare) := by
  fun_cases Evaluator.operandValue eval frame base operand with
  | case1 name definition => exact parallel.apply name definition frame base
  | case2 _ noName =>
    have plainly : plain.operandValue frame base operand.bare = plain operand.bare frame := by
      cases operand with
      | application name operands definition =>
        cases operands with
        | nil => exact absurd rfl (noName name definition)
        | cons first rest => rfl
      | _ => rfl
    rw [plainly]
    exact parallel operand frame

theorem pushOperands (frame base : Nat) (operands : List Expr) :
    Lockstep id (eval.pushOperands frame base operands)
      (plain.pushOperands frame base (bareAll operands)) := by
  induction operands with
  | nil => exact .pure ()
  | cons operand rest ih =>
    exact ih.bind fun _ => (parallel.operandValue frame base operand).bind fun value =>
      .pushArgument value

theorem application (name : String) (operands : List Expr) (definition : Option (Lambda Expr))
    (frame : Nat) :
    Lockstep id (eval.application name operands definition frame)
      (plain.application name (bareAll operands) none frame) := by
  refine .bind .waiting fun base => .attempt_bind ((parallel.pushOperands frame base operands).bind
    fun _ => parallel.apply name definition frame base) (fun result => ?_) fun lost memory => ?_
  · refine .bind (.dropArguments base) fun leftover => ?_
    cases result with
    | error failure => exact .throw failure
    | ok value =>
      cases leftover with
      | true => exact .throw _
      | false => exact .pure value
  · exact ⟨lost, _, rfl⟩

/-! ## Blocks and expressions -/

theorem gather (frame : Nat) (harvest : Harvest) (expression : Expr) :
    Lockstep id (eval.gather frame harvest expression)
      (plain.gather frame harvest expression.bare) := by
  fun_cases Evaluator.gather eval frame harvest expression with
  | case1 key operand function =>
    rw [Expr.bare, Evaluator.gather, if_pos (operand.isFunction_bare.trans function)]
    exact .pure _
  | case2 key operand noFunction =>
    rw [Expr.bare, Evaluator.gather, operand.isFunction_bare, if_neg noFunction, isHidden_bare]
    exact (parallel.force key frame).bind fun value => .pure _
  | case3 operand => exact (parallel operand frame).bind fun value => .pure _
  | case4 _ noAssignment noYield =>
    have plainly : plain.gather frame harvest expression.bare = (do
        let value ← plain expression.bare frame
        return { harvest with trailing := some value }) := by
      cases expression with
      | assignment key operand => exact absurd rfl (noAssignment key operand)
      | yield operand => exact absurd rfl (noYield operand)
      | _ => rfl
    rw [plainly]
    exact (parallel expression frame).bind fun value => .pure _

theorem gatherAll (frame : Nat) (harvest : Harvest) (expressions : List Expr) :
    Lockstep id (eval.gatherAll frame harvest expressions)
      (plain.gatherAll frame harvest (bareAll expressions)) := by
  induction expressions generalizing harvest with
  | nil => exact .pure harvest
  | cons expression rest ih =>
    exact (parallel.gather frame harvest expression).bind fun harvest => ih harvest

theorem sectionValue (frame : Nat) (part : Section Expr) :
    Lockstep id (eval.sectionValue frame part) (plain.sectionValue frame part.bare) := by
  rw [Evaluator.sectionValue, Evaluator.sectionValue, part.expressions_bare]
  have names := Frame.slots_bare ⟨[], some frame⟩ part.expressions
  rw [show Frame.bare ⟨[], some frame⟩ = ⟨[], some frame⟩ from rfl] at names
  rw [names]
  exact (Lockstep.openFrame _).bind fun inner =>
    (parallel.gatherAll inner .empty part.expressions).bind fun _ => .pure _

theorem sectionValues (frame : Nat) (sections : List (Section Expr)) :
    Lockstep id (eval.sectionValues frame sections)
      (plain.sectionValues frame (bareSections sections)) := by
  induction sections with
  | nil => exact .pure []
  | cons part rest ih =>
    exact (parallel.sectionValue frame part).bind fun _ => ih.bind fun _ => .pure _

theorem blockValue (frame : Nat) (sections : List (Section Expr)) :
    Lockstep id (eval.blockValue frame sections)
      (plain.blockValue frame (bareSections sections)) := by
  cases sections with
  | nil => exact .pure _
  | cons front rest =>
    cases rest with
    | nil => exact (parallel.sectionValue frame front).bind fun _ => .pure _
    | cons second rest =>
      exact (parallel.sectionValue frame front).bind fun found =>
        (parallel.sectionValues found.2 (second :: rest)).bind fun _ => .pure _

theorem items (frame : Nat) (expressions : List Expr) :
    Lockstep id (eval.items frame expressions) (plain.items frame (bareAll expressions)) := by
  induction expressions with
  | nil => exact .pure []
  | cons item rest ih => exact (parallel item frame).bind fun _ => ih.bind fun _ => .pure _

theorem step (expression : Expr) (frame : Nat) :
    Lockstep id (eval.step expression frame) (plain.step expression.bare frame) := by
  cases expression with
  | unit => exact .pure _
  | scalar value => exact .pure _
  | vector items => exact (parallel.items frame items).bind fun _ => .pure _
  | «yield» operand | assignment key operand | «scope» id operand => exact parallel operand frame
  | lift operand =>
    refine (parallel operand frame).bind fun value => ?_
    cases value <;> exact .pure _
  | block sections => exact parallel.blockValue frame sections
  | merge left right mode =>
    refine (parallel left frame).bind fun leftValue => ?_
    refine (parallel right frame).bind fun rightValue => ?_
    rw [left.cardinality_bare]
    exact .of_settled (settled_mergeValues _ _ _ _)
  | application name operands definition =>
    exact parallel.application name operands definition frame
  | function lambda =>
    rcases lambda with ⟨parameter, body⟩
    exact Lockstep.waiting.bind fun base => parallel.call parameter base parameter body frame
  | access target field =>
    exact (parallel target frame).bind fun value => .of_settled (settled_fieldOf value field)
  | pipeline left right => exact .throw _
  | patternMatch subject pattern => exact .throw _

end Parallel

theorem parallel_evaluate (depth : Nat) : Parallel (evaluate depth) (evaluate depth) := by
  induction depth with
  | zero => exact fun _ _ => .throw _
  | succ depth ih => exact ih.step

namespace Program

variable (program : Program) (bindings : Value.Bindings)

theorem depthFor_bare : depthFor program.bare.document.root = depthFor program.document.root :=
  congrArg (· + 4000) program.document.root.size_bare

/-- Without definitions a program comes out the same, unless a name is not resolved. -/
theorem evaluate_bare :
    program.bare.evaluate bindings = program.evaluate bindings ∨
      ∃ name, program.bare.evaluate bindings = .error (.unresolvedIdentifier name) := by
  have both := parallel_evaluate (depthFor program.document.root) program.document.root 0
    (.ofBindings bindings)
  rw [Memory.ofBindings_bare] at both
  rw [evaluate, evaluate, depthFor_bare, show program.bare.document.root =
    program.document.root.bare from rfl]
  rcases both with same | ⟨name, after, lost⟩
  · rw [same]
    cases Manifest.evaluate (depthFor program.document.root) program.document.root 0
      (.ofBindings bindings) with
    | ok value after => exact .inl rfl
    | error failure after => exact .inl rfl
  · rw [lost]
    exact .inr ⟨name, rfl⟩

end Program
end Manifest
