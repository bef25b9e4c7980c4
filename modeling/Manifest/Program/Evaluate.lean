import Manifest.Expr.Cardinality
import Manifest.Expr.Scope
import Manifest.Program.Frame

/-!
# Evaluation

The rules are written for an evaluator of operands that is given to them.
The evaluator itself applies the rules to itself, one level of depth after
the other, so that the depth is the only thing its recursion counts.
-/

namespace Manifest

/-- Evaluates an expression in a frame. -/
abbrev Evaluator := Expr → Nat → Machine Value

/-- What a name resolves to. -/
inductive Resolved where
  | value (value : Value)
  /-- A function with the frame that owns it. -/
  | function (lambda : Lambda Expr) (frame : Nat)

/-- What a section has produced so far. -/
structure Harvest where
  fields : Fields Value
  yields : List Value
  /-- The value of the last expression, unless it is an assignment or a yield. -/
  trailing : Option Value

namespace Harvest

def empty : Harvest := ⟨[], [], none⟩

/-- The yields of a section are its value; without any it is the trailing
value, and without that the mapping of its assignments. -/
def value (harvest : Harvest) : Value :=
  if !harvest.yields.isEmpty then .sequence harvest.yields
  else harvest.trailing.getD (.mapping harvest.fields)

end Harvest

namespace Evaluator

/-! ## Names -/

/-- Resolve a name outwards from a frame.  A binding that is still pending is
evaluated in its own frame; while that lasts, it must not be asked for again. -/
def resolve (eval : Evaluator) (name : String) (frame : Nat) : Machine Resolved := do
  match (← get).owner? frame name with
  | none => throw (.unresolvedIdentifier name)
  | some (_, .ready value) => return .value value
  | some (owner, .function lambda) => return .function lambda owner
  | some (_, .resolving) => throw (.cycle name)
  | some (owner, .pending operand) =>
      Machine.setSlot owner name .resolving
      match ← Machine.attempt (eval operand owner) with
      | .ok value =>
          Machine.setSlot owner name (.ready value)
          return .value value
      | .error failure =>
          Machine.setSlot owner name (.pending operand)
          throw failure

/-- The value of a binding.  A function has none. -/
def force (eval : Evaluator) (name : String) (frame : Nat) : Machine Value := do
  match ← eval.resolve name frame with
  | .value value => return value
  | .function _ _ => return .unit

/-! ## Calls -/

/-- Bind the next argument above the base to the parameter and evaluate the
body.  A function in the body goes on taking arguments. -/
def call (eval : Evaluator) (name : String) (base : Nat) :
    (parameter : String) → (body : Expr) → (frame : Nat) → Machine Value
  | parameter, .function ⟨inner, body⟩, frame => do
      let some argument ← Machine.popArgument? base | throw (.missingArgument name)
      let inside ← Machine.openFrame ⟨[(parameter, .ready argument)], some frame⟩
      eval.call name base inner body inside
  | parameter, body, frame => do
      let some argument ← Machine.popArgument? base | throw (.missingArgument name)
      let inside ← Machine.openFrame ⟨[(parameter, .ready argument)], some frame⟩
      eval body inside

/-- Resolve a name, and call it with the arguments above the base if it is a
function.  Where a name is not resolved, the definition that the surrounding
text gives is called in its place. -/
def apply (eval : Evaluator) (name : String) (definition : Option (Lambda Expr))
    (frame base : Nat) : Machine Value := do
  match ← Machine.attempt (eval.resolve name frame) with
  | .ok (.function lambda owner) => eval.call name base lambda.parameter lambda.body owner
  | .ok (.value value) => return value
  | .error (.unresolvedIdentifier missing) =>
      match definition with
      | some lambda => eval.call name base lambda.parameter lambda.body frame
      | none => throw (.unresolvedIdentifier missing)
  | .error failure => throw failure

/-- The value of one operand.  A bare name that is a function takes the
arguments that wait. -/
def operandValue (eval : Evaluator) (frame base : Nat) : Expr → Machine Value
  | .application name [] definition => eval.apply name definition frame base
  | operand => eval operand frame

/-- Push operands, the last one first. -/
def pushOperands (eval : Evaluator) (frame base : Nat) : List Expr → Machine Unit
  | [] => return ()
  | operand :: rest => do
      eval.pushOperands frame base rest
      Machine.pushArgument (← eval.operandValue frame base operand)

/-- Evaluate `f a b`: push `b`, then `a`, and let `f` take them.  Every operand
has to be taken. -/
def application (eval : Evaluator) (name : String) (operands : List Expr)
    (definition : Option (Lambda Expr)) (frame : Nat) : Machine Value := do
  let base ← Machine.waiting
  let result ← Machine.attempt do
    eval.pushOperands frame base operands
    eval.apply name definition frame base
  let leftover ← Machine.dropArguments base
  match result with
  | .error failure => throw failure
  | .ok value => if leftover then throw (.notAFunction name) else return value

/-! ## Blocks -/

/-- The slots of a section, entered in order. -/
def slots (frame : Frame) : List Expr → Frame
  | [] => frame
  | .assignment key operand :: rest =>
      let slot := match operand with
        | .function lambda => .function lambda
        | _ => .pending operand
      slots (frame.set key slot) rest
  | _ :: rest => slots frame rest

/-- Evaluate one expression of a section. -/
def gather (eval : Evaluator) (frame : Nat) (harvest : Harvest) : Expr → Machine Harvest
  | .assignment key operand =>
      if operand.isFunction then return { harvest with trailing := none }
      else do
        let value ← eval.force key frame
        let fields :=
          if isHidden key operand then harvest.fields else Fields.insert harvest.fields key value
        return { harvest with fields, trailing := none }
  | .yield operand => do
      let value ← eval operand frame
      return { harvest with yields := harvest.yields ++ [value], trailing := none }
  | other => do
      let value ← eval other frame
      return { harvest with trailing := some value }

/-- Evaluate the expressions of a section in order. -/
def gatherAll (eval : Evaluator) (frame : Nat) : Harvest → List Expr → Machine Harvest
  | harvest, [] => return harvest
  | harvest, expression :: rest => do
      eval.gatherAll frame (← eval.gather frame harvest expression) rest

/-- The value of a section, and the frame that holds its names. -/
def sectionValue (eval : Evaluator) (frame : Nat) (part : Section Expr) :
    Machine (Value × Nat) := do
  let inside ← Machine.openFrame (slots ⟨[], some frame⟩ part.expressions)
  let harvest ← eval.gatherAll inside .empty part.expressions
  return (harvest.value, inside)

/-- The values of sections that share a frame around them. -/
def sectionValues (eval : Evaluator) (frame : Nat) : List (Section Expr) → Machine (List Value)
  | [] => return []
  | part :: rest => do
      let (value, _) ← eval.sectionValue frame part
      return value :: (← eval.sectionValues frame rest)

/-- A single section is the value of its block.  Of several, the later ones
stand inside the first, and the block is the sequence of their values. -/
def blockValue (eval : Evaluator) (frame : Nat) : List (Section Expr) → Machine Value
  | [] => return .unit
  | [only] => return (← eval.sectionValue frame only).1
  | front :: rest => do
      let (first, inside) ← eval.sectionValue frame front
      return .sequence (first :: (← eval.sectionValues inside rest))

/-! ## Merges -/

/-- Add a value to a sequence. -/
def appendTo (left right : Value) : Machine Value :=
  match left with
  | .sequence items =>
      match right with
      | .sequence more => return .sequence (items ++ more)
      | .unit => return .sequence items
      | other => return .sequence (items ++ [other])
  | other => throw (.notASequence other.kind)

/-- Merge two values.  Where the left operand is known to be a sequence, or
turns out to be one, the right value is added to it. -/
def mergeValues (expected : Cardinality) (mode : MergeMode) (left right : Value) : Machine Value :=
  let appends := match expected with
    | .vector => true
    | .unknown => left.isSequence
    | _ => false
  if appends then appendTo left right
  else match left.merge mode [] right with
    | .ok merged => return merged
    | .error conflict => throw (.mergeMismatch conflict)

/-! ## Expressions -/

/-- Evaluate the items of a literal sequence. -/
def items (eval : Evaluator) (frame : Nat) : List Expr → Machine (List Value)
  | [] => return []
  | item :: rest => do
      let value ← eval item frame
      return value :: (← eval.items frame rest)

/-- The field of a value. -/
def fieldOf (target : Value) (field : String) : Machine Value :=
  match target with
  | .mapping fields =>
      match Fields.get? fields field with
      | some value => return value
      | none => throw (.noSuchField field "mapping")
  | other => throw (.noSuchField field other.kind)

/-- Evaluate one expression with an evaluator for its parts. -/
def step (eval : Evaluator) (expression : Expr) (frame : Nat) : Machine Value :=
  match expression with
  | .unit => return .unit
  | .scalar value => return value
  | .vector items => return .sequence (← eval.items frame items)
  | .yield operand | .assignment _ operand | .scope _ operand => eval operand frame
  | .lift operand => do
      match ← eval operand frame with
      | .sequence items => return .sequence items
      | other => return .sequence [other]
  | .block sections => eval.blockValue frame sections
  | .merge left right mode => do
      let leftValue ← eval left frame
      let rightValue ← eval right frame
      mergeValues left.cardinality mode leftValue rightValue
  | .application name operands definition => eval.application name operands definition frame
  | .function lambda => do
      eval.call lambda.parameter (← Machine.waiting) lambda.parameter lambda.body frame
  | .access target field => do fieldOf (← eval target frame) field
  | .pipeline _ _ => throw (.unsupported "pipeline")
  | .patternMatch _ _ => throw (.unsupported "pattern match")

end Evaluator

/-- Evaluate an expression to a limited depth. -/
def evaluate : Nat → Evaluator
  | 0 => fun _ _ => throw .exhausted
  | depth + 1 => Evaluator.step (evaluate depth)

/-- A parsed document, ready to be evaluated. -/
structure Program where
  document : Document

namespace Program

/-- The depth that an evaluation may reach.  Without functions a document
needs no more than its own size; functions may go deeper. -/
def depthFor (root : Expr) : Nat := root.size + 4000

/-- Evaluate a document with the bindings of a caller. -/
def evaluate (program : Program) (bindings : Value.Bindings) : Except EvalError Value :=
  let root := program.document.root
  match Manifest.evaluate (depthFor root) root 0 (.ofBindings bindings) with
  | .ok value _ => .ok value
  | .error failure _ => .error failure

def cardinality (program : Program) : Cardinality := program.document.root.cardinality

end Program
end Manifest
