import Manifest.Program.Evaluate

/-!
# What expressions mean

Evaluation keeps the value of every name it has evaluated, and marks a name
whose evaluation is under way.  What an expression means takes no memory: a
name stands for its operand, which is evaluated anew, in the place where the
name is defined, whenever it is used.  Arguments are passed on as a list.

The meaning of an expression is found to a limited depth.  What has been found
is found to every greater depth as well.
-/

namespace Manifest

/-- The names of one section or call. -/
abbrev Layer := List (String × Slot)

/-- The layers that can be seen from a place, innermost first. -/
abbrev Scene := List Layer

namespace Layer

/-- What a name stands for in one layer. -/
def get? (layer : Layer) (name : String) : Option Slot :=
  (layer.find? fun entry => entry.1 == name).map Prod.snd

/-- The names of a section. -/
def ofSection (expressions : List Expr) : Layer :=
  (Evaluator.slots ⟨[], none⟩ expressions).slots

/-- The name of a call. -/
def ofArgument (parameter : String) (argument : Value) : Layer :=
  [(parameter, .ready argument)]

/-- The names of a caller. -/
def ofBindings (bindings : Value.Bindings) : Layer :=
  bindings.map fun (name, value) => (name, .ready value)

end Layer

namespace Scene

/-- What a name stands for in the innermost layer. -/
def own? (scene : Scene) (name : String) : Option Slot :=
  scene.head?.bind fun layer => layer.get? name

/-- What a name stands for, and the scene in which it is defined. -/
def find? : Scene → String → Option (Scene × Slot)
  | [], _ => none
  | layer :: outer, name =>
      match layer.get? name with
      | some slot => some (layer :: outer, slot)
      | none => find? outer name

end Scene

/-- Gives expressions their values in scenes. -/
abbrev Meaning := Scene → Expr → Except EvalError Value

/-- What a name means. -/
inductive Named where
  | value (value : Value)
  /-- A function with the scene in which it is defined. -/
  | function (lambda : Lambda Expr) (scene : Scene)

/-- The outcome of a step that reads no memory. -/
def Machine.outcome {α : Type} (step : Machine α) : Except EvalError α :=
  match step ⟨#[], []⟩ with
  | .ok value _ => .ok value
  | .error failure _ => .error failure

/-- One rule behind the other succeeds if both do. -/
theorem outcome_bind_eq_ok {α β : Type} {outcome : Except EvalError α}
    {next : α → Except EvalError β} {result : β} :
    outcome >>= next = .ok result ↔ ∃ value, outcome = .ok value ∧ next value = .ok result := by
  cases outcome with
  | ok value =>
    constructor
    · intro found
      exact ⟨value, rfl, found⟩
    · rintro ⟨_, same, found⟩
      cases same
      exact found
  | error failure =>
    constructor
    · intro failed
      cases failed
    · rintro ⟨_, failed, _⟩
      cases failed

/-- A field is taken from a mapping that holds it. -/
theorem Evaluator.fieldOf_eq_ok {target value : Value} {name : String}
    (taken : (Evaluator.fieldOf target name).outcome = .ok value) :
    ∃ fields, target = .mapping fields ∧ Fields.get? fields name = some value := by
  cases target with
  | mapping fields =>
    cases present : Fields.get? fields name with
    | some held =>
      rw [fieldOf, present] at taken
      cases taken
      exact ⟨fields, rfl, present⟩
    | none =>
      rw [fieldOf, present] at taken
      cases taken
  | _ => cases taken

namespace Meaning

variable (mean : Meaning)

/-! ## Names and calls -/

def resolve (scene : Scene) (name : String) : Except EvalError Named :=
  match scene.find? name with
  | none => throw (.unresolvedIdentifier name)
  | some (_, .ready value) => return .value value
  | some (owner, .function lambda) => return .function lambda owner
  | some (_, .resolving) => throw (.cycle name)
  | some (owner, .pending operand) => do return .value (← mean owner operand)

/-- How a name gets its meaning. -/
inductive Stands (scene : Scene) (name : String) : Named → Prop
  | ready {owner : Scene} {value : Value} : scene.find? name = some (owner, .ready value) →
      Stands scene name (.value value)
  | pending {owner : Scene} {operand : Expr} {value : Value} :
      scene.find? name = some (owner, .pending operand) → mean owner operand = .ok value →
      Stands scene name (.value value)
  | function {owner : Scene} {lambda : Lambda Expr} :
      scene.find? name = some (owner, .function lambda) →
      Stands scene name (.function lambda owner)

theorem resolve_eq_ok {scene : Scene} {name : String} {named : Named} :
    mean.resolve scene name = .ok named ↔ mean.Stands scene name named := by
  rw [resolve]
  constructor
  · intro found
    split at found
    · cases found
    · rename_i holds
      cases found
      exact .ready holds
    · rename_i holds
      cases found
      exact .function holds
    · cases found
    · rename_i holds
      rcases outcome_bind_eq_ok.mp found with ⟨value, means, same⟩
      cases same
      exact .pending holds means
  · intro stands
    cases stands with
    | ready holds => rw [holds]; rfl
    | pending holds means => rw [holds]; exact outcome_bind_eq_ok.mpr ⟨_, means, rfl⟩
    | function holds => rw [holds]; rfl

/-- The value of a binding.  A function has none. -/
def force (scene : Scene) (name : String) : Except EvalError Value := do
  match ← mean.resolve scene name with
  | .value value => return value
  | .function _ _ => return .unit

/-- The value of a call, and the arguments that are left. -/
def call (name : String) :
    List Value → (parameter : String) → (body : Expr) → Scene →
      Except EvalError (Value × List Value)
  | [], _, _, _ => throw (.missingArgument name)
  | argument :: rest, parameter, .function ⟨inner, body⟩, scene =>
      call name rest inner body (.ofArgument parameter argument :: scene)
  | argument :: rest, parameter, body, scene => do
      return (← mean (.ofArgument parameter argument :: scene) body, rest)

theorem call_of_not_function {body : Expr}
    (plain : ∀ inner deeper, body = .function ⟨inner, deeper⟩ → False) (name : String)
    (argument : Value) (rest : List Value) (parameter : String) (scene : Scene) :
    mean.call name (argument :: rest) parameter body scene =
      mean (.ofArgument parameter argument :: scene) body >>= fun value =>
        return (value, rest) := by
  rw [call]
  exact plain

def apply (name : String) (definition : Option (Lambda Expr)) (scene : Scene)
    (arguments : List Value) : Except EvalError (Value × List Value) :=
  match mean.resolve scene name with
  | .ok (.function lambda owner) => mean.call name arguments lambda.parameter lambda.body owner
  | .ok (.value value) => return (value, arguments)
  | .error (.unresolvedIdentifier missing) =>
      match definition with
      | some lambda => mean.call name arguments lambda.parameter lambda.body scene
      | none => throw (.unresolvedIdentifier missing)
  | .error failure => throw failure

def operandValue (scene : Scene) (arguments : List Value) :
    Expr → Except EvalError (Value × List Value)
  | .application name [] definition => mean.apply name definition scene arguments
  | operand => do return (← mean scene operand, arguments)

theorem operandValue_of_not_name {operand : Expr}
    (plain : ∀ name definition, operand = .application name [] definition → False) (scene : Scene)
    (arguments : List Value) :
    mean.operandValue scene arguments operand =
      mean scene operand >>= fun value => return (value, arguments) := by
  rw [operandValue]
  exact plain

/-- The arguments that operands give, the last one first. -/
def arguments (scene : Scene) : List Expr → Except EvalError (List Value)
  | [] => return []
  | operand :: rest => do
      let (value, left) ← mean.operandValue scene (← arguments scene rest) operand
      return value :: left

def application (name : String) (operands : List Expr) (definition : Option (Lambda Expr))
    (scene : Scene) : Except EvalError Value := do
  let (value, left) ← mean.apply name definition scene (← mean.arguments scene operands)
  if left.isEmpty then return value else throw (.notAFunction name)

/-- A name takes its arguments, and all of them have to be taken. -/
theorem application_eq (name : String) (operands : List Expr) (definition : Option (Lambda Expr))
    (scene : Scene) :
    mean.application name operands definition scene =
      (mean.arguments scene operands >>= fun arguments =>
        mean.apply name definition scene arguments) >>= fun found =>
          if found.2.isEmpty then return found.1 else throw (.notAFunction name) :=
  (bind_assoc _ _ _).symm

/-! ## Blocks -/

def gather (scene : Scene) (harvest : Harvest) : Expr → Except EvalError Harvest
  | .assignment key operand =>
      if operand.isFunction then return { harvest with trailing := none }
      else do
        let value ← mean.force scene key
        let fields :=
          if isHidden key operand then harvest.fields else Fields.insert harvest.fields key value
        return { harvest with fields, trailing := none }
  | .yield operand => do
      let value ← mean scene operand
      return { harvest with yields := harvest.yields ++ [value], trailing := none }
  | other => do
      let value ← mean scene other
      return { harvest with trailing := some value }

theorem gather_of_other {expression : Expr}
    (noAssignment : ∀ key operand, expression = .assignment key operand → False)
    (noYield : ∀ operand, expression = .yield operand → False) (scene : Scene)
    (harvest : Harvest) :
    mean.gather scene harvest expression =
      mean scene expression >>= fun value => return { harvest with trailing := some value } := by
  rw [gather]
  · exact noAssignment
  · exact noYield

def gatherAll (scene : Scene) : Harvest → List Expr → Except EvalError Harvest
  | harvest, [] => return harvest
  | harvest, expression :: rest => do
      gatherAll scene (← mean.gather scene harvest expression) rest

/-- The scene inside a section. -/
def inside (scene : Scene) (part : Section Expr) : Scene :=
  .ofSection part.expressions :: scene

def sectionValue (scene : Scene) (part : Section Expr) : Except EvalError Value := do
  return (← mean.gatherAll (inside scene part) .empty part.expressions).value

def sectionValues (scene : Scene) : List (Section Expr) → Except EvalError (List Value)
  | [] => return []
  | part :: rest => do
      let value ← mean.sectionValue scene part
      return value :: (← sectionValues scene rest)

def blockValue (scene : Scene) : List (Section Expr) → Except EvalError Value
  | [] => return .unit
  | [only] => mean.sectionValue scene only
  | front :: rest => do
      let first ← mean.sectionValue scene front
      return .sequence (first :: (← mean.sectionValues (inside scene front) rest))

theorem blockValue_of_several {front : Section Expr} {rest : List (Section Expr)}
    (several : rest = [] → False) (scene : Scene) :
    mean.blockValue scene (front :: rest) =
      mean.sectionValue scene front >>= fun first =>
        mean.sectionValues (inside scene front) rest >>= fun others =>
          return .sequence (first :: others) := by
  rw [blockValue]
  exact several

/-! ## Expressions -/

def items (scene : Scene) : List Expr → Except EvalError (List Value)
  | [] => return []
  | item :: rest => do
      let value ← mean scene item
      return value :: (← items scene rest)

/-- The meaning of one expression, given the meaning of its parts. -/
def step (scene : Scene) : Expr → Except EvalError Value
  | .unit => return .unit
  | .scalar value => return value
  | .vector items => do return .sequence (← mean.items scene items)
  | .yield operand | .assignment _ operand | .scope _ operand => mean scene operand
  | .lift operand => do
      match ← mean scene operand with
      | .sequence items => return .sequence items
      | other => return .sequence [other]
  | .block sections => mean.blockValue scene sections
  | .merge left right mode => do
      let leftValue ← mean scene left
      let rightValue ← mean scene right
      (Evaluator.mergeValues left.cardinality mode leftValue rightValue).outcome
  | .application name operands definition => mean.application name operands definition scene
  | .function lambda => throw (.missingArgument lambda.parameter)
  | .access target field => do (Evaluator.fieldOf (← mean scene target) field).outcome
  | .pipeline _ _ => throw (.unsupported "pipeline")
  | .patternMatch _ _ => throw (.unsupported "pattern match")

end Meaning

/-- The meaning of expressions to a limited depth. -/
def meaning : Nat → Meaning
  | 0 => fun _ _ => throw .exhausted
  | depth + 1 => (meaning depth).step

/-! ## Growth -/

/-- An outcome is the same as another, or has been cut off. -/
def Below {α : Type} (outcome further : Except EvalError α) : Prop :=
  outcome = .error .exhausted ∨ outcome = further

namespace Below

variable {α β : Type} {outcome further : Except EvalError α}

theorem refl (outcome : Except EvalError α) : Below outcome outcome := .inr rfl

theorem trans {last : Except EvalError α} (first : Below outcome further)
    (second : Below further last) : Below outcome last := by
  rcases first with cut | rfl
  · exact .inl cut
  · exact second

theorem bind {next more : α → Except EvalError β} (below : Below outcome further)
    (behind : ∀ value, Below (next value) (more value)) :
    Below (outcome >>= next) (further >>= more) := by
  rcases below with rfl | rfl
  · exact .inl rfl
  · cases outcome with
    | error failure => exact .inr rfl
    | ok value => exact behind value

theorem eq_of_ne (below : Below outcome further) (found : outcome ≠ .error .exhausted) :
    further = outcome :=
  (below.resolve_left found).symm

end Below

namespace Meaning

/-- Whatever has a meaning keeps it. -/
def Grows (mean more : Meaning) : Prop :=
  ∀ scene expression, Below (mean scene expression) (more scene expression)

namespace Grows

variable {mean more : Meaning} (grows : mean.Grows more)

include grows

theorem resolve (scene : Scene) (name : String) :
    Below (mean.resolve scene name) (more.resolve scene name) := by
  rw [Meaning.resolve, Meaning.resolve]
  split
  · exact .refl _
  · exact .refl _
  · exact .refl _
  · exact .refl _
  · exact (grows _ _).bind fun _ => .refl _

theorem force (scene : Scene) (name : String) :
    Below (mean.force scene name) (more.force scene name) :=
  (grows.resolve scene name).bind fun _ => .refl _

theorem call (name : String) (arguments : List Value) (parameter : String) (body : Expr)
    (scene : Scene) :
    Below (mean.call name arguments parameter body scene)
      (more.call name arguments parameter body scene) := by
  fun_induction Meaning.call mean name arguments parameter body scene with
  | case1 => exact .refl _
  | case2 argument rest parameter inner body scene ih => exact ih
  | case3 argument rest parameter body scene noFunction =>
    rw [Meaning.call_of_not_function _ noFunction]
    exact (grows _ _).bind fun _ => .refl _

theorem apply (name : String) (definition : Option (Lambda Expr)) (scene : Scene)
    (arguments : List Value) :
    Below (mean.apply name definition scene arguments)
      (more.apply name definition scene arguments) := by
  rw [Meaning.apply, Meaning.apply]
  rcases grows.resolve scene name with cut | same
  · rw [cut]
    exact .inl rfl
  · rw [same]
    split
    · exact grows.call _ _ _ _ _
    · exact .refl _
    · split
      · exact grows.call _ _ _ _ _
      · exact .refl _
    · exact .refl _

theorem operandValue (scene : Scene) (arguments : List Value) (operand : Expr) :
    Below (mean.operandValue scene arguments operand)
      (more.operandValue scene arguments operand) := by
  fun_cases Meaning.operandValue mean scene arguments operand with
  | case1 name definition => exact grows.apply _ _ _ _
  | case2 operand noName =>
    rw [Meaning.operandValue_of_not_name _ noName]
    exact (grows _ _).bind fun _ => .refl _

theorem arguments (scene : Scene) (operands : List Expr) :
    Below (mean.arguments scene operands) (more.arguments scene operands) := by
  induction operands with
  | nil => exact .refl _
  | cons operand rest ih =>
    exact ih.bind fun _ => (grows.operandValue _ _ _).bind fun _ => .refl _

theorem application (name : String) (operands : List Expr) (definition : Option (Lambda Expr))
    (scene : Scene) :
    Below (mean.application name operands definition scene)
      (more.application name operands definition scene) :=
  (grows.arguments _ _).bind fun _ => (grows.apply _ _ _ _).bind fun _ => .refl _

theorem gather (scene : Scene) (harvest : Harvest) (expression : Expr) :
    Below (mean.gather scene harvest expression) (more.gather scene harvest expression) := by
  fun_cases Meaning.gather mean scene harvest expression with
  | case1 key operand function =>
    rw [Meaning.gather, if_pos function]
    exact .refl _
  | case2 key operand noFunction =>
    rw [Meaning.gather, if_neg noFunction]
    exact (grows.force _ _).bind fun _ => .refl _
  | case3 operand => exact (grows _ _).bind fun _ => .refl _
  | case4 other noAssignment noYield =>
    rw [Meaning.gather_of_other _ noAssignment noYield]
    exact (grows _ _).bind fun _ => .refl _

theorem gatherAll (scene : Scene) (harvest : Harvest) (expressions : List Expr) :
    Below (mean.gatherAll scene harvest expressions)
      (more.gatherAll scene harvest expressions) := by
  induction expressions generalizing harvest with
  | nil => exact .refl _
  | cons expression rest ih => exact (grows.gather _ _ _).bind fun _ => ih _

theorem sectionValue (scene : Scene) (part : Section Expr) :
    Below (mean.sectionValue scene part) (more.sectionValue scene part) :=
  (grows.gatherAll _ _ _).bind fun _ => .refl _

theorem sectionValues (scene : Scene) (sections : List (Section Expr)) :
    Below (mean.sectionValues scene sections) (more.sectionValues scene sections) := by
  induction sections with
  | nil => exact .refl _
  | cons part rest ih => exact (grows.sectionValue _ _).bind fun _ => ih.bind fun _ => .refl _

theorem blockValue (scene : Scene) (sections : List (Section Expr)) :
    Below (mean.blockValue scene sections) (more.blockValue scene sections) := by
  fun_cases Meaning.blockValue mean scene sections with
  | case1 => exact .refl _
  | case2 only => exact grows.sectionValue _ _
  | case3 front rest several =>
    rw [Meaning.blockValue_of_several _ several]
    exact (grows.sectionValue _ _).bind fun _ => (grows.sectionValues _ _).bind fun _ => .refl _

theorem items (scene : Scene) (expressions : List Expr) :
    Below (mean.items scene expressions) (more.items scene expressions) := by
  induction expressions with
  | nil => exact .refl _
  | cons item rest ih => exact (grows _ _).bind fun _ => ih.bind fun _ => .refl _

theorem step : Meaning.Grows mean.step more.step := by
  intro scene expression
  cases expression with
  | unit | scalar | function | pipeline | patternMatch => exact .refl _
  | vector items => exact (grows.items _ _).bind fun _ => .refl _
  | yield | assignment | scope => exact grows _ _
  | lift operand => exact (grows _ _).bind fun _ => .refl _
  | block sections => exact grows.blockValue _ _
  | merge left right mode => exact (grows _ _).bind fun _ => (grows _ _).bind fun _ => .refl _
  | application name operands definition => exact grows.application _ _ _ _
  | access target field => exact (grows _ _).bind fun _ => .refl _

end Grows
end Meaning

theorem meaning_grows_succ (depth : Nat) : (meaning depth).Grows (meaning (depth + 1)) := by
  induction depth with
  | zero => exact fun _ _ => .inl rfl
  | succ depth ih => exact ih.step

/-- What has been found is found to every greater depth. -/
theorem meaning_grows {depth further : Nat} (le : depth ≤ further) :
    (meaning depth).Grows (meaning further) := by
  induction le with
  | refl => exact fun _ _ => .refl _
  | step _ ih => exact fun _ _ => (ih _ _).trans (meaning_grows_succ _ _ _)

end Manifest
