import Manifest.Proofs.Evaluation.Depiction
import Manifest.Proofs.Evaluation.Adequacy

/-!
# Evaluation to more depth

An evaluation that does not use up its depth is the same to any greater depth.
Meanwhile the memory holds on to its functions: a name that is a function stays
that function, and a name that is none does not become one.  What waits as an
argument is left alone, except by the call that it waits for.
-/

namespace Manifest

open Stepwise

/-! ## What memory holds on to -/

/-- The function that a slot holds, if it holds one. -/
def Slot.function? : Slot → Option (Lambda Expr)
  | .function lambda => some lambda
  | _ => none

namespace Memory

variable {before middle after : Memory} {frame owner : Nat} {name : String} {slot : Slot}
  {lambda : Lambda Expr}

/-- Frames may be opened, and names may be evaluated, but no name turns into a
function, into another function, or into none. -/
structure Holds (before after : Memory) : Prop where
  size_le : before.frames.size ≤ after.frames.size
  parent : ∀ index < before.frames.size, after.parent? index = before.parent? index
  slot : ∀ index < before.frames.size, ∀ name,
    (after.slot? index name).map Slot.function? = (before.slot? index name).map Slot.function?

theorem slot?_of_owner? (found : before.owner? frame name = some (owner, slot)) :
    before.slot? owner name = some slot := by
  induction frame using Nat.strongRecOn with
  | ind frame ih =>
    rw [owner?_eq] at found
    cases here : before.slot? frame name with
    | some held =>
      rw [here] at found
      cases found
      exact here
    | none =>
      rw [here] at found
      cases around : before.parent? frame with
      | none =>
        rw [around] at found
        cases found
      | some parent =>
        rw [around] at found
        dsimp only at found
        split at found
        · rename_i older
          exact ih parent older found
        · cases found

namespace Holds

theorem refl (memory : Memory) : memory.Holds memory :=
  ⟨Nat.le_refl _, fun _ _ => rfl, fun _ _ _ => rfl⟩

theorem trans (first : before.Holds middle) (second : middle.Holds after) :
    before.Holds after where
  size_le := Nat.le_trans first.size_le second.size_le
  parent index inside :=
    (second.parent index (Nat.lt_of_lt_of_le inside first.size_le)).trans
      (first.parent index inside)
  slot index inside name :=
    (second.slot index (Nat.lt_of_lt_of_le inside first.size_le) name).trans
      (first.slot index inside name)

/-- Arguments are no part of what memory holds on to. -/
theorem of_frames (same : after.frames = before.frames) : before.Holds after where
  size_le := Nat.le_of_eq (congrArg Array.size same.symm)
  parent index _ := by rw [parent?, parent?, same]
  slot index _ name := by rw [slot?, slot?, same]

theorem openFrame (memory : Memory) (opened : Frame) :
    memory.Holds (memory.openFrame opened) where
  size_le := by
    rw [size_openFrame]
    exact Nat.le_succ _
  parent index inside := parent?_openFrame_of_lt inside
  slot index inside name := congrArg _ (slot?_openFrame_of_lt inside name)

/-- A name that is no function may stand for something else that is none. -/
theorem setSlot (holds : before.Holds after) (inside : owner < before.frames.size)
    (known : (before.slot? owner name).map Slot.function? = some none)
    (free : slot.function? = none) : before.Holds (after.setSlot owner name slot) where
  size_le := by
    rw [size_setSlot]
    exact holds.size_le
  parent index within := by
    rw [parent?_setSlot]
    exact holds.parent index within
  slot index within wanted := by
    by_cases same : index = owner ∧ wanted = name
    · rcases same with ⟨rfl, rfl⟩
      rw [slot?_setSlot_self (Nat.lt_of_lt_of_le within holds.size_le), known, Option.map_some,
        free]
    · rw [slot?_setSlot_of_ne same]
      exact holds.slot index within wanted

/-- Names are looked up in the same frames, and the same of them are functions. -/
theorem owner? (holds : before.Holds after) (inside : frame < before.frames.size) (name : String) :
    (after.owner? frame name).map (Prod.map id Slot.function?) =
      (before.owner? frame name).map (Prod.map id Slot.function?) := by
  induction frame using Nat.strongRecOn with
  | ind frame ih =>
    have here := holds.slot frame inside name
    rw [owner?_eq after, owner?_eq before, holds.parent frame inside]
    cases later : after.slot? frame name with
    | some slot =>
      cases earlier : before.slot? frame name with
      | some held =>
        rw [later, earlier] at here
        exact congrArg (Option.map (Prod.mk frame)) here
      | none =>
        rw [later, earlier] at here
        cases here
    | none =>
      cases earlier : before.slot? frame name with
      | some held =>
        rw [later, earlier] at here
        cases here
      | none =>
        cases before.parent? frame with
        | none => rfl
        | some parent =>
          dsimp only
          split
          · rename_i older
            exact ih parent older (Nat.lt_trans older inside)
          · rfl

/-- A name that is a function stays that function, and no other name becomes one. -/
theorem function_iff (holds : before.Holds after) (inside : frame < before.frames.size) :
    after.owner? frame name = some (owner, .function lambda) ↔
      before.owner? frame name = some (owner, .function lambda) := by
  have function {memory : Memory} : memory.owner? frame name = some (owner, .function lambda) ↔
      (memory.owner? frame name).map (Prod.map id Slot.function?) = some (owner, some lambda) := by
    rcases memory.owner? frame name with _ | ⟨other, slot⟩
    · exact iff_of_false (fun none => nomatch none) fun none => nomatch none
    · cases slot <;> simp [Slot.function?]
  rw [function, function, holds.owner? inside]

end Holds
end Memory

/-! ## Runs that persist -/

/-- The memory in which a run ends. -/
def lastMemory {α : Type} : EStateM.Result EvalError Memory α → Memory
  | .ok _ after => after
  | .error _ after => after

/-- The depth of a run is used up. -/
def Cut {α : Type} (result : EStateM.Result EvalError Memory α) : Prop :=
  ∃ after, result = .error .exhausted after

/-- What a run has kept: the functions in memory, and a property of the arguments
that wait. -/
structure Kept {α : Type} (waits : List Value → Prop) (before : Memory)
    (result : EStateM.Result EvalError Memory α) : Prop where
  holds : before.Holds (lastMemory result)
  waits : waits before.arguments → waits (lastMemory result).arguments

/-- Unless its depth is used up, a step is the same as another one, and it keeps
functions and arguments. -/
def Persists {α : Type} (waits : List Value → Prop) (step deeper : Machine α) : Prop :=
  ∀ before, Cut (step before) ∨ deeper before = step before ∧ Kept waits before (step before)

namespace Persists

variable {α β : Type} {waits : List Value → Prop} {step deeper : Machine α}
  {next deeperNext : α → Machine β} {before after : Memory}

theorem pure (result : α) : Persists waits (Pure.pure result) (Pure.pure result) :=
  fun before => .inr ⟨rfl, .refl before, id⟩

theorem throw (failure : EvalError) :
    Persists waits (MonadExcept.throw failure : Machine α) (MonadExcept.throw failure) :=
  fun before => .inr ⟨rfl, .refl before, id⟩

/-- What is behind a step that has kept functions and arguments keeps them all the
way. -/
theorem behind {middle : Memory} (holds : before.Holds middle)
    (kept : waits before.arguments → waits middle.arguments)
    (persists : Persists waits step deeper) :
    Cut (step middle) ∨ deeper middle = step middle ∧ Kept waits before (step middle) :=
  (persists middle).imp_right fun ⟨same, further⟩ =>
    ⟨same, holds.trans further.holds, further.waits ∘ kept⟩

theorem bind (first : Persists waits step deeper)
    (second : ∀ result, Persists waits (next result) (deeperNext result)) :
    Persists waits (step >>= next) (deeper >>= deeperNext) := by
  intro before
  rcases first before with ⟨after, cut⟩ | ⟨same, holds, kept⟩
  · exact .inl ⟨after, bind_eq_error.mpr (.inl cut)⟩
  · cases ran : step before with
    | ok result middle =>
      rw [ran] at same holds kept
      rw [bind_of_ok _ ran, bind_of_ok _ same]
      exact (second result).behind holds kept
    | error failure middle =>
      rw [ran] at same holds kept
      have failed : (step >>= next) before = .error failure middle :=
        bind_eq_error.mpr (.inl ran)
      have deeperFailed : (deeper >>= deeperNext) before = .error failure middle :=
        bind_eq_error.mpr (.inl same)
      rw [failed, deeperFailed]
      exact .inr ⟨rfl, holds, kept⟩

/-- A failure that is caught is handed on where the depth is used up. -/
theorem attempt_bind {next deeperNext : Except EvalError α → Machine β}
    (first : Persists waits step deeper)
    (second : ∀ result, Persists waits (next result) (deeperNext result))
    (hands : ∀ memory, Cut (next (.error .exhausted) memory)) :
    Persists waits (Machine.attempt step >>= next) (Machine.attempt deeper >>= deeperNext) := by
  intro before
  rcases first before with ⟨after, cut⟩ | ⟨same, holds, kept⟩
  · rw [bind_of_ok _ (Machine.attempt_of_error cut)]
    exact .inl (hands after)
  · cases ran : step before with
    | ok result middle =>
      rw [ran] at same holds kept
      rw [bind_of_ok _ (Machine.attempt_of_ok ran), bind_of_ok _ (Machine.attempt_of_ok same)]
      exact (second (.ok result)).behind holds kept
    | error failure middle =>
      rw [ran] at same holds kept
      rw [bind_of_ok _ (Machine.attempt_of_error ran), bind_of_ok _ (Machine.attempt_of_error same)]
      exact (second (.error failure)).behind holds kept

theorem of_settled {step : Machine Value} (settled : step.Settled) : Persists waits step step := by
  intro before
  cases settled with
  | ok value known =>
    rw [known]
    exact .inr ⟨rfl, .refl before, id⟩
  | error failure _ known =>
    rw [known]
    exact .inr ⟨rfl, .refl before, id⟩

/-- A step that leaves all arguments alone keeps every property of them. -/
theorem of_untouched (untouched : ∀ stack, Persists (· = stack) step deeper) :
    Persists waits step deeper := by
  intro before
  rcases untouched before.arguments before with cut | ⟨same, holds, kept⟩
  · exact .inl cut
  · exact .inr ⟨same, holds, fun known => (kept rfl).symm ▸ known⟩

/-! ## Steps on memory -/

theorem openFrame (frame : Frame) :
    Persists waits (Machine.openFrame frame) (Machine.openFrame frame) :=
  fun before => .inr ⟨rfl, .openFrame before frame, id⟩

theorem pushArgument {floor : List Value} (value : Value) :
    Persists (floor <:+ ·) (Machine.pushArgument value) (Machine.pushArgument value) :=
  fun _ => .inr ⟨rfl, .of_frames rfl, fun known => known.trans (List.suffix_cons value _)⟩

theorem popArgument? (floor : List Value) :
    Persists (floor <:+ ·) (Machine.popArgument? floor.length)
      (Machine.popArgument? floor.length) := by
  intro before
  refine .inr ⟨rfl, ?_⟩
  by_cases low : before.arguments.length ≤ floor.length
  · rw [Machine.popArgument?_of_le low]
    exact ⟨.refl before, id⟩
  · cases waiting : before.arguments with
    | nil => exact absurd (waiting ▸ Nat.zero_le floor.length) low
    | cons argument rest =>
      rw [Machine.popArgument?_of_lt waiting low]
      refine ⟨.of_frames rfl, fun known => ?_⟩
      rw [waiting] at known low
      rcases List.suffix_cons_iff.mp known with same | below
      · exact absurd (Nat.le_of_eq (congrArg List.length same.symm)) low
      · exact below

end Persists

/-! ## The functions of the evaluator -/

/-- Unless its depth is used up, an evaluator comes out like another one, and it
keeps functions and leaves arguments alone. -/
def Persistent (eval more : Evaluator) : Prop :=
  ∀ expression frame stack, Persists (· = stack) (eval expression frame) (more expression frame)

theorem cut_throw {α : Type} (memory : Memory) : Cut ((throw .exhausted : Machine α) memory) :=
  ⟨memory, rfl⟩

namespace Persistent

variable {eval more : Evaluator} {waits : List Value → Prop} (persistent : Persistent eval more)

include persistent

theorem operand (expression : Expr) (frame : Nat) :
    Persists waits (eval expression frame) (more expression frame) :=
  .of_untouched (persistent expression frame)

/-- A name whose operand is evaluated is no function before or after. -/
theorem resolve (name : String) (frame : Nat) :
    Persists waits (eval.resolve name frame) (more.resolve name frame) := by
  intro before
  rw [Evaluator.resolve, Evaluator.resolve, get_bind, get_bind]
  cases found : before.owner? frame name with
  | none => exact .inr ⟨rfl, .refl before, id⟩
  | some place =>
    rcases place with ⟨owner, slot⟩
    cases slot with
    | ready value => exact .inr ⟨rfl, .refl before, id⟩
    | function lambda => exact .inr ⟨rfl, .refl before, id⟩
    | resolving => exact .inr ⟨rfl, .refl before, id⟩
    | pending operand =>
      have stands := Memory.slot?_of_owner? found
      have inside := Memory.lt_size_of_slot? stands
      have known : (before.slot? owner name).map Slot.function? = some none := by
        rw [stands]
        rfl
      have frozen : before.Holds (before.setSlot owner name .resolving) :=
        (Memory.Holds.refl before).setSlot inside known rfl
      dsimp only
      rw [bind_of_ok _ (Machine.setSlot_eq _ _ _ _), bind_of_ok _ (Machine.setSlot_eq _ _ _ _)]
      rcases persistent.operand operand owner (before.setSlot owner name .resolving) with
        ⟨after, cut⟩ | ⟨same, holds, kept⟩
      · rw [bind_of_ok _ (Machine.attempt_of_error cut)]
        exact .inl (cut_throw _)
      · cases ran : eval operand owner (before.setSlot owner name .resolving) with
        | ok value after =>
          rw [ran] at same holds kept
          rw [bind_of_ok _ (Machine.attempt_of_ok ran), bind_of_ok _ (Machine.attempt_of_ok same)]
          exact .inr ⟨rfl, (frozen.trans holds).setSlot inside known rfl, kept⟩
        | error failure after =>
          rw [ran] at same holds kept
          rw [bind_of_ok _ (Machine.attempt_of_error ran),
            bind_of_ok _ (Machine.attempt_of_error same)]
          exact .inr ⟨rfl, (frozen.trans holds).setSlot inside known rfl, kept⟩

theorem force (name : String) (frame : Nat) :
    Persists waits (eval.force name frame) (more.force name frame) := by
  refine (persistent.resolve name frame).bind fun resolved => ?_
  cases resolved with
  | value value => exact .pure _
  | function lambda frame => exact .pure _

omit persistent in
/-- The next argument is bound in a frame of its own. -/
theorem bindArgument {floor : List Value} {frame : Nat} {parameter : String} {failure : EvalError}
    {next deeperNext : Nat → Machine Value}
    (behind : ∀ inner, Persists (floor <:+ ·) (next inner) (deeperNext inner)) :
    Persists (floor <:+ ·)
      (do
        let some argument ← Machine.popArgument? floor.length | throw failure
        let inner ← Machine.openFrame ⟨[(parameter, .ready argument)], some frame⟩
        next inner : Machine Value)
      (do
        let some argument ← Machine.popArgument? floor.length | throw failure
        let inner ← Machine.openFrame ⟨[(parameter, .ready argument)], some frame⟩
        deeperNext inner : Machine Value) := by
  refine .bind (.popArgument? floor) fun popped => ?_
  cases popped with
  | none => exact .throw failure
  | some argument => exact .bind (.openFrame _) fun inner => behind inner

/-- A call takes nothing from below its base. -/
theorem call (name : String) (floor : List Value) (parameter : String) (body : Expr) (frame : Nat) :
    Persists (floor <:+ ·) (eval.call name floor.length parameter body frame)
      (more.call name floor.length parameter body frame) := by
  fun_induction Evaluator.call eval name floor.length parameter body frame with
  | case1 parameter inner body frame ih => exact bindArgument ih
  | case2 parameter body frame noFunction =>
    have deeper : more.call name floor.length parameter body frame = (do
        let some argument ← Machine.popArgument? floor.length | throw (.missingArgument name)
        let inner ← Machine.openFrame ⟨[(parameter, .ready argument)], some frame⟩
        more body inner) := by
      cases body with
      | function lambda => exact absurd rfl (noFunction lambda.parameter lambda.body)
      | _ => rfl
    rw [deeper]
    exact bindArgument fun inner => persistent.operand body inner

theorem apply (name : String) (definition : Option (Lambda Expr)) (frame : Nat)
    (floor : List Value) :
    Persists (floor <:+ ·) (eval.apply name definition frame floor.length)
      (more.apply name definition frame floor.length) := by
  refine .attempt_bind (persistent.resolve name frame) (fun result => ?_) cut_throw
  cases result with
  | ok resolved =>
    cases resolved with
    | value value => exact .pure value
    | function lambda owner => exact persistent.call name floor _ _ owner
  | error failure =>
    cases failure with
    | unresolvedIdentifier missing =>
      cases definition with
      | none => exact .throw _
      | some lambda => exact persistent.call name floor _ _ frame
    | _ => exact .throw _

theorem operandValue (frame : Nat) (floor : List Value) (operand : Expr) :
    Persists (floor <:+ ·) (eval.operandValue frame floor.length operand)
      (more.operandValue frame floor.length operand) := by
  fun_cases Evaluator.operandValue eval frame floor.length operand with
  | case1 name definition => exact persistent.apply name definition frame floor
  | case2 _ noName =>
    have deeper : more.operandValue frame floor.length operand = more operand frame := by
      cases operand with
      | application name operands definition =>
        cases operands with
        | nil => exact absurd rfl (noName name definition)
        | cons first rest => rfl
      | _ => rfl
    rw [deeper]
    exact persistent.operand operand frame

theorem pushOperands (frame : Nat) (floor : List Value) (operands : List Expr) :
    Persists (floor <:+ ·) (eval.pushOperands frame floor.length operands)
      (more.pushOperands frame floor.length operands) := by
  induction operands with
  | nil => exact .pure ()
  | cons operand rest ih =>
    exact ih.bind fun _ => (persistent.operandValue frame floor operand).bind fun value =>
      .pushArgument value

end Persistent

/-! ## Applications -/

/-- Memory with no more arguments than a height of the stack. -/
def Memory.dropTo (memory : Memory) (base : Nat) : Memory :=
  { memory with arguments := memory.arguments.drop (memory.arguments.length - base) }

namespace Evaluator

/-- Push operands, and let a name take them. -/
def pushAndApply (eval : Evaluator) (name : String) (operands : List Expr)
    (definition : Option (Lambda Expr)) (frame base : Nat) : Machine Value := do
  eval.pushOperands frame base operands
  eval.apply name definition frame base

/-- What an application makes of the end of its call: what is left above the base
is dropped, and nothing may have been left with a value. -/
def conclude (name : String) (base : Nat) :
    EStateM.Result EvalError Memory Value → EStateM.Result EvalError Memory Value
  | .ok value after =>
      if after.arguments.length - base != 0 then .error (.notAFunction name) (after.dropTo base)
      else .ok value (after.dropTo base)
  | .error failure after => .error failure (after.dropTo base)

theorem application_eq (eval : Evaluator) (name : String) (operands : List Expr)
    (definition : Option (Lambda Expr)) (frame : Nat) (before : Memory) :
    eval.application name operands definition frame before =
      conclude name before.arguments.length
        (eval.pushAndApply name operands definition frame before.arguments.length before) := by
  have counted : Machine.waiting before = .ok before.arguments.length before := rfl
  rw [application, bind_of_ok _ counted]
  cases ran : eval.pushAndApply name operands definition frame before.arguments.length before with
  | ok value after =>
    rw [pushAndApply] at ran
    rw [bind_of_ok _ (Machine.attempt_of_ok ran), conclude]
    cases extra : after.arguments.length - before.arguments.length != 0 with
    | true =>
      have dropped : Machine.dropArguments before.arguments.length after =
          .ok true (after.dropTo before.arguments.length) := by
        rw [← extra]
        rfl
      rw [bind_of_ok _ dropped]
      rfl
    | false =>
      have dropped : Machine.dropArguments before.arguments.length after =
          .ok false (after.dropTo before.arguments.length) := by
        rw [← extra]
        rfl
      rw [bind_of_ok _ dropped]
      rfl
  | error failure after =>
    rw [pushAndApply] at ran
    rw [bind_of_ok _ (Machine.attempt_of_error ran)]
    rfl

theorem lastMemory_conclude (name : String) (base : Nat)
    (result : EStateM.Result EvalError Memory Value) :
    lastMemory (conclude name base result) = (lastMemory result).dropTo base := by
  cases result with
  | ok value after =>
    rw [conclude]
    split <;> rfl
  | error failure after => rfl

end Evaluator

namespace Persistent

variable {eval more : Evaluator} {waits : List Value → Prop} (persistent : Persistent eval more)

include persistent

theorem pushAndApply (name : String) (operands : List Expr) (definition : Option (Lambda Expr))
    (frame : Nat) (floor : List Value) :
    Persists (floor <:+ ·) (eval.pushAndApply name operands definition frame floor.length)
      (more.pushAndApply name operands definition frame floor.length) :=
  (persistent.pushOperands frame floor operands).bind fun _ =>
    persistent.apply name definition frame floor

/-- An application drops what it has pushed, however it ends. -/
theorem application (name : String) (operands : List Expr) (definition : Option (Lambda Expr))
    (frame : Nat) :
    Persists waits (eval.application name operands definition frame)
      (more.application name operands definition frame) := by
  refine .of_untouched fun stack before => ?_
  rw [Evaluator.application_eq, Evaluator.application_eq]
  rcases persistent.pushAndApply name operands definition frame before.arguments before with
    ⟨after, cut⟩ | ⟨same, holds, kept⟩
  · rw [cut]
    exact .inl ⟨_, rfl⟩
  · rw [same]
    have left := List.suffix_iff_eq_drop.mp (kept List.suffix_rfl)
    refine .inr ⟨rfl, ?_⟩
    constructor <;> rw [Evaluator.lastMemory_conclude]
    · exact holds.trans (.of_frames rfl)
    · rw [Memory.dropTo, ← left]
      exact id

/-! ## Blocks and expressions -/

theorem gather (frame : Nat) (harvest : Harvest) (expression : Expr) :
    Persists waits (eval.gather frame harvest expression)
      (more.gather frame harvest expression) := by
  fun_cases Evaluator.gather eval frame harvest expression with
  | case1 key operand function =>
    rw [Evaluator.gather, if_pos function]
    exact .pure _
  | case2 key operand noFunction =>
    rw [Evaluator.gather, if_neg noFunction]
    exact (persistent.force key frame).bind fun value => .pure _
  | case3 operand => exact (persistent.operand operand frame).bind fun value => .pure _
  | case4 _ noAssignment noYield =>
    have deeper : more.gather frame harvest expression = (do
        let value ← more expression frame
        return { harvest with trailing := some value }) := by
      cases expression with
      | assignment key operand => exact absurd rfl (noAssignment key operand)
      | yield operand => exact absurd rfl (noYield operand)
      | _ => rfl
    rw [deeper]
    exact (persistent.operand expression frame).bind fun value => .pure _

theorem gatherAll (frame : Nat) (harvest : Harvest) (expressions : List Expr) :
    Persists waits (eval.gatherAll frame harvest expressions)
      (more.gatherAll frame harvest expressions) := by
  induction expressions generalizing harvest with
  | nil => exact .pure harvest
  | cons expression rest ih =>
    exact (persistent.gather frame harvest expression).bind fun harvest => ih harvest

theorem sectionValue (frame : Nat) (part : Section Expr) :
    Persists waits (eval.sectionValue frame part) (more.sectionValue frame part) :=
  (Persists.openFrame _).bind fun inner =>
    (persistent.gatherAll inner .empty part.expressions).bind fun _ => .pure _

theorem sectionValues (frame : Nat) (sections : List (Section Expr)) :
    Persists waits (eval.sectionValues frame sections) (more.sectionValues frame sections) := by
  induction sections with
  | nil => exact .pure []
  | cons part rest ih =>
    exact (persistent.sectionValue frame part).bind fun _ => ih.bind fun _ => .pure _

theorem blockValue (frame : Nat) (sections : List (Section Expr)) :
    Persists waits (eval.blockValue frame sections) (more.blockValue frame sections) := by
  cases sections with
  | nil => exact .pure _
  | cons front rest =>
    cases rest with
    | nil => exact (persistent.sectionValue frame front).bind fun _ => .pure _
    | cons second rest =>
      exact (persistent.sectionValue frame front).bind fun found =>
        (persistent.sectionValues found.2 (second :: rest)).bind fun _ => .pure _

theorem items (frame : Nat) (expressions : List Expr) :
    Persists waits (eval.items frame expressions) (more.items frame expressions) := by
  induction expressions with
  | nil => exact .pure []
  | cons item rest ih =>
    exact (persistent.operand item frame).bind fun _ => ih.bind fun _ => .pure _

theorem step : Persistent eval.step more.step := by
  intro expression frame stack
  cases expression with
  | unit => exact .pure _
  | scalar value => exact .pure _
  | vector items => exact (persistent.items frame items).bind fun _ => .pure _
  | «yield» operand | assignment key operand | «scope» id operand =>
    exact persistent operand frame stack
  | lift operand =>
    refine (persistent operand frame stack).bind fun value => ?_
    cases value <;> exact .pure _
  | block sections => exact persistent.blockValue frame sections
  | merge left right mode =>
    refine (persistent left frame stack).bind fun leftValue => ?_
    refine (persistent right frame stack).bind fun rightValue => ?_
    exact .of_settled (settled_mergeValues _ _ _ _)
  | application name operands definition =>
    exact persistent.application name operands definition frame
  | function lambda =>
    rcases lambda with ⟨parameter, body⟩
    intro before
    have missing (operand : Evaluator) :
        operand.step (.function ⟨parameter, body⟩) frame before =
          .error (.missingArgument parameter) before :=
      Adequate.call_nil parameter parameter body frame rfl
    rw [missing eval, missing more]
    exact .inr ⟨rfl, .refl before, id⟩
  | access target field =>
    exact (persistent target frame stack).bind fun value =>
      .of_settled (settled_fieldOf value field)
  | pipeline left right => exact .throw _
  | patternMatch subject pattern => exact .throw _

end Persistent

/-- More depth changes nothing that is found with less. -/
theorem persistent_evaluate {depth further : Nat} (le : depth ≤ further) :
    Persistent (evaluate depth) (evaluate further) := by
  induction depth generalizing further with
  | zero => exact fun _ _ _ memory => .inl (cut_throw memory)
  | succ depth ih =>
    cases further with
    | zero => omega
    | succ further => exact (ih (Nat.le_of_succ_le_succ le)).step

end Manifest
