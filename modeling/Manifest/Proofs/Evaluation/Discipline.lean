import Manifest.Proofs.Evaluation.Arity

/-!
# What an evaluation leaves behind

An evaluation marks names as under way, opens frames and pushes arguments.  However it
ends, and be it cut off at its depth, every name is as it was before or has been
evaluated, and what was pushed is gone.

The arguments that wait before are never looked at.  So a step is the same, to the last
slot, when there are further arguments below them.  A step that knows how many arguments
wait below its own is told of the further ones.
-/

namespace Manifest

open Stepwise

/-! ## What becomes of names -/

/-- A name stays as it is, or it was pending and has a value. -/
inductive Slot.Becomes : Option Slot → Option Slot → Prop
  | same (slot : Option Slot) : Becomes slot slot
  | ready (operand : Expr) (value : Value) : Becomes (some (.pending operand)) (some (.ready value))

namespace Memory

variable {before middle after : Memory} {frame owner : Nat} {name : String} {slot : Slot}
  {operand : Expr}

/-- Frames may be opened and names may be evaluated, and nothing else changes about
the frames that are there.  No name is under way that was not so before. -/
structure Advances (before after : Memory) : Prop where
  size_le : before.frames.size ≤ after.frames.size
  parent : ∀ index < before.frames.size, after.parent? index = before.parent? index
  slot : ∀ index < before.frames.size, ∀ name,
    Slot.Becomes (before.slot? index name) (after.slot? index name)
  resolving : ∀ index name, after.slot? index name = some .resolving →
    before.slot? index name = some .resolving

namespace Advances

theorem refl (memory : Memory) : memory.Advances memory :=
  ⟨Nat.le_refl _, fun _ _ => rfl, fun _ _ _ => .same _, fun _ _ => id⟩

theorem trans (first : before.Advances middle) (second : middle.Advances after) :
    before.Advances after where
  size_le := Nat.le_trans first.size_le second.size_le
  parent index inside :=
    (second.parent index (Nat.lt_of_lt_of_le inside first.size_le)).trans
      (first.parent index inside)
  slot index inside name := by
    have earlier := first.slot index inside name
    have later := second.slot index (Nat.lt_of_lt_of_le inside first.size_le) name
    generalize before.slot? index name = start at earlier
    generalize middle.slot? index name = between at earlier later
    generalize after.slot? index name = finish at later
    cases earlier with
    | same => exact later
    | ready operand value =>
      cases later
      exact .ready operand value
  resolving index name := first.resolving index name ∘ second.resolving index name

/-- Arguments are no part of a frame. -/
theorem of_frames (same : after.frames = before.frames) : before.Advances after where
  size_le := Nat.le_of_eq (congrArg Array.size same.symm)
  parent index _ := by rw [parent?, parent?, same]
  slot index _ name := by
    rw [slot?, slot?, same]
    exact .same _
  resolving index name under := by
    rw [slot?, same] at under
    exact under

theorem openFrame (memory : Memory) {names : Layer} (parent : Option Nat)
    (fresh : ∀ name, names.get? name ≠ some .resolving) :
    memory.Advances (memory.openFrame ⟨names, parent⟩) where
  size_le := by
    rw [size_openFrame]
    exact Nat.le_succ _
  parent index inside := parent?_openFrame_of_lt inside
  slot index inside name := by
    rw [slot?_openFrame_of_lt inside]
    exact .same _
  resolving index name under := by
    rcases Nat.lt_trichotomy index memory.frames.size with old | rfl | outside
    · rwa [slot?_openFrame_of_lt old] at under
    · rw [slot?_openFrame_self] at under
      exact absurd under (fresh name)
    · rw [slot?_eq_none (by rw [size_openFrame]; omega)] at under
      cases under

/-- A pending name is under way while its operand is evaluated.  Behind that it is
pending again or has a value. -/
theorem thaw (stands : before.slot? owner name = some (.pending operand))
    (becomes : Slot.Becomes (some (.pending operand)) (some slot))
    (advances : (before.setSlot owner name .resolving).Advances middle) :
    before.Advances (middle.setSlot owner name slot) where
  size_le := by
    have size := advances.size_le
    rwa [size_setSlot] at size ⊢
  parent index inside := by
    have kept := advances.parent index (by rwa [size_setSlot])
    rw [parent?_setSlot] at kept ⊢
    exact kept
  slot index inside wanted := by
    have size := advances.size_le
    rw [size_setSlot] at size
    by_cases here : index = owner ∧ wanted = name
    · rcases here with ⟨rfl, rfl⟩
      rw [stands, slot?_setSlot_self (Nat.lt_of_lt_of_le inside size)]
      exact becomes
    · have kept := advances.slot index (by rwa [size_setSlot]) wanted
      rw [slot?_setSlot_of_ne here] at kept ⊢
      exact kept
  resolving index wanted under := by
    have size := advances.size_le
    rw [size_setSlot] at size
    by_cases here : index = owner ∧ wanted = name
    · rcases here with ⟨rfl, rfl⟩
      rw [slot?_setSlot_self (Nat.lt_of_lt_of_le (lt_size_of_slot? stands) size)] at under
      cases under
      cases becomes
    · rw [slot?_setSlot_of_ne here] at under
      have earlier := advances.resolving index wanted under
      rwa [slot?_setSlot_of_ne here] at earlier

/-- What was under way before is under way still, and nothing else is. -/
theorem resolving_iff (advances : before.Advances after) (inside : frame < before.frames.size) :
    after.slot? frame name = some .resolving ↔ before.slot? frame name = some .resolving := by
  have becomes := advances.slot frame inside name
  generalize before.slot? frame name = start at becomes ⊢
  generalize after.slot? frame name = finish at becomes ⊢
  cases becomes with
  | same => exact .rfl
  | ready => exact iff_of_false (fun same => nomatch same) fun same => nomatch same

end Advances

/-! ## Further arguments -/

/-- Memory with further arguments below those that wait. -/
def onto (memory : Memory) (floor : List Value) : Memory :=
  { memory with arguments := memory.arguments ++ floor }

theorem length_onto (memory : Memory) (floor : List Value) :
    (memory.onto floor).arguments.length = memory.arguments.length + floor.length :=
  List.length_append

theorem owner?_of_frames (same : after.frames = before.frames) (frame : Nat) (name : String) :
    after.owner? frame name = before.owner? frame name :=
  owner?_congr (fun index _ => by rw [slot?, slot?, same]) fun index _ => by
    rw [parent?, parent?, same]

theorem dropTo_onto (memory : Memory) (base : Nat) (floor : List Value) :
    (memory.onto floor).dropTo (base + floor.length) = (memory.dropTo base).onto floor := by
  have extra : memory.arguments.length + floor.length - (base + floor.length) =
      memory.arguments.length - base := Nat.add_sub_add_right _ _ _
  have le : memory.arguments.length - base ≤ memory.arguments.length := Nat.sub_le _ _
  rw [dropTo, length_onto, extra, onto, onto, dropTo]
  dsimp only
  rw [List.drop_append_of_le_length le]

end Memory

/-- The end of a run with further arguments below those that wait. -/
def Machine.End.onto {α : Type} (floor : List Value) : Machine.End α → Machine.End α
  | .ok result after => .ok result (after.onto floor)
  | .error failure after => .error failure (after.onto floor)

theorem lastMemory_onto {α : Type} (floor : List Value) (result : Machine.End α) :
    lastMemory (Machine.End.onto floor result) = (lastMemory result).onto floor := by
  cases result <;> rfl

/-! ## Steps that keep order -/

/-- What a run leaves in order: the names, and a property of the arguments. -/
structure Tidy (waits : List Value → Prop) (before after : Memory) : Prop where
  advances : before.Advances after
  waits : waits before.arguments → waits after.arguments

/-- However it ends, a step leaves everything in order, and it is the same with further
arguments below.  It may be told how many arguments wait below its own. -/
def Orderly {α : Type} (waits : List Value → Prop) (step : Nat → Machine α) : Prop :=
  ∀ base before, (∀ floor, step (base + floor.length) (before.onto floor) =
      Machine.End.onto floor (step base before)) ∧
    Tidy waits before (lastMemory (step base before))

namespace Orderly

variable {α β : Type} {waits : List Value → Prop} {step : Nat → Machine α}
  {next : Nat → α → Machine β} {before middle : Memory}

theorem pure (result : α) : Orderly waits fun _ => (Pure.pure result : Machine α) :=
  fun _ before => ⟨fun _ => rfl, .refl before, id⟩

theorem throw (failure : EvalError) :
    Orderly waits fun _ => (MonadExcept.throw failure : Machine α) :=
  fun _ before => ⟨fun _ => rfl, .refl before, id⟩

theorem tidy_trans {after : Memory} (first : Tidy waits before middle)
    (second : Tidy waits middle after) : Tidy waits before after :=
  ⟨first.advances.trans second.advances, second.waits ∘ first.waits⟩

theorem bind (first : Orderly waits step) (second : ∀ result, Orderly waits (next · result)) :
    Orderly waits fun base => step base >>= next base := by
  intro base before
  rcases first base before with ⟨same, tidy⟩
  dsimp only
  cases ran : step base before with
  | ok result middle =>
    rw [ran] at same tidy
    rcases second result base middle with ⟨further, behind⟩
    rw [bind_of_ok _ ran]
    exact ⟨fun floor => (bind_of_ok _ (same floor)).trans (further floor),
      tidy_trans tidy behind⟩
  | error failure middle =>
    rw [ran] at same tidy
    rw [bind_of_error _ ran]
    exact ⟨fun floor => bind_of_error _ (same floor), tidy⟩

theorem attempt_bind {next : Nat → Except EvalError α → Machine β} (first : Orderly waits step)
    (second : ∀ result, Orderly waits (next · result)) :
    Orderly waits fun base => Machine.attempt (step base) >>= next base := by
  intro base before
  rcases first base before with ⟨same, tidy⟩
  dsimp only
  cases ran : step base before with
  | ok result middle =>
    rw [ran] at same tidy
    rcases second (.ok result) base middle with ⟨further, behind⟩
    rw [bind_of_ok _ (Machine.attempt_of_ok ran)]
    exact ⟨fun floor => (bind_of_ok _ (Machine.attempt_of_ok (same floor))).trans (further floor),
      tidy_trans tidy behind⟩
  | error failure middle =>
    rw [ran] at same tidy
    rcases second (.error failure) base middle with ⟨further, behind⟩
    rw [bind_of_ok _ (Machine.attempt_of_error ran)]
    exact ⟨fun floor =>
      (bind_of_ok _ (Machine.attempt_of_error (same floor))).trans (further floor),
      tidy_trans tidy behind⟩

theorem of_settled {step : Machine Value} (settled : step.Settled) :
    Orderly waits fun _ => step := by
  intro base before
  dsimp only
  cases settled with
  | ok value known =>
    rw [known]
    exact ⟨fun floor => known _, .refl before, id⟩
  | error failure _ known =>
    rw [known]
    exact ⟨fun floor => known _, .refl before, id⟩

/-- A step that leaves all arguments alone keeps every property of them. -/
theorem of_untouched (untouched : ∀ stack, Orderly (· = stack) step) : Orderly waits step := by
  intro base before
  rcases untouched before.arguments base before with ⟨same, tidy⟩
  exact ⟨same, tidy.advances, fun known => (tidy.waits rfl).symm ▸ known⟩

/-! ## Steps on memory -/

theorem openFrame {names : Layer} (parent : Option Nat)
    (fresh : ∀ name, names.get? name ≠ some .resolving) :
    Orderly waits fun _ => Machine.openFrame ⟨names, parent⟩ :=
  fun _ before => ⟨fun _ => rfl, .openFrame before parent fresh, id⟩

theorem pushArgument (value : Value) :
    Orderly (fun _ => True) fun _ => Machine.pushArgument value :=
  fun _ _ => ⟨fun _ => rfl, .of_frames rfl, id⟩

theorem popArgument? : Orderly (fun _ => True) Machine.popArgument? := by
  intro base before
  by_cases low : before.arguments.length ≤ base
  · have further (floor : List Value) :
        (before.onto floor).arguments.length ≤ base + floor.length := by
      rw [Memory.length_onto]
      exact Nat.add_le_add_right low _
    rw [Machine.popArgument?_of_le low]
    exact ⟨fun floor => Machine.popArgument?_of_le (further floor), .refl before, id⟩
  · cases waiting : before.arguments with
    | nil => exact absurd (waiting ▸ Nat.zero_le base) low
    | cons argument rest =>
      have further (floor : List Value) :
          ¬ (before.onto floor).arguments.length ≤ base + floor.length := by
        rw [Memory.length_onto]
        omega
      have above (floor : List Value) :
          (before.onto floor).arguments = argument :: (rest ++ floor) := by
        rw [Memory.onto, waiting, List.cons_append]
      rw [Machine.popArgument?_of_lt waiting low]
      exact ⟨fun floor => Machine.popArgument?_of_lt (above floor) (further floor),
        .of_frames rfl, id⟩

end Orderly

/-! ## The functions of the evaluator -/

/-- An evaluator of operands leaves everything in order, and the arguments alone. -/
def Evaluator.Orderly (eval : Evaluator) : Prop :=
  ∀ expression frame stack, Manifest.Orderly (· = stack) fun _ => eval expression frame

namespace Evaluator.Orderly

variable {eval : Evaluator} {waits : List Value → Prop} (orderly : eval.Orderly)

include orderly

theorem operand (expression : Expr) (frame : Nat) :
    Manifest.Orderly waits fun _ => eval expression frame :=
  .of_untouched (orderly expression frame)

/-- A name that waits is evaluated in the frame that owns it, and ready or pending
again behind that. -/
theorem resolve (name : String) (frame : Nat) :
    Manifest.Orderly waits fun _ => eval.resolve name frame := by
  intro base before
  have sight (floor : List Value) :
      (before.onto floor).owner? frame name = before.owner? frame name :=
    @Memory.owner?_of_frames before (before.onto floor) rfl frame name
  dsimp only
  cases found : before.owner? frame name with
  | none =>
    simp only [Evaluator.resolve, get_bind, sight, found]
    exact ⟨fun _ => rfl, .refl before, id⟩
  | some place =>
    rcases place with ⟨owner, slot⟩
    cases slot with
    | pending operand =>
      have stands := Memory.slot?_of_owner? found
      have within : Manifest.Orderly waits fun _ => eval operand owner :=
        orderly.operand operand owner
      rcases within base (before.setSlot owner name .resolving) with ⟨same, tidy⟩
      dsimp only at same tidy
      rw [Evaluator.resolve_of_pending found]
      refine ⟨fun floor => ?_, ?_⟩
      · rw [Evaluator.resolve_of_pending ((sight floor).trans found)]
        refine (congrArg (Evaluator.settleName owner name operand) (same floor)).trans ?_
        cases eval operand owner (before.setSlot owner name .resolving) <;> rfl
      · cases ran : eval operand owner (before.setSlot owner name .resolving) with
        | ok value middle =>
          rw [ran] at tidy
          exact ⟨tidy.advances.thaw stands (.ready operand value), tidy.waits⟩
        | error failure middle =>
          rw [ran] at tidy
          exact ⟨tidy.advances.thaw stands (.same _), tidy.waits⟩
    | _ =>
      simp only [Evaluator.resolve, get_bind, sight, found]
      exact ⟨fun _ => rfl, .refl before, id⟩

theorem force (name : String) (frame : Nat) :
    Manifest.Orderly waits fun _ => eval.force name frame := by
  refine .bind (orderly.resolve name frame) fun resolved => ?_
  cases resolved with
  | value value => exact .pure _
  | function lambda frame => exact .pure _

omit orderly in
/-- The next argument is bound in a frame of its own. -/
theorem bindArgument {frame : Nat} {parameter : String} {failure : EvalError}
    {next : Nat → Nat → Machine Value}
    (behind : ∀ inner, Manifest.Orderly (fun _ => True) (next · inner)) :
    Manifest.Orderly (fun _ => True) fun base => (do
      let some argument ← Machine.popArgument? base | throw failure
      let inner ← Machine.openFrame ⟨[(parameter, .ready argument)], some frame⟩
      next base inner : Machine Value) := by
  refine .bind .popArgument? fun popped => ?_
  cases popped with
  | none => exact .throw failure
  | some argument => exact .bind (.openFrame _ (Layer.get?_ofArgument_ne parameter argument)) behind

theorem call (name : String) (parameter : String) (body : Expr) (frame : Nat) :
    Manifest.Orderly (fun _ => True) fun base => eval.call name base parameter body frame := by
  induction parameter, body, frame using Evaluator.call.induct with
  | case1 parameter inner body frame ih => exact bindArgument ih
  | case2 parameter body frame noFunction =>
    simp only [Evaluator.call]
    exact bindArgument fun inner => orderly.operand body inner

theorem apply (name : String) (definition : Option (Lambda Expr)) (frame : Nat) :
    Manifest.Orderly (fun _ => True) fun base => eval.apply name definition frame base := by
  refine .attempt_bind (orderly.resolve name frame) fun result => ?_
  cases result with
  | ok resolved =>
    cases resolved with
    | value value => exact .pure value
    | function lambda owner => exact orderly.call name _ _ owner
  | error failure =>
    cases failure with
    | unresolvedIdentifier missing =>
      cases definition with
      | none => exact .throw _
      | some lambda => exact orderly.call name _ _ frame
    | _ => exact .throw _

theorem operandValue (frame : Nat) (operand : Expr) :
    Manifest.Orderly (fun _ => True) fun base => eval.operandValue frame base operand := by
  cases operand with
  | application name operands definition =>
    cases operands with
    | nil => exact orderly.apply name definition frame
    | cons first rest => exact orderly.operand _ frame
  | _ => exact orderly.operand _ frame

theorem pushOperands (frame : Nat) (operands : List Expr) :
    Manifest.Orderly (fun _ => True) fun base => eval.pushOperands frame base operands := by
  induction operands with
  | nil => exact .pure ()
  | cons operand rest ih =>
    exact ih.bind fun _ => (orderly.operandValue frame operand).bind fun value =>
      .pushArgument value

theorem pushAndApply (name : String) (operands : List Expr) (definition : Option (Lambda Expr))
    (frame : Nat) :
    Manifest.Orderly (fun _ => True) fun base =>
      eval.pushAndApply name operands definition frame base :=
  (orderly.pushOperands frame operands).bind fun _ => orderly.apply name definition frame

omit orderly in
theorem conclude_onto (name : String) (base : Nat) (floor : List Value)
    (result : Machine.End Value) :
    conclude name (base + floor.length) (Machine.End.onto floor result) =
      Machine.End.onto floor (conclude name base result) := by
  cases result with
  | ok value after =>
    have extra : (after.onto floor).arguments.length - (base + floor.length) =
        after.arguments.length - base := by
      rw [Memory.length_onto]
      exact Nat.add_sub_add_right _ _ _
    rw [Machine.End.onto, conclude, conclude, extra, Memory.dropTo_onto]
    split <;> rfl
  | error failure after =>
    exact congrArg (EStateM.Result.error failure) (after.dropTo_onto base floor)

/-- The call of an application is the same as above no arguments at all.  So what it leaves
is what was pushed for it, and that is dropped. -/
theorem arguments_application (name : String) (operands : List Expr)
    (definition : Option (Lambda Expr)) (frame : Nat) (before : Memory) :
    (lastMemory (eval.application name operands definition frame before)).arguments =
      before.arguments := by
  have above : eval.pushAndApply name operands definition frame before.arguments.length before =
      Machine.End.onto before.arguments
        (eval.pushAndApply name operands definition frame 0 ⟨before.frames, []⟩) := by
    have called := (orderly.pushAndApply name operands definition frame 0 ⟨before.frames, []⟩).1
      before.arguments
    rwa [Nat.zero_add] at called
  rw [application_eq, lastMemory_conclude, Memory.dropTo, above, lastMemory_onto, Memory.onto]
  dsimp only
  rw [List.length_append, Nat.add_sub_cancel, List.drop_left]

theorem application (name : String) (operands : List Expr) (definition : Option (Lambda Expr))
    (frame : Nat) :
    Manifest.Orderly waits fun _ => eval.application name operands definition frame := by
  intro base before
  rcases orderly.pushAndApply name operands definition frame before.arguments.length before with
    ⟨same, tidy⟩
  dsimp only at same tidy ⊢
  refine ⟨fun floor => ?_, ?_, fun known => ?_⟩
  · rw [application_eq, application_eq, Memory.length_onto, same floor, conclude_onto]
  · rw [application_eq, lastMemory_conclude]
    exact tidy.advances.trans (.of_frames rfl)
  · rw [orderly.arguments_application]
    exact known

/-! ## Blocks and expressions -/

theorem gather (frame : Nat) (harvest : Harvest) (expression : Expr) :
    Manifest.Orderly waits fun _ => eval.gather frame harvest expression := by
  cases expression with
  | assignment key operand =>
    simp only [Evaluator.gather]
    split
    · exact .pure _
    · exact (orderly.force key frame).bind fun value => .pure _
  | _ => exact (orderly.operand _ frame).bind fun value => .pure _

theorem gatherAll (frame : Nat) (harvest : Harvest) (expressions : List Expr) :
    Manifest.Orderly waits fun _ => eval.gatherAll frame harvest expressions := by
  induction expressions generalizing harvest with
  | nil => exact .pure harvest
  | cons expression rest ih =>
    exact (orderly.gather frame harvest expression).bind fun harvest => ih harvest

theorem sectionValue (frame : Nat) (part : Section Expr) :
    Manifest.Orderly waits fun _ => eval.sectionValue frame part := by
  rw [Evaluator.sectionValue, Evaluator.slots_eq]
  refine (Orderly.openFrame _ (Layer.get?_ofSection_ne part.expressions)).bind fun inner => ?_
  exact (orderly.gatherAll inner .empty part.expressions).bind fun _ => .pure _

theorem sectionValues (frame : Nat) (sections : List (Section Expr)) :
    Manifest.Orderly waits fun _ => eval.sectionValues frame sections := by
  induction sections with
  | nil => exact .pure []
  | cons part rest ih =>
    exact (orderly.sectionValue frame part).bind fun _ => ih.bind fun _ => .pure _

theorem blockValue (frame : Nat) (sections : List (Section Expr)) :
    Manifest.Orderly waits fun _ => eval.blockValue frame sections := by
  cases sections with
  | nil => exact .pure _
  | cons front rest =>
    cases rest with
    | nil => exact (orderly.sectionValue frame front).bind fun _ => .pure _
    | cons second rest =>
      exact (orderly.sectionValue frame front).bind fun found =>
        (orderly.sectionValues found.2 (second :: rest)).bind fun _ => .pure _

theorem items (frame : Nat) (expressions : List Expr) :
    Manifest.Orderly waits fun _ => eval.items frame expressions := by
  induction expressions with
  | nil => exact .pure []
  | cons item rest ih =>
    exact (orderly.operand item frame).bind fun _ => ih.bind fun _ => .pure _

theorem step : Evaluator.Orderly eval.step := by
  intro expression frame stack
  cases expression with
  | unit => exact .pure _
  | scalar value => exact .pure _
  | vector items => exact (orderly.items frame items).bind fun _ => .pure _
  | «yield» operand | assignment key operand | «scope» id operand =>
    exact orderly operand frame stack
  | lift operand =>
    refine (orderly operand frame stack).bind fun value => ?_
    cases value <;> exact .pure _
  | block sections => exact orderly.blockValue frame sections
  | merge left right mode =>
    refine (orderly left frame stack).bind fun leftValue => ?_
    refine (orderly right frame stack).bind fun rightValue => ?_
    exact .of_settled (settled_mergeValues _ _ _ _)
  | application name operands definition =>
    exact orderly.application name operands definition frame
  | function lambda =>
    intro base before
    have missing (memory : Memory) : eval.step (.function lambda) frame memory =
        .error (.missingArgument lambda.parameter) memory :=
      Adequate.call_nil lambda.parameter lambda.parameter lambda.body frame rfl
    dsimp only
    rw [missing]
    exact ⟨fun floor => missing _, .refl before, id⟩
  | access target field =>
    exact (orderly target frame stack).bind fun value => .of_settled (settled_fieldOf value field)
  | pipeline left right => exact .throw _
  | patternMatch subject pattern => exact .throw _

end Evaluator.Orderly

theorem orderly_evaluate (depth : Nat) : (evaluate depth).Orderly := by
  induction depth with
  | zero => exact fun _ _ _ => .throw _
  | succ depth ih => exact ih.step

end Manifest
