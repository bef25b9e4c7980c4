import Manifest.Proofs.Evaluation.Binding

/-!
# Functions and their operands

A function takes as many operands as it has directly nested parameters.  With fewer of them
an application fails, and with more of them it fails behind the body.  The body sees the
arguments and what is seen from the frame that owns the function, and nothing of the place
where the function is applied.
-/

namespace Manifest

variable {before other memory : Memory} {frame owner site index : Nat} {name : String}
  {definition definition' : Option (Lambda Expr)} {lambda : Lambda Expr} {expression : Expr}
  {operands operands' : List Expr} {values : List Value} {outcome : Except EvalError Value}

/-! ## What is seen from a frame -/

/-- The frames that are seen from a frame: itself, and those around it. -/
inductive Memory.Sees (memory : Memory) (frame : Nat) : Nat → Prop
  | here : Sees memory frame frame
  | outward {index parent : Nat} : Sees memory frame index → memory.parent? index = some parent →
      Sees memory frame parent

/-- From a frame, the same is seen in two memories. -/
def Memory.SameView (before other : Memory) (frame : Nat) : Prop :=
  ∀ index, before.Sees frame index → other.frames[index]? = before.frames[index]?

theorem Memory.Rooted.lt_size_of_sees (rooted : memory.Rooted) (inside : frame < memory.frames.size)
    (sees : memory.Sees frame index) : index < memory.frames.size := by
  induction sees with
  | here => exact inside
  | outward _ around ih => exact Nat.lt_trans (rooted _ _ around) ih

namespace Memory.SameView

variable (view : before.SameView other owner)

include view

theorem parent? (sees : before.Sees owner index) : other.parent? index = before.parent? index := by
  rw [Memory.parent?, Memory.parent?, view index sees]

theorem slot? (sees : before.Sees owner index) (name : String) :
    other.slot? index name = before.slot? index name := by
  rw [Memory.slot?, Memory.slot?, view index sees]

theorem scene_eq (sees : before.Sees owner index) : other.scene index = before.scene index := by
  induction index using Nat.strongRecOn with
  | ind index ih =>
    rw [scene, scene, view index sees]
    cases stands : before.frames[index]? with
    | none => rfl
    | some found =>
      dsimp only
      cases around : found.parent with
      | none => rfl
      | some parent =>
        dsimp only
        split
        · rename_i older
          have outward : before.parent? index = some parent := by
            rw [Memory.parent?, stands]
            exact around
          rw [ih parent older (sees.outward outward)]
        · rfl

theorem shows (rooted : before.Rooted) (rooted' : other.Rooted)
    (inside : owner < before.frames.size) :
    (Mirror.same (before.Sees owner) before.scenes other.scenes).Shows before
      (other.withArguments before.arguments) := by
  have follows : Follows other.scenes other other.scenes (other.withArguments before.arguments) :=
    (Follows.refl rooted'.depicts).of_arguments
  refine .of_same rooted.depicts follows.depicts rooted.not_regress
    (rooted'.not_regress_behind follows) rfl (fun index sees => ?_)
    (fun index sees => congrArg Scene.asleep (view.scene_eq sees))
    (fun index sees => view.parent? sees) (fun index parent sees around => sees.outward around)
    fun index sees name => ?_
  · have within := rooted.lt_size_of_sees inside sees
    have stands := (view index sees).trans (Array.getElem?_eq_getElem within)
    exact ⟨within, (Array.getElem?_eq_some_iff.mp stands).1⟩
  · exact Iff.of_eq (congrArg (· = some Slot.resolving) (view.slot? sees name).symm)

/-- Where arguments are bound, an expression has the same outcomes in both memories. -/
theorem evaluatesTo_bindAll (rooted : before.Rooted) (rooted' : other.Rooted)
    (inside : owner < before.frames.size) (bindings : List (String × Value)) :
    EvaluatesTo expression (before.bindAll owner bindings).2 (before.bindAll owner bindings).1
        outcome ↔
      EvaluatesTo expression (other.bindAll owner bindings).2 (other.bindAll owner bindings).1
        outcome := by
  rcases (view.shows rooted rooted' inside).bindAll ⟨rfl, .here⟩ bindings with
    ⟨mirror, shows, pair⟩
  refine (shows.evaluatesTo_iff pair).trans ?_
  rw [Memory.bindAll_withArguments, evaluatesTo_withArguments]

end Memory.SameView

/-! ## Applications -/

/-- Every operand comes to a value. -/
abbrev AllEvaluateTo (operands : List Expr) (frame : Nat) (memory : Memory)
    (values : List Value) : Prop :=
  List.Forall₂ (fun operand value => EvaluatesTo operand frame memory (.ok value)) operands values

theorem Lambda.length_names (lambda : Lambda Expr) : lambda.names.length = lambda.arity := by
  have length (body : Expr) : body.parameterNames.length = body.parameters := by
    induction body using Expr.parameters.induct with
    | case1 parameter body ih => exact congrArg (· + 1) ih
    | case2 body noFunction =>
      rw [(Expr.core_of_noFunction noFunction).2, Expr.parameters_of_noFunction noFunction]
      rfl
  exact congrArg (· + 1) (length lambda.body)

/-- An application of a function comes to a failure, or to what the body comes to. -/
theorem evaluatesTo_application_iff (rooted : before.Rooted)
    (evaluated : AllEvaluateTo operands frame before values)
    (found : before.owner? frame name = some (owner, .function lambda)) :
    EvaluatesTo (.application name operands definition) frame before outcome ↔
      if operands.length < lambda.names.length then outcome = .error (.missingArgument name)
      else ∃ found, EvaluatesTo lambda.core (before.bindAll owner (lambda.names.zip values)).2
          (before.bindAll owner (lambda.names.zip values)).1 found ∧
        outcome = found >>= fun value =>
          if operands.length = lambda.names.length then .ok value
          else .error (.notAFunction name) := by
  rcases rooted.supplied (Memory.lt_size_of_owner? found) evaluated with ⟨later, after, supplied⟩
  rw [evaluated.length_eq, lambda.length_names]
  split
  · rename_i few
    have missing : EvaluatesTo (.application name operands definition) frame before
        (.error (.missingArgument name)) := supplied.evaluatesTo_of_few found few
    constructor
    · exact fun comes => comes.unique missing
    · rintro rfl
      exact missing
  · rename_i enough
    have all : (values.drop lambda.arity).isEmpty ↔ values.length = lambda.arity := by
      rw [List.isEmpty_iff, List.drop_eq_nil_iff]
      omega
    simp only [supplied.evaluatesTo_iff_of_enough rooted found (Nat.le_of_not_lt enough), all]

/-- An application of a function to operands that come to values fails if they are fewer than
its directly nested parameters.  If they are as many, it comes to what the body comes to where
each parameter is bound to its operand, a later one of a name in place of an earlier one.
If they are more, it fails behind the body.  The place where the function is applied has no
part in it.  A name that is a value is the value, and takes no operands. -/
theorem application_by_arity (rooted : before.Rooted)
    (evaluated : AllEvaluateTo operands frame before values) (name : String)
    (definition : Option (Lambda Expr)) :
    let call := Expr.application name operands definition
    (∀ lambda owner, ResolvesTo name frame before (.function lambda owner) →
      let bindings := lambda.names.zip values
      let bound := (before.bindAll owner bindings).1
      let inner := (before.bindAll owner bindings).2
      (operands.length < lambda.names.length →
        EvaluatesTo call frame before (.error (.missingArgument name))) ∧
      (operands.length = lambda.names.length → ∀ outcome,
        EvaluatesTo call frame before outcome ↔ EvaluatesTo lambda.core inner bound outcome) ∧
      (lambda.names.length < operands.length → ∀ outcome,
        EvaluatesTo call frame before outcome ↔ ∃ found, EvaluatesTo lambda.core inner bound found ∧
          outcome = found >>= fun _ => .error (.notAFunction name)) ∧
      before.Extends owner bindings bound inner ∧
      ∀ other site operands' definition', other.Rooted → before.SameView other owner →
        ResolvesTo name site other (.function lambda owner) →
        AllEvaluateTo operands' site other values → ∀ outcome,
          EvaluatesTo (.application name operands' definition') site other outcome ↔
            EvaluatesTo call frame before outcome) ∧
    ∀ value, ResolvesTo name frame before (.value value) →
      EvaluatesTo call frame before
        (if operands.length = 0 then .ok value else .error (.notAFunction name)) := by
  constructor
  · rintro lambda owner ⟨_, _, resolved⟩
    have found := Evaluator.owner?_of_resolve resolved
    have owned := Memory.lt_size_of_slot? (Memory.slot?_of_owner? found)
    have comes {outcome : Except EvalError Value} :=
      @evaluatesTo_application_iff _ _ _ _ definition _ _ _ outcome rooted evaluated found
    refine ⟨fun few => ?_, fun enough outcome => ?_, fun more outcome => ?_,
      Memory.bindAll_extends owned _, ?_⟩
    · rw [comes, if_pos few]
    · rw [comes, if_neg (Nat.not_lt.mpr (Nat.le_of_eq enough.symm))]
      have same (found : Except EvalError Value) : (found >>= fun value => .ok value) = found :=
        bind_pure found
      simp only [if_pos enough, same, exists_eq_right']
    · rw [comes, if_neg (Nat.not_lt.mpr (Nat.le_of_lt more))]
      simp only [if_neg (Nat.ne_of_gt more)]
    · rintro other site operands' definition' rooted' view ⟨_, _, resolved'⟩ evaluated' outcome
      have found' := Evaluator.owner?_of_resolve resolved'
      rw [comes, evaluatesTo_application_iff rooted' evaluated' found', evaluated'.length_eq,
        evaluated.length_eq]
      simp only [view.evaluatesTo_bindAll rooted rooted' owned]
  · intro value resolves
    rcases rooted.supplied resolves.inside evaluated with ⟨later, after, supplied⟩
    have comes : EvaluatesTo (.application name operands definition) frame before
        (if values.isEmpty then .ok value else .error (.notAFunction name)) :=
      supplied.evaluatesTo_of_value rooted resolves
    rw [evaluated.length_eq]
    cases values <;> exact comes

/-- A function of two parameters of one name, applied to one, two and three operands in a
place where the name stands for something else, and a value applied to none and to one. -/
theorem application_of_two_parameters : ∃ memory : Memory, memory.Rooted ∧
    memory.owner? 1 "f" = some (0, .function ⟨"x", .function ⟨"x", .application "x" [] none⟩⟩) ∧
    memory.owner? 1 "x" = some (1, .ready .unit) ∧
    AllEvaluateTo [.scalar (.boolean true), .scalar (.boolean false)] 1 memory
      [.boolean true, .boolean false] ∧
    EvaluatesTo (.application "f" [.scalar (.boolean true)] none) 1 memory
      (.error (.missingArgument "f")) ∧
    EvaluatesTo (.application "f" [.scalar (.boolean true), .scalar (.boolean false)] none) 1
      memory (.ok (.boolean false)) ∧
    EvaluatesTo (.application "f"
        [.scalar (.boolean true), .scalar (.boolean false), .scalar .unit] none) 1 memory
      (.error (.notAFunction "f")) ∧
    EvaluatesTo (.application "x" [] none) 1 memory (.ok .unit) ∧
    EvaluatesTo (.application "x" [.scalar .unit] none) 1 memory
      (.error (.notAFunction "x")) := by
  let lambda : Lambda Expr := ⟨"x", .function ⟨"x", .application "x" [] none⟩⟩
  let memory : Memory := ⟨#[⟨[("f", .function lambda)], none⟩, ⟨[("x", .ready .unit)], some 0⟩], []⟩
  have rooted : memory.Rooted := by
    intro frame parent around
    match frame with
    | 0 => cases around
    | 1 =>
      cases around
      exact Nat.one_pos
    | frame + 2 => cases around
  have function : memory.owner? 1 "f" = some (0, .function lambda) :=
    (Memory.owner?_outward rfl rfl Nat.one_pos).trans (Memory.owner?_here rfl)
  have held : memory.owner? 1 "x" = some (1, .ready .unit) := Memory.owner?_here rfl
  have resolves : ResolvesTo "f" 1 memory (.function lambda 0) :=
    ⟨0, memory, Evaluator.resolve_of_function function⟩
  have valued : ResolvesTo "x" 1 memory (.value .unit) := by
    refine ⟨0, memory, ?_⟩
    rw [Evaluator.resolve, Stepwise.get_bind, held]
    rfl
  have scalar (value : Value) : EvaluatesTo (.scalar value) 1 memory (.ok value) :=
    ⟨by rintro ⟨⟩, 1, rfl⟩
  have one : AllEvaluateTo [.scalar (.boolean true)] 1 memory [.boolean true] :=
    .cons (scalar _) .nil
  have two : AllEvaluateTo [.scalar (.boolean true), .scalar (.boolean false)] 1 memory
      [.boolean true, .boolean false] := .cons (scalar _) (.cons (scalar _) .nil)
  have three : AllEvaluateTo [.scalar (.boolean true), .scalar (.boolean false), .scalar .unit] 1
      memory [.boolean true, .boolean false, .unit] :=
    .cons (scalar _) (.cons (scalar _) (.cons (scalar _) .nil))
  have body : EvaluatesTo (.application "x" [] none) 3
      (memory.bindAll 0 [("x", .boolean true), ("x", .boolean false)]).1
      (.ok (.boolean false)) := by
    have ran : (evaluate 2 (.application "x" [] none) 3).run'
        (memory.bindAll 0 [("x", .boolean true), ("x", .boolean false)]).1 =
        some (.boolean false) := by
      decide +kernel
    rcases comesTo_of_run' ran with ⟨after, comes⟩
    exact comes.evaluatesTo
  have few := (application_by_arity rooted one "f" none).1 lambda 0 resolves
  have enough := (application_by_arity rooted two "f" none).1 lambda 0 resolves
  have more := (application_by_arity rooted three "f" none).1 lambda 0 resolves
  exact ⟨memory, rooted, function, held, two, few.1 (by decide),
    (enough.2.1 rfl _).mpr body, (more.2.2.1 (by decide) _).mpr ⟨_, body, rfl⟩,
    (application_by_arity rooted .nil "x" none).2 _ valued,
    (application_by_arity rooted (.cons (scalar .unit) .nil) "x" none).2 _ valued⟩

end Manifest
