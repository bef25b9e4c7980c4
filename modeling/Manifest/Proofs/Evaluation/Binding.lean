import Mathlib.Data.List.Forall2
import Manifest.Proofs.Discipline
import Manifest.Proofs.Evaluation.Mirrored

/-!
# Arguments that are bound

A function of several parameters binds its arguments one after the other, each in a frame
inside the one before.  The operands of an application are evaluated before that, the last
one first, and what is seen from the frames that are there stays the same meanwhile.  So
the body comes to what it comes to where the arguments are bound right away.
-/

namespace Manifest

open Stepwise

variable {eval : Evaluator} {before after memory one two : Memory} {frame owner depth base : Nat}
  {name : String} {definition : Option (Lambda Expr)} {lambda : Lambda Expr} {operand body : Expr}
  {operands : List Expr} {value : Value} {values floor : List Value} {scene : Scene}
  {outcome : Except EvalError Value}

/-! ## Functions of several parameters -/

/-- The parameters that follow at the beginning of a body. -/
def Expr.parameterNames : Expr → List String
  | .function ⟨parameter, body⟩ => parameter :: body.parameterNames
  | _ => []

/-- What follows behind the parameters at the beginning of a body. -/
def Expr.core : Expr → Expr
  | .function ⟨_, body⟩ => body.core
  | body => body

namespace Lambda

/-- The directly nested parameters of a function. -/
def names (lambda : Lambda Expr) : List String := lambda.parameter :: lambda.body.parameterNames

/-- What a function does when it has all its arguments. -/
def core (lambda : Lambda Expr) : Expr := lambda.body.core

end Lambda

theorem Expr.core_of_noFunction
    (noFunction : ∀ parameter inner, body = .function ⟨parameter, inner⟩ → False) :
    body.core = body ∧ body.parameterNames = [] := by
  cases body with
  | function lambda => exact absurd rfl (noFunction lambda.parameter lambda.body)
  | _ => exact ⟨rfl, rfl⟩

/-! ## Memory with arguments bound -/

namespace Memory

/-- Memory with a frame for every argument, each inside the one before, and the innermost
of these frames. -/
def bindAll (memory : Memory) (frame : Nat) : List (String × Value) → Memory × Nat
  | [] => (memory, frame)
  | (parameter, argument) :: rest =>
      (memory.openFrame ⟨Layer.ofArgument parameter argument, some frame⟩).bindAll
        memory.frames.size rest

/-- From an inner frame a name is seen with the last value that is bound to it, and any
other name as it was seen from an outer frame. -/
def Extends (before : Memory) (outer : Nat) (bindings : List (String × Value)) (after : Memory)
    (inner : Nat) : Prop :=
  ∀ name, match bindings.reverse.find? fun binding => binding.1 == name with
    | some binding => ∃ place, after.owner? inner name = some (place, .ready binding.2)
    | none => after.owner? inner name = before.owner? outer name

theorem owner?_openFrame_of_lt {opened : Frame} (inside : frame < memory.frames.size)
    (name : String) : (memory.openFrame opened).owner? frame name = memory.owner? frame name :=
  owner?_congr (fun _ le => slot?_openFrame_of_lt (Nat.lt_of_le_of_lt le inside) name)
    fun _ le => parent?_openFrame_of_lt (Nat.lt_of_le_of_lt le inside)

/-- What is seen from a frame that has just been opened. -/
theorem owner?_openFrame_self {names : Layer} (inside : frame < memory.frames.size)
    (name : String) :
    (memory.openFrame ⟨names, some frame⟩).owner? memory.frames.size name =
      match names.get? name with
      | some slot => some (memory.frames.size, slot)
      | none => memory.owner? frame name := by
  rw [owner?_eq, slot?_openFrame_self, parent?_openFrame_self]
  cases names.get? name with
  | some slot => rfl
  | none => exact (if_pos inside).trans (owner?_openFrame_of_lt inside name)

/-- A later binding of a name is seen in place of an earlier one. -/
theorem bindAll_extends (inside : frame < memory.frames.size)
    (bindings : List (String × Value)) :
    memory.Extends frame bindings (memory.bindAll frame bindings).1
      (memory.bindAll frame bindings).2 := by
  induction bindings generalizing memory frame with
  | nil => exact fun name => rfl
  | cons binding rest ih =>
    rcases binding with ⟨parameter, argument⟩
    have within : memory.frames.size <
        (memory.openFrame ⟨Layer.ofArgument parameter argument, some frame⟩).frames.size :=
      Nat.lt_of_lt_of_eq (Nat.lt_succ_self _) size_openFrame.symm
    intro name
    have inner := ih within name
    rw [List.reverse_cons, List.find?_append, bindAll]
    cases later : rest.reverse.find? fun binding => binding.1 == name with
    | some binding =>
      rw [later] at inner
      exact inner
    | none =>
      rw [later] at inner
      dsimp only at inner
      rw [owner?_openFrame_self inside, Layer.get?_ofArgument] at inner
      rw [Option.none_or, List.find?_singleton]
      by_cases same : parameter = name
      · rw [if_pos same] at inner
        rw [if_pos (beq_iff_eq.mpr same)]
        exact ⟨_, inner⟩
      · rw [if_neg same] at inner
        rw [if_neg (mt beq_iff_eq.mp same)]
        exact inner

/-- Arguments that wait have no part in what is bound. -/
theorem bindAll_withArguments (memory : Memory) (stack : List Value) (frame : Nat)
    (bindings : List (String × Value)) :
    (memory.withArguments stack).bindAll frame bindings =
      ((memory.bindAll frame bindings).1.withArguments stack,
        (memory.bindAll frame bindings).2) := by
  induction bindings generalizing memory frame with
  | nil => rfl
  | cons binding rest ih =>
    exact ih (memory.openFrame ⟨Layer.ofArgument binding.1 binding.2, some frame⟩)
      memory.frames.size

end Memory

/-- Frames of the same arguments are opened inside frames that correspond. -/
theorem Mirror.Shows.bindAll {mirror : Mirror} {other : Nat} (shows : mirror.Shows one two)
    (pair : mirror.pairs frame other) (bindings : List (String × Value)) :
    ∃ further : Mirror,
      further.Shows (one.bindAll frame bindings).1 (two.bindAll other bindings).1 ∧
      further.pairs (one.bindAll frame bindings).2 (two.bindAll other bindings).2 := by
  induction bindings generalizing mirror one two frame other with
  | nil => exact ⟨mirror, shows, pair⟩
  | cons binding rest ih =>
    rcases shows.openFrame pair (Layer.get?_ofArgument_ne binding.1 binding.2) with
      ⟨further, reaches, opened⟩
    exact ih reaches.shows opened

/-! ## Calls with all their arguments -/

/-- A call takes its arguments, and its body is evaluated where they are bound. -/
theorem Evaluator.call_of_enough {parameter : String}
    (enough : body.parameters + 1 ≤ values.length) (waiting : before.arguments = values ++ floor)
    (low : base ≤ floor.length) :
    eval.call name base parameter body frame before =
      let bound := (before.withArguments (values.drop (body.parameters + 1) ++ floor)).bindAll frame
        ((parameter :: body.parameterNames).zip values)
      eval body.core bound.2 bound.1 := by
  cases values with
  | nil => cases enough
  | cons argument rest =>
    have high : ¬ before.arguments.length ≤ base := by
      rw [waiting, List.length_append, List.length_cons]
      omega
    induction parameter, body, frame using call.induct generalizing before argument rest with
    | case1 parameter inner body frame ih =>
      rw [call_function waiting high]
      cases rest with
      | nil => cases Nat.le_of_succ_le_succ enough
      | cons next rest =>
        refine ih _ _ _ (Nat.le_of_succ_le_succ enough) rfl ?_
        change ¬ ((next :: rest) ++ floor).length ≤ base
        rw [List.length_append, List.length_cons]
        omega
    | case2 parameter body frame noFunction =>
      rcases Expr.core_of_noFunction noFunction with ⟨core, none⟩
      rw [call_body noFunction waiting high, core, none, Expr.parameters_of_noFunction noFunction]
      rfl

/-! ## Operands that have values -/

/-- Behind the operands their values wait, the first one on top, and what is seen from the
frames that are there is the same. -/
structure Supplied (frame : Nat) (operands : List Expr) (before : Memory) (values : List Value)
    (later : Scenes) (after : Memory) : Prop where
  pushed : pushEnd frame before.arguments.length operands before = some (.ok () after)
  follows : Follows before.scenes before later after
  advances : before.Advances after
  waiting : after.arguments = values ++ before.arguments

/-- A name that means a value without an argument means it whatever waits. -/
theorem Meaning.apply_of_application {mean : Meaning}
    (means : mean.application name [] definition scene = .ok value) (arguments : List Value) :
    mean.apply name definition scene arguments = .ok (value, arguments) := by
  have none : mean.arguments scene [] = .ok [] := rfl
  rw [application, none] at means
  change mean.apply name definition scene [] >>= _ = _ at means
  rcases outcome_bind_eq_ok.mp means with ⟨⟨found, left⟩, applied, whole⟩
  rw [apply] at applied ⊢
  cases resolved : mean.resolve scene name with
  | ok named =>
    rw [resolved] at applied
    cases named with
    | value held =>
      cases applied
      cases whole
      rfl
    | function lambda scene => cases applied
  | error failure =>
    rw [resolved] at applied
    cases failure with
    | unresolvedIdentifier missing => cases definition <;> cases applied
    | _ => cases applied

/-- An operand that means a value leaves what waits alone. -/
theorem operandValue_of_meaning (means : meaning depth scene operand = .ok value)
    (arguments : List Value) :
    (meaning depth).operandValue scene arguments operand = .ok (value, arguments) := by
  by_cases bare : ∃ name definition, operand = .application name [] definition
  · rcases bare with ⟨name, definition, rfl⟩
    cases depth with
    | zero => cases means
    | succ depth =>
      have applied : (meaning depth).apply name definition scene arguments =
          .ok (value, arguments) := Meaning.apply_of_application means arguments
      exact (Steady.apply name definition scene arguments).ok_of_le applied (Nat.le_succ depth)
  · rw [Meaning.operandValue_of_not_name _ fun name definition same =>
      bare ⟨name, definition, same⟩, means]
    rfl

theorem arguments_of_meanings
    (means : List.Forall₂ (fun operand value => ∃ depth, meaning depth scene operand = .ok value)
      operands values) :
    ∃ depth, (meaning depth).arguments scene operands = .ok values := by
  induction means with
  | nil => exact ⟨0, rfl⟩
  | @cons operand value rest others first _ ih =>
    rcases first with ⟨depth, first⟩
    rcases ih with ⟨deep, ih⟩
    have le := Nat.le_max_left depth deep
    have operandMeans := (Steady.expression scene operand).ok_of_le first le
    have restMeans := (Steady.arguments scene rest).ok_of_le ih (Nat.le_max_right depth deep)
    refine ⟨max depth deep, ?_⟩
    rw [Meaning.arguments, restMeans]
    change (meaning _).operandValue scene others operand >>= _ = _
    rw [operandValue_of_meaning operandMeans]
    rfl

/-- Operands that come to values supply them. -/
theorem Memory.Rooted.supplied (rooted : before.Rooted) (inside : frame < before.frames.size)
    (evaluated : List.Forall₂ (fun operand value => EvaluatesTo operand frame before (.ok value))
      operands values) :
    ∃ later after, Supplied frame operands before values later after := by
  have means := evaluated.imp fun _ _ comes =>
    (evaluatesTo_ok_iff rooted.depicts rooted.not_regress inside).mp comes
  rcases arguments_of_meanings means with ⟨depth, means⟩
  have tracked := (adequate_evaluate depth).pushOperands rooted.depicts inside operands rfl
  rcases tracked.found (.arguments _ operands) rooted.not_regress means with
    ⟨later, after, _, ran, follows, waiting⟩
  have advances := (((orderly_evaluate depth).pushOperands frame operands)
    before.arguments.length before).2.advances
  dsimp only at advances
  rw [ran] at advances
  exact ⟨later, after, (lasting_pushOperands frame _ operands).limit_eq_some_iff.mpr
    ⟨depth, ran, by rintro ⟨_, ⟨⟩⟩⟩, follows, advances, waiting⟩

/-! ## Applications -/

theorem ComesTo.evaluatesTo {expression : Expr} {result : Machine.End Value}
    (comes : ComesTo expression frame memory result) :
    EvaluatesTo expression frame memory (Machine.End.outcome result) := by
  rw [evaluatesTo_iff, comesTo_iff.mp comes, Option.map_some]

/-- Arguments that wait have no part in an outcome. -/
theorem evaluatesTo_withArguments {expression : Expr} {stack : List Value} :
    EvaluatesTo expression frame (memory.withArguments stack) outcome ↔
      EvaluatesTo expression frame memory outcome := by
  have same (depth : Nat) :
      Machine.End.outcome (evaluate depth expression frame (memory.withArguments stack)) =
        Machine.End.outcome (evaluate depth expression frame memory) := by
    have orderly : ∀ stack, Orderly (· = stack) fun _ => evaluate depth expression frame :=
      orderly_evaluate depth expression frame
    rw [Orderly.withArguments orderly]
    cases evaluate depth expression frame memory <;> rfl
  simp only [EvaluatesTo, same]

/-- A value is the outcome of an application unless arguments are left above the base. -/
theorem outcome_conclude {result : Machine.End Value} {rest : List Value}
    (left : ∀ value last, result = .ok value last → last.arguments = rest ++ floor) :
    Machine.End.outcome (Evaluator.conclude name floor.length result) =
      Machine.End.outcome result >>= fun value =>
        if rest.isEmpty then .ok value else .error (.notAFunction name) := by
  cases result with
  | error failure last => rfl
  | ok value last =>
    have extra : last.arguments.length - floor.length = rest.length := by
      rw [left value last rfl, List.length_append, Nat.add_sub_cancel]
    rw [Evaluator.conclude, extra]
    cases rest <;> rfl

namespace Supplied

variable {later : Scenes} (supplied : Supplied frame operands before values later after)

include supplied

theorem valueEnd_application :
    valueEnd frame (.application name operands definition) before =
      (applyEnd name definition frame before.arguments.length after).map
        (Evaluator.conclude name before.arguments.length) := by
  rw [Manifest.valueEnd_application, supplied.pushed]
  rfl

/-- The operands leave a name alone that is a function. -/
theorem owner?_function (found : before.owner? frame name = some (owner, .function lambda)) :
    after.owner? frame name = some (owner, .function lambda) :=
  ((holds_pushEnd supplied.pushed).function_iff
    (Memory.lt_size_of_owner? found)).mpr found

/-- What the operands leave behind mirrors what was there before. -/
theorem shows (rooted : before.Rooted) :
    (Mirror.same (· < before.frames.size) before.scenes later).Shows before
      (after.withArguments before.arguments) := by
  have follows : Follows before.scenes before later (after.withArguments before.arguments) :=
    supplied.follows.of_arguments
  refine .of_same rooted.depicts follows.depicts rooted.not_regress
    (rooted.not_regress_behind follows) rfl
    (fun frame inside => ⟨inside, follows.lt_size inside⟩) follows.scenes_eq
    supplied.advances.parent (fun frame parent inside around => ?_) fun frame inside name => ?_
  · exact Nat.lt_trans (rooted frame parent around) inside
  · exact (supplied.advances.resolving_iff inside).symm

/-- With too few operands an application of a function fails. -/
theorem evaluatesTo_of_few (found : before.owner? frame name = some (owner, .function lambda))
    (few : values.length < lambda.arity) :
    EvaluatesTo (.application name operands definition) frame before
      (.error (.missingArgument name)) := by
  have short : after.arguments.length < before.arguments.length + (lambda.body.parameters + 1) := by
    rw [supplied.waiting, List.length_append, Nat.add_comm]
    exact Nat.add_lt_add_left few _
  rcases @Evaluator.call_of_few (evaluate 0) after name lambda.parameter lambda.body
    before.arguments.length owner short with ⟨last, failed⟩
  have applied : (evaluate 0).apply name definition frame before.arguments.length after =
      .error (.missingArgument name) last :=
    (Evaluator.apply_of_function (supplied.owner?_function found)).trans failed
  have known : applyEnd name definition frame before.arguments.length after =
      some (.error (.missingArgument name) last) :=
    (lasting_apply name definition frame _).limit_eq_some_iff.mpr
      ⟨0, applied, by rintro ⟨_, ⟨⟩⟩⟩
  rw [evaluatesTo_iff, supplied.valueEnd_application, known]
  rfl

/-- With operands enough, an application of a function comes to what the body comes to where
the arguments are bound.  A value is a failure if operands are left over. -/
theorem evaluatesTo_iff_of_enough (rooted : before.Rooted)
    (found : before.owner? frame name = some (owner, .function lambda))
    (enough : lambda.arity ≤ values.length) :
    EvaluatesTo (.application name operands definition) frame before outcome ↔
      ∃ found, EvaluatesTo lambda.core (before.bindAll owner (lambda.names.zip values)).2
          (before.bindAll owner (lambda.names.zip values)).1 found ∧
        outcome = found >>= fun value =>
          if (values.drop lambda.arity).isEmpty then .ok value
          else .error (.notAFunction name) := by
  have owned := Memory.lt_size_of_slot? (Memory.slot?_of_owner? found)
  rcases (supplied.shows rooted).bindAll ⟨rfl, owned⟩ (lambda.names.zip values) with
    ⟨mirror, shows, pair⟩
  let bound := (after.withArguments (values.drop lambda.arity ++ before.arguments)).bindAll owner
    (lambda.names.zip values)
  have waiting : bound.1.arguments = values.drop lambda.arity ++ before.arguments := by
    rw [show bound = _ from Memory.bindAll_withArguments after _ owner _]
    rfl
  -- the operands have changed memory before the arguments are bound, which makes no difference
  have here (found : Except EvalError Value) :
      EvaluatesTo lambda.core (before.bindAll owner (lambda.names.zip values)).2
          (before.bindAll owner (lambda.names.zip values)).1 found ↔
        EvaluatesTo lambda.core bound.2 bound.1 found := by
    refine (shows.evaluatesTo_iff pair).trans ?_
    rw [show bound = _ from Memory.bindAll_withArguments after _ owner _,
      Memory.bindAll_withArguments, evaluatesTo_withArguments, evaluatesTo_withArguments]
  have called : applyEnd name definition frame before.arguments.length after =
      valueEnd bound.2 lambda.core bound.1 :=
    limit_congr fun depth => (Evaluator.apply_of_function (supplied.owner?_function found)).trans
      (Evaluator.call_of_enough enough supplied.waiting (Nat.le_refl _))
  simp only [here, evaluatesTo_iff, supplied.valueEnd_application, called]
  cases known : valueEnd bound.2 lambda.core bound.1 with
  | none =>
    refine iff_of_false (fun none => nomatch none) ?_
    rintro ⟨_, ⟨⟩, _⟩
  | some result =>
    have left (value : Value) (last : Memory) (same : result = .ok value last) :
        last.arguments = values.drop lambda.arity ++ before.arguments := by
      subst same
      rcases (lasting_evaluate bound.2 lambda.core).limit_eq_some_iff.mp known with ⟨depth, ran, _⟩
      exact (arguments_of_evaluate ran).trans waiting
    rw [Option.map_some, Option.map_some, Option.map_some, outcome_conclude left]
    constructor
    · intro same
      exact ⟨_, rfl, (Option.some.inj same).symm⟩
    · rintro ⟨_, ⟨⟩, whole⟩
      exact congrArg some whole.symm

/-- A name that is resolved to a value is resolved to it behind the operands. -/
theorem resolve_value (rooted : before.Rooted)
    (resolves : ResolvesTo name frame before (.value value)) :
    ∃ depth last, (evaluate depth).resolve name frame after = .ok (.value value) last ∧
      last.arguments = after.arguments := by
  have inside := resolves.inside
  rcases resolves with ⟨depth, last, ran⟩
  have tracked := (adequate_evaluate depth).resolve rooted.depicts inside name
  rw [ran] at tracked
  cases tracked with
  | @ok _ _ _ named enough _ means agreed =>
    rcases agreed with ⟨⟨⟩, _⟩
    have behind := (adequate_evaluate enough).resolve supplied.follows.depicts
      (supplied.follows.lt_size inside) name
    rw [supplied.follows.scenes_eq frame inside] at behind
    rcases behind.found (.resolve _ name) (rooted.not_regress_behind supplied.follows) means with
      ⟨_, last, _, ran, _, ⟨⟩, waiting⟩
    exact ⟨enough, last, ran, waiting⟩

/-- A name that is resolved to a value is the value, and takes no operands. -/
theorem evaluatesTo_of_value (rooted : before.Rooted)
    (resolves : ResolvesTo name frame before (.value value)) :
    EvaluatesTo (.application name operands definition) frame before
      (if values.isEmpty then .ok value else .error (.notAFunction name)) := by
  rcases supplied.resolve_value rooted resolves with ⟨depth, last, resolved, waiting⟩
  have known : applyEnd name definition frame before.arguments.length after =
      some (.ok value last) :=
    (lasting_apply name definition frame _).limit_eq_some_iff.mpr
      ⟨depth, Evaluator.apply_of_value resolved, by rintro ⟨_, ⟨⟩⟩⟩
  rw [evaluatesTo_iff, supplied.valueEnd_application, known, Option.map_some, Option.map_some,
    outcome_conclude]
  · rfl
  · rintro _ _ ⟨⟩
    exact waiting.trans supplied.waiting

end Supplied

end Manifest
