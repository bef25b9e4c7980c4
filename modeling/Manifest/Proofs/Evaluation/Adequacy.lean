import Manifest.Proofs.Evaluation.Names
import Manifest.Proofs.Evaluation.Tracking

/-!
# Evaluation finds what is meant

Every function of the evaluator tracks its rule of meaning, given that the
evaluator of operands does.  So the evaluation of a program has the outcome
that is meant, unless it would take more than the depth it is given.
-/

namespace Manifest

open Stepwise

variable {α : Type} {scenes : Scenes} {before : Memory} {frame depth : Nat} {name : String}
  {eval : Evaluator} {stack : List Value}

/-! ## Agreements -/

/-- The same result, while the same arguments wait. -/
def Same (stack : List Value) : Agreement α α :=
  fun _ after result found => result = found ∧ after.arguments = stack

/-- A name is resolved to what it means. -/
inductive StandsFor (scenes : Scenes) (after : Memory) : Resolved → Named → Prop
  | value (value : Value) : StandsFor scenes after (.value value) (.value value)
  | function (lambda : Lambda Expr) {owner : Nat} : owner < after.frames.size →
      StandsFor scenes after (.function lambda owner) (.function lambda (scenes owner))

def Resolves (stack : List Value) : Agreement Resolved Named :=
  fun later after resolved named => StandsFor later after resolved named ∧ after.arguments = stack

/-- The same result, and the arguments that are left wait above the others. -/
def Leaves (stack : List Value) : Agreement Value (Value × List Value) :=
  fun _ after result found => result = found.1 ∧ after.arguments = found.2 ++ stack

/-- The arguments that have been found wait above the others. -/
def Pushes (stack : List Value) : Agreement Unit (List Value) :=
  fun _ after _ found => after.arguments = found ++ stack

/-- Nothing is lost of the arguments that wait. -/
def Above (stack arguments : List Value) : Prop :=
  ∃ extra, arguments = extra ++ stack

/-- The same value, and a frame that stands for the scene inside a section. -/
def Enters (scene : Scene) (part : Section Expr) (stack : List Value) :
    Agreement (Value × Nat) Value :=
  fun later after result found => result.1 = found ∧ result.2 < after.frames.size ∧
    later result.2 = Meaning.inside scene part ∧ after.arguments = stack

/-- An evaluator of operands finds what they mean. -/
def Adequate (eval : Evaluator) (depth : Nat) : Prop :=
  ∀ scenes before frame expression, Depicts scenes before → frame < before.frames.size →
    Tracked 0 depth scenes before (fun mean => mean (scenes frame) expression)
      (Same before.arguments) (· = before.arguments) (eval expression frame before)

/-! ## Steady rules -/

namespace Steady

theorem expression (scene : Scene) (expression : Expr) :
    Steady fun mean => mean scene expression :=
  fun _ _ grows => grows scene expression

theorem resolve (scene : Scene) (name : String) : Steady fun mean => mean.resolve scene name :=
  fun _ _ grows => grows.resolve scene name

theorem force (scene : Scene) (name : String) : Steady fun mean => mean.force scene name :=
  fun _ _ grows => grows.force scene name

theorem call (name : String) (arguments : List Value) (parameter : String) (body : Expr)
    (scene : Scene) : Steady fun mean => mean.call name arguments parameter body scene :=
  fun _ _ grows => grows.call _ _ _ _ _

theorem apply (name : String) (definition : Option (Lambda Expr)) (scene : Scene)
    (arguments : List Value) : Steady fun mean => mean.apply name definition scene arguments :=
  fun _ _ grows => grows.apply _ _ _ _

theorem operandValue (scene : Scene) (arguments : List Value) (operand : Expr) :
    Steady fun mean => mean.operandValue scene arguments operand :=
  fun _ _ grows => grows.operandValue _ _ _

theorem arguments (scene : Scene) (operands : List Expr) :
    Steady fun mean => mean.arguments scene operands :=
  fun _ _ grows => grows.arguments _ _

theorem gather (scene : Scene) (harvest : Harvest) (expression : Expr) :
    Steady fun mean => mean.gather scene harvest expression :=
  fun _ _ grows => grows.gather _ _ _

theorem gatherAll (scene : Scene) (harvest : Harvest) (expressions : List Expr) :
    Steady fun mean => mean.gatherAll scene harvest expressions :=
  fun _ _ grows => grows.gatherAll _ _ _

theorem sectionValue (scene : Scene) (part : Section Expr) :
    Steady fun mean => mean.sectionValue scene part :=
  fun _ _ grows => grows.sectionValue _ _

theorem sectionValues (scene : Scene) (sections : List (Section Expr)) :
    Steady fun mean => mean.sectionValues scene sections :=
  fun _ _ grows => grows.sectionValues _ _

theorem items (scene : Scene) (expressions : List Expr) :
    Steady fun mean => mean.items scene expressions :=
  fun _ _ grows => grows.items _ _

end Steady

/-! ## Memory -/

theorem Machine.popArgument?_of_none (waiting : before.arguments = stack) :
    Machine.popArgument? stack.length before = .ok none before :=
  Machine.popArgument?_of_le (Nat.le_of_eq (congrArg List.length waiting))

theorem Machine.popArgument?_of_cons {argument : Value} {rest : List Value}
    (waiting : before.arguments = argument :: rest ++ stack) :
    Machine.popArgument? stack.length before =
      .ok (some argument) { before with arguments := rest ++ stack } := by
  refine Machine.popArgument?_of_lt waiting ?_
  rw [waiting, List.cons_append, List.length_cons, List.length_append]
  omega

theorem Machine.dropArguments_eq {extra : List Value}
    (waiting : before.arguments = extra ++ stack) :
    Machine.dropArguments stack.length before =
      .ok (extra.length != 0) { before with arguments := stack } := by
  rcases before with ⟨frames, arguments⟩
  have same : arguments = extra ++ stack := waiting
  subst same
  have length : (extra ++ stack).length - stack.length = extra.length := by
    rw [List.length_append, Nat.add_sub_cancel]
  rw [Machine.dropArguments, get_bind]
  dsimp only
  rw [length, List.drop_left]
  rfl

/-- While the evaluation of a name is under way, a regress is one that was there
before, since the name has to be found to a smaller depth again and again. -/
theorem Regress.of_setSlot {owner bound : Nat} {operand : Expr}
    (own : (scenes owner).own? name = some (.pending operand))
    (circle : ∀ depth, meaning depth (scenes owner) operand ≠ .error .exhausted →
      Regress scenes (before.setSlot owner name .resolving) depth)
    (found : meaning bound (scenes owner) operand ≠ .error .exhausted) :
    Regress scenes before bound := by
  induction bound using Nat.strongRecOn with
  | ind bound ih =>
    rcases circle bound found with ⟨frame, wanted, other, depth, under, held, less, reached⟩
    by_cases same : frame = owner ∧ wanted = name
    · rcases same with ⟨rfl, rfl⟩
      cases held.symm.trans own
      exact (ih depth less reached).weaken (Nat.le_of_lt less)
    · rw [Memory.slot?_setSlot_of_ne same] at under
      exact ⟨frame, wanted, other, depth, under, held, less, reached⟩

/-- An evaluation of the operand of a name, from the time it is marked as under
way to the time its slot is written again. -/
theorem Follows.thaw {later : Scenes} {middle : Memory} {owner : Nat} {slot held : Slot}
    (inside : owner < before.frames.size)
    (own : (scenes owner).own? name = some slot) (depicted : Depicted (scenes owner) slot held)
    (settled : held ≠ .resolving)
    (follows : Follows scenes (before.setSlot owner name .resolving) later middle) :
    Follows scenes before later (middle.setSlot owner name held) := by
  have size : (before.setSlot owner name .resolving).frames.size = before.frames.size :=
    Memory.size_setSlot
  have grown := follows.size_le
  have same := follows.scenes_eq owner (by omega)
  refine ⟨by rw [Memory.size_setSlot]; omega, fun frame within => ?_, ?_, ?_⟩
  · exact follows.scenes_eq frame (by omega)
  · exact follows.depicts.setSlot (by rw [same]; exact own) (by rw [same]; exact depicted)
  · intro frame wanted under
    by_cases here : frame = owner ∧ wanted = name
    · rcases here with ⟨rfl, rfl⟩
      rw [Memory.slot?_setSlot_self (by omega)] at under
      exact absurd (Option.some.inj under) settled
    · rw [Memory.slot?_setSlot_of_ne here] at under
      have earlier := follows.resolving frame wanted under
      rw [Memory.slot?_setSlot_of_ne here] at earlier
      exact earlier

/-! ## Names -/

namespace Adequate

variable (adequate : Adequate eval depth)

include adequate

/-- An operand inside a rule. -/
theorem expression (depicts : Depicts scenes before) (inside : frame < before.frames.size)
    (expression : Expr) :
    Tracked 1 depth scenes before (fun mean => mean (scenes frame) expression)
      (Same before.arguments) (· = before.arguments) (eval expression frame before) :=
  (adequate scenes before frame expression depicts inside).mono (Nat.zero_le 1)
    (fun _ _ _ _ agreed => agreed) fun _ waiting => waiting

/-- A name that waits is evaluated in the frame that owns it. -/
theorem pending {owner : Nat} {operand : Expr} (depicts : Depicts scenes before)
    (within : owner < before.frames.size)
    (own : (scenes owner).own? name = some (.pending operand)) :
    Tracked 1 depth scenes before
      (fun mean => mean (scenes owner) operand >>= fun value => pure (.value value))
      (Resolves before.arguments) (· = before.arguments)
      ((do
        Machine.setSlot owner name .resolving
        match ← Machine.attempt (eval operand owner) with
        | .ok value =>
            Machine.setSlot owner name (.ready value)
            return .value value
        | .error failure =>
            Machine.setSlot owner name (.pending operand)
            throw failure : Machine Resolved) before) := by
  have size : (before.setSlot owner name .resolving).frames.size = before.frames.size :=
    Memory.size_setSlot
  have tracked := adequate scenes (before.setSlot owner name .resolving) owner operand
    (depicts.setSlot own .resolving) (by omega)
  rw [bind_of_ok _ (Machine.setSlot_eq before owner name .resolving)]
  cases ran : eval operand owner (before.setSlot owner name .resolving) with
  | ok value middle =>
    rw [ran] at tracked
    rw [bind_of_ok _ (Machine.attempt_of_ok ran)]
    cases tracked with
    | @ok later _ _ found enough follows known agreed =>
      rcases agreed with ⟨rfl, waiting⟩
      have thawed := follows.thaw within own (.ready known) (by rintro ⟨⟩)
      have means : (meaning enough (scenes owner) operand >>= fun value =>
          pure (Named.value value)) = .ok (.value value) := by
        rw [known]
        rfl
      exact .ok thawed means ⟨.value value, waiting⟩
  | error failure middle =>
    rw [ran] at tracked
    rw [bind_of_ok _ (Machine.attempt_of_error ran)]
    cases tracked with
    | error follows waiting fails =>
      have thawed := follows.thaw within own (.same (by rintro ⟨⟩))
        (by rintro ⟨⟩)
      refine .error thawed waiting (Fails.front ?_)
      cases fails with
      | exhausted cut => exact .exhausted cut
      | cycle wanted circle =>
        refine .cycle wanted fun depth found => ?_
        exact (Regress.of_setSlot own circle found).weaken (Nat.le_succ _)
      | other genuine failed => exact .other genuine failed

theorem resolve (depicts : Depicts scenes before) (inside : frame < before.frames.size)
    (name : String) :
    Tracked 1 depth scenes before (fun mean => mean.resolve (scenes frame) name)
      (Resolves before.arguments) (· = before.arguments) (eval.resolve name frame before) := by
  have got : (get : Machine Memory) before = .ok before before := rfl
  rw [Evaluator.resolve, bind_of_ok _ got]
  cases depicts.finds inside name with
  | nowhere unowned absent =>
    simp only [Meaning.resolve, absent, unowned]
    exact .throw (by rintro ⟨⟩) depicts rfl
  | at_ owner held slot owned found stands own depicted =>
    have within := Memory.lt_size_of_slot? stands
    simp only [Meaning.resolve, found, owned]
    cases depicted with
    | same settled =>
      cases held with
      | ready value => exact .pure depicts ⟨.value value, rfl⟩
      | function lambda => exact .pure depicts ⟨.function lambda within, rfl⟩
      | resolving => exact absurd rfl settled
      | pending operand => exact adequate.pending depicts within own
    | @resolving operand =>
      refine .error (.refl depicts) rfl (Fails.front (.cycle name fun depth known => ?_))
      exact ⟨owner, name, operand, depth, stands, own, Nat.lt_succ_self _, known⟩
    | @ready operand value enough known =>
      have means : (meaning enough (scenes owner) operand >>= fun value =>
          pure (Named.value value)) = .ok (.value value) := by
        rw [known]
        rfl
      exact .ok (.refl depicts) means ⟨.value value, rfl⟩

/-- The value of a binding. -/
theorem force (depicts : Depicts scenes before) (inside : frame < before.frames.size)
    (name : String) :
    Tracked 1 depth scenes before (fun mean => mean.force (scenes frame) name)
      (Same before.arguments) (· = before.arguments) (eval.force name frame before) := by
  refine .bind (.resolve _ _) (fun _ => .const _) (adequate.resolve depicts inside name) ?_
  rintro later after _ _ follows ⟨denotes, waiting⟩
  cases denotes with
  | value value => exact .pure follows.depicts ⟨rfl, waiting⟩
  | function lambda => exact .pure follows.depicts ⟨rfl, waiting⟩

/-! ## Calls -/

omit adequate in
/-- Without an argument nothing is called. -/
theorem call_nil (name parameter : String) (body : Expr) (frame : Nat)
    (waiting : before.arguments = stack) :
    eval.call name stack.length parameter body frame before =
      .error (.missingArgument name) before := by
  have none := Machine.popArgument?_of_none waiting
  fun_cases Evaluator.call eval name stack.length parameter body frame with
  | case1 => exact bind_of_ok _ none
  | case2 => exact bind_of_ok _ none

omit adequate in
/-- The next argument is bound in a frame of its own. -/
theorem bindArgument {slack : Nat} {parameter : String} {argument : Value} {rest : List Value}
    {rule : Meaning → Except EvalError (Value × List Value)} {next : Nat → Machine Value}
    {failure : EvalError} (depicts : Depicts scenes before) (inside : frame < before.frames.size)
    (waiting : before.arguments = argument :: rest ++ stack)
    (behind : ∀ later after inner, Depicts later after → inner < after.frames.size →
      later inner = .ofArgument parameter argument :: scenes frame →
      after.arguments = rest ++ stack →
      Tracked slack depth later after rule (Leaves stack) (Above stack) (next inner after)) :
    Tracked slack depth scenes before rule (Leaves stack) (Above stack)
      ((do
        let some argument ← Machine.popArgument? stack.length | throw failure
        let inner ← Machine.openFrame ⟨[(parameter, .ready argument)], some frame⟩
        next inner : Machine Value) before) := by
  have popped : Follows scenes before scenes { before with arguments := rest ++ stack } :=
    (Follows.refl depicts).of_arguments
  have opened := popped.depicts.openFrame inside (Layer.get?_ofArgument_ne parameter argument)
  rw [bind_of_ok _ (Machine.popArgument?_of_cons waiting)]
  dsimp only
  rw [bind_of_ok _ (Machine.openFrame_eq _ _)]
  refine .behind (popped.trans opened)
    (behind _ _ _ opened.depicts ?_ (Scenes.enter_self _ _ _) rfl)
  exact Nat.lt_of_lt_of_eq (Nat.lt_succ_self _) Memory.size_openFrame.symm

theorem call (depicts : Depicts scenes before) (inside : frame < before.frames.size)
    (name parameter : String) (body : Expr) {arguments : List Value}
    (waiting : before.arguments = arguments ++ stack) :
    Tracked 1 depth scenes before
      (fun mean => mean.call name arguments parameter body (scenes frame)) (Leaves stack)
      (Above stack) (eval.call name stack.length parameter body frame before) := by
  induction arguments generalizing scenes before frame parameter body with
  | nil =>
    have waiting : before.arguments = stack := waiting
    rw [call_nil name parameter body frame waiting]
    refine .error (.refl depicts) ⟨[], waiting⟩ ?_
    exact @Fails.other _ _ _ _ _ _ _ 0 (by rintro ⟨⟩) rfl
  | cons argument rest ih =>
    fun_cases Evaluator.call eval name stack.length parameter body frame with
    | case1 _ deeper body =>
      refine bindArgument depicts inside waiting
        fun later after inner depicts inside shape left => ?_
      have tracked := ih depicts inside deeper body left
      rw [shape] at tracked
      exact tracked
    | case2 _ _ _ noFunction =>
      refine bindArgument depicts inside waiting
        fun later after inner depicts inside shape left => ?_
      have tracked := adequate later after inner body depicts inside
      rw [shape] at tracked
      simp only [Meaning.call_of_not_function _ noFunction]
      refine (tracked.map (·, rest) fun _ _ _ _ same => ⟨same.1, same.2.trans left⟩).mono
        (Nat.zero_le 1) (fun _ _ _ _ agreed => agreed) fun _ same => ⟨rest, same.trans left⟩

/-- A name with the arguments that wait. -/
theorem apply (depicts : Depicts scenes before) (inside : frame < before.frames.size)
    (name : String) (definition : Option (Lambda Expr)) {arguments : List Value}
    (waiting : before.arguments = arguments ++ stack) :
    Tracked 1 depth scenes before
      (fun mean => mean.apply name definition (scenes frame) arguments) (Leaves stack)
      (Above stack) (eval.apply name definition frame stack.length before) := by
  have tracked := adequate.resolve depicts inside name
  have cut : ∀ mean : Meaning, mean.resolve (scenes frame) name = .error .exhausted →
      mean.apply name definition (scenes frame) arguments = .error .exhausted := by
    intro mean cut
    rw [Meaning.apply, cut]
    rfl
  rw [Evaluator.apply]
  cases ran : eval.resolve name frame before with
  | ok resolved after =>
    rw [ran] at tracked
    rw [bind_of_ok _ (Machine.attempt_of_ok ran)]
    cases tracked with
    | @ok later _ _ named enough follows found agreed =>
      rcases agreed with ⟨denotes, left⟩
      cases denotes with
      | value value =>
        have continues : Continues (fun mean => mean.resolve (scenes frame) name)
            (.ok (.value value)) (fun _ => pure (value, arguments))
            fun mean => mean.apply name definition (scenes frame) arguments :=
          ⟨.resolve _ _, (by rintro ⟨⟩), ⟨enough, found⟩, cut,
            fun mean same => by rw [Meaning.apply, same], .const _⟩
        exact continues.tracked follows (.pure follows.depicts ⟨rfl, left.trans waiting⟩)
      | @function lambda owner within =>
        have continues : Continues (fun mean => mean.resolve (scenes frame) name)
            (.ok (.function lambda (later owner)))
            (fun mean => mean.call name arguments lambda.parameter lambda.body (later owner))
            fun mean => mean.apply name definition (scenes frame) arguments :=
          ⟨.resolve _ _, (by rintro ⟨⟩), ⟨enough, found⟩, cut,
            fun mean same => by rw [Meaning.apply, same], .call _ _ _ _ _⟩
        exact continues.tracked follows
          (adequate.call follows.depicts within name _ _ (left.trans waiting))
  | error failure after =>
    rw [ran] at tracked
    rw [bind_of_ok _ (Machine.attempt_of_error ran)]
    cases tracked with
    | @error later _ _ follows left fails =>
      have above : Above stack after.arguments := ⟨arguments, left.trans waiting⟩
      cases failure with
      | unresolvedIdentifier missing =>
        cases definition with
        | none =>
          refine .error follows above (fails.hand cut fun mean same => ?_)
          rw [Meaning.apply, same]
          rfl
        | some lambda =>
          cases fails with
          | other genuine failed =>
            have continues : Continues (fun mean => mean.resolve (scenes frame) name)
                (.error (.unresolvedIdentifier missing))
                (fun mean => mean.call name arguments lambda.parameter lambda.body (scenes frame))
                fun mean => mean.apply name (some lambda) (scenes frame) arguments :=
              ⟨.resolve _ _, (fun equal => genuine (Except.error.inj equal)), ⟨_, failed⟩, cut,
                fun mean same => by rw [Meaning.apply, same], .call _ _ _ _ _⟩
            have called := adequate.call follows.depicts (follows.lt_size inside) name
              lambda.parameter lambda.body (left.trans waiting)
            rw [follows.scenes_eq frame inside] at called
            exact continues.tracked follows called
      | _ =>
        refine .error follows above (fails.hand cut fun mean same => ?_)
        rw [Meaning.apply, same]
        rfl

theorem operandValue (depicts : Depicts scenes before) (inside : frame < before.frames.size)
    (operand : Expr) {arguments : List Value} (waiting : before.arguments = arguments ++ stack) :
    Tracked 1 depth scenes before
      (fun mean => mean.operandValue (scenes frame) arguments operand) (Leaves stack)
      (Above stack) (eval.operandValue frame stack.length operand before) := by
  fun_cases Evaluator.operandValue eval frame stack.length operand with
  | case1 name definition => exact adequate.apply depicts inside name definition waiting
  | case2 _ noName =>
    have tracked := adequate scenes before frame operand depicts inside
    simp only [Meaning.operandValue_of_not_name _ noName]
    exact (tracked.map (·, arguments) fun _ _ _ _ same => ⟨same.1, same.2.trans waiting⟩).mono
      (Nat.zero_le 1) (fun _ _ _ _ agreed => agreed) fun _ same => ⟨arguments, same.trans waiting⟩

theorem pushOperands (depicts : Depicts scenes before) (inside : frame < before.frames.size)
    (operands : List Expr) (waiting : before.arguments = stack) :
    Tracked 1 depth scenes before (fun mean => mean.arguments (scenes frame) operands)
      (Pushes stack) (Above stack) (eval.pushOperands frame stack.length operands before) := by
  induction operands with
  | nil => exact .pure depicts waiting
  | cons operand rest ih =>
    refine .bind (.arguments _ _)
      (fun _ => .bind (.operandValue _ _ _) fun _ => .const _) ih ?_
    intro later after _ arguments follows pushed
    have valued := adequate.operandValue follows.depicts (follows.lt_size inside) operand pushed
    rw [follows.scenes_eq frame inside] at valued
    refine .bind (.operandValue _ _ _) (fun _ => .const _) valued ?_
    rintro last final value ⟨_, left⟩ following ⟨rfl, waits⟩
    have pushed : value :: final.arguments = value :: (left ++ stack) := congrArg _ waits
    exact @Tracked.ok _ _ _ _ _ _ _ _ _ _ _ _ _ 0 (Follows.refl following.depicts).of_arguments
      rfl pushed

theorem application (depicts : Depicts scenes before) (inside : frame < before.frames.size)
    (name : String) (operands : List Expr) (definition : Option (Lambda Expr)) :
    Tracked 1 depth scenes before
      (fun mean => mean.application name operands definition (scenes frame))
      (Same before.arguments) (· = before.arguments)
      (eval.application name operands definition frame before) := by
  have waits : Machine.waiting before = .ok before.arguments.length before := rfl
  have steady : Steady fun mean => mean.arguments (scenes frame) operands >>= fun arguments =>
      mean.apply name definition (scenes frame) arguments :=
    .bind (.arguments _ _) fun _ => .apply _ _ _ _
  have finish : ∀ found : Value × List Value, Steady fun _ =>
      (if found.2.isEmpty then return found.1 else throw (.notAFunction name) :
        Except EvalError Value) := fun _ => .const _
  have applied : Tracked 1 depth scenes before
      (fun mean => mean.arguments (scenes frame) operands >>= fun arguments =>
        mean.apply name definition (scenes frame) arguments)
      (Leaves before.arguments) (Above before.arguments)
      ((do
        eval.pushOperands frame before.arguments.length operands
        eval.apply name definition frame before.arguments.length) before) := by
    refine .bind (.arguments _ _) (fun _ => .apply _ _ _ _)
      (adequate.pushOperands depicts inside operands rfl) ?_
    intro later after _ arguments follows pushed
    have called := adequate.apply follows.depicts (follows.lt_size inside) name definition pushed
    rw [follows.scenes_eq frame inside] at called
    exact called
  simp only [Meaning.application_eq]
  rw [Evaluator.application, bind_of_ok _ waits]
  cases ran : (do
    eval.pushOperands frame before.arguments.length operands
    eval.apply name definition frame before.arguments.length : Machine Value) before with
  | ok value after =>
    rw [ran] at applied
    rw [bind_of_ok _ (Machine.attempt_of_ok ran)]
    cases applied with
    | @ok later _ _ found enough follows known agreed =>
      rcases found with ⟨_, left⟩
      rcases agreed with ⟨rfl, waiting⟩
      have cleared : Follows scenes before later { after with arguments := before.arguments } :=
        follows.of_arguments
      rw [bind_of_ok _ (Machine.dropArguments_eq waiting)]
      refine (Continues.of_bind steady finish known).tracked cleared ?_
      cases left with
      | nil => exact .pure cleared.depicts ⟨rfl, rfl⟩
      | cons argument left => exact .throw (by rintro ⟨⟩) cleared.depicts rfl
  | error failure after =>
    rw [ran] at applied
    rw [bind_of_ok _ (Machine.attempt_of_error ran)]
    cases applied with
    | error follows above fails =>
      rcases above with ⟨extra, waiting⟩
      rw [bind_of_ok _ (Machine.dropArguments_eq waiting)]
      exact .error follows.of_arguments rfl fails.front

/-! ## Blocks -/

theorem gather (depicts : Depicts scenes before) (inside : frame < before.frames.size)
    (harvest : Harvest) (expression : Expr) :
    Tracked 1 depth scenes before (fun mean => mean.gather (scenes frame) harvest expression)
      (Same before.arguments) (· = before.arguments)
      (eval.gather frame harvest expression before) := by
  fun_cases Evaluator.gather eval frame harvest expression with
  | case1 key operand function =>
    simp only [Meaning.gather, if_pos function]
    exact .pure depicts ⟨rfl, rfl⟩
  | case2 key operand noFunction =>
    simp only [Meaning.gather, if_neg noFunction]
    refine .bind (.force _ _) (fun _ => .const _) (adequate.force depicts inside key) ?_
    rintro later after value _ follows ⟨rfl, waiting⟩
    exact .pure follows.depicts ⟨rfl, waiting⟩
  | case3 operand =>
    refine .bind (.expression _ _) (fun _ => .const _)
      (adequate.expression depicts inside operand) ?_
    rintro later after value _ follows ⟨rfl, waiting⟩
    exact .pure follows.depicts ⟨rfl, waiting⟩
  | case4 _ noAssignment noYield =>
    simp only [Meaning.gather_of_other _ noAssignment noYield]
    refine .bind (.expression _ _) (fun _ => .const _)
      (adequate.expression depicts inside expression) ?_
    rintro later after value _ follows ⟨rfl, waiting⟩
    exact .pure follows.depicts ⟨rfl, waiting⟩

theorem gatherAll (depicts : Depicts scenes before) (inside : frame < before.frames.size)
    (harvest : Harvest) (expressions : List Expr) :
    Tracked 1 depth scenes before (fun mean => mean.gatherAll (scenes frame) harvest expressions)
      (Same before.arguments) (· = before.arguments)
      (eval.gatherAll frame harvest expressions before) := by
  induction expressions generalizing scenes before harvest with
  | nil => exact .pure depicts ⟨rfl, rfl⟩
  | cons expression rest ih =>
    refine .bind (.gather _ _ _) (fun _ => .gatherAll _ _ _)
      (adequate.gather depicts inside harvest expression) ?_
    rintro later after found _ follows ⟨rfl, waiting⟩
    have gathered := ih follows.depicts (follows.lt_size inside) found
    rw [follows.scenes_eq frame inside, waiting] at gathered
    exact gathered

/-- A section is evaluated in a frame of its own. -/
theorem sectionValue (depicts : Depicts scenes before) (inside : frame < before.frames.size)
    (part : Section Expr) :
    Tracked 1 depth scenes before (fun mean => mean.sectionValue (scenes frame) part)
      (Enters (scenes frame) part before.arguments) (· = before.arguments)
      (eval.sectionValue frame part before) := by
  have opened := depicts.openFrame inside (Layer.get?_ofSection_ne part.expressions)
  have within : before.frames.size <
      (before.openFrame ⟨Layer.ofSection part.expressions, some frame⟩).frames.size :=
    Nat.lt_of_lt_of_eq (Nat.lt_succ_self _) Memory.size_openFrame.symm
  have gathered := adequate.gatherAll opened.depicts within .empty part.expressions
  rw [Scenes.enter_self] at gathered
  rw [Evaluator.sectionValue, Evaluator.slots_eq, bind_of_ok _ (Machine.openFrame_eq _ _)]
  refine .behind opened ?_
  refine .bind (.gatherAll _ _ _) (fun _ => .const _) gathered ?_
  rintro later after harvest _ follows ⟨rfl, waiting⟩
  refine .pure follows.depicts ⟨rfl, follows.lt_size within, ?_, waiting⟩
  rw [follows.scenes_eq _ within, Scenes.enter_self]
  rfl

theorem sectionValues (depicts : Depicts scenes before) (inside : frame < before.frames.size)
    (sections : List (Section Expr)) :
    Tracked 1 depth scenes before (fun mean => mean.sectionValues (scenes frame) sections)
      (Same before.arguments) (· = before.arguments)
      (eval.sectionValues frame sections before) := by
  induction sections generalizing scenes before with
  | nil => exact .pure depicts ⟨rfl, rfl⟩
  | cons part rest ih =>
    refine .bind (.sectionValue _ _) (fun _ => .bind (.sectionValues _ _) fun _ => .const _)
      (adequate.sectionValue depicts inside part) ?_
    rintro later after ⟨_, inner⟩ value follows ⟨rfl, _, _, waiting⟩
    have others := ih follows.depicts (follows.lt_size inside)
    rw [follows.scenes_eq frame inside, waiting] at others
    refine .bind (.sectionValues _ _) (fun _ => .const _) others ?_
    rintro last final values _ following ⟨rfl, waits⟩
    exact .pure following.depicts ⟨rfl, waits⟩

theorem blockValue (depicts : Depicts scenes before) (inside : frame < before.frames.size)
    (sections : List (Section Expr)) :
    Tracked 1 depth scenes before (fun mean => mean.blockValue (scenes frame) sections)
      (Same before.arguments) (· = before.arguments)
      (eval.blockValue frame sections before) := by
  fun_cases Evaluator.blockValue eval frame sections with
  | case1 => exact .pure depicts ⟨rfl, rfl⟩
  | case2 only =>
    have evaluated := adequate.sectionValue depicts inside only
    have same : (fun mean : Meaning => mean.blockValue (scenes frame) [only]) =
        fun mean => mean.sectionValue (scenes frame) only >>= pure :=
      funext fun mean => (bind_pure (mean.sectionValue (scenes frame) only)).symm
    rw [same]
    refine .bind (.sectionValue _ _) (fun _ => .const _) evaluated ?_
    rintro later after ⟨_, inner⟩ value follows ⟨rfl, _, _, waiting⟩
    exact .pure follows.depicts ⟨rfl, waiting⟩
  | case3 front rest several =>
    simp only [Meaning.blockValue_of_several _ several]
    refine .bind (.sectionValue _ _) (fun _ => .bind (.sectionValues _ _) fun _ => .const _)
      (adequate.sectionValue depicts inside front) ?_
    rintro later after ⟨_, inner⟩ value follows ⟨rfl, within, shape, waiting⟩
    have others := adequate.sectionValues follows.depicts within rest
    rw [shape, waiting] at others
    refine .bind (.sectionValues _ _) (fun _ => .const _) others ?_
    rintro last final values _ following ⟨rfl, waits⟩
    exact .pure following.depicts ⟨rfl, waits⟩

/-! ## Expressions -/

theorem items (depicts : Depicts scenes before) (inside : frame < before.frames.size)
    (expressions : List Expr) :
    Tracked 1 depth scenes before (fun mean => mean.items (scenes frame) expressions)
      (Same before.arguments) (· = before.arguments) (eval.items frame expressions before) := by
  induction expressions generalizing scenes before with
  | nil => exact .pure depicts ⟨rfl, rfl⟩
  | cons item rest ih =>
    refine .bind (.expression _ _) (fun _ => .bind (.items _ _) fun _ => .const _)
      (adequate.expression depicts inside item) ?_
    rintro later after value _ follows ⟨rfl, waiting⟩
    have others := ih follows.depicts (follows.lt_size inside)
    rw [follows.scenes_eq frame inside, waiting] at others
    refine .bind (.items _ _) (fun _ => .const _) others ?_
    rintro last final values _ following ⟨rfl, waits⟩
    exact .pure following.depicts ⟨rfl, waits⟩

end Adequate

/-! ## Steps that read no memory -/

/-- A step comes out the same in every memory. -/
inductive Machine.Settled (step : Machine Value) : Prop
  | ok (value : Value) : (∀ memory, step memory = .ok value memory) → Settled step
  | error (failure : EvalError) : failure ≠ .exhausted →
      (∀ memory, step memory = .error failure memory) → Settled step

theorem Machine.Settled.tracked {step : Machine Value} (settled : step.Settled)
    (depicts : Depicts scenes before) :
    Tracked 1 depth scenes before (fun _ => step.outcome) (Same before.arguments)
      (· = before.arguments) (step before) := by
  cases settled with
  | ok value known =>
    rw [known, Machine.outcome, known]
    exact .pure depicts ⟨rfl, rfl⟩
  | error failure genuine known =>
    rw [known, Machine.outcome, known]
    exact .throw genuine depicts rfl

theorem Machine.settled_throw {failure : EvalError} (genuine : failure ≠ .exhausted) :
    (throw failure : Machine Value).Settled :=
  .error failure genuine fun _ => rfl

theorem settled_appendTo (left right : Value) : (Evaluator.appendTo left right).Settled := by
  cases left with
  | sequence items => cases right <;> exact .ok _ fun _ => rfl
  | _ =>
    refine Machine.settled_throw ?_
    rintro ⟨⟩

theorem settled_mergeValues (expected : Cardinality) (mode : MergeMode) (left right : Value) :
    (Evaluator.mergeValues expected mode left right).Settled := by
  have merged : (Evaluator.mergeValues .scalar mode left right).Settled := by
    unfold Evaluator.mergeValues
    cases left.merge mode [] right with
    | ok merged => exact .ok merged fun _ => rfl
    | error conflict =>
      refine Machine.settled_throw ?_
      rintro ⟨⟩
  cases expected with
  | vector => exact settled_appendTo left right
  | unit | scalar => exact merged
  | unknown =>
    unfold Evaluator.mergeValues
    cases left.isSequence with
    | true => exact settled_appendTo left right
    | false => exact merged

theorem settled_fieldOf (target : Value) (field : String) :
    (Evaluator.fieldOf target field).Settled := by
  cases target with
  | mapping fields =>
    rw [Evaluator.fieldOf]
    cases Fields.get? fields field with
    | some value => exact .ok value fun _ => rfl
    | none =>
      refine Machine.settled_throw ?_
      rintro ⟨⟩
  | _ =>
    refine Machine.settled_throw ?_
    rintro ⟨⟩

/-! ## Evaluation -/

/-- Every form of expression is evaluated to what it means. -/
theorem Adequate.step (adequate : Adequate eval depth) (depicts : Depicts scenes before)
    (inside : frame < before.frames.size) (expression : Expr) :
    Tracked 1 depth scenes before (fun mean => mean.step (scenes frame) expression)
      (Same before.arguments) (· = before.arguments) (eval.step expression frame before) := by
  have evaluated := fun expression => adequate.expression depicts inside expression
  cases expression with
  | unit | scalar => exact .pure depicts ⟨rfl, rfl⟩
  | pipeline | patternMatch => exact .throw (by rintro ⟨⟩) depicts rfl
  | yield operand | assignment _ operand | scope _ operand => exact evaluated operand
  | block sections => exact adequate.blockValue depicts inside sections
  | application name operands definition =>
    exact adequate.application depicts inside name operands definition
  | vector items =>
    refine .bind (.items _ _) (fun _ => .const _) (adequate.items depicts inside items) ?_
    rintro later after values _ follows ⟨rfl, waiting⟩
    exact .pure follows.depicts ⟨rfl, waiting⟩
  | lift operand =>
    refine .bind (.expression _ _) (fun _ => .const _) (evaluated operand) ?_
    rintro later after value _ follows ⟨rfl, waiting⟩
    cases value <;> exact .pure follows.depicts ⟨rfl, waiting⟩
  | merge left right mode =>
    refine .bind (.expression _ _) (fun _ => .bind (.expression _ _) fun _ => .const _)
      (evaluated left) ?_
    rintro later after leftValue _ follows ⟨rfl, waiting⟩
    have others := adequate.expression follows.depicts (follows.lt_size inside) right
    rw [follows.scenes_eq frame inside, waiting] at others
    refine .bind (.expression _ _) (fun _ => .const _) others ?_
    rintro last final rightValue _ following ⟨rfl, waits⟩
    have merged := @Machine.Settled.tracked last final depth _
      (settled_mergeValues left.cardinality mode leftValue rightValue) following.depicts
    rw [waits] at merged
    exact merged
  | access target field =>
    refine .bind (.expression _ _) (fun _ => .const _) (evaluated target) ?_
    rintro later after value _ follows ⟨rfl, waiting⟩
    have selected := @Machine.Settled.tracked later after depth _
      (settled_fieldOf value field) follows.depicts
    rw [waiting] at selected
    exact selected
  | function lambda =>
    have waits : Machine.waiting before = .ok before.arguments.length before := rfl
    rw [Evaluator.step, bind_of_ok _ waits, Adequate.call_nil _ _ _ _ rfl]
    exact .throw (by rintro ⟨⟩) depicts rfl

/-- To a greater depth a step is the evaluation of an expression. -/
theorem Tracked.deepen {scene : Scene} {expression : Expr} {agrees : Agreement Value Value}
    {waits : List Value → Prop} {result : EStateM.Result EvalError Memory Value}
    (tracked : Tracked 1 depth scenes before (fun mean => mean.step scene expression) agrees waits
      result) :
    Tracked 0 (depth + 1) scenes before (fun mean => mean scene expression) agrees waits
      result := by
  cases tracked with
  | @ok _ _ _ _ enough follows found agreed =>
    have deeper : meaning (enough + 1) scene expression = .ok _ := found
    exact .ok follows deeper agreed
  | error follows waiting fails =>
    refine .error follows waiting ?_
    cases fails with
    | exhausted cut => exact .exhausted cut
    | cycle name circle =>
      refine .cycle name fun depth known => ?_
      cases depth with
      | zero => exact absurd rfl known
      | succ depth => exact circle depth known
    | @other _ enough genuine failed =>
      have deeper : meaning (enough + 1) scene expression = .error _ := failed
      exact .other genuine deeper

theorem adequate_evaluate (depth : Nat) : Adequate (evaluate depth) depth := by
  induction depth with
  | zero =>
    intro scenes before frame expression depicts inside
    exact .error (.refl depicts) rfl (.exhausted rfl)
  | succ depth ih =>
    intro scenes before frame expression depicts inside
    exact (ih.step depicts inside expression).deepen

/-! ## Programs -/

namespace Program

variable {program : Program} {bindings : Value.Bindings} {value : Value}
  {outcome : Except EvalError Value}

/-- What a program means to a limited depth. -/
def meaning (program : Program) (bindings : Value.Bindings) (depth : Nat) :
    Except EvalError Value :=
  Manifest.meaning depth [.ofBindings bindings] program.document.root

/-- No name of a caller is under way. -/
theorem get?_ofBindings_ne (bindings : Value.Bindings) (name : String) :
    (Layer.ofBindings bindings).get? name ≠ some .resolving := by
  rw [Layer.get?, Layer.ofBindings, List.find?_map]
  cases bindings.find? _ with
  | none => rintro ⟨⟩
  | some entry => rintro ⟨⟩

theorem slot?_ofBindings (bindings : Value.Bindings) (frame : Nat) (name : String) :
    (Memory.ofBindings bindings).slot? frame name =
      if frame = 0 then (Layer.ofBindings bindings).get? name else none := by
  cases frame with
  | zero => rfl
  | succ frame => rfl

/-- The memory in front of an evaluation depicts the scene of the bindings. -/
theorem depicts_ofBindings (bindings : Value.Bindings) :
    Depicts (fun _ => [.ofBindings bindings]) (.ofBindings bindings) := by
  have parents : ∀ frame, (Memory.ofBindings bindings).parent? frame = none := by
    intro frame
    cases frame <;> rfl
  refine ⟨fun frame _ => ⟨.ofBindings bindings, ?_⟩, fun frame parent around => ?_,
    fun frame inside name => ?_⟩
  · rw [parents frame]
  · rw [parents frame] at around
    cases around
  · have first : frame = 0 := Nat.lt_one_iff.mp inside
    rw [slot?_ofBindings, if_pos first]
    change Option.Rel _ ((Layer.ofBindings bindings).get? name) _
    have settled := get?_ofBindings_ne bindings name
    cases holds : (Layer.ofBindings bindings).get? name with
    | none => exact .none
    | some slot =>
      exact .some (.same fun under => settled (holds.trans (congrArg some under)))

/-- The evaluation of a program tracks its meaning. -/
theorem tracked (program : Program) (bindings : Value.Bindings) (depth : Nat) :
    Tracked 0 depth (fun _ => [.ofBindings bindings]) (.ofBindings bindings)
      (fun mean => mean [.ofBindings bindings] program.document.root) (Same [])
      (· = []) (Manifest.evaluate depth program.document.root 0 (.ofBindings bindings)) :=
  adequate_evaluate depth _ _ 0 program.document.root (depicts_ofBindings bindings) Nat.one_pos

/-- Nothing is under way in front of an evaluation. -/
theorem not_regress {bound : Nat} :
    ¬ Regress (fun _ => [.ofBindings bindings]) (.ofBindings bindings) bound := by
  rintro ⟨frame, name, _, _, under, _⟩
  rw [slot?_ofBindings] at under
  split at under
  · exact get?_ofBindings_ne bindings name under
  · cases under

/-- An evaluation finds what is meant to some depth. -/
theorem meaning_of_evaluate (evaluated : program.evaluate bindings = .ok value) :
    ∃ depth, program.meaning bindings depth = .ok value := by
  have tracked := program.tracked bindings (depthFor program.document.root)
  rw [evaluate] at evaluated
  split at evaluated
  · rename_i ran
    cases evaluated
    rw [ran] at tracked
    cases tracked with
    | ok _ found agreed =>
      rcases agreed with ⟨rfl, _⟩
      exact ⟨_, found⟩
  · cases evaluated

/-- A failure is meant to some depth, unless the evaluation goes in circles or
takes more than the depth it is given. -/
theorem meaning_of_failed {failure : EvalError}
    (failed : program.evaluate bindings = .error failure) (settled : failure ≠ .exhausted)
    (straight : ∀ name, failure ≠ .cycle name) :
    ∃ depth, program.meaning bindings depth = .error failure := by
  have tracked := program.tracked bindings (depthFor program.document.root)
  rw [evaluate] at failed
  split at failed
  · cases failed
  · rename_i ran
    cases failed
    rw [ran] at tracked
    cases tracked with
    | error _ _ fails =>
      cases fails with
      | exhausted _ => exact absurd rfl settled
      | cycle name _ => exact absurd rfl (straight name)
      | other _ means => exact ⟨_, means⟩

/-- What is meant does not depend on the depth to which it is found. -/
theorem meaning_eq {depth further : Nat}
    (found : program.meaning bindings depth ≠ .error .exhausted)
    (other : program.meaning bindings further ≠ .error .exhausted) :
    program.meaning bindings depth = program.meaning bindings further :=
  (Steady.expression [.ofBindings bindings] program.document.root).eq found other

/-- What is meant to the depth of an evaluation is found. -/
theorem evaluate_of_meaning {depth : Nat} (means : program.meaning bindings depth = outcome)
    (settled : outcome ≠ .error .exhausted) (le : depth ≤ depthFor program.document.root) :
    program.evaluate bindings = outcome := by
  have tracked := program.tracked bindings (depthFor program.document.root)
  have steady := Steady.expression [.ofBindings bindings] program.document.root
  have known : Manifest.meaning depth [.ofBindings bindings] program.document.root ≠
      .error .exhausted := by
    rw [show Manifest.meaning depth _ _ = outcome from means]
    exact settled
  have same : ∀ {enough}, Manifest.meaning enough [.ofBindings bindings] program.document.root ≠
      .error .exhausted →
      Manifest.meaning enough [.ofBindings bindings] program.document.root = outcome :=
    fun found => (steady.eq found known).trans means
  rw [evaluate]
  split
  · rename_i ran
    rw [ran] at tracked
    cases tracked with
    | ok _ found agreed =>
      rcases agreed with ⟨rfl, _⟩
      exact found.symm.trans (same (by rw [found]; rintro ⟨⟩))
  · rename_i ran
    rw [ran] at tracked
    cases tracked with
    | error _ _ fails =>
      cases fails with
      | exhausted cut =>
        have deeper := (meaning_grows le _ _).eq_of_ne known
        exact absurd (deeper.symm.trans cut) known
      | cycle name circle => exact absurd (circle depth known) not_regress
      | other genuine failed =>
        refine failed.symm.trans (same ?_)
        rw [failed]
        exact fun equal => genuine (Except.error.inj equal)

end Program
end Manifest
