import Manifest.Proofs.Evaluation.Limit

/-!
# What a call takes

A function takes as many arguments as it has directly nested parameters.  With
that many at hand a call is the same above any base; with fewer it fails.
-/

namespace Manifest

open Stepwise

/-- The parameters that follow at the beginning of a body. -/
def Expr.parameters : Expr → Nat
  | .function ⟨_, body⟩ => body.parameters + 1
  | _ => 0

/-- How many arguments a function takes. -/
def Lambda.arity (lambda : Lambda Expr) : Nat := lambda.body.parameters + 1

theorem Expr.parameters_of_noFunction {body : Expr}
    (noFunction : ∀ parameter inner, body = .function ⟨parameter, inner⟩ → False) :
    body.parameters = 0 := by
  cases body with
  | function lambda => exact absurd rfl (noFunction lambda.parameter lambda.body)
  | _ => rfl

variable {eval : Evaluator} {before after middle : Memory} {name parameter inner : String}
  {body : Expr} {base other frame owner : Nat} {lambda : Lambda Expr} {value argument : Value}
  {rest : List Value}

/-! ## Calls -/

namespace Evaluator

/-- Memory with the next argument bound in a frame of its own. -/
def bound (memory : Memory) (parameter : String) (argument : Value) (rest : List Value)
    (frame : Nat) : Memory :=
  { memory with arguments := rest }.openFrame ⟨[(parameter, .ready argument)], some frame⟩

/-- Without an argument above the base nothing is called. -/
theorem call_of_le (low : before.arguments.length ≤ base) :
    eval.call name base parameter body frame before = .error (.missingArgument name) before := by
  have none := Machine.popArgument?_of_le low
  fun_cases Evaluator.call eval name base parameter body frame with
  | case1 => exact bind_of_ok _ none
  | case2 => exact bind_of_ok _ none

/-- A function in the body is called with what is left. -/
theorem call_function (waiting : before.arguments = argument :: rest)
    (high : ¬ before.arguments.length ≤ base) :
    eval.call name base parameter (.function ⟨inner, body⟩) frame before =
      eval.call name base inner body before.frames.size
        (bound before parameter argument rest frame) := by
  rw [call, bind_of_ok _ (Machine.popArgument?_of_lt waiting high)]
  rfl

/-- Any other body is evaluated. -/
theorem call_body (noFunction : ∀ parameter inner, body = .function ⟨parameter, inner⟩ → False)
    (waiting : before.arguments = argument :: rest) (high : ¬ before.arguments.length ≤ base) :
    eval.call name base parameter body frame before =
      eval body before.frames.size (bound before parameter argument rest frame) := by
  rw [call]
  · rw [bind_of_ok _ (Machine.popArgument?_of_lt waiting high)]
    rfl
  · exact noFunction

/-- With all its arguments above either of two bases, a call is the same. -/
theorem call_eq_of_enough (enough : base + (body.parameters + 1) ≤ before.arguments.length)
    (otherEnough : other + (body.parameters + 1) ≤ before.arguments.length) :
    eval.call name base parameter body frame before =
      eval.call name other parameter body frame before := by
  induction parameter, body, frame using call.induct generalizing before with
  | case1 parameter inner body frame ih =>
    have high : ¬ before.arguments.length ≤ base := by omega
    have otherHigh : ¬ before.arguments.length ≤ other := by omega
    cases waiting : before.arguments with
    | nil => exact absurd (waiting ▸ Nat.zero_le base) high
    | cons argument rest =>
      rw [call_function waiting high, call_function waiting otherHigh]
      rw [waiting, Expr.parameters, List.length_cons] at enough otherEnough
      exact ih _ (Nat.le_of_succ_le_succ enough) (Nat.le_of_succ_le_succ otherEnough)
  | case2 parameter body frame noFunction =>
    have high : ¬ before.arguments.length ≤ base := by omega
    have otherHigh : ¬ before.arguments.length ≤ other := by omega
    cases waiting : before.arguments with
    | nil => exact absurd (waiting ▸ Nat.zero_le base) high
    | cons argument rest =>
      rw [call_body noFunction waiting high, call_body noFunction waiting otherHigh]

/-- With fewer arguments above the base a call fails. -/
theorem call_of_few (few : before.arguments.length < base + (body.parameters + 1)) :
    ∃ after, eval.call name base parameter body frame before =
      .error (.missingArgument name) after := by
  by_cases low : before.arguments.length ≤ base
  · exact ⟨before, call_of_le low⟩
  induction parameter, body, frame using call.induct generalizing before with
  | case1 parameter inner body frame ih =>
    cases waiting : before.arguments with
    | nil => exact absurd (waiting ▸ Nat.zero_le base) low
    | cons argument rest =>
      rw [call_function waiting low]
      rw [waiting, Expr.parameters, List.length_cons] at few
      by_cases left : (bound before parameter argument rest frame).arguments.length ≤ base
      · exact ⟨_, call_of_le left⟩
      · exact ih _ (Nat.lt_of_succ_lt_succ few) left
  | case2 parameter body frame noFunction =>
    rw [Expr.parameters_of_noFunction noFunction] at few
    omega

/-- A call that comes to a value has taken all its arguments and no more. -/
theorem length_of_call (keeps : ∀ expression frame before value after,
      eval expression frame before = .ok value after →
      after.arguments.length = before.arguments.length)
    (called : eval.call name base parameter body frame before = .ok value after) :
    after.arguments.length + (body.parameters + 1) = before.arguments.length := by
  induction parameter, body, frame using call.induct generalizing before with
  | case1 parameter inner body frame ih =>
    by_cases low : before.arguments.length ≤ base
    · rw [call_of_le low] at called
      cases called
    · cases waiting : before.arguments with
      | nil => exact absurd (waiting ▸ Nat.zero_le base) low
      | cons argument rest =>
        rw [call_function waiting low] at called
        have taken : after.arguments.length + (body.parameters + 1) = rest.length := ih _ called
        rw [Expr.parameters, List.length_cons]
        omega
  | case2 parameter body frame noFunction =>
    by_cases low : before.arguments.length ≤ base
    · rw [call_of_le low] at called
      cases called
    · cases waiting : before.arguments with
      | nil => exact absurd (waiting ▸ Nat.zero_le base) low
      | cons argument rest =>
        rw [call_body noFunction waiting low] at called
        have kept : after.arguments.length = rest.length := keeps _ _ _ _ _ called
        rw [Expr.parameters_of_noFunction noFunction, List.length_cons, kept]

/-! ## Names that are functions and names that are none -/

variable {definition : Option (Lambda Expr)} {failure : EvalError} {missing : String}

/-- A name that is a function is resolved without evaluating anything. -/
theorem resolve_of_function (found : before.owner? frame name = some (owner, .function lambda)) :
    eval.resolve name frame before = .ok (.function lambda owner) before := by
  rw [resolve, get_bind, found]
  rfl

/-- What evaluating the operand of a name makes of the name. -/
def settleName (owner : Nat) (name : String) (operand : Expr) :
    Machine.End Value → Machine.End Resolved
  | .ok value after => .ok (.value value) (after.setSlot owner name (.ready value))
  | .error failure after => .error failure (after.setSlot owner name (.pending operand))

/-- A name that waits is evaluated in the frame that owns it. -/
theorem resolve_of_pending {operand : Expr}
    (found : before.owner? frame name = some (owner, .pending operand)) :
    eval.resolve name frame before =
      settleName owner name operand
        (eval operand owner (before.setSlot owner name .resolving)) := by
  rw [resolve, get_bind, found]
  dsimp only
  rw [bind_of_ok _ (Machine.setSlot_eq _ _ _ _)]
  cases ran : eval operand owner (before.setSlot owner name .resolving) with
  | ok value after => exact bind_of_ok _ (Machine.attempt_of_ok ran)
  | error failure after => exact bind_of_ok _ (Machine.attempt_of_error ran)

/-- Only a name that is a function is resolved to one. -/
theorem owner?_of_resolve
    (resolved : eval.resolve name frame before = .ok (.function lambda owner) after) :
    before.owner? frame name = some (owner, .function lambda) := by
  cases found : before.owner? frame name with
  | none =>
    rw [resolve, get_bind, found] at resolved
    cases resolved
  | some place =>
    rcases place with ⟨holder, slot⟩
    cases slot with
    | pending operand =>
      rw [resolve_of_pending found] at resolved
      cases ran : eval operand holder (before.setSlot holder name .resolving) with
      | ok value after =>
        rw [ran] at resolved
        cases resolved
      | error failure after =>
        rw [ran] at resolved
        cases resolved
    | function held =>
      rw [resolve, get_bind, found] at resolved
      cases resolved
      rfl
    | _ =>
      rw [resolve, get_bind, found] at resolved
      cases resolved

theorem apply_of_function (found : before.owner? frame name = some (owner, .function lambda)) :
    eval.apply name definition frame base before =
      eval.call name base lambda.parameter lambda.body owner before := by
  rw [apply, bind_of_ok _ (Machine.attempt_of_ok (resolve_of_function found))]

theorem apply_of_value (resolved : eval.resolve name frame before = .ok (.value value) after) :
    eval.apply name definition frame base before = .ok value after := by
  rw [apply, bind_of_ok _ (Machine.attempt_of_ok resolved)]
  rfl

/-- A failure is handed on if there is no definition to call. -/
theorem apply_of_error (failed : eval.resolve name frame before = .error failure after)
    (plain : definition = none ∨ ∀ missing, failure ≠ .unresolvedIdentifier missing) :
    eval.apply name definition frame base before = .error failure after := by
  rw [apply, bind_of_ok _ (Machine.attempt_of_error failed)]
  cases failure with
  | unresolvedIdentifier missing =>
    rw [plain.resolve_right fun other => other missing rfl]
    rfl
  | _ => rfl

/-- A name that is no function, and whose definition is not called, is evaluated
without a regard to the base. -/
theorem apply_eq_force
    (noFunction : ∀ owner lambda, before.owner? frame name ≠ some (owner, .function lambda))
    (plain : ∀ failure after, eval.resolve name frame before = .error failure after →
      definition = none ∨ ∀ missing, failure ≠ .unresolvedIdentifier missing) :
    eval.apply name definition frame base before = eval.force name frame before := by
  cases resolved : eval.resolve name frame before with
  | ok result after =>
    rw [force, bind_of_ok _ resolved]
    cases result with
    | function lambda owner => exact absurd (owner?_of_resolve resolved) (noFunction owner lambda)
    | value value => exact apply_of_value resolved
  | error failure after =>
    rw [force, bind_of_error _ resolved]
    exact apply_of_error resolved (plain failure after resolved)

/-- Where a name is not resolved, its definition is called. -/
theorem apply_of_unresolved
    (failed : eval.resolve name frame before = .error (.unresolvedIdentifier missing) after) :
    eval.apply name (some lambda) frame base before =
      eval.call name base lambda.parameter lambda.body frame after := by
  rw [apply, bind_of_ok _ (Machine.attempt_of_error failed)]

end Evaluator

/-! ## Arguments that are left alone -/

theorem Persists.arguments_of_ends {α : Type} {step deeper : Machine α} {result : Machine.End α}
    (persists : Persists (· = before.arguments) step deeper) (ran : step before = result)
    (ends : ¬ Cut result) : (lastMemory result).arguments = before.arguments := by
  subst ran
  exact ((persists before).resolve_left ends).2.waits rfl

theorem arguments_of_evaluate {depth : Nat} {expression : Expr}
    (evaluated : evaluate depth expression frame before = .ok value after) :
    after.arguments = before.arguments :=
  (persistent_evaluate (Nat.le_refl depth) expression frame _).arguments_of_ends evaluated
    (by rintro ⟨_, ⟨⟩⟩)

theorem Evaluator.arguments_of_resolve {depth : Nat} {result : Machine.End Resolved}
    (resolved : (evaluate depth).resolve name frame before = result) (ends : ¬ Cut result) :
    (lastMemory result).arguments = before.arguments :=
  ((persistent_evaluate (Nat.le_refl depth)).resolve name frame).arguments_of_ends resolved ends

theorem Evaluator.arguments_of_force {depth : Nat}
    (forced : (evaluate depth).force name frame before = .ok value after) :
    after.arguments = before.arguments :=
  ((persistent_evaluate (Nat.le_refl depth)).force name frame).arguments_of_ends forced
    (by rintro ⟨_, ⟨⟩⟩)

end Manifest
