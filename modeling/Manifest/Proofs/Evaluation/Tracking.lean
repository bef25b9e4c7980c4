import Manifest.Proofs.Evaluation.Depiction
import Manifest.Proofs.Stepwise

/-!
# Steps that track what they mean

A step of the evaluator tracks a rule of meaning if it has the same outcome, to
whatever depth the rule needs.  A step that is cut off at its depth has no
meaning at that depth, and a step that runs into a name whose evaluation is
under way has a meaning only if that evaluation had one already.
-/

namespace Manifest

open Stepwise

/-- A rule of meaning whose outcomes stay. -/
def Steady {β : Type} (rule : Meaning → Except EvalError β) : Prop :=
  ∀ mean more : Meaning, mean.Grows more → Below (rule mean) (rule more)

/-- Why a step fails.  Inside a rule the depth counts one less, which the slack
makes up for. -/
inductive Fails {β : Type} (slack depth : Nat) (scenes : Scenes) (before : Memory)
    (rule : Meaning → Except EvalError β) : EvalError → Prop
  | exhausted : rule (meaning depth) = .error .exhausted →
      Fails slack depth scenes before rule .exhausted
  | cycle (name : String) :
      (∀ depth, rule (meaning depth) ≠ .error .exhausted →
        Regress scenes before (depth + slack)) →
      Fails slack depth scenes before rule (.cycle name)
  | other {failure : EvalError} {enough : Nat} : failure ≠ .exhausted →
      rule (meaning enough) = .error failure → Fails slack depth scenes before rule failure

/-- What a step and a rule agree about: their results in the memory behind the step. -/
abbrev Agreement (α β : Type) := Scenes → Memory → α → β → Prop

/-- The result of a step tracks a rule. -/
inductive Tracked {α β : Type} (slack depth : Nat) (scenes : Scenes) (before : Memory)
    (rule : Meaning → Except EvalError β) (agrees : Agreement α β)
    (waits : List Value → Prop) : EStateM.Result EvalError Memory α → Prop
  | ok {later : Scenes} {after : Memory} {result : α} {found : β} {enough : Nat} :
      Follows scenes before later after → rule (meaning enough) = .ok found →
      agrees later after result found →
      Tracked slack depth scenes before rule agrees waits (.ok result after)
  | error {later : Scenes} {after : Memory} {failure : EvalError} :
      Follows scenes before later after → waits after.arguments →
      Fails slack depth scenes before rule failure →
      Tracked slack depth scenes before rule agrees waits (.error failure after)

variable {α β γ δ : Type} {slack depth enough : Nat} {scenes later : Scenes}
  {before after : Memory} {rule : Meaning → Except EvalError β} {failure : EvalError}
  {next : β → Meaning → Except EvalError δ} {found : β}

/-! ## Steady rules -/

namespace Steady

theorem const (outcome : Except EvalError β) : Steady fun _ => outcome :=
  fun _ _ _ => .refl _

theorem bind (steady : Steady rule) (behind : ∀ value, Steady (next value)) :
    Steady fun mean => rule mean >>= fun value => next value mean :=
  fun mean more grows => (steady mean more grows).bind fun value => behind value mean more grows

/-- Outcomes that are not cut off are the same. -/
theorem eq (steady : Steady rule) (one : rule (meaning depth) ≠ .error .exhausted)
    (other : rule (meaning enough) ≠ .error .exhausted) :
    rule (meaning depth) = rule (meaning enough) := by
  rcases Nat.le_total depth enough with le | le
  · exact ((steady _ _ (meaning_grows le)).eq_of_ne one).symm
  · exact (steady _ _ (meaning_grows le)).eq_of_ne other

theorem ok_of_le (steady : Steady rule) (ok : rule (meaning depth) = .ok found)
    (le : depth ≤ enough) : rule (meaning enough) = .ok found := by
  rw [(steady _ _ (meaning_grows le)).eq_of_ne (by rw [ok]; rintro ⟨⟩), ok]

end Steady

/-! ## One step after the other -/

/-- A failure that a whole rule hands on from another rule. -/
theorem Fails.hand {first : Meaning → Except EvalError γ}
    (fails : Fails slack depth scenes before first failure)
    (cut : ∀ mean, first mean = .error .exhausted → rule mean = .error .exhausted)
    (same : ∀ mean, first mean = .error failure → rule mean = .error failure) :
    Fails slack depth scenes before rule failure := by
  cases fails with
  | exhausted reached => exact .exhausted (cut _ reached)
  | cycle name circle =>
    exact .cycle name fun depth known => circle depth fun reached => known (cut _ reached)
  | other genuine failed => exact .other genuine (same _ failed)

/-- A failure of the first step. -/
theorem Fails.front (fails : Fails slack depth scenes before rule failure) :
    Fails slack depth scenes before (fun mean => rule mean >>= fun value => next value mean)
      failure :=
  fails.hand (fun _ cut => by rw [cut]; rfl) fun _ failed => by rw [failed]; rfl

/-- Behind one rule a whole rule goes on as another one. -/
structure Continues (first : Meaning → Except EvalError γ) (outcome : Except EvalError γ)
    (other rule : Meaning → Except EvalError β) : Prop where
  steady : Steady first
  settled : outcome ≠ .error .exhausted
  found : ∃ enough, first (meaning enough) = outcome
  cut : ∀ mean, first mean = .error .exhausted → rule mean = .error .exhausted
  same : ∀ mean, first mean = outcome → rule mean = other mean
  steadyOther : Steady other

namespace Continues

variable {first : Meaning → Except EvalError γ} {outcome : Except EvalError γ}
  {other : Meaning → Except EvalError β}

/-- Where the whole rule is not cut off, it is the other one. -/
theorem eq (continues : Continues first outcome other rule)
    (known : rule (meaning depth) ≠ .error .exhausted) :
    rule (meaning depth) = other (meaning depth) := by
  rcases continues.found with ⟨enough, found⟩
  refine continues.same _ ?_
  rw [continues.steady.eq (fun cut => known (continues.cut _ cut))
    (by rw [found]; exact continues.settled), found]

/-- To some depth the whole rule has the outcome of the other one. -/
theorem reaches {answer : Except EvalError β} (continues : Continues first outcome other rule)
    (found : other (meaning depth) = answer) (settled : answer ≠ .error .exhausted) :
    ∃ enough, rule (meaning enough) = answer := by
  rcases continues.found with ⟨enough, reached⟩
  refine ⟨max enough depth, ?_⟩
  have further := (continues.steady _ _ (meaning_grows (Nat.le_max_left enough depth))).eq_of_ne
    (by rw [reached]; exact continues.settled)
  have last := (continues.steadyOther _ _ (meaning_grows (Nat.le_max_right enough depth))).eq_of_ne
    (by rw [found]; exact settled)
  rw [continues.same _ (further.trans reached), last, found]

theorem fails (continues : Continues first outcome other rule)
    (follows : Follows scenes before later after)
    (fails : Fails slack depth later after other failure) :
    Fails slack depth scenes before rule failure := by
  cases fails with
  | exhausted cut =>
    refine .exhausted (Classical.byContradiction fun known => known ?_)
    rw [continues.eq known, cut]
  | cycle name circle =>
    refine .cycle name fun depth known => (circle depth fun cut => known ?_).earlier follows
    rw [continues.eq known, cut]
  | other genuine failed =>
    rcases continues.reaches failed (fun equal => genuine (Except.error.inj equal)) with
      ⟨enough, reached⟩
    exact .other genuine reached

theorem tracked {agrees : Agreement α β} {waits : List Value → Prop}
    {result : EStateM.Result EvalError Memory α} (continues : Continues first outcome other rule)
    (follows : Follows scenes before later after)
    (tracked : Tracked slack depth later after other agrees waits result) :
    Tracked slack depth scenes before rule agrees waits result := by
  cases tracked with
  | ok following found agreed =>
    rcases continues.reaches found (by rintro ⟨⟩) with ⟨enough, reached⟩
    exact .ok (follows.trans following) reached agreed
  | error following waiting fails =>
    exact .error (follows.trans following) waiting (continues.fails follows fails)

/-- A rule goes on with what another rule has found. -/
theorem of_bind {rule : Meaning → Except EvalError β} {next : β → Meaning → Except EvalError δ}
    {found : β} (steady : Steady rule) (nexts : ∀ value, Steady (next value))
    (ok : rule (meaning enough) = .ok found) :
    Continues rule (.ok found) (next found)
      fun mean => rule mean >>= fun value => next value mean where
  steady := steady
  settled := by rintro ⟨⟩
  found := ⟨enough, ok⟩
  cut mean cut := by rw [cut]; rfl
  same mean same := by rw [same]; rfl
  steadyOther := nexts found

end Continues

namespace Tracked

variable {agrees : Agreement α β} {more : Agreement γ δ} {waits : List Value → Prop}
  {step : Machine α} {then_ : α → Machine γ} {result : EStateM.Result EvalError Memory α}

theorem bind (steady : Steady rule) (nexts : ∀ value, Steady (next value))
    (first : Tracked slack depth scenes before rule agrees waits (step before))
    (second : ∀ later after result found, Follows scenes before later after →
      agrees later after result found →
      Tracked slack depth later after (next found) more waits (then_ result after)) :
    Tracked slack depth scenes before (fun mean => rule mean >>= fun value => next value mean)
      more waits ((step >>= then_) before) := by
  cases ran : step before with
  | error failure after =>
    rw [ran] at first
    rw [show (step >>= then_) before = .error failure after from
      bind_eq_error.mpr (.inl ran)]
    cases first with
    | error follows waiting fails => exact .error follows waiting fails.front
  | ok result after =>
    rw [ran] at first
    rw [bind_of_ok _ ran]
    cases first with
    | ok follows ok agreed =>
      exact (Continues.of_bind steady nexts ok).tracked follows (second _ _ _ _ follows agreed)

/-- The same rule in front of what has been done before. -/
theorem behind (follows : Follows scenes before later after)
    (tracked : Tracked slack depth later after rule agrees waits result) :
    Tracked slack depth scenes before rule agrees waits result := by
  cases tracked with
  | ok following found agreed => exact .ok (follows.trans following) found agreed
  | error following waiting fails =>
    refine .error (follows.trans following) waiting ?_
    cases fails with
    | exhausted cut => exact .exhausted cut
    | cycle name circle =>
      exact .cycle name fun depth known => (circle depth known).earlier follows
    | other genuine failed => exact .other genuine failed

/-- The same rule with a weaker agreement. -/
theorem mono {agrees' : Agreement α β} {waits' : List Value → Prop} {slack' : Nat}
    (tracked : Tracked slack depth scenes before rule agrees waits result)
    (le : slack ≤ slack')
    (agree : ∀ later after result found, agrees later after result found →
      agrees' later after result found)
    (wait : ∀ arguments, waits arguments → waits' arguments) :
    Tracked slack' depth scenes before rule agrees' waits' result := by
  cases tracked with
  | ok follows found agreed => exact .ok follows found (agree _ _ _ _ agreed)
  | error follows waiting fails =>
    refine .error follows (wait _ waiting) ?_
    cases fails with
    | exhausted cut => exact .exhausted cut
    | cycle name circle =>
      exact .cycle name fun depth known => (circle depth known).weaken (by omega)
    | other genuine failed => exact .other genuine failed

theorem pure {result : α} {found : β} (depicts : Depicts scenes before)
    (agreed : agrees scenes before result found) :
    Tracked slack depth scenes before (fun _ => Pure.pure found) agrees waits
      ((Pure.pure result : Machine α) before) :=
  @Tracked.ok _ _ _ _ _ _ _ _ _ _ _ _ _ 0 (.refl depicts) rfl agreed

theorem throw (genuine : failure ≠ .exhausted) (depicts : Depicts scenes before)
    (waiting : waits before.arguments) :
    Tracked slack depth scenes before (fun _ => (MonadExcept.throw failure : Except EvalError β))
      agrees waits ((MonadExcept.throw failure : Machine α) before) :=
  .error (.refl depicts) waiting (@Fails.other _ _ _ _ _ _ _ 0 genuine rfl)

/-- The outcome of a rule is changed, and the step is as it was. -/
theorem map {more : Agreement α δ} (change : β → δ)
    (tracked : Tracked slack depth scenes before rule agrees waits result)
    (agree : ∀ later after result found, agrees later after result found →
      more later after result (change found)) :
    Tracked slack depth scenes before
      (fun mean => rule mean >>= fun value => Pure.pure (change value)) more waits result := by
  cases tracked with
  | @ok _ _ _ value enough follows found agreed =>
    have changed : (rule (meaning enough) >>= fun value => Pure.pure (change value)) =
        .ok (change value) := by
      rw [found]
      rfl
    exact .ok follows changed (agree _ _ _ _ agreed)
  | error follows waiting fails => exact .error follows waiting fails.front

end Tracked
end Manifest
