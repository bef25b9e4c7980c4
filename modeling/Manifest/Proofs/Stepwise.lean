import Manifest.Program.Frame

/-!
# Steps one after the other

The parser and the evaluator are steps on a state that either succeed or fail.
A run of a sequence of steps is taken apart here: it succeeds when its steps
succeed one after the other, and it fails at the first that fails.
-/

namespace Manifest
namespace Stepwise

variable {ε σ α β : Type}

theorem bind_eq_ok {first : EStateM ε σ α} {next : α → EStateM ε σ β} {start stop : σ}
    {result : β} :
    (first >>= next) start = .ok result stop ↔
      ∃ value middle, first start = .ok value middle ∧ next value middle = .ok result stop := by
  simp only [bind, EStateM.bind]
  cases first start with
  | ok value middle =>
    constructor
    · intro succeeded
      exact ⟨value, middle, rfl, succeeded⟩
    · rintro ⟨_, _, same, succeeded⟩
      cases same
      exact succeeded
  | error failure middle => simp

theorem bind_eq_error {first : EStateM ε σ α} {next : α → EStateM ε σ β} {start stop : σ}
    {failure : ε} :
    (first >>= next) start = .error failure stop ↔
      first start = .error failure stop ∨
        ∃ value middle,
          first start = .ok value middle ∧ next value middle = .error failure stop := by
  simp only [bind, EStateM.bind]
  cases first start with
  | ok value middle =>
    constructor
    · intro failed
      exact .inr ⟨value, middle, rfl, failed⟩
    · rintro (failed | ⟨_, _, same, failed⟩)
      · cases failed
      · cases same
        exact failed
  | error failure middle => simp

/-- A step that has succeeded hands its value and state to the next one. -/
theorem bind_of_ok {first : EStateM ε σ α} (next : α → EStateM ε σ β) {start middle : σ}
    {value : α} (succeeded : first start = .ok value middle) :
    (first >>= next) start = next value middle := by
  simp only [bind, EStateM.bind, succeeded]

/-- A step that has failed is the end of a run. -/
theorem bind_of_error {first : EStateM ε σ α} (next : α → EStateM ε σ β) {start stop : σ}
    {failure : ε} (failed : first start = .error failure stop) :
    (first >>= next) start = .error failure stop := by
  simp only [bind, EStateM.bind, failed]

theorem get_bind (next : σ → EStateM ε σ β) (start : σ) :
    (get >>= next) start = next start start :=
  rfl

theorem map_eq_ok {step : EStateM ε σ α} {change : α → β} {start stop : σ} {result : β} :
    (change <$> step) start = .ok result stop ↔
      ∃ value, step start = .ok value stop ∧ change value = result := by
  simp only [Functor.map, EStateM.map]
  cases step start with
  | ok value middle =>
    constructor
    · intro changed
      cases changed
      exact ⟨value, rfl, rfl⟩
    · rintro ⟨_, same, rfl⟩
      cases same
      rfl
  | error failure middle => simp

/-- A change of the result goes through an equation of runs. -/
theorem map_congr {step other : EStateM ε σ α} (change : α → β) {start begin : σ}
    (same : step start = other begin) :
    (change <$> step) start = (change <$> other) begin := by
  simp only [Functor.map, EStateM.map, same]

theorem pure_eq_ok {value result : α} {start stop : σ} :
    (pure value : EStateM ε σ α) start = .ok result stop ↔ value = result ∧ start = stop := by
  simp only [pure, EStateM.pure, EStateM.Result.ok.injEq]

end Stepwise

/-- A check of a result is passed by some result. -/
theorem any_toOption {outcome : Except ε α} {check : α → Bool}
    (checked : outcome.toOption.any check = true) :
    ∃ result, outcome = .ok result ∧ check result = true := by
  cases outcome with
  | ok result => exact ⟨result, rfl, checked⟩
  | error failure => cases checked

end Manifest
