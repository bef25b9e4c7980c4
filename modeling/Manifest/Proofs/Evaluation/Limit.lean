import Manifest.Proofs.Evaluation.Persistence

/-!
# What evaluation comes to

An evaluation is run to a limited depth.  What it comes to is the end that it has
to every depth that is great enough, if there is one.  So runs can be put together
without counting their depths.
-/

namespace Manifest

open Stepwise

/-- How a run ends. -/
abbrev Machine.End (α : Type) := EStateM.Result EvalError Memory α

variable {α β : Type} {run first : Nat → Machine α} {next : Nat → α → Machine β}
  {before after : Memory} {depth : Nat}

/-- Unless its depth is used up, a run is the same to any greater depth. -/
def Lasting (run : Nat → Machine α) : Prop :=
  ∀ ⦃depth further⦄, depth ≤ further → ∀ before,
    Cut (run depth before) ∨ run further before = run depth before

theorem Lasting.of_persists {waits : List Value → Prop}
    (persists : ∀ ⦃depth further⦄, depth ≤ further → Persists waits (run depth) (run further)) :
    Lasting run :=
  fun _ _ le before => (persists le before).imp_right And.left

section Limit

open Classical

/-- An end that is not cut off by its depth, if there is one. -/
noncomputable def anyEnd (ends : Nat → Machine.End α) : Option (Machine.End α) :=
  if reached : ∃ depth, ¬ Cut (ends depth) then some (ends reached.choose) else none

/-- What runs of growing depth come to. -/
noncomputable def limit (run : Nat → Machine α) (before : Memory) : Option (Machine.End α) :=
  anyEnd fun depth => run depth before

theorem limit_congr {other : Nat → Machine α} {later : Memory}
    (same : ∀ depth, run depth before = other depth later) :
    limit run before = limit other later :=
  congrArg anyEnd (funext same)

theorem limit_eq_none_iff : limit run before = none ↔ ∀ depth, Cut (run depth before) := by
  rw [limit, anyEnd]
  split
  · rename_i ends
    refine iff_of_false (fun none => nomatch none) fun cut => ?_
    exact ends.choose_spec (cut _)
  · rename_i endless
    exact iff_of_true rfl (not_exists_not.mp endless)

namespace Lasting

variable (lasting : Lasting run)

include lasting

theorem limit_of_ends (ends : ¬ Cut (run depth before)) :
    limit run before = some (run depth before) := by
  have some : ∃ depth, ¬ Cut (run depth before) := ⟨depth, ends⟩
  rw [limit, anyEnd, dif_pos some]
  rcases Nat.le_total some.choose depth with le | le
  · rw [(lasting le before).resolve_left some.choose_spec]
  · rw [(lasting le before).resolve_left ends]

theorem limit_eq_some_iff {result : Machine.End α} :
    limit run before = some result ↔ ∃ depth, run depth before = result ∧ ¬ Cut result := by
  constructor
  · intro known
    by_cases ends : ∃ depth, ¬ Cut (run depth before)
    · rcases ends with ⟨depth, ends⟩
      cases (lasting.limit_of_ends ends).symm.trans known
      exact ⟨depth, rfl, ends⟩
    · rw [limit_eq_none_iff.mpr (not_exists_not.mp ends)] at known
      cases known
  · rintro ⟨depth, rfl, ends⟩
    exact lasting.limit_of_ends ends

/-- What runs come to is their end to all depths from some depth on. -/
theorem eventually {result : Machine.End α} (known : limit run before = some result) :
    ∃ depth, ∀ further, depth ≤ further → run further before = result := by
  rcases lasting.limit_eq_some_iff.mp known with ⟨depth, rfl, ends⟩
  exact ⟨depth, fun further le => (lasting le before).resolve_left ends⟩

/-- The first depth does not matter. -/
theorem limit_succ : limit (fun depth => run (depth + 1)) before = limit run before := by
  have later : Lasting fun depth => run (depth + 1) :=
    fun _ _ le => lasting (Nat.succ_le_succ le)
  cases known : limit run before with
  | none => exact limit_eq_none_iff.mpr fun depth => limit_eq_none_iff.mp known (depth + 1)
  | some result =>
    rcases lasting.limit_eq_some_iff.mp known with ⟨depth, rfl, ends⟩
    refine later.limit_eq_some_iff.mpr ⟨depth, ?_, ends⟩
    exact (lasting (Nat.le_succ depth) before).resolve_left ends

end Lasting
end Limit

/-- Go on with what a run has come to. -/
def andThen (front : Option (Machine.End α)) (next : α → Memory → Option (Machine.End β)) :
    Option (Machine.End β) :=
  front.bind fun result =>
    match result with
    | .ok value after => next value after
    | .error failure after => some (.error failure after)

/-- Runs one after the other come to a result where each of them does. -/
theorem andThen_eq_ok {front : Option (Machine.End α)} {next : α → Memory → Option (Machine.End β)}
    {result : β} (known : andThen front next = some (.ok result after)) :
    ∃ value middle, front = some (.ok value middle) ∧
      next value middle = some (.ok result after) := by
  rcases front with _ | (⟨value, middle⟩ | _)
  · cases known
  · exact ⟨value, middle, rfl, known⟩
  · cases known

theorem Lasting.bind (lasting : Lasting first) (further : ∀ value, Lasting (next · value)) :
    Lasting fun depth => first depth >>= next depth := by
  intro depth more le before
  rcases lasting le before with ⟨after, cut⟩ | same
  · exact .inl ⟨after, bind_of_error _ cut⟩
  · dsimp only
    cases ran : first depth before with
    | ok value middle =>
      rw [ran] at same
      rw [bind_of_ok _ ran, bind_of_ok _ same]
      exact further value le middle
    | error failure after =>
      rw [ran] at same
      rw [bind_of_error _ ran, bind_of_error _ same]
      exact .inr rfl

/-- Steps one after the other come to what their runs come to one after the other. -/
theorem limit_bind (lasting : Lasting first) (further : ∀ value, Lasting (next · value)) :
    limit (fun depth => first depth >>= next depth) before =
      andThen (limit first before) fun value middle => limit (next · value) middle := by
  have both := lasting.bind further
  cases known : limit first before with
  | none =>
    refine limit_eq_none_iff.mpr fun depth => ?_
    rcases limit_eq_none_iff.mp known depth with ⟨after, cut⟩
    exact ⟨after, bind_of_error _ cut⟩
  | some result =>
    rcases lasting.eventually known with ⟨least, same⟩
    cases result with
    | error failure after =>
      have failed := bind_of_error (next least) (same least (Nat.le_refl _))
      rcases lasting.limit_eq_some_iff.mp known with ⟨_, _, ends⟩
      refine both.limit_eq_some_iff.mpr ⟨least, failed, ?_⟩
      rintro ⟨_, ⟨⟩⟩
      exact ends ⟨after, rfl⟩
    | ok value middle =>
      change _ = limit (next · value) middle
      cases behind : limit (next · value) middle with
      | none =>
        refine limit_eq_none_iff.mpr fun depth => ?_
        rcases lasting (Nat.le_max_left depth least) before with ⟨after, cut⟩ | ends
        · exact ⟨after, bind_of_error _ cut⟩
        · rw [same _ (Nat.le_max_right depth least)] at ends
          rw [bind_of_ok _ ends.symm]
          exact limit_eq_none_iff.mp behind depth
      | some result =>
        rcases (further value).eventually behind with ⟨deep, reached⟩
        rcases (further value).limit_eq_some_iff.mp behind with ⟨_, _, ends⟩
        refine both.limit_eq_some_iff.mpr ⟨max least deep, ?_, ends⟩
        rw [bind_of_ok _ (same _ (Nat.le_max_left _ _))]
        exact reached _ (Nat.le_max_right _ _)

/-- A step that does not evaluate anything. -/
theorem limit_const {step : Machine α} (ends : ¬ Cut (step before)) :
    limit (fun _ => step) before = some (step before) := by
  have lasting : Lasting fun _ => step := fun _ _ _ _ => .inr rfl
  exact @Lasting.limit_of_ends _ _ _ 0 lasting ends

/-- An end is changed without a regard to depth. -/
theorem limit_map {change : Machine.End α → Machine.End β} {other : Nat → Machine β}
    (lasting : Lasting run) (further : Lasting other)
    (changed : ∀ depth, other depth before = change (run depth before))
    (cut : ∀ result, Cut (change result) ↔ Cut result) :
    limit other before = (limit run before).map change := by
  cases known : limit run before with
  | none =>
    refine limit_eq_none_iff.mpr fun depth => ?_
    rw [changed, cut]
    exact limit_eq_none_iff.mp known depth
  | some result =>
    rcases lasting.limit_eq_some_iff.mp known with ⟨depth, same, ends⟩
    refine further.limit_eq_some_iff.mpr ⟨depth, ?_, ?_⟩
    · rw [changed, same]
    · exact mt (cut result).mp ends

end Manifest
