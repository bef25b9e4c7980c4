import Manifest.Proofs.Mapping

/-!
# Names that have been evaluated

A name is evaluated when it is first asked for, while others of its section may still
wait or be under way, and from then on it has the value that was found.  When a section
has been evaluated, none of its names waits any more.  The value of a name is the one
that its operand comes to behind the section, where all the names have theirs.
-/

namespace Manifest

open Stepwise

variable {eval : Evaluator} {before after : Memory} {depth frame inside : Nat} {name : String}
  {operand : Expr} {expressions : List Expr} {part : Section Expr} {harvest gathered : Harvest}
  {value : Value} {slot : Slot}

/-! ## Settled names -/

/-- What a name stands for once it has been evaluated. -/
inductive Slot.Settled : Slot → Prop
  | ready (value : Value) : Settled (.ready value)
  | function (lambda : Lambda Expr) : Settled (.function lambda)

/-- A frame has a name, and it neither waits nor is under way. -/
def Memory.Settles (memory : Memory) (frame : Nat) (name : String) : Prop :=
  ∃ slot, memory.slot? frame name = some slot ∧ slot.Settled

namespace Memory.Advances

/-- A name does not get lost. -/
theorem stands (advances : before.Advances after) (holds : before.slot? frame name = some slot) :
    ∃ later, after.slot? frame name = some later := by
  have becomes := advances.slot frame (lt_size_of_slot? holds) name
  rw [holds] at becomes
  generalize after.slot? frame name = finish at becomes
  cases becomes with
  | same => exact ⟨_, rfl⟩
  | ready operand value => exact ⟨_, rfl⟩

theorem settles (advances : before.Advances after) (settled : before.Settles frame name) :
    after.Settles frame name := by
  rcases settled with ⟨slot, holds, settled⟩
  have becomes := advances.slot frame (lt_size_of_slot? holds) name
  rw [holds] at becomes
  rw [Settles]
  generalize after.slot? frame name = finish at becomes
  cases becomes with
  | same => exact ⟨slot, rfl, settled⟩
  | ready operand value => exact ⟨_, rfl, .ready value⟩

end Memory.Advances

/-- What an orderly step leaves behind. -/
theorem Orderly.advances {α : Type} {step : Nat → Machine α} {result : α} (base : Nat)
    (orderly : Orderly (fun _ => True) step) (ran : step base before = .ok result after) :
    before.Advances after := by
  have tidy := (orderly base before).2
  rw [ran] at tidy
  exact tidy.advances

/-! ## Asking for a name -/

namespace Evaluator.Orderly

variable (orderly : eval.Orderly)

include orderly

/-- A name of the frame that has been resolved is settled. -/
theorem settles_of_resolve {resolved : Resolved} (holds : before.slot? frame name = some slot)
    (ran : eval.resolve name frame before = .ok resolved after) : after.Settles frame name := by
  have found := Memory.owner?_here holds
  cases slot with
  | pending operand =>
    rw [Evaluator.resolve_of_pending found] at ran
    cases evaluated : eval operand frame (before.setSlot frame name .resolving) with
    | error failure middle =>
      rw [evaluated] at ran
      cases ran
    | ok value middle =>
      rw [evaluated] at ran
      cases ran
      have grown := (Orderly.advances 0 (orderly.operand operand frame) evaluated).size_le
      rw [Memory.size_setSlot] at grown
      exact ⟨_, Memory.slot?_setSlot_self
        (Nat.lt_of_lt_of_le (Memory.lt_size_of_slot? holds) grown), .ready value⟩
  | resolving =>
    rw [Evaluator.resolve, get_bind, found] at ran
    cases ran
  | ready value =>
    rw [Evaluator.resolve, get_bind, found] at ran
    cases ran
    exact ⟨_, holds, .ready value⟩
  | function lambda =>
    rw [Evaluator.resolve, get_bind, found] at ran
    cases ran
    exact ⟨_, holds, .function lambda⟩

theorem settles_of_force (holds : before.slot? frame name = some slot)
    (ran : eval.force name frame before = .ok value after) : after.Settles frame name := by
  rcases bind_eq_ok.mp ran with ⟨resolved, middle, first, behind⟩
  have same : middle = after := by
    cases resolved <;> cases behind <;> rfl
  subst same
  exact orderly.settles_of_resolve holds first

/-- Every name that is assigned something else than a function is asked for. -/
theorem settles_of_gatherAll
    (ran : eval.gatherAll frame harvest expressions before = .ok gathered after)
    (member : .assignment name operand ∈ expressions) (plain : operand.isFunction = false)
    (holds : before.slot? frame name = some slot) : after.Settles frame name := by
  induction expressions generalizing harvest before slot with
  | nil => cases member
  | cons expression rest ih =>
    rcases bind_eq_ok.mp ran with ⟨following, middle, first, behind⟩
    rcases List.mem_cons.mp member with rfl | further
    · rw [Evaluator.gather, if_neg (by rw [plain]; exact Bool.false_ne_true)] at first
      rcases bind_eq_ok.mp first with ⟨value, reached, forced, same⟩
      cases same
      have advances := (orderly.gatherAll frame _ rest).advances 0 behind
      exact advances.settles (orderly.settles_of_force holds forced)
    · have advances := (orderly.gather frame harvest expression).advances 0 first
      rcases advances.stands holds with ⟨later, kept⟩
      exact ih behind further kept

/-- Behind a section all the names that it assigns are settled, and its frame, which is a
new one, has no other names. -/
theorem settles_of_sectionValue
    (ran : eval.sectionValue frame part before = .ok (value, inside) after) :
    inside = before.frames.size ∧ ∀ name,
      (Section.lastOperand? part.expressions name = none → after.slot? inside name = none) ∧
      ((Section.lastOperand? part.expressions name).isSome = true → after.Settles inside name) := by
  rw [Evaluator.sectionValue, bind_of_ok _ (Machine.openFrame_eq _ _)] at ran
  rcases bind_eq_ok.mp ran with ⟨harvest, middle, gathered, same⟩
  cases same
  have advances : (before.enter frame part).Advances after :=
    (orderly.gatherAll _ .empty part.expressions).advances 0 gathered
  have inner : before.frames.size < (before.enter frame part).frames.size :=
    Nat.lt_of_lt_of_eq (Nat.lt_succ_self _) Memory.size_openFrame.symm
  have entered (name : String) : (before.enter frame part).slot? before.frames.size name =
      (Section.lastOperand? part.expressions name).map Slot.ofOperand := by
    rw [Memory.enter, Evaluator.slots_eq, Memory.slot?_openFrame_self, ← Layer.get?_ofSection]
    rfl
  refine ⟨rfl, fun name => ⟨fun none => ?_, fun assigned => ?_⟩⟩
  · have becomes := advances.slot _ inner name
    rw [entered, none] at becomes
    generalize after.slot? _ name = finish at becomes ⊢
    cases becomes
    rfl
  · rcases Option.isSome_iff_exists.mp assigned with ⟨operand, last⟩
    have holds := entered name
    rw [last] at holds
    cases function : operand.isFunction with
    | true =>
      cases operand with
      | function lambda => exact advances.settles ⟨_, holds, .function lambda⟩
      | _ => cases function
    | false =>
      have member := Section.mem_of_lastOperand? last
      exact orderly.settles_of_gatherAll gathered member function holds

end Evaluator.Orderly

/-! ## Sections -/

/-- A name of a frame that is settled is what its operand means there. -/
theorem Depicts.ready_of_settles {scenes : Scenes} {memory : Memory}
    (depicts : Depicts scenes memory) (settled : memory.Settles frame name)
    (own : (scenes frame).own? name = some (.pending operand)) :
    ∃ held depth, memory.slot? frame name = some (.ready held) ∧
      meaning depth (scenes frame) operand = .ok held := by
  rcases settled with ⟨slot, holds, settled⟩
  have related := depicts.slots frame (Memory.lt_size_of_slot? holds) name
  rw [own, holds] at related
  cases related with
  | some depicted =>
    cases depicted with
    | same => cases settled
    | resolving => cases settled
    | ready means => exact ⟨_, _, holds, means⟩

/-- When a section has been evaluated, every name of its frame has its value or is a
function.  A name whose last operand is no function has the value that this operand comes
to when it is evaluated again in the frame. -/
theorem section_memoized (rooted : before.Rooted) (within : frame < before.frames.size)
    (evaluated : (evaluate depth).sectionValue frame part before = .ok (value, inside) after) :
    (∀ name slot, after.slot? inside name = some slot → slot.Settled) ∧
      ∀ name operand, Section.lastOperand? part.expressions name = some operand →
        operand.isFunction = false →
        ∃ held, after.slot? inside name = some (.ready held) ∧
          EvaluatesTo operand inside after (.ok held) := by
  rcases (orderly_evaluate depth).settles_of_sectionValue evaluated with ⟨rfl, names⟩
  refine ⟨fun name slot holds => ?_, fun name operand last plain => ?_⟩
  · cases last : Section.lastOperand? part.expressions name with
    | none =>
      rw [(names name).1 last] at holds
      cases holds
    | some operand =>
      rcases (names name).2 (by rw [last]; rfl) with ⟨_, held, settled⟩
      cases holds.symm.trans held
      exact settled
  · have tracked := (adequate_evaluate depth).sectionValue rooted.depicts within part
    rw [evaluated] at tracked
    cases tracked with
    | @ok later _ _ _ _ follows _ agreed =>
      rcases agreed with ⟨_, stands, shape, _⟩
      have own : (later before.frames.size).own? name = some (.pending operand) := by
        have names : (later before.frames.size).own? name =
            (Section.lastOperand? part.expressions name).map Slot.ofOperand := by
          rw [shape]
          exact Layer.get?_ofSection part.expressions name
        rw [names, last]
        cases operand with
        | function lambda => cases plain
        | _ => rfl
      have settled := (names name).2 (by rw [last]; rfl)
      rcases follows.depicts.ready_of_settles settled own with ⟨held, enough, holds, means⟩
      refine ⟨held, holds, (evaluatesTo_ok_iff follows.depicts
        (rooted.not_regress_behind follows) stands).mpr ⟨enough, means⟩⟩

/-- Of two assignments the name has the value of the last one, also where it is used
in front of both. -/
theorem section_memoized_of_forward_reference : ∃ (part : Section Expr) (after : Memory),
    (evaluate 5).sectionValue 0 part (.ofBindings []) =
      .ok (.mapping [("a", .boolean true), ("b", .boolean true)], 1) after ∧
    (∀ name slot, after.slot? 1 name = some slot → slot.Settled) ∧
    Section.lastOperand? part.expressions "b" = some (.reference "a") ∧
    ∃ held, after.slot? 1 "b" = some (.ready held) ∧
      EvaluatesTo (.reference "a") 1 after (.ok held) := by
  let part : Section Expr := ⟨0, [.assignment "b" (.reference "a"),
    .assignment "a" (.scalar (.boolean false)), .assignment "a" (.scalar (.boolean true)),
    .assignment "f" (.function ⟨"x", .reference "x"⟩)]⟩
  have ran : ((evaluate 5).sectionValue 0 part).run' (Memory.ofBindings []) =
      some (.mapping [("a", .boolean true), ("b", .boolean true)], 1) := by
    decide +kernel
  delta EStateM.run' EStateM.run at ran
  cases evaluated : (evaluate 5).sectionValue 0 part (Memory.ofBindings []) with
  | error failure after =>
    rw [evaluated] at ran
    cases ran
  | ok found after =>
    rw [evaluated] at ran
    cases ran
    rcases section_memoized (Memory.rooted_ofBindings []) Nat.one_pos evaluated with
      ⟨settled, again⟩
    exact ⟨part, after, evaluated, settled, rfl, again "b" (.reference "a") rfl rfl⟩

end Manifest
