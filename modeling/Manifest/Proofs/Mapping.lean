import Manifest.Compile
import Manifest.Proofs.Evaluation.Hiding
import Manifest.Proofs.Evaluation.Views
import Manifest.Proofs.Inference.Soundness
import Manifest.Proofs.Rearrangement

/-!
# The mapping of a section

A section of assignments is the mapping of its keys.  The last assignment to a key
decides what the key stands for, but each assignment decides for itself whether the
mapping shows the key.  So a key that is assigned a value and is a function in the end
is shown as well, and as a function has no value, it is shown as a unit.
-/

namespace Manifest

variable {mean : Meaning} {scene : Scene} {harvest after : Harvest} {expressions : List Expr}
  {part : Section Expr} {key : String} {value held : Value} {operand : Expr}

namespace Section

/-- A key is shown if it is not private and some assignment to it is no function. -/
theorem shows_iff : shows key expressions = true ↔ isPrivate key = false ∧
    ∃ operand, .assignment key operand ∈ expressions ∧ operand.isFunction = false := by
  constructor
  · intro shown
    rcases List.any_eq_true.mp shown with ⟨expression, member, visible⟩
    cases expression with
    | assignment other operand =>
      rcases (Bool.and_eq_true _ _).mp visible with ⟨same, visible⟩
      cases beq_iff_eq.mp same
      rcases Bool.or_eq_false_iff.mp ((Bool.not_eq_true' _).mp visible) with ⟨visible, plain⟩
      exact ⟨visible, operand, member, plain⟩
    | _ => cases visible
  · rintro ⟨visible, operand, member, plain⟩
    refine List.any_eq_true.mpr ⟨_, member, (Bool.and_eq_true _ _).mpr ⟨beq_self_eq_true key, ?_⟩⟩
    rw [isHidden_eq, visible, plain]
    rfl

end Section

namespace Meaning

/-- What a section does not show is left as it was. -/
theorem get?_of_gatherAll (gathered : mean.gatherAll scene harvest expressions = .ok after)
    (unseen : Section.shows key expressions = false) :
    Fields.get? after.fields key = Fields.get? harvest.fields key := by
  induction expressions generalizing harvest with
  | nil =>
    cases gathered
    rfl
  | cons expression rest ih =>
    rcases outcome_bind_eq_ok.mp gathered with ⟨middle, first, behind⟩
    rcases Bool.or_eq_false_iff.mp unseen with ⟨here, further⟩
    rw [ih behind further]
    cases expression with
    | assignment other operand =>
      rcases gather_assignment_eq_ok.mp first with ⟨value, forced, rfl⟩
      dsimp only [enter]
      split
      · rfl
      · rename_i visible
        rw [Bool.not_eq_true] at visible
        change (other == key && !isHidden other operand) = false at here
        rw [visible, Bool.not_false, Bool.and_true] at here
        exact Fields.get?_insert_of_ne _ _ _ _ (Ne.symm (beq_eq_false_iff_ne.mp here))
    | yield operand =>
      rcases outcome_bind_eq_ok.mp first with ⟨value, _, same⟩
      cases same
      rfl
    | _ =>
      rcases outcome_bind_eq_ok.mp first with ⟨value, _, same⟩
      cases same
      rfl

/-- Assignments leave nothing but the fields of a mapping. -/
theorem value_of_gatherAll (gathered : mean.gatherAll scene harvest expressions = .ok after)
    (assignments : ∀ expression ∈ expressions, expression.isAssignment = true)
    (ordered : Fields.Ordered harvest.fields) (quiet : harvest.yields = [])
    (silent : harvest.trailing = none) :
    after.value = .mapping after.fields ∧ Fields.Ordered after.fields := by
  induction expressions generalizing harvest with
  | nil =>
    cases gathered
    refine ⟨?_, ordered⟩
    rw [Harvest.value, quiet, silent]
    rfl
  | cons expression rest ih =>
    rcases outcome_bind_eq_ok.mp gathered with ⟨middle, first, behind⟩
    rcases List.forall_mem_cons.mp assignments with ⟨own, others⟩
    cases expression with
    | assignment other operand =>
      rcases gather_assignment_eq_ok.mp first with ⟨value, _, rfl⟩
      refine ih behind others ?_ quiet rfl
      dsimp only [enter]
      split
      · exact ordered
      · exact Fields.ordered_insert ordered _ _
    | _ => cases own

end Meaning

/-! ## Sections of assignments -/

/-- Memory with the frame of a section. -/
def Memory.enter (memory : Memory) (frame : Nat) (part : Section Expr) : Memory :=
  memory.openFrame (Evaluator.slots ⟨[], some frame⟩ part.expressions)

/-- The last assignment to a key is no function, and its operand comes to a value in the
frame of the section. -/
def Section.AssignsLast (part : Section Expr) (memory : Memory) (frame : Nat) (key : String)
    (value : Value) : Prop :=
  ∃ operand, lastOperand? part.expressions key = some operand ∧ operand.isFunction = false ∧
    EvaluatesTo operand memory.frames.size (memory.enter frame part) (.ok value)

/-- The last assignment to a key is a function, and some other one is none. -/
def Section.EndsAsFunction (part : Section Expr) (key : String) : Prop :=
  (∃ operand, lastOperand? part.expressions key = some operand ∧ operand.isFunction = true) ∧
    ∃ other, .assignment key other ∈ part.expressions ∧ other.isFunction = false

theorem Memory.follows_enter {scenes : Scenes} {memory : Memory} {frame : Nat}
    (depicts : Depicts scenes memory) (inside : frame < memory.frames.size)
    (part : Section Expr) :
    Follows scenes memory
      (scenes.enter memory.frames.size (Meaning.inside (scenes frame) part))
      (memory.enter frame part) := by
  rw [enter, Evaluator.slots_eq]
  exact depicts.openFrame inside (Layer.get?_ofSection_ne part.expressions)

namespace Meaning

/-- Of the names of a section, a function is forced to a unit, and any other name to
what its last operand means. -/
theorem force_inside (last : Section.lastOperand? part.expressions key = some operand) :
    mean.force (inside scene part) key = .ok value ↔
      (operand.isFunction = false ∧ mean (inside scene part) operand = .ok value) ∨
        (operand.isFunction = true ∧ value = .unit) := by
  cases function : operand.isFunction with
  | true =>
    have own := find?_inside scene last
    cases operand with
    | function lambda =>
      have forced : mean.force (inside scene part) key = .ok .unit := by
        rw [force, resolve, own]
        rfl
      rw [forced]
      simp [eq_comm]
    | _ => cases function
  | false =>
    have own := find?_inside_of_last scene last function
    have forced : mean.force (inside scene part) key = mean (inside scene part) operand := by
      rw [force, resolve, own]
      dsimp only
      cases mean (inside scene part) operand <;> rfl
    rw [forced]
    simp

/-- The fields of a section of assignments. -/
theorem get?_iff
    (gathered : mean.gatherAll (inside scene part) .empty part.expressions = .ok after) :
    Fields.get? after.fields key = some held ↔ isPrivate key = false ∧
      ((∃ operand, Section.lastOperand? part.expressions key = some operand ∧
          operand.isFunction = false ∧ mean (inside scene part) operand = .ok held) ∨
        (part.EndsAsFunction key ∧ held = .unit)) := by
  by_cases shown : Section.shows key part.expressions = true
  · rcases field_of_gatherAll gathered (.inl shown) with ⟨value, forced, found⟩
    rcases Section.shows_iff.mp shown with ⟨visible, other, member, plain⟩
    rcases Option.isSome_iff_exists.mp (Section.assigns_of_mem member) with ⟨operand, last⟩
    rw [found, Option.some.injEq]
    constructor
    · rintro rfl
      refine ⟨visible, ?_⟩
      rcases (force_inside last).mp forced with ⟨plain, means⟩ | ⟨function, unit⟩
      · exact .inl ⟨operand, last, plain, means⟩
      · exact .inr ⟨⟨⟨operand, last, function⟩, other, member, plain⟩, unit⟩
    · rintro ⟨_, ⟨_, again, plain, means⟩ | ⟨⟨⟨_, again, function⟩, _⟩, unit⟩⟩
      · cases last.symm.trans again
        have same := forced.symm.trans ((force_inside last).mpr (.inl ⟨plain, means⟩))
        exact Except.ok.inj same
      · cases last.symm.trans again
        have same := forced.symm.trans ((force_inside last).mpr (.inr ⟨function, unit⟩))
        exact Except.ok.inj same
  · rw [Bool.not_eq_true] at shown
    rw [get?_of_gatherAll gathered shown]
    refine iff_of_false (fun none => nomatch none) ?_
    rintro ⟨visible, assigned⟩
    have some : ∃ operand, .assignment key operand ∈ part.expressions ∧
        operand.isFunction = false := by
      rcases assigned with ⟨operand, last, plain, _⟩ | ⟨⟨_, some⟩, _⟩
      · exact ⟨operand, Section.mem_of_lastOperand? last, plain⟩
      · exact some
    exact absurd (Section.shows_iff.mpr ⟨visible, some⟩) (by rw [shown]; exact Bool.false_ne_true)

end Meaning

/-- The operand of the last assignment comes to what it means inside the section. -/
theorem Memory.Rooted.assignsLast_iff {memory : Memory} {frame : Nat} (rooted : memory.Rooted)
    (within : frame < memory.frames.size) :
    part.AssignsLast memory frame key held ↔
      ∃ depth operand, Section.lastOperand? part.expressions key = some operand ∧
        operand.isFunction = false ∧
        meaning depth (Meaning.inside (memory.scenes frame) part) operand = .ok held := by
  have follows := Memory.follows_enter rooted.depicts within part
  have inner : memory.frames.size < (memory.enter frame part).frames.size :=
    Nat.lt_of_lt_of_eq (Nat.lt_succ_self _) Memory.size_openFrame.symm
  have comes (operand : Expr) : EvaluatesTo operand memory.frames.size (memory.enter frame part)
      (.ok held) ↔ ∃ depth,
        meaning depth (Meaning.inside (memory.scenes frame) part) operand = .ok held := by
    rw [evaluatesTo_ok_iff follows.depicts (rooted.not_regress_behind follows) inner,
      Scenes.enter_self]
  simp only [Section.AssignsLast, comes]
  constructor
  · rintro ⟨operand, last, plain, depth, means⟩
    exact ⟨depth, operand, last, plain, means⟩
  · rintro ⟨depth, operand, last, plain, means⟩
    exact ⟨operand, last, plain, depth, means⟩

/-- A section of assignments is the mapping of its keys, each with the value of its last
operand.  In addition it shows keys that end as functions after having been assigned
something else, and these are units.  Only where there are none, is it as the first
half says. -/
theorem section_mapping {depth frame inside : Nat} {before after : Memory}
    (rooted : before.Rooted) (within : frame < before.frames.size)
    (assignments : ∀ expression ∈ part.expressions, expression.isAssignment = true)
    (evaluated : (evaluate depth).sectionValue frame part before = .ok (value, inside) after) :
    ∃ fields, value = .mapping fields ∧ Fields.Ordered fields ∧
      (∀ key held, Fields.get? fields key = some held ↔ isPrivate key = false ∧
        (part.AssignsLast before frame key held ∨ part.EndsAsFunction key ∧ held = .unit)) ∧
      ((∀ key held, Fields.get? fields key = some held ↔
          isPrivate key = false ∧ part.AssignsLast before frame key held) ↔
        ∀ key, isPrivate key = false → ¬ part.EndsAsFunction key) := by
  have tracked := (adequate_evaluate depth).sectionValue rooted.depicts within part
  rw [evaluated] at tracked
  cases tracked with
  | @ok _ _ _ found enough _ means agreed =>
  rcases agreed with ⟨rfl, _⟩
  rcases outcome_bind_eq_ok.mp means with ⟨harvest, gathered, same⟩
  cases same
  rcases Meaning.value_of_gatherAll gathered assignments List.Pairwise.nil rfl rfl with
    ⟨mapping, ordered⟩
  have shows (key : String) (held : Value) :
      Fields.get? harvest.fields key = some held ↔ isPrivate key = false ∧
        (part.AssignsLast before frame key held ∨ part.EndsAsFunction key ∧ held = .unit) := by
    rw [rooted.assignsLast_iff within]
    constructor
    · intro found
      rcases (Meaning.get?_iff gathered).mp found with ⟨visible, last | function⟩
      · exact ⟨visible, .inl ⟨enough, last⟩⟩
      · exact ⟨visible, .inr function⟩
    · rintro ⟨visible, ⟨depth, operand, last, plain, means⟩ | function⟩
      · -- to the greater of both depths the section and the operand are both found
        have deeper := (Steady.gatherAll _ _ _).ok_of_le gathered (Nat.le_max_left enough depth)
        have reached := (Steady.expression _ operand).ok_of_le means (Nat.le_max_right enough depth)
        exact (Meaning.get?_iff deeper).mpr ⟨visible, .inl ⟨operand, last, plain, reached⟩⟩
      · exact (Meaning.get?_iff gathered).mpr ⟨visible, .inr function⟩
  refine ⟨harvest.fields, mapping, ordered, shows, fun alone key visible ends => ?_,
    fun none key held => ?_⟩
  · have unit := (shows key .unit).mpr ⟨visible, .inr ⟨ends, rfl⟩⟩
    rcases (alone key .unit).mp unit with ⟨_, operand, last, plain, _⟩
    rcases ends with ⟨⟨_, again, function⟩, _⟩
    cases last.symm.trans again
    cases plain.symm.trans function
  · rw [shows]
    refine and_congr_right fun visible => or_iff_left ?_
    rintro ⟨ends, _⟩
    exact none key visible ends

/-- Keys that are assigned again, one behind its use and one that was a function. -/
theorem section_mapping_of_repeated_keys : ∃ (part : Section Expr) (fields : Fields Value)
    (after : Memory), let before := Memory.ofBindings []
    (evaluate 5).sectionValue 0 part before = .ok (.mapping fields, 1) after ∧
      fields = [("a", .boolean true), ("b", .boolean true), ("g", .unit)] ∧
      ∀ key held, Fields.get? fields key = some held ↔
        isPrivate key = false ∧ part.AssignsLast before 0 key held := by
  let part : Section Expr := ⟨0, [.assignment "b" (.reference "a"),
    .assignment "a" (.scalar (.boolean false)), .assignment "_h" (.reference "b"),
    .assignment "a" (.scalar (.boolean true)),
    .assignment "g" (.function ⟨"x", .reference "x"⟩), .assignment "g" .unit]⟩
  have rooted := Memory.rooted_ofBindings []
  have ran : ((evaluate 5).sectionValue 0 part).run' (Memory.ofBindings []) =
      some (.mapping [("a", .boolean true), ("b", .boolean true), ("g", .unit)], 1) := by
    decide +kernel
  delta EStateM.run' EStateM.run at ran
  cases evaluated : (evaluate 5).sectionValue 0 part (Memory.ofBindings []) with
  | error failure after =>
    rw [evaluated] at ran
    cases ran
  | ok found after =>
    rw [evaluated] at ran
    cases ran
    rcases section_mapping rooted Nat.one_pos (by decide) evaluated with
      ⟨fields, same, _, _, alone⟩
    cases same
    refine ⟨part, _, after, evaluated, rfl, alone.mpr fun key _ ends => ?_⟩
    -- the only function among the operands is not the last one for its key
    rcases ends with ⟨⟨operand, last, function⟩, _⟩
    by_cases same : key = "g"
    · subst same
      have unit : Section.lastOperand? part.expressions "g" = some .unit := rfl
      cases unit.symm.trans last
      cases function
    · have member := Section.mem_of_lastOperand? last
      simp only [part, List.mem_cons, List.not_mem_nil, or_false, Expr.assignment.injEq] at member
      rcases member with ⟨_, rfl⟩ | ⟨_, rfl⟩ | ⟨_, rfl⟩ | ⟨_, rfl⟩ | ⟨own, _⟩ | ⟨own, _⟩
      · cases function
      · cases function
      · cases function
      · cases function
      · exact same own
      · exact same own

/-- A key that ends as a function is shown as a unit. -/
theorem function_shown_as_unit : ∃ compiled scope part operand,
    compile "f := 1\nf := x -> x\n" = .ok compiled ∧
      compiled.program.document.root = .scope scope (.block [part]) ∧
      (∀ expression ∈ part.expressions, expression.isAssignment = true) ∧
      Section.lastOperand? part.expressions "f" = some operand ∧ operand.isFunction = true ∧
      compiled.program.evaluate [] = .ok (.mapping [("f", .unit)]) := by
  have checked : ((compile "f := 1\nf := x -> x\n").toOption.any fun compiled =>
      (compiled.program.evaluate []).toOption.any fun value =>
        decide (value = .mapping [("f", .unit)]) &&
          compiled.program.document.root.onlySection?.any fun found =>
            found.2.expressions.all Expr.isAssignment &&
              (Section.lastOperand? found.2.expressions "f").any Expr.isFunction) = true := by
    decide +kernel
  rcases any_toOption checked with ⟨compiled, compiles, checked⟩
  rcases any_toOption checked with ⟨value, evaluated, checked⟩
  rcases (Bool.and_eq_true _ _).mp checked with ⟨same, checked⟩
  cases of_decide_eq_true same
  rcases (Option.any_eq_true _ _).mp checked with ⟨⟨scope, part⟩, only, checked⟩
  rcases (Bool.and_eq_true _ _).mp checked with ⟨assignments, last⟩
  rcases (Option.any_eq_true _ _).mp last with ⟨operand, found, function⟩
  exact ⟨compiled, scope, part, operand, compiles, Expr.onlySection?_eq_some only,
    List.all_eq_true.mp assignments, found, function, evaluated⟩

end Manifest
