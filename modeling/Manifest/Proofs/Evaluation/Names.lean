import Manifest.Proofs.Evaluation.Meaning
import Manifest.Proofs.Evaluation.Memory

/-!
# Names of a section

All names of a section are entered before any of them is evaluated, so it is
the last assignment to a name that decides what the name stands for, wherever
it is used.
-/

namespace Manifest

namespace Section

variable {expressions front rest : List Expr} {name : String} {operand : Expr}

/-- The operand of the last assignment to a name. -/
def lastOperand? : List Expr → String → Option Expr
  | [], _ => none
  | .assignment key operand :: rest, name =>
      (lastOperand? rest name).or (if key = name then some operand else none)
  | _ :: rest, name => lastOperand? rest name

/-- A name is assigned among some expressions. -/
def assigns (expressions : List Expr) (name : String) : Bool :=
  (lastOperand? expressions name).isSome

/-- The names that are assigned among some expressions. -/
def assigned : List Expr → List String
  | [] => []
  | .assignment key _ :: rest => key :: assigned rest
  | _ :: rest => assigned rest

theorem mem_assigned : name ∈ assigned expressions ↔ assigns expressions name = true := by
  rw [assigns]
  induction expressions with
  | nil =>
    constructor
    · intro none
      cases none
    · intro none
      cases none
  | cons expression rest ih =>
    cases expression with
    | assignment key operand =>
      rw [assigned, lastOperand?, List.mem_cons, ih, Option.isSome_or, Bool.or_eq_true, or_comm]
      refine or_congr_right ?_
      by_cases same : key = name
      · rw [if_pos same]
        exact ⟨fun _ => rfl, fun _ => same.symm⟩
      · rw [if_neg same]
        constructor
        · intro equal
          exact absurd equal.symm same
        · intro none
          cases none
    | _ => exact ih

theorem lastOperand?_append : lastOperand? (front ++ rest) name =
    (lastOperand? rest name).or (lastOperand? front name) := by
  induction front with
  | nil => exact Option.or_none.symm
  | cons expression front ih =>
    cases expression with
    | assignment key operand =>
      rw [List.cons_append, lastOperand?, lastOperand?, ih, Option.or_assoc]
    | _ => exact ih

theorem lastOperand?_eq_none (absent : assigns expressions name = false) :
    lastOperand? expressions name = none :=
  Option.isNone_iff_eq_none.mp (Option.isSome_eq_false_iff.mp absent)

theorem assigns_of_mem (member : .assignment name operand ∈ expressions) :
    assigns expressions name = true := by
  rcases List.append_of_mem member with ⟨front, rest, rfl⟩
  rw [assigns, lastOperand?_append, lastOperand?, if_pos rfl, Option.isSome_or, Option.isSome_or,
    Option.isSome_some, Bool.or_true, Bool.true_or]

/-- The place of the last assignment to a name. -/
theorem lastOperand?_split (found : lastOperand? expressions name = some operand) :
    ∃ front rest, expressions = front ++ .assignment name operand :: rest ∧
      assigns rest name = false := by
  induction expressions with
  | nil => cases found
  | cons expression rest ih =>
    have further : lastOperand? rest name = some operand →
        ∃ front behind, expression :: rest = front ++ .assignment name operand :: behind ∧
          assigns behind name = false := by
      intro found
      rcases ih found with ⟨front, behind, rfl, absent⟩
      exact ⟨expression :: front, behind, rfl, absent⟩
    cases expression with
    | assignment key held =>
      rw [lastOperand?] at found
      cases behind : lastOperand? rest name with
      | some other =>
        rw [behind] at found
        cases found
        exact further behind
      | none =>
        rw [behind, Option.none_or] at found
        split at found
        · rename_i same
          cases found
          subst same
          refine ⟨[], rest, rfl, ?_⟩
          rw [assigns, behind]
          rfl
        · cases found
    | _ => exact further found

theorem mem_of_lastOperand? (found : lastOperand? expressions name = some operand) :
    .assignment name operand ∈ expressions := by
  rcases lastOperand?_split found with ⟨front, rest, rfl, _⟩
  exact List.mem_append_right _ List.mem_cons_self

end Section

/-! ## Slots -/

/-- What a name stands for before it is evaluated. -/
def Slot.ofOperand : Expr → Slot
  | .function lambda => .function lambda
  | operand => .pending operand

namespace Evaluator

theorem slots_cons (frame : Frame) (key : String) (operand : Expr) (rest : List Expr) :
    slots frame (.assignment key operand :: rest) =
      slots (frame.set key (.ofOperand operand)) rest := by
  cases operand with
  | function lambda => rw [slots, Slot.ofOperand]
  | _ =>
    rw [slots]
    · rfl
    · rintro _ ⟨⟩

/-- The frame around a section does not matter to its names. -/
theorem slots_eq (names : List (String × Slot)) (parent : Option Nat) (expressions : List Expr) :
    slots ⟨names, parent⟩ expressions = ⟨(slots ⟨names, none⟩ expressions).slots, parent⟩ := by
  induction expressions generalizing names with
  | nil => rfl
  | cons expression rest ih =>
    cases expression with
    | assignment key operand =>
      rw [slots_cons, slots_cons]
      exact ih _
    | _ => exact ih names

theorem get?_slots_names (frame : Frame) (expressions : List Expr) (name : String) :
    (slots frame expressions).get? name =
      ((Section.lastOperand? expressions name).map Slot.ofOperand).or (frame.get? name) := by
  induction expressions generalizing frame with
  | nil => rfl
  | cons expression rest ih =>
    cases expression with
    | assignment key operand =>
      rw [slots_cons, ih, Section.lastOperand?]
      cases Section.lastOperand? rest name with
      | some later => rfl
      | none =>
        by_cases same : key = name
        · rw [if_pos same, same, Frame.get?_set_self]
          rfl
        · rw [if_neg same, Frame.get?_set_of_ne _ (Ne.symm same)]
          rfl
    | _ => exact ih frame

end Evaluator

/-- A name of a section stands for the operand of its last assignment. -/
theorem Layer.get?_ofSection (expressions : List Expr) (name : String) :
    (Layer.ofSection expressions).get? name =
      (Section.lastOperand? expressions name).map Slot.ofOperand := by
  have names := Evaluator.get?_slots_names ⟨[], none⟩ expressions name
  rw [show Frame.get? ⟨[], none⟩ name = none from rfl, Option.or_none] at names
  exact names

namespace Layer

/-- No name of a section is under way when it is entered. -/
theorem get?_ofSection_ne (expressions : List Expr) (name : String) :
    (ofSection expressions).get? name ≠ some .resolving := by
  rw [get?_ofSection]
  cases Section.lastOperand? expressions name with
  | none => rintro ⟨⟩
  | some operand => cases operand <;> rintro ⟨⟩

theorem get?_ofArgument (parameter : String) (argument : Value) (name : String) :
    (ofArgument parameter argument).get? name =
      if parameter = name then some (.ready argument) else none := by
  rw [get?, ofArgument, List.find?_singleton]
  by_cases same : parameter = name
  · rw [if_pos same, if_pos (beq_iff_eq.mpr same)]
    rfl
  · rw [if_neg same, if_neg (mt beq_iff_eq.mp same)]
    rfl

theorem get?_ofArgument_ne (parameter : String) (argument : Value) (name : String) :
    (ofArgument parameter argument).get? name ≠ some .resolving := by
  rw [get?_ofArgument]
  split <;> rintro ⟨⟩

end Layer

namespace Meaning

variable (scene : Scene) {part : Section Expr} {name : String} {operand : Expr}

/-- Inside a section a name stands for the operand of its last assignment there. -/
theorem find?_inside (last : Section.lastOperand? part.expressions name = some operand) :
    Scene.find? (inside scene part) name = some (inside scene part, .ofOperand operand) := by
  rw [inside, Scene.find?, Layer.get?_ofSection, last]
  rfl

theorem find?_inside_of_last (last : Section.lastOperand? part.expressions name = some operand)
    (plain : operand.isFunction = false) :
    Scene.find? (inside scene part) name = some (inside scene part, .pending operand) := by
  rw [find?_inside scene last]
  cases operand with
  | function lambda => cases plain
  | _ => rfl

/-- A name that is not assigned there stands for what it stands for outside. -/
theorem find?_inside_of_none (absent : Section.lastOperand? part.expressions name = none) :
    Scene.find? (inside scene part) name = scene.find? name := by
  rw [inside, Scene.find?, Layer.get?_ofSection, absent]
  rfl

end Meaning
end Manifest
